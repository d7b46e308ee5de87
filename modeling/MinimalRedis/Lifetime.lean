import MinimalRedis.Effects
import MinimalRedis.ExpiredWrites
import MinimalRedis.Lib.Simulation
import MinimalRedis.Outcomes

/-!
# Lifetimes

`EXPIRE` and `PEXPIRE` store one integer, the deadline in milliseconds, and **zero stands for no
deadline**.  The arithmetic is that of `int64_t`, without a range check.

* `expiry_exact_iff` — which durations are stored without overflow;
* `lifetimeLaw_iff` — the key lives until the deadline and not longer, unless the deadline is zero: then
  it lives for ever;
* `forceInv_run` — over every run of `Database` calls, an entry has a timestamp exactly when some
  `EXPIRE` or `PEXPIRE` is in force.
-/

namespace MinimalRedis

open Lib

variable {S : Type} [Score S]

/-! ### Overflow -/

/-- A value of `int64_t`. -/
def Fits64 (z : ℤ) : Prop := -2 ^ 63 ≤ z ∧ z < 2 ^ 63

instance (z : ℤ) : Decidable (Fits64 z) := inferInstanceAs (Decidable (_ ∧ _))

theorem wrap64_of_fits {z : ℤ} (h : Fits64 z) : wrap64 z = z :=
  Int.bmod_eq_of_le (by have := h.1; omega) (by have := h.2; omega)

theorem fits64_of_stoll {text : Bytes} {n : ℤ} (h : stoll text = some n) : Fits64 n := by
  obtain ⟨x, -, hx⟩ := Option.bind_eq_some_iff.mp h
  rw [Option.ite_none_right_eq_some] at hx
  obtain ⟨hrange, hn⟩ := hx
  rwa [Option.some.inj hn] at hrange

theorem find?_incrementModCount {d : Data S} {key : Bytes} {v : RedisValue S}
    (h : d.find? key = some v) : (Database.incrementModCount key d).find? key = some v.bump := by
  rw [Database.incrementModCount, h]
  exact UMap.find?_set_self _ _ _

section Handlers

variable {now : ℤ} {key text : Bytes} {n : ℤ} {d : Data S} {v : RedisValue S} (name : RespValue)
  (htext : stoll text = some n) (hv : d.find? key = some v) (hlive : v.isExpired now = false)

include htext hv hlive

/-- What `PEXPIRE` leaves of a live entry. -/
theorem handlePexpire_live :
    (handlePexpire now [name, .bulkString key, .bulkString text] d).1 = boolReply true ∧
      (handlePexpire now [name, .bulkString key, .bulkString text] d).2.find? key =
        some (v.setExpiryMilliseconds now n).bump := by
  have hset := UMap.find?_set_self d key (v.setExpiryMilliseconds now n)
  simp only [handlePexpire, withDuration, withTwo, RespValue.bulk?, htext, Database.pexpire,
    Database.ifLive, hv, hlive, Bool.false_eq_true, if_false, if_true]
  exact ⟨trivial, find?_incrementModCount hset⟩

theorem handleExpire_live :
    (handleExpire now [name, .bulkString key, .bulkString text] d).1 = boolReply true ∧
      (handleExpire now [name, .bulkString key, .bulkString text] d).2.find? key =
        some (v.setExpirySeconds now n).bump := by
  have hset := UMap.find?_set_self d key (v.setExpirySeconds now n)
  simp only [handleExpire, withDuration, withTwo, RespValue.bulk?, htext, Database.expire,
    Database.ifLive, hv, hlive, Bool.false_eq_true, if_false, if_true]
  exact ⟨trivial, find?_incrementModCount hset⟩

end Handlers

/-- A `PEXPIRE` that replied `:1` found a live entry. -/
theorem live_of_handlePexpire {now n : ℤ} {name : RespValue} {key text : Bytes} {d : Data S}
    (htext : stoll text = some n)
    (h : (handlePexpire now [name, .bulkString key, .bulkString text] d).1 = boolReply true) :
    ∃ v, d.find? key = some v ∧ v.isExpired now = false := by
  simp only [handlePexpire, withDuration, withTwo, RespValue.bulk?, htext, Database.pexpire,
    Database.ifLive] at h
  cases hv : d.find? key with
  | none =>
    rw [hv] at h
    cases boolReply_inj.mp h
  | some v =>
    refine ⟨v, rfl, ?_⟩
    cases hexp : v.isExpired now with
    | false => rfl
    | true =>
      simp only [hv, hexp, if_true] at h
      cases boolReply_inj.mp h

/-- The entry under `key` has the timestamp `now + delay`, and neither the delay in milliseconds nor
the sum left the range of `int64_t`. -/
structure StoredExactly (now delay : ℤ) (key : Bytes) (d : Data S) : Prop where
  stored : ∃ v, d.find? key = some v ∧ v.expiryTime = now + delay
  delay_fits : Fits64 delay
  sum_fits : Fits64 (now + delay)

theorem storedExactly_iff {now delay : ℤ} {key : Bytes} {d : Data S} {v : RedisValue S}
    (hv : d.find? key = some v) (hstamp : v.expiryTime = wrap64 (now + wrap64 delay)) :
    StoredExactly now delay key d ↔ Fits64 delay ∧ Fits64 (now + delay) := by
  constructor
  · intro h
    exact ⟨h.delay_fits, h.sum_fits⟩
  · intro ⟨hdelay, hsum⟩
    rw [wrap64_of_fits hdelay, wrap64_of_fits hsum] at hstamp
    exact ⟨⟨v, hv, hstamp⟩, hdelay, hsum⟩

/-- On a live key the timestamp is exact **exactly when** nothing overflows: for `EXPIRE` the product
from below and the sum from above, for `PEXPIRE` the sum. -/
theorem expiry_exact_iff (now : ℤ) (name : RespValue) (key text : Bytes) (n : ℤ) (d : Data S)
    (v : RedisValue S) (hpos : 0 < now) (hnow : now < 2 ^ 62) (htext : stoll text = some n)
    (hv : d.find? key = some v) (hlive : v.isExpired now = false) :
    (StoredExactly now (n * 1000) key
        (handleExpire now [name, .bulkString key, .bulkString text] d).2 ↔
      -2 ^ 63 ≤ n * 1000 ∧ now + n * 1000 < 2 ^ 63) ∧
    (StoredExactly now n key
        (handlePexpire now [name, .bulkString key, .bulkString text] d).2 ↔ now + n < 2 ^ 63) := by
  have hn := fits64_of_stoll htext
  constructor
  · rw [storedExactly_iff (handleExpire_live name htext hv hlive).2 rfl, Fits64, Fits64]
    omega
  · have hstamp : (v.setExpiryMilliseconds now n).bump.expiryTime = wrap64 (now + wrap64 n) := by
      rw [wrap64_of_fits hn]
      rfl
    rw [storedExactly_iff (handlePexpire_live name htext hv hlive).2 hstamp, Fits64, Fits64]
    obtain ⟨hlow, hhigh⟩ := hn
    omega

/-- The string `v` at `k`, without expiry. -/
def plainString : Data NatScore := UMap.set ∅ [107] { strVal := [118] }

/-- `EXPIRE k 10` at time 5. -/
theorem expiry_exact_ten_seconds :
    StoredExactly 5 (10 * 1000) [107]
      (handleExpire 5 [.bulkString (str "EXPIRE"), .bulkString [107], .bulkString (str "10")]
        plainString).2 :=
  (expiry_exact_iff 5 _ [107] (str "10") 10 plainString _ (by decide) (by decide) (by decide) rfl
    (by decide)).1.mpr (by decide)

/-- `EXPIRE k 9223372036854775807` at time 5: the product wraps to -1000, and the key is gone at once. -/
theorem expiry_overflows :
    stoll (str "9223372036854775807") = some (2 ^ 63 - 1) ∧
    (((handleExpire 5 [.bulkString (str "EXPIRE"), .bulkString [107],
        .bulkString (str "9223372036854775807")] plainString).2.find? [107]).map
          RedisValue.expiryTime = some (-995)) ∧
    ¬ StoredExactly 5 ((2 ^ 63 - 1) * 1000) [107]
      (handleExpire 5 [.bulkString (str "EXPIRE"), .bulkString [107],
        .bulkString (str "9223372036854775807")] plainString).2 := by
  refine ⟨by decide, by decide, fun h => ?_⟩
  exact absurd h.delay_fits (by decide)

/-! ### From the deadline on -/

section Reads

variable {now : ℤ} {key : Bytes} {d : Data S} {v : RedisValue S} (name : RespValue)
  (hv : d.find? key = some v)

include hv

theorem replies_live (hlive : v.isExpired now = false) :
    (handleExists now [name, .bulkString key] d).1 = boolReply true ∧
      (handlePttl now [name, .bulkString key] d).1 = intReply (v.ttlMilliseconds now) ∧
      (handleTtl now [name, .bulkString key] d).1 = intReply (v.ttlSeconds now) := by
  simp only [handleExists, handlePttl, handleTtl, withKey, RespValue.bulk?, Database.keyExists,
    Database.pttl, Database.ttl, Database.ifLive, hv, hlive, Bool.false_eq_true, if_false, and_self]

theorem replies_expired (hexp : v.isExpired now = true) :
    (handleExists now [name, .bulkString key] d).1 = boolReply false ∧
      (handlePttl now [name, .bulkString key] d).1 = intReply (-2) ∧
      (handleTtl now [name, .bulkString key] d).1 = intReply (-2) := by
  simp only [handleExists, handlePttl, handleTtl, withKey, RespValue.bulk?, Database.keyExists,
    Database.pttl, Database.ttl, Database.ifLive, hv, hexp, if_true, and_self]

end Reads

/-- What the clients see of the key at every time from `t` on, whatever else the store holds: it is
there with the time that is left until the deadline, and not any more from the deadline on. -/
structure LifetimeLaw (t deadline : ℤ) (key : Bytes) (d : Data S) : Prop where
  alive : ∀ t' name, t ≤ t' → t' < deadline →
    (handleExists t' [name, .bulkString key] d).1 = boolReply true ∧
      (handlePttl t' [name, .bulkString key] d).1 = intReply (deadline - t') ∧
      (handleTtl t' [name, .bulkString key] d).1 = intReply ((deadline - t') / 1000)
  gone : ∀ t' name, t ≤ t' → deadline ≤ t' →
    (handleExists t' [name, .bulkString key] d).1 = boolReply false ∧
      (handlePttl t' [name, .bulkString key] d).1 = intReply (-2) ∧
      (handleTtl t' [name, .bulkString key] d).1 = intReply (-2)

theorem ttlSeconds_eq {now : ℤ} {v : RedisValue S} (hlive : v.isExpired now = false) :
    v.ttlSeconds now = v.ttlMilliseconds now / 1000 := by
  rw [RedisValue.ttlSeconds, RedisValue.ttlMilliseconds]
  by_cases hzero : v.expiryTime = 0
  · rw [if_pos hzero, if_pos hzero]
    rfl
  · have hlt : ¬ now ≥ v.expiryTime := by
      simpa [RedisValue.isExpired, hzero] using hlive
    rw [if_neg hzero, if_neg hlt, if_neg hzero, if_neg hlt]
    exact Int.tdiv_eq_ediv_of_nonneg (by omega)

theorem lifetimeLaw_of_deadline {t : ℤ} {key : Bytes} {d : Data S} {v : RedisValue S}
    (hv : d.find? key = some v) (hzero : v.expiryTime ≠ 0) : LifetimeLaw t v.expiryTime key d where
  alive t' name _ hlt := by
    have hlive : v.isExpired t' = false := by
      simp [RedisValue.isExpired, hzero, hlt]
    have hpttl : v.ttlMilliseconds t' = v.expiryTime - t' := by
      rw [RedisValue.ttlMilliseconds, if_neg hzero, if_neg (by omega)]
    have hreplies := replies_live name hv hlive
    rwa [ttlSeconds_eq hlive, hpttl] at hreplies
  gone t' name _ hle := by
    have hexp : v.isExpired t' = true := by
      simp [RedisValue.isExpired, hzero, hle]
    exact replies_expired name hv hexp

/-- With no deadline stored the key does not go away. -/
theorem not_lifetimeLaw_of_zero {t deadline : ℤ} {key : Bytes} {d : Data S} {v : RedisValue S}
    (hv : d.find? key = some v) (hzero : v.expiryTime = 0) : ¬ LifetimeLaw t deadline key d := by
  intro h
  have hgone := (h.gone (max t deadline) (.bulkString []) (le_max_left _ _) (le_max_right _ _)).1
  rw [(replies_live _ hv (RedisValue.isExpired_of_expiryTime_zero hzero _)).1] at hgone
  cases boolReply_inj.mp hgone

/-! ### Timestamps in force -/

namespace Call

/-- The call gives the entry at `k` a timestamp: an `expire` or `pexpire` that answered true, or the
assignment of the RDB reader. -/
def expires (d : Data S) (k : Bytes) : Call S → Bool
  | .expire now key seconds => decide (key = k) && (Database.expire now key seconds d).1
  | .pexpire now key milliseconds => decide (key = k) && (Database.pexpire now key milliseconds d).1
  | .setExpiryTime key _ => decide (key = k) && (d.find? key).isSome
  | _ => false

/-- The call undoes it: a `persist` that answered true. -/
def undoes (d : Data S) (k : Bytes) : Call S → Bool
  | .persist now key => decide (key = k) && (Database.persist now key d).1
  | _ => false

/-- The timestamp the call computes; zero for the calls that compute none. -/
def stamp : Call S → ℤ
  | .expire now _ seconds => wrap64 (now + wrap64 (seconds * 1000))
  | .pexpire now _ milliseconds => wrap64 (now + milliseconds)
  | .setExpiryTime _ expiry => expiry
  | _ => 0

/-- One call on a store and the keys with a timestamp in force: those that it is given to, and those
that keep it; a key that is gone has none. -/
def track (c : Call S) (x : Data S × (Bytes → Bool)) : Unit × Data S × (Bytes → Bool) :=
  ((), c.apply x.1, fun k =>
    ((c.apply x.1).find? k).isSome && (c.expires x.1 k || !c.undoes x.1 k && x.2 k))

/-- What the call does to the timestamp of an entry it leaves. -/
structure Stamps (c : Call S) (d : Data S) (k : Bytes) (v : RedisValue S) : Prop where
  given : c.expires d k = true → v.expiryTime = c.stamp
  undone : c.undoes d k = true → v.expiryTime = 0
  kept : c.expires d k = false → c.undoes d k = false →
    v.expiryTime = ((d.find? k).getD default).expiryTime

/-- The `ifLive` methods that assign the entry they found. -/
theorem ifLive_set_entry (write : RedisValue S → RedisValue S) {now : ℤ} {key k : Bytes} {d : Data S}
    {v : RedisValue S}
    (h : (Database.ifLive now false (fun w => (true, d.set key (write w))) key d).2.find? k = some v) :
    ((decide (key = k) &&
        (Database.ifLive now false (fun w => (true, d.set key (write w))) key d).1) = true ∧
      ∃ w, v = write w) ∨
    ((decide (key = k) &&
        (Database.ifLive now false (fun w => (true, d.set key (write w))) key d).1) = false ∧
      d.find? k = some v) := by
  rcases ifLive_cases now false (fun w => (true, d.set key (write w))) key d with
    ⟨hpurged, hfalse⟩ | ⟨w, -, hlive⟩
  · right
    rw [hfalse, Bool.and_false]
    refine ⟨rfl, ?_⟩
    rcases hpurged with hsame | ⟨-, herase⟩
    · rwa [hsame] at h
    · rw [herase, UMap.find?_erase] at h
      split at h
      · cases h
      · exact h
  · rw [hlive, UMap.find?_set] at h
    rw [hlive, Bool.and_true]
    split at h
    · rename_i hk
      exact .inl ⟨decide_eq_true hk.symm, w, (Option.some.inj h).symm⟩
    · rename_i hk
      exact .inr ⟨decide_eq_false (Ne.symm hk), h⟩

theorem Stamps.of_given {c : Call S} {d : Data S} {k : Bytes} {v : RedisValue S}
    (hgiven : c.expires d k = true) (hundoes : c.undoes d k = false) (h : v.expiryTime = c.stamp) :
    c.Stamps d k v := by
  refine ⟨fun _ => h, fun hundone => ?_, fun hfalse => ?_⟩
  · cases hundoes.symm.trans hundone
  · cases hgiven.symm.trans hfalse

theorem Stamps.of_kept {c : Call S} {d : Data S} {k : Bytes} {v : RedisValue S}
    (hexpires : c.expires d k = false) (hundoes : c.undoes d k = false)
    (h : v.expiryTime = ((d.find? k).getD default).expiryTime) : c.Stamps d k v := by
  refine ⟨fun hgiven => ?_, fun hundone => ?_, fun _ _ => h⟩
  · cases hexpires.symm.trans hgiven
  · cases hundoes.symm.trans hundone

/-- The timestamp is the same. -/
def SameExpiry (v v' : RedisValue S) : Prop := v'.expiryTime = v.expiryTime

/-- Every entry that a call leaves. -/
theorem stamps_apply (c : Call S) {d : Data S} {k : Bytes} {v : RedisValue S}
    (h : (c.apply d).find? k = some v) : c.Stamps d k v := by
  have hrefl : ∀ v : RedisValue S, SameExpiry v v := fun _ => rfl
  have hpure : EntryFrame SameExpiry d d := EntryFrame.refl hrefl d
  have hframe : c.expires d k = false → c.undoes d k = false →
      EntryFrame SameExpiry d (c.apply d) → c.Stamps d k v :=
    fun hexpires hundoes hframe => .of_kept hexpires hundoes (hframe k v h)
  cases c with
  | expire now key seconds =>
    rcases ifLive_set_entry (fun w => w.setExpirySeconds now seconds) h with
      ⟨hgiven, w, rfl⟩ | ⟨hkept, hv⟩
    · exact .of_given hgiven rfl rfl
    · exact .of_kept hkept rfl (by rw [hv]; rfl)
  | pexpire now key milliseconds =>
    rcases ifLive_set_entry (fun w => w.setExpiryMilliseconds now milliseconds) h with
      ⟨hgiven, w, rfl⟩ | ⟨hkept, hv⟩
    · exact .of_given hgiven rfl rfl
    · exact .of_kept hkept rfl (by rw [hv]; rfl)
  | persist now key =>
    rcases ifLive_set_entry RedisValue.persist h with ⟨hundone, w, rfl⟩ | ⟨hkept, hv⟩
    · refine ⟨fun hgiven => ?_, fun _ => rfl, fun _ hfalse => ?_⟩
      · cases hgiven
      · cases hundone.symm.trans hfalse
    · exact .of_kept rfl hkept (by rw [hv]; rfl)
  | setExpiryTime key expiry =>
    have happly : (Database.setExpiryTime key expiry d).find? k = some v := h
    rw [Database.setExpiryTime] at happly
    cases hkey : d.find? key with
    | none =>
      rw [hkey] at happly
      exact .of_kept (by rw [expires, hkey]; exact Bool.and_false _) rfl (by rw [happly]; rfl)
    | some w =>
      rw [hkey] at happly
      simp only [UMap.find?_set] at happly
      split at happly
      · rename_i hk
        obtain rfl := Option.some.inj happly
        exact .of_given (by rw [expires, hkey, hk]; simp) rfl rfl
      · rename_i hk
        exact .of_kept (by rw [expires, decide_eq_false (Ne.symm hk)]; rfl) rfl (by rw [happly]; rfl)
  | set key value | lpush key values | rpush key values | sadd key members | hset key field value =>
    exact hframe rfl rfl (EntryFrame.set hrefl rfl)
  | zadd key members =>
    exact hframe rfl rfl (EntryFrame.set hrefl (expiryTime_foldl_zaddOne members _))
  | lpop key | rpop key | srem key members | hdel key fields =>
    refine hframe rfl rfl (EntryFrame.updateTyped hrefl ?_ key d)
    exact fun _ => rfl
  | zrem key members =>
    exact hframe rfl rfl (EntryFrame.updateTyped hrefl
      (fun v => (foldl_zremOne_spec members (false, v)).2) key d)
  | get now key | llen now key =>
    exact hframe rfl rfl (EntryFrame.ifTypedLive hrefl now _ _ _ key d)
  | keyExists now key | type now key | ttl now key | pttl now key =>
    exact hframe rfl rfl (EntryFrame.ifLive hrefl fun _ _ => hpure)
  | del key => exact hframe rfl rfl (EntryFrame.erase hrefl key d)
  | incrementModCount key =>
    refine hframe rfl rfl ?_
    show EntryFrame SameExpiry d (Database.incrementModCount key d)
    rw [Database.incrementModCount]
    cases hv : d.find? key with
    | none => exact EntryFrame.set hrefl (by rw [hv]; rfl)
    | some w => exact EntryFrame.set hrefl (by rw [hv]; rfl)
  | query => exact hframe rfl rfl hpure

end Call

/-- An entry has a timestamp exactly when one is in force for its key, and an absent key has none. -/
def ForceInv (x : Data S × (Bytes → Bool)) : Prop :=
  ∀ k, (x.1.find? k = none → x.2 k = false) ∧
    ∀ v, x.1.find? k = some v → (x.2 k = true ↔ v.expiryTime ≠ 0)

theorem forceInv_empty : ForceInv ((∅ : Data S), fun _ => false) := by
  intro k
  refine ⟨fun _ => rfl, fun v hv => ?_⟩
  cases hv

/-- The call gives no entry the timestamp zero. -/
def StampsNonzero (c : Call S) (x : Data S × (Bytes → Bool)) : Prop :=
  ∀ k, c.expires x.1 k = true → c.stamp ≠ 0

theorem forceInv_track (c : Call S) (x : Data S × (Bytes → Bool)) (h : ForceInv x)
    (hstamp : StampsNonzero c x) : ForceInv (c.track x).2 := by
  obtain ⟨d, inForce⟩ := x
  intro k
  refine ⟨fun hnone => ?_, fun v hv => ?_⟩
  · show (((c.apply d).find? k).isSome && _) = false
    rw [show (c.apply d).find? k = none from hnone]
    rfl
  · have hstamps := c.stamps_apply hv
    show (((c.apply d).find? k).isSome && (c.expires d k || !c.undoes d k && inForce k)) = true ↔ _
    rw [show (c.apply d).find? k = some v from hv, Option.isSome_some, Bool.true_and]
    cases hexpires : c.expires d k with
    | true =>
      rw [hstamps.given hexpires]
      exact iff_of_true rfl (hstamp k hexpires)
    | false =>
      cases hundoes : c.undoes d k with
      | true =>
        rw [hstamps.undone hundoes]
        exact iff_of_false (by simp) (by simp)
      | false =>
        rw [hstamps.kept hexpires hundoes]
        simp only [Bool.not_false, Bool.true_and, Bool.false_or]
        cases hkey : d.find? k with
        | none =>
          have hfalse : inForce k = false := (h k).1 hkey
          rw [hfalse]
          exact iff_of_false (by simp) fun hne => hne rfl
        | some w => exact (h k).2 w hkey

/-- A run of calls from the empty store, with the timestamps in force. -/
def trackRun (calls : List (Call S)) : Data S × (Bytes → Bool) :=
  (runOps Call.track calls (∅, fun _ => false)).2

/-- `TTL` answers -1 exactly for the live keys on which no timestamp is in force. -/
def TtlLaw (x : Data S × (Bytes → Bool)) : Prop :=
  ∀ now name k, (handleTtl now [name, .bulkString k] x.1).1 = intReply (-1) ↔
    ∃ v, x.1.find? k = some v ∧ v.isExpired now = false ∧ x.2 k = false

theorem handleTtl_eq_neg_one_iff {now : ℤ} {name : RespValue} {k : Bytes} {d : Data S} :
    (handleTtl now [name, .bulkString k] d).1 = intReply (-1) ↔
      ∃ v, d.find? k = some v ∧ v.expiryTime = 0 := by
  cases hv : d.find? k with
  | none =>
    have hreply : (handleTtl now [name, .bulkString k] d).1 = intReply (-2) := by
      simp only [handleTtl, withKey, RespValue.bulk?, Database.ttl, Database.ifLive, hv]
    rw [hreply]
    exact iff_of_false (by decide) (by simp)
  | some v =>
    by_cases hzero : v.expiryTime = 0
    · have hlive := RedisValue.isExpired_of_expiryTime_zero hzero now
      rw [(replies_live name hv hlive).2.2, RedisValue.ttlSeconds, if_pos hzero]
      exact iff_of_true rfl ⟨v, rfl, hzero⟩
    · have hright : ¬ ∃ w, some v = some w ∧ w.expiryTime = 0 := by
        rintro ⟨w, hw, hw0⟩
        cases hw
        exact hzero hw0
      refine iff_of_false ?_ hright
      cases hexp : v.isExpired now with
      | true =>
        rw [(replies_expired name hv hexp).2.2]
        decide
      | false =>
        have hlt : ¬ now ≥ v.expiryTime := by
          simpa [RedisValue.isExpired, hzero] using hexp
        rw [(replies_live name hv hexp).2.2, RedisValue.ttlSeconds, if_neg hzero, if_neg hlt]
        have hpos : 0 ≤ (v.expiryTime - now).tdiv 1000 := Int.tdiv_nonneg (by omega) (by decide)
        rw [intReply_inj]
        omega

theorem ttlLaw_of_forceInv {x : Data S × (Bytes → Bool)} (h : ForceInv x) : TtlLaw x := by
  intro now name k
  rw [handleTtl_eq_neg_one_iff]
  constructor
  · rintro ⟨v, hv, hzero⟩
    refine ⟨v, hv, RedisValue.isExpired_of_expiryTime_zero hzero now, ?_⟩
    rw [Bool.eq_false_iff, ne_eq, (h k).2 v hv]
    exact fun hne => hne hzero
  · rintro ⟨v, hv, -, hfalse⟩
    refine ⟨v, hv, ?_⟩
    by_contra hne
    rw [((h k).2 v hv).mpr hne] at hfalse
    cases hfalse

namespace Call

/-- A call that gives a timestamp finds an entry and leaves it. -/
theorem exists_of_expires {c : Call S} {d : Data S} {k : Bytes} (h : c.expires d k = true) :
    ∃ v, (c.apply d).find? k = some v := by
  have hlive : ∀ (write : RedisValue S → RedisValue S) {now : ℤ} {key : Bytes},
      (decide (key = k) &&
        (Database.ifLive now false (fun w => (true, d.set key (write w))) key d).1) = true →
      ∃ v, (Database.ifLive now false (fun w => (true, d.set key (write w))) key d).2.find? k =
        some v := by
    intro write now key hand
    obtain ⟨hkey, htrue⟩ := Bool.and_eq_true_iff.mp hand
    rcases ifLive_cases now false (fun w => (true, d.set key (write w))) key d with
      ⟨-, hfalse⟩ | ⟨w, -, hw⟩
    · cases hfalse.symm.trans htrue
    · rw [hw, of_decide_eq_true hkey]
      exact ⟨write w, UMap.find?_set_self _ _ _⟩
  cases c with
  | expire now key seconds => exact hlive (fun w => w.setExpirySeconds now seconds) h
  | pexpire now key milliseconds =>
    exact hlive (fun w => w.setExpiryMilliseconds now milliseconds) h
  | setExpiryTime key expiry =>
    obtain ⟨hkey, hsome⟩ := Bool.and_eq_true_iff.mp h
    obtain ⟨w, hw⟩ := Option.isSome_iff_exists.mp hsome
    refine ⟨{ w with expiryTime := expiry }, ?_⟩
    show (Database.setExpiryTime key expiry d).find? k = _
    rw [Database.setExpiryTime, hw, of_decide_eq_true hkey]
    exact UMap.find?_set_self _ _ _
  | _ => cases h

end Call

/-- A call that gives an entry the timestamp zero breaks the law. -/
theorem not_ttlLaw_of_zero {c : Call S} {x : Data S × (Bytes → Bool)} {k : Bytes}
    (hexpires : c.expires x.1 k = true) (hzero : c.stamp = 0) : ¬ TtlLaw (c.track x).2 := by
  intro h
  obtain ⟨v, hv⟩ := Call.exists_of_expires hexpires
  have hexpiry := ((c.stamps_apply hv).given hexpires).trans hzero
  obtain ⟨-, -, -, hfalse⟩ := (h 0 (.bulkString []) k).mp (handleTtl_eq_neg_one_iff.mpr ⟨v, hv, hexpiry⟩)
  have htrue : (c.track x).2.2 k = true := by
    show (((c.apply x.1).find? k).isSome && (c.expires x.1 k || _)) = true
    rw [hv, hexpires]
    rfl
  cases hfalse.symm.trans htrue

/-- Over every run: the law in all its states, **exactly when** no call gives an entry the timestamp
zero. -/
theorem ttlLaw_run_iff (calls : List (Call S)) :
    (∀ before after, calls = before ++ after → TtlLaw (trackRun before)) ↔
      AlongOps StampsNonzero Call.track calls (∅, fun _ => false) := by
  constructor
  · intro h
    rw [alongOps_iff]
    intro before c after hcalls k hexpires hzero
    have hlaw := h (before ++ [c]) after (by rw [hcalls, List.append_assoc]; rfl)
    rw [trackRun, runOps_append] at hlaw
    exact not_ttlLaw_of_zero hexpires hzero hlaw
  · rintro h before after rfl
    exact ttlLaw_of_forceInv (runOps_inv forceInv_track forceInv_empty h.before)

/-- **The lifetime of a key.**  After a `PEXPIRE` that replied `:1`, and while nothing else is done to the
key, it is there until the deadline and gone from then on, exactly when the deadline is not zero; `TTL`
is the floor of `PTTL` in seconds; and in every run `TTL` answers -1 exactly for live keys without a
timestamp in force, as long as no call computes the timestamp zero. -/
theorem lifetime_law_iff (t m : ℤ) (name : RespValue) (key text : Bytes) (d : Data S)
    (htext : stoll text = some m) (hfits : Fits64 (t + m))
    (hreply : (handlePexpire t [name, .bulkString key, .bulkString text] d).1 = boolReply true) :
    (∀ d' : Data S,
      d'.find? key = (handlePexpire t [name, .bulkString key, .bulkString text] d).2.find? key →
        (LifetimeLaw t (t + m) key d' ↔ t + m ≠ 0)) ∧
    (∀ (d' : Data S) (k : Bytes) (v : RedisValue S) (now : ℤ), d'.find? k = some v →
      v.isExpired now = false →
        (Database.ttl now k d').1 = (Database.pttl now k d').1 / 1000) ∧
    ∀ calls : List (Call S),
      (∀ before after, calls = before ++ after → TtlLaw (trackRun before)) ↔
        AlongOps StampsNonzero Call.track calls (∅, fun _ => false) := by
  refine ⟨fun d' hd' => ?_, fun d' k v now hv hlive => ?_, ttlLaw_run_iff⟩
  · obtain ⟨v, hv, hlive⟩ := live_of_handlePexpire htext hreply
    rw [(handlePexpire_live name htext hv hlive).2] at hd'
    have hstamp : (v.setExpiryMilliseconds t m).bump.expiryTime = t + m := wrap64_of_fits hfits
    by_cases hzero : t + m = 0
    · exact iff_of_false (not_lifetimeLaw_of_zero hd' (hstamp.trans hzero)) fun h => h hzero
    · refine iff_of_true ?_ hzero
      rw [← hstamp] at hzero ⊢
      exact lifetimeLaw_of_deadline hd' hzero
  · simp only [Database.ttl, Database.pttl, Database.ifLive, hv, hlive, Bool.false_eq_true, if_false]
    exact ttlSeconds_eq hlive

/-- `PEXPIRE k 10` at time 5: the key lives until time 15. -/
theorem lifetime_law_ten :
    LifetimeLaw 5 15 [107] (handlePexpire 5 [.bulkString (str "PEXPIRE"), .bulkString [107],
      .bulkString (str "10")] plainString).2 :=
  ((lifetime_law_iff 5 10 (.bulkString (str "PEXPIRE")) [107] (str "10") plainString (by decide)
    (by decide) (by decide)).1 _ rfl).mpr (by decide)

/-- `PEXPIRE k -5` at time 5 replies `:1` and makes the key live for ever. -/
theorem deadline_zero_lives :
    let args := [.bulkString (str "PEXPIRE"), .bulkString [107], .bulkString (str "-5")]
    (handlePexpire 5 args plainString).1 = str ":1\r\n" ∧
    (handleExists 100 [.bulkString (str "EXISTS"), .bulkString [107]]
      (handlePexpire 5 args plainString).2).1 = str ":1\r\n" ∧
    (handleTtl 100 [.bulkString (str "TTL"), .bulkString [107]]
      (handlePexpire 5 args plainString).2).1 = str ":-1\r\n" ∧
    ¬ LifetimeLaw 5 (5 + -5) [107] (handlePexpire 5 args plainString).2 := by
  refine ⟨by decide, by decide, by decide, ?_⟩
  exact not_lifetimeLaw_of_zero (v := { strVal := [118], modCount := 1 }) (by decide) rfl

end MinimalRedis
