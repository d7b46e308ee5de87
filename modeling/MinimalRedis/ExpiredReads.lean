import MinimalRedis.Expiry
import MinimalRedis.Processor
import MinimalRedis.Replies
import MinimalRedis.SetAlgebra

/-!
# What reads show of expired entries

An eager server would answer a read from the purged store.  The methods that test `is_expired`
(`exists`, `type`, `get`, `llen`, `ttl`, `pttl`) do; every other reader looks at the type only and
serves the stale payload.

* `readTyped_reply_iff` — a typed read agrees with the purged store unless the entry is stale and its
  payload shows;
* `expired_invisible_iff` — for every read command, arguments and store, **exactly when** the reply
  is that of the purged store.
-/

namespace MinimalRedis

open Lib Session

variable {S : Type} [Score S] {Λ α β : Type}

/-- The entry under `key` has the given type and has expired. -/
def Stale (now : ℤ) (type : RedisType) (key : Bytes) (d : Data S) (v : RedisValue S) : Prop :=
  d.find? key = some v ∧ v.isExpired now = true ∧ v.type = type

/-! ### Access patterns on the purged store -/

namespace Database

theorem ifLive_purge (now : ℤ) (absent : α) {live live' : RedisValue S → α × Data S}
    (hlive : ∀ v, (live v).1 = (live' v).1) (key : Bytes) (d : Data S) :
    (ifLive now absent live key d).1 = (ifLive now absent live' key (purge now d)).1 := by
  unfold ifLive
  cases hv : d.find? key with
  | none => rw [find?_purge_of_none hv]
  | some v =>
    cases hexp : v.isExpired now with
    | true => rw [find?_purge_of_expired hv hexp]; simp [hexp]
    | false => rw [find?_purge_of_live hv hexp]; simpa [hexp] using hlive v

theorem ifTypedLive_purge (now : ℤ) (type : RedisType) (absent : α) (live : RedisValue S → α)
    (key : Bytes) (d : Data S) :
    (ifTypedLive now type absent live key d).1 =
      (ifTypedLive now type absent live key (purge now d)).1 := by
  unfold ifTypedLive
  cases hv : d.find? key with
  | none => rw [find?_purge_of_none hv]
  | some v =>
    cases hexp : v.isExpired now with
    | true =>
      rw [find?_purge_of_expired hv hexp]
      by_cases htype : v.type = type <;> simp [htype, hexp]
    | false =>
      rw [find?_purge_of_live hv hexp]
      by_cases htype : v.type = type <;> simp [htype, hexp]

theorem keyExists_purge (now : ℤ) (key : Bytes) (d : Data S) :
    (keyExists now key d).1 = (keyExists now key (purge now d)).1 := by
  refine ifLive_purge now false ?_ key d
  exact fun _ => rfl

theorem type_purge (now : ℤ) (key : Bytes) (d : Data S) :
    (type now key d).1 = (type now key (purge now d)).1 := by
  refine ifLive_purge now RedisType.string ?_ key d
  exact fun _ => rfl

/-- A live key is found without touching the store. -/
theorem keyExists_snd {now : ℤ} {key : Bytes} {d : Data S} (h : (keyExists now key d).1 = true) :
    (keyExists now key d).2 = d := by
  unfold keyExists ifLive at h ⊢
  split
  · rfl
  · rename_i v hv
    rw [hv] at h
    split
    · rename_i hexp
      simp [hexp] at h
    · rfl

theorem type_snd {now : ℤ} {key : Bytes} {d : Data S} (h : (keyExists now key d).1 = true) :
    (type now key d).2 = d := by
  unfold keyExists ifLive at h
  unfold type ifLive
  split
  · rfl
  · rename_i v hv
    rw [hv] at h
    split
    · rename_i hexp
      simp [hexp] at h
    · rfl

theorem readTyped_of_stale {now : ℤ} {type : RedisType} {key : Bytes} {d : Data S}
    {v : RedisValue S} (h : Stale now type key d v) (absent : α) (read : RedisValue S → α) :
    readTyped type absent read key d = read v ∧
      readTyped type absent read key (purge now d) = absent := by
  obtain ⟨hv, hexp, htype⟩ := h
  refine ⟨readTyped_of_find? hv htype, readTyped_of_other fun w hw => ?_⟩
  rw [find?_purge_of_expired hv hexp] at hw
  cases hw

theorem readTyped_of_not_stale {now : ℤ} {type : RedisType} {key : Bytes} {d : Data S}
    (h : ¬ ∃ v, Stale now type key d v) (absent : α) (read : RedisValue S → α) :
    readTyped type absent read key d = readTyped type absent read key (purge now d) := by
  unfold readTyped
  cases hv : d.find? key with
  | none => rw [find?_purge_of_none hv]
  | some v =>
    cases hexp : v.isExpired now with
    | true =>
      have htype : v.type ≠ type := fun htype => h ⟨v, hv, hexp, htype⟩
      rw [find?_purge_of_expired hv hexp]
      simp [htype]
    | false => rw [find?_purge_of_live hv hexp]

/-- A typed read, seen through `f`, agrees with the purged store unless a stale payload shows. -/
theorem readTyped_reply_iff (now : ℤ) (type : RedisType) (absent : α) (read : RedisValue S → α)
    (f : α → β) (key : Bytes) (d : Data S) :
    f (readTyped type absent read key d) = f (readTyped type absent read key (purge now d)) ↔
      ¬ ∃ v, Stale now type key d v ∧ f (read v) ≠ f absent := by
  by_cases h : ∃ v, Stale now type key d v
  · obtain ⟨v, hv⟩ := h
    obtain ⟨hd, hp⟩ := readTyped_of_stale hv absent read
    rw [hd, hp]
    constructor
    · rintro heq ⟨w, hw, hne⟩
      obtain rfl : v = w := Option.some.inj (hv.1.symm.trans hw.1)
      exact hne heq
    · intro hno
      by_contra hne
      exact hno ⟨v, hv, hne⟩
  · refine iff_of_true (by rw [readTyped_of_not_stale h]) ?_
    rintro ⟨v, hv, -⟩
    exact h ⟨v, hv⟩

end Database

/-! ### Argument shapes -/

theorem withKey_reply_iff {arity notBulk : String} {run : Bytes → Data S → Bytes × Data S}
    {args : Args} {d d' : Data S} :
    (withKey arity notBulk run args d).1 = (withKey arity notBulk run args d').1 ↔
      ∀ name key, args = [name, .bulkString key] → (run key d).1 = (run key d').1 := by
  constructor
  · rintro h name key rfl
    exact h
  · intro h
    unfold withKey
    split
    · rename_i name k
      cases k with
      | bulkString key => exact h name key rfl
      | simpleString | error | integer | array => rfl
    · rfl

theorem withTwo_reply_iff {arity notBulk : String} {run : Bytes → Bytes → Data S → Bytes × Data S}
    {args : Args} {d d' : Data S} :
    (withTwo arity notBulk run args d).1 = (withTwo arity notBulk run args d').1 ↔
      ∀ name key arg, args = [name, .bulkString key, .bulkString arg] →
        (run key arg d).1 = (run key arg d').1 := by
  constructor
  · rintro h name key arg rfl
    exact h
  · intro h
    unfold withTwo
    split
    · rename_i name k a
      cases k with
      | bulkString key =>
        cases a with
        | bulkString arg => exact h name key arg rfl
        | simpleString | error | integer | array => rfl
      | simpleString | error | integer | array => rfl
    · rfl

theorem withKeys_reply_iff {arity notBulk : String} {read : List Bytes → Data S → Bytes}
    {args : Args} {d d' : Data S} :
    (withKeys arity notBulk read args d).1 = (withKeys arity notBulk read args d').1 ↔
      ∀ name key keys ks, args = name :: key :: keys → allBulk (key :: keys) = some ks →
        read ks d = read ks d' := by
  constructor
  · rintro h name key keys ks rfl hks
    simpa only [withKeys, hks] using h
  · intro h
    unfold withKeys
    split
    · rename_i name key keys
      cases hks : allBulk (key :: keys) with
      | none => rfl
      | some ks => exact h name key keys ks rfl hks
    · rfl

theorem withRange_reply_iff {accepts : ℕ → Bool} {arity notBulk notInt : String}
    {read : Bytes → ℤ → ℤ → Data S → Bytes} {args : Args} {d d' : Data S} :
    (withRange accepts arity notBulk notInt read args d).1 =
        (withRange accepts arity notBulk notInt read args d').1 ↔
      ∀ name key start stop more a b, args = name :: .bulkString key :: start :: stop :: more →
        accepts args.length = true → stoi start.strVal = some a → stoi stop.strVal = some b →
        read key a b d = read key a b d' := by
  constructor
  · rintro h name key start stop more a b rfl haccepts ha hb
    simpa only [withRange, haccepts, if_true, RespValue.bulk?, ha, hb] using h
  · intro h
    unfold withRange
    split
    · rename_i name k start stop more
      split
      · rename_i haccepts
        cases k with
        | bulkString key =>
          simp only [RespValue.bulk?]
          cases ha : stoi start.strVal with
          | none => rfl
          | some a =>
            cases hb : stoi stop.strVal with
            | none => rfl
            | some b => exact h name key start stop more a b rfl haccepts ha hb
        | simpleString | error | integer | array => rfl
      · rfl
    · rfl

/-! ### Set algebra over several keys -/

namespace Database

theorem setAt_of_stale {now : ℤ} {key : Bytes} {d : Data S} {v : RedisValue S}
    (h : Stale now .set key d v) :
    setAt key d = some v.setVal ∧ setAt key (purge now d) = none := readTyped_of_stale h _ _

theorem setAt_of_not_stale {now : ℤ} {key : Bytes} {d : Data S}
    (h : ¬ ∃ v, Stale now .set key d v) : setAt key d = setAt key (purge now d) :=
  readTyped_of_not_stale h _ _

theorem setHolds_of_purge {now : ℤ} {d : Data S} {key x : Bytes}
    (h : SetHolds (purge now d) key x) : SetHolds d key x := by
  by_cases hstale : ∃ v, Stale now .set key d v
  · obtain ⟨v, hv⟩ := hstale
    obtain ⟨s, hs, -⟩ := h
    simp [(setAt_of_stale hv).2] at hs
  · rwa [SetHolds, setAt_of_not_stale hstale]

end Database

/-! ### When a stale entry shows -/

/-- One key: the entry is stale and its payload shows. -/
def KeyStale (now : ℤ) (type : RedisType) (shows : RedisValue S → Prop) (args : Args) (d : Data S) :
    Prop :=
  ∃ name key v, args = [name, .bulkString key] ∧ Stale now type key d v ∧ shows v

/-- A key and an argument. -/
def TwoStale (now : ℤ) (type : RedisType) (shows : Bytes → RedisValue S → Prop) (args : Args)
    (d : Data S) : Prop :=
  ∃ name key arg v, args = [name, .bulkString key, .bulkString arg] ∧ Stale now type key d v ∧
    shows arg v

/-- A key and two bounds: the slice of the stale sequence is not empty. -/
def RangeStale (now : ℤ) (type : RedisType) (accepts : ℕ → Bool)
    (view : RedisValue S → List Bytes) (args : Args) (d : Data S) : Prop :=
  ∃ name key start stop more a b v, args = name :: .bulkString key :: start :: stop :: more ∧
    accepts args.length = true ∧ stoi start.strVal = some a ∧ stoi stop.strVal = some b ∧
    Stale now type key d v ∧ Database.slice (view v) a b ≠ []

/-- A stale set among the keys, and an element in the sets of all of them. -/
def InterStale (now : ℤ) (keys : List Bytes) (d : Data S) : Prop :=
  (∃ key ∈ keys, ∃ v, Stale now .set key d v) ∧ ∃ x, ∀ key ∈ keys, SetHolds d key x

/-- An element that only stale sets hold. -/
def UnionStale (now : ℤ) (keys : List Bytes) (d : Data S) : Prop :=
  ∃ x, (∃ key ∈ keys, SetHolds d key x) ∧ ∀ key ∈ keys, ¬ SetHolds (purge now d) key x

/-- A member of the first set on which its own staleness, or that of the sets taken away from it,
makes the difference. -/
def DiffStale (now : ℤ) (keys : List Bytes) (d : Data S) : Prop :=
  ∃ key others x, keys = key :: others ∧ SetHolds d key x ∧
    if SetHolds (purge now d) key x then
      (∃ k ∈ others, SetHolds d k x) ∧ ∀ k ∈ others, ¬ SetHolds (purge now d) k x
    else ∀ k ∈ others, ¬ SetHolds d k x

/-- Several keys. -/
def KeysStale (shows : List Bytes → Prop) (args : Args) : Prop :=
  ∃ name key keys ks, args = name :: key :: keys ∧ allBulk (key :: keys) = some ks ∧ shows ks

/-- The condition, command by command. -/
def StaleVisible (now : ℤ) (cmd : Command) (args : Args) (d : Data S) : Prop :=
  match cmd with
  | .keys => args.length = 1 ∧ ∃ key v, d.find? key = some v ∧ v.isExpired now = true
  | .lrange => RangeStale now .list (· == 4) (fun v => v.listVal) args d
  | .lindex => ∃ name key index i v, args = [name, .bulkString key, index] ∧
      stoi index.strVal = some i ∧ Stale now .list key d v ∧ Database.elementAt v.listVal i ≠ []
  | .sismember => TwoStale now .set (fun m v => v.setVal.contains m = true) args d
  | .scard => KeyStale now .set (fun v => v.setVal ≠ ∅) args d
  | .smembers => KeyStale now .set (fun v => v.setVal ≠ ∅) args d
  | .sinter => KeysStale (fun ks => InterStale now ks d) args
  | .sunion => KeysStale (fun ks => UnionStale now ks d) args
  | .sdiff => KeysStale (fun ks => DiffStale now ks d) args
  | .hget => TwoStale now .hash (fun f v => (v.hashVal.find? f).getD [] ≠ []) args d
  | .hlen => KeyStale now .hash (fun v => v.hashVal ≠ ∅) args d
  | .hkeys => KeyStale now .hash (fun v => v.hashVal ≠ ∅) args d
  | .hvals => KeyStale now .hash (fun v => v.hashVal ≠ ∅) args d
  | .hgetall => KeyStale now .hash (fun v => v.hashVal ≠ ∅) args d
  | .zcard => KeyStale now .zset (fun v => v.zsetMemberToScore ≠ ∅) args d
  | .zrange => RangeStale now .zset (fun _ => true)
      (fun v => v.zsetScoreToMember.entries.map Prod.snd) args d
  | .zrevrange => RangeStale now .zset (fun _ => true)
      (fun v => (v.zsetScoreToMember.entries.map Prod.snd).reverse) args d
  | .zscore => TwoStale now .zset (fun m v => (v.zsetMemberToScore.find? m).getD 0 ≠ 0) args d
  | .zrank => TwoStale now .zset (fun m v => v.zsetMemberToScore.contains m = true) args d
  | _ => False

/-- The read commands. -/
def Command.isRead : Command → Bool
  | .get | .existsKey | .keys | .type | .llen | .lrange | .lindex => true
  | .sismember | .scard | .smembers | .sinter | .sunion | .sdiff => true
  | .hget | .hlen | .hkeys | .hvals | .hgetall => true
  | .zcard | .zrange | .zrevrange | .zscore | .zrank | .ttl | .pttl => true
  | _ => false

/-- Equal replies; for `SUNION`, whose result set is enumerated in an unspecified order, arrays of
the same elements. -/
def SameReply (cmd : Command) (r r' : Bytes) : Prop :=
  match cmd with
  | .sunion => r = r' ∨ ∃ items items', r = arrayReply items ∧ r' = arrayReply items' ∧
      items.Perm items'
  | _ => r = r'

/-! ### One lemma per argument shape -/

section Shapes

variable {now : ℤ} {type : RedisType} (absent : α) {args : Args} {d : Data S}

theorem withKey_read_iff {arity notBulk : String} {run : Bytes → Data S → Bytes × Data S}
    (read : RedisValue S → α) (f : α → Bytes) {shows : RedisValue S → Prop}
    (hrun : ∀ key d, (run key d).1 = f (Database.readTyped type absent read key d))
    (hshows : ∀ v, f (read v) ≠ f absent ↔ shows v) :
    (withKey arity notBulk run args d).1 = (withKey arity notBulk run args (purge now d)).1 ↔
      ¬ KeyStale now type shows args d := by
  rw [withKey_reply_iff]
  constructor
  · rintro h ⟨name, key, v, hargs, hv, hshow⟩
    have hkey := h name key hargs
    rw [hrun, hrun, Database.readTyped_reply_iff] at hkey
    exact hkey ⟨v, hv, (hshows v).mpr hshow⟩
  · intro h name key hargs
    rw [hrun, hrun, Database.readTyped_reply_iff]
    rintro ⟨v, hv, hshow⟩
    exact h ⟨name, key, v, hargs, hv, (hshows v).mp hshow⟩

theorem withTwo_read_iff {arity notBulk : String} {run : Bytes → Bytes → Data S → Bytes × Data S}
    (read : Bytes → RedisValue S → α) (f : α → Bytes) {shows : Bytes → RedisValue S → Prop}
    (hrun : ∀ key arg d, (run key arg d).1 = f (Database.readTyped type absent (read arg) key d))
    (hshows : ∀ arg v, f (read arg v) ≠ f absent ↔ shows arg v) :
    (withTwo arity notBulk run args d).1 = (withTwo arity notBulk run args (purge now d)).1 ↔
      ¬ TwoStale now type shows args d := by
  rw [withTwo_reply_iff]
  constructor
  · rintro h ⟨name, key, arg, v, hargs, hv, hshow⟩
    have hkey := h name key arg hargs
    rw [hrun, hrun, Database.readTyped_reply_iff] at hkey
    exact hkey ⟨v, hv, (hshows arg v).mpr hshow⟩
  · intro h name key arg hargs
    rw [hrun, hrun, Database.readTyped_reply_iff]
    rintro ⟨v, hv, hshow⟩
    exact h ⟨name, key, arg, v, hargs, hv, (hshows arg v).mp hshow⟩

theorem withRange_read_iff {accepts : ℕ → Bool} {arity notBulk notInt : String}
    {read : Bytes → ℤ → ℤ → Data S → Bytes} {view : RedisValue S → List Bytes}
    (hread : ∀ key a b d, read key a b d = arrayReply
      (Database.readTyped type [] (fun v => Database.slice (view v) a b) key d)) :
    (withRange accepts arity notBulk notInt read args d).1 =
        (withRange accepts arity notBulk notInt read args (purge now d)).1 ↔
      ¬ RangeStale now type accepts view args d := by
  have hshow : ∀ items : List Bytes, arrayReply items ≠ arrayReply [] ↔ items ≠ [] := fun items =>
    not_congr arrayReply_injective.eq_iff
  rw [withRange_reply_iff]
  constructor
  · rintro h ⟨name, key, start, stop, more, a, b, v, hargs, haccepts, ha, hb, hv, hslice⟩
    have hkey := h name key start stop more a b hargs haccepts ha hb
    rw [hread, hread, Database.readTyped_reply_iff] at hkey
    exact hkey ⟨v, hv, (hshow _).mpr hslice⟩
  · intro h name key start stop more a b hargs haccepts ha hb
    rw [hread, hread, Database.readTyped_reply_iff]
    rintro ⟨v, hv, hslice⟩
    exact h ⟨name, key, start, stop, more, a, b, v, hargs, haccepts, ha, hb, hv,
      (hshow _).mp hslice⟩

theorem withKeys_read_iff {arity notBulk : String} {read : List Bytes → Data S → Bytes}
    {shows : List Bytes → Prop}
    (hshows : ∀ key keys, read (key :: keys) d = read (key :: keys) (purge now d) ↔
      ¬ shows (key :: keys)) :
    (withKeys arity notBulk read args d).1 = (withKeys arity notBulk read args (purge now d)).1 ↔
      ¬ KeysStale shows args := by
  have hne : ∀ key keys ks, allBulk (key :: keys) = some ks → ∃ k ks', ks = k :: ks' := by
    intro key keys ks hks
    simp only [allBulk, Option.bind_eq_some_iff, Option.map_eq_some_iff] at hks
    obtain ⟨k, -, ks', -, rfl⟩ := hks
    exact ⟨k, ks', rfl⟩
  rw [withKeys_reply_iff]
  constructor
  · rintro h ⟨name, key, keys, ks, hargs, hks, hshow⟩
    obtain ⟨k, ks', rfl⟩ := hne key keys ks hks
    exact (hshows k ks').mp (h name key keys _ hargs hks) hshow
  · intro h name key keys ks hargs hks
    obtain ⟨k, ks', rfl⟩ := hne key keys ks hks
    exact (hshows k ks').mpr fun hshow => h ⟨name, key, keys, _, hargs, hks, hshow⟩

end Shapes

/-! ### The commands with a body of their own -/

theorem handleKeys_reply_iff (now : ℤ) (args : Args) (d : Data S) :
    (handleKeys args d).1 = (handleKeys args (purge now d)).1 ↔
      ¬ StaleVisible now .keys args d := by
  unfold handleKeys
  by_cases hlen : args.length = 1
  · simp only [hlen, ne_eq, not_true_eq_false, if_false, StaleVisible, true_and]
    rw [arrayReply_injective.eq_iff]
    constructor
    · rintro hkeys ⟨key, v, hv, hexp⟩
      have hmem : key ∈ (purge now d).keys := by
        rw [show (purge now d).keys = d.keys from hkeys.symm, UMap.mem_keys_iff, hv]
        rfl
      rw [UMap.mem_keys_iff, find?_purge_of_expired hv hexp] at hmem
      simp at hmem
    · intro h
      have hself : purge now d = d := UMap.filter_eq_self fun key v hv => by
        have : v.isExpired now ≠ true := fun hexp => h ⟨key, v, hv, hexp⟩
        simpa using this
      rw [hself]
  · simp [hlen, StaleVisible]

/-- `LINDEX` and `HGET` answer an empty payload with the null reply. -/
def orNull (value : Bytes) : Bytes := if value = [] then nullBulk else bulkReply value

theorem orNull_ne_iff (value : Bytes) : orNull value ≠ orNull [] ↔ value ≠ [] := by
  by_cases h : value = []
  · simp [h]
  · simp [orNull, h, bulkReply_ne_nullBulk]

theorem handleLindex_reply_iff (now : ℤ) (args : Args) (d : Data S) :
    (handleLindex now args d).1 = (handleLindex now args (purge now d)).1 ↔
      ¬ StaleVisible now .lindex args d := by
  have hrun : ∀ name key index i d, stoi index.strVal = some i →
      (handleLindex (S := S) now [name, .bulkString key, index] d).1 =
        orNull (Database.lindex key i d) := by
    intro name key index i d hi
    simp only [handleLindex, RespValue.bulk?, hi, orNull]
    split <;> rfl
  constructor
  · rintro h ⟨name, key, index, i, v, rfl, hi, hv, hshow⟩
    rw [hrun _ _ _ _ _ hi, hrun _ _ _ _ _ hi, Database.lindex, Database.lindex,
      Database.readTyped_reply_iff] at h
    exact h ⟨v, hv, (orNull_ne_iff _).mpr hshow⟩
  · intro h
    by_cases hargs : ∃ name key index i, args = [name, .bulkString key, index] ∧
        stoi index.strVal = some i
    · obtain ⟨name, key, index, i, rfl, hi⟩ := hargs
      rw [hrun _ _ _ _ _ hi, hrun _ _ _ _ _ hi, Database.lindex, Database.lindex,
        Database.readTyped_reply_iff]
      rintro ⟨v, hv, hshow⟩
      exact h ⟨name, key, index, i, v, rfl, hi, hv, (orNull_ne_iff _).mp hshow⟩
    · -- refused arguments
      unfold handleLindex
      split
      · rename_i name k index
        cases k with
        | bulkString key =>
          cases hi : stoi index.strVal with
          | none => simp [RespValue.bulk?]
          | some i => exact absurd ⟨name, key, index, i, rfl, hi⟩ hargs
        | simpleString | error | integer | array => rfl
      · rfl

theorem zrank_eq_readTyped (key member : Bytes) (d : Data S) :
    Database.zrank key member d = Database.readTyped .zset (-1)
      (fun v => (v.zsetMemberToScore.find? member).elim (-1) fun score =>
        Database.zrankLoop score member v.zsetScoreToMember.entries) key d := by
  unfold Database.zrank
  congr 1
  funext v
  cases v.zsetMemberToScore.find? member <;> rfl

theorem handleZrank_reply_iff (now : ℤ) (args : Args) (d : Data S) :
    (handleZrank args d).1 = (handleZrank args (purge now d)).1 ↔
      ¬ StaleVisible now .zrank args d := by
  refine withTwo_read_iff (-1) (fun m v => (v.zsetMemberToScore.find? m).elim (-1)
    fun score => Database.zrankLoop score m v.zsetScoreToMember.entries)
    (fun rank : ℤ => if rank < 0 then nullBulk else intReply rank) ?_ ?_
  · intro key member d
    rw [← zrank_eq_readTyped]
    dsimp only
    split <;> rfl
  · intro m v
    cases hm : v.zsetMemberToScore.find? m with
    | none => simp [UMap.contains, hm]
    | some score =>
      have hrank := Database.zrankLoop_nonneg score m v.zsetScoreToMember.entries
      simp only [Option.elim_some, not_lt.mpr hrank, if_false, UMap.contains, hm, Option.isSome_some]
      exact iff_of_true (intReply_ne_nullBulk _) trivial

/-- `ZSCORE` asks the key again when the score is zero, so a stale zero is hidden. -/
theorem handleZscore_reply_iff (now : ℤ) (args : Args) (d : Data S) :
    (handleZscore now args d).1 = (handleZscore now args (purge now d)).1 ↔
      ¬ StaleVisible now .zscore args d := by
  rw [handleZscore, withTwo_reply_iff]
  have hstale : ∀ key member v, Stale now .zset key d v →
      ((Database.zscore key member d = 0 → Database.keyExists now key d = (false, d.erase key)) ∧
        Database.zscore key member (purge now d) = 0 ∧
        (Database.keyExists now key (purge now d)).1 = false ∧
        Database.zscore key member d = (v.zsetMemberToScore.find? member).getD 0) := by
    intro key member v hv
    obtain ⟨hd, hp⟩ := Database.readTyped_of_stale hv (0 : S)
      fun v => (v.zsetMemberToScore.find? member).getD 0
    refine ⟨fun _ => ?_, hp, ?_, hd⟩
    · simp [Database.keyExists, Database.ifLive, hv.1, hv.2.1]
    · simp [Database.keyExists, Database.ifLive, find?_purge_of_expired hv.1 hv.2.1]
  constructor
  · rintro h ⟨name, key, member, v, hargs, hv, hshow⟩
    obtain ⟨-, hp, hpex, hd⟩ := hstale key member v hv
    have hkey := h name key member hargs
    simp only [hd, hp, hshow, if_false, if_true, hpex, Bool.not_false, Bool.true_or] at hkey
    exact bulkReply_ne_nullBulk _ hkey
  · intro h name key member hargs
    by_cases hv : ∃ v, Stale now .zset key d v
    · obtain ⟨v, hv⟩ := hv
      obtain ⟨hex, hp, hpex, hd⟩ := hstale key member v hv
      have hzero : Database.zscore key member d = 0 := by
        by_contra hne
        exact h ⟨name, key, member, v, hargs, hv, by rwa [hd] at hne⟩
      simp [hzero, hp, hpex, hex hzero]
    · have hscore : Database.zscore key member d = Database.zscore key member (purge now d) :=
        Database.readTyped_of_not_stale hv _ _
      have hcard : Database.zcard key d = Database.zcard key (purge now d) :=
        Database.readTyped_of_not_stale hv _ _
      have hex := Database.keyExists_purge now key d
      rw [← hscore]
      by_cases hzero : Database.zscore key member d = 0
      · cases hfound : (Database.keyExists now key d).1 with
        | false => simp [hzero, hfound, ← hex]
        | true =>
          have hfound' := hex.symm.trans hfound
          simp only [hzero, if_true, hfound, hfound', Database.keyExists_snd hfound,
            Database.keyExists_snd hfound', hcard]
          split <;> rfl
      · simp [hzero]

/-- The bytes of a live string. -/
def stringAt (now : ℤ) (key : Bytes) (d : Data S) : Option Bytes :=
  match d.find? key with
  | none => none
  | some v => if v.type = .string ∧ v.isExpired now = false then some v.strVal else none

theorem get_eq_stringAt (now : ℤ) (key : Bytes) (d : Data S) :
    (Database.get now key d).1 = (stringAt now key d).getD [] := by
  unfold Database.get Database.ifTypedLive stringAt
  cases d.find? key with
  | none => rfl
  | some v =>
    by_cases htype : v.type = .string <;> cases hexp : v.isExpired now <;> simp [htype, hexp]

theorem handleGet_eq_stringAt (now : ℤ) (name : RespValue) (key : Bytes) (d : Data S) :
    (handleGet now [name, .bulkString key] d).1 =
      match stringAt now key d with
      | none => nullBulk
      | some b => bulkReply b := by
  simp only [handleGet, withKey, RespValue.bulk?]
  cases hv : d.find? key with
  | none => simp [Database.keyExists, Database.ifLive, stringAt, hv]
  | some v =>
    cases hexp : v.isExpired now with
    | true => simp [Database.keyExists, Database.ifLive, stringAt, hv, hexp]
    | false =>
      by_cases htype : v.type = .string <;>
        simp [Database.keyExists, Database.type, Database.ifLive, Database.get,
          Database.ifTypedLive, stringAt, hv, hexp, htype]

theorem handleGet_purge (now : ℤ) (args : Args) (d : Data S) :
    (handleGet now args d).1 = (handleGet now args (purge now d)).1 := by
  rw [handleGet, withKey_reply_iff]
  intro name key _
  have hex := Database.keyExists_purge now key d
  cases hfound : (Database.keyExists now key d).1 with
  | false => simp [hfound, ← hex]
  | true =>
    have hfound' := hex.symm.trans hfound
    have hget : (Database.get now key d).1 = (Database.get now key (purge now d)).1 :=
      Database.ifTypedLive_purge now _ _ _ key d
    simp only [hfound, hfound', Database.keyExists_snd hfound, Database.keyExists_snd hfound',
      Database.type_snd hfound, Database.type_snd hfound', Database.type_purge now key d, hget,
      Bool.not_true, Bool.false_eq_true, if_false]
    split <;> rfl

theorem handleType_purge (now : ℤ) (args : Args) (d : Data S) :
    (handleType now args d).1 = (handleType now args (purge now d)).1 := by
  rw [handleType, withKey_reply_iff]
  intro name key _
  have hex := Database.keyExists_purge now key d
  cases hfound : (Database.keyExists now key d).1 with
  | false => simp [hfound, ← hex]
  | true =>
    have hfound' := hex.symm.trans hfound
    simp only [hfound, hfound', Database.keyExists_snd hfound, Database.keyExists_snd hfound',
      Database.type_purge now key d, Bool.not_true, Bool.false_eq_true, if_false]

/-! ### Several keys -/

theorem sinter_reply_iff (now : ℤ) (d : Data S) (key : Bytes) (keys : List Bytes) :
    arrayReply (Database.sinter (key :: keys) d) =
        arrayReply (Database.sinter (key :: keys) (purge now d)) ↔
      ¬ InterStale now (key :: keys) d := by
  rw [arrayReply_injective.eq_iff]
  by_cases hstale : ∃ k ∈ key :: keys, ∃ v, Stale now .set k d v
  · obtain ⟨k, hk, v, hv⟩ := id hstale
    have hnil : Database.sinter (key :: keys) (purge now d) = [] := by
      refine List.eq_nil_iff_forall_not_mem.mpr fun x hx => ?_
      obtain ⟨s, hs, -⟩ := Database.mem_sinter.mp hx k hk
      simp [(Database.setAt_of_stale hv).2] at hs
    rw [hnil]
    constructor
    · rintro heq ⟨-, x, hx⟩
      have := Database.mem_sinter.mpr hx
      simp [heq] at this
    · intro h
      refine List.eq_nil_iff_forall_not_mem.mpr fun x hx => ?_
      exact h ⟨hstale, x, Database.mem_sinter.mp hx⟩
  · refine iff_of_true (Database.sinter_congr fun k hk => ?_) (fun h => hstale h.1)
    exact Database.setAt_of_not_stale fun hv => hstale ⟨k, hk, hv⟩

theorem sunion_perm_iff (now : ℤ) (d : Data S) (keys : List Bytes) :
    (Database.sunion keys d).Perm (Database.sunion keys (purge now d)) ↔
      ¬ UnionStale now keys d := by
  rw [List.perm_ext_iff_of_nodup (Database.nodup_sunion keys d) (Database.nodup_sunion keys _)]
  simp only [Database.mem_sunion]
  constructor
  · rintro h ⟨x, hx, hlive⟩
    obtain ⟨k, hk, hx'⟩ := (h x).mp hx
    exact hlive k hk hx'
  · intro h x
    refine ⟨fun hx => ?_, fun ⟨k, hk, hx⟩ => ⟨k, hk, Database.setHolds_of_purge hx⟩⟩
    by_contra hno
    exact h ⟨x, hx, fun k hk hx' => hno ⟨k, hk, hx'⟩⟩

theorem sdiff_reply_iff (now : ℤ) (d : Data S) (key : Bytes) (others : List Bytes) :
    arrayReply (Database.sdiff (key :: others) d) =
        arrayReply (Database.sdiff (key :: others) (purge now d)) ↔
      ¬ DiffStale now (key :: others) d := by
  rw [arrayReply_injective.eq_iff]
  cases hset : Database.setAt key d with
  | none =>
    have hholds : ∀ x, ¬ SetHolds d key x := by
      intro x hx
      obtain ⟨s, hs, -⟩ := hx
      simp [hset] at hs
    have hset' : Database.setAt key (purge now d) = none := by
      by_contra hne
      obtain ⟨s, hs⟩ := Option.ne_none_iff_exists'.mp hne
      by_cases hstale : ∃ v, Stale now .set key d v
      · obtain ⟨v, hv⟩ := hstale
        simp [(Database.setAt_of_stale hv).1] at hset
      · rw [← Database.setAt_of_not_stale hstale, hset] at hs
        simp at hs
    refine iff_of_true (by simp [Database.sdiff, hset, hset']) ?_
    rintro ⟨k, os, x, heq, hx, -⟩
    obtain ⟨rfl, rfl⟩ := List.cons.inj heq
    exact hholds x hx
  | some first =>
    have hholds : ∀ x, SetHolds d key x ↔ x ∈ first.keys := fun x => by
      simp [SetHolds, hset, UMap.contains_iff_mem_keys]
    rw [Database.sdiff_cons hset]
    by_cases hstale : ∃ v, Stale now .set key d v
    · -- the purged store has no first set
      obtain ⟨v, hv⟩ := hstale
      have hnone := (Database.setAt_of_stale hv).2
      have hnot : ∀ x, ¬ SetHolds (purge now d) key x := by
        intro x hx
        obtain ⟨s, hs, -⟩ := hx
        simp [hnone] at hs
      rw [show Database.sdiff (key :: others) (purge now d) = [] by simp [Database.sdiff, hnone],
        List.filter_eq_nil_iff]
      constructor
      · rintro h ⟨k, os, x, heq, hx, hdiff⟩
        obtain ⟨rfl, rfl⟩ := List.cons.inj heq
        rw [if_neg (hnot x)] at hdiff
        exact h x ((hholds x).mp hx) (by simpa using hdiff)
      · intro h x hx hdiff
        refine h ⟨key, others, x, rfl, (hholds x).mpr hx, ?_⟩
        rw [if_neg (hnot x)]
        simpa using hdiff
    · have hset' := hset
      rw [Database.setAt_of_not_stale hstale] at hset'
      have hlive : ∀ x, x ∈ first.keys → SetHolds (purge now d) key x := fun x hx => by
        simpa [SetHolds, hset', UMap.contains_iff_mem_keys] using hx
      rw [Database.sdiff_cons hset']
      constructor
      · rintro h ⟨k, os, x, heq, hx, hdiff⟩
        obtain ⟨rfl, rfl⟩ := List.cons.inj heq
        have hmem := (hholds x).mp hx
        rw [if_pos (hlive x hmem)] at hdiff
        obtain ⟨⟨o, ho, hox⟩, hnone⟩ := hdiff
        have hin : x ∈ first.keys.filter fun x =>
            decide (∀ k ∈ others, ¬ SetHolds (purge now d) k x) :=
          List.mem_filter.mpr ⟨hmem, by simpa using hnone⟩
        rw [← h, List.mem_filter] at hin
        exact (by simpa using hin.2 : ∀ k ∈ others, ¬ SetHolds d k x) o ho hox
      · intro h
        refine List.filter_congr fun x hx => ?_
        rw [Bool.eq_iff_iff, decide_eq_true_eq, decide_eq_true_eq]
        constructor
        · exact fun hno k hk hkx => hno k hk (Database.setHolds_of_purge hkx)
        · intro hno k hk hkx
          refine h ⟨key, others, x, rfl, (hholds x).mpr hx, ?_⟩
          rw [if_pos (hlive x hx)]
          exact ⟨⟨k, hk, hkx⟩, hno⟩

theorem handleSunion_sameReply_iff (now : ℤ) (args : Args) (d : Data S) :
    SameReply .sunion (handleSunion args d).1 (handleSunion args (purge now d)).1 ↔
      ¬ StaleVisible now .sunion args d := by
  by_cases hargs : ∃ name key keys ks, args = name :: key :: keys ∧ allBulk (key :: keys) = some ks
  · obtain ⟨name, key, keys, ks, rfl, hks⟩ := hargs
    have hrun : ∀ d : Data S, (handleSunion (name :: key :: keys) d).1 =
        arrayReply (Database.sunion ks d) := fun d => by simp only [handleSunion, withKeys, hks]
    rw [hrun, hrun]
    have hvisible : StaleVisible now .sunion (name :: key :: keys) d ↔ UnionStale now ks d := by
      constructor
      · rintro ⟨name', key', keys', ks', heq, hks', h⟩
        obtain ⟨rfl, rfl⟩ := List.cons.inj (List.cons.inj heq).2
        obtain rfl : ks = ks' := Option.some.inj (hks.symm.trans hks')
        exact h
      · exact fun h => ⟨name, key, keys, ks, rfl, hks, h⟩
    rw [hvisible, ← sunion_perm_iff]
    constructor
    · rintro (heq | ⟨items, items', hitems, hitems', hperm⟩)
      · rw [arrayReply_injective heq]
      · rwa [arrayReply_injective hitems, arrayReply_injective hitems']
    · exact fun hperm => .inr ⟨_, _, rfl, rfl, hperm⟩
  · refine iff_of_true (.inl ?_) fun ⟨name, key, keys, ks, heq, hks, _⟩ =>
      hargs ⟨name, key, keys, ks, heq, hks⟩
    exact withKeys_reply_iff.mpr fun name key keys ks heq hks =>
      absurd ⟨name, key, keys, ks, heq, hks⟩ hargs

/-! ### The law -/

theorem keys_eq_nil_iff {K V : Type} {m : UMap K V} : m.keys = [] ↔ m = ∅ := by
  rw [UMap.keys, List.map_eq_nil_iff]
  exact ⟨fun h => UMap.ext h, fun h => by rw [h]; rfl⟩

theorem arrayReply_ne_nil_iff {items : List Bytes} :
    arrayReply items ≠ arrayReply [] ↔ items ≠ [] := not_congr arrayReply_injective.eq_iff

theorem intReply_size_ne_iff {K V : Type} {m : UMap K V} :
    intReply m.size ≠ intReply (0 : ℕ) ↔ m ≠ ∅ := by
  rw [ne_eq, intReply_natCast_inj, UMap.size_eq_zero_iff]

/-- For every read command, arguments and store: the reply is that of the purged store exactly when
no stale entry shows. -/
theorem expired_invisible_iff (env : Env Λ) (now : ℤ) (cmd : Command) (args : Args)
    (s : Session S Λ) (hread : cmd.isRead = true) :
    SameReply cmd (dispatch env now (some cmd) args s).1
        (dispatch env now (some cmd) args (s.setData (purge now s.world.data))).1 ↔
      ¬ StaleVisible now cmd args s.world.data := by
  cases cmd with
  | get => exact iff_of_true (handleGet_purge now args _) id
  | type => exact iff_of_true (handleType_purge now args _) id
  | existsKey =>
    refine iff_of_true (withKey_reply_iff.mpr fun name key _ => ?_) id
    exact congrArg boolReply (Database.keyExists_purge now key _)
  | llen =>
    refine iff_of_true (withKey_reply_iff.mpr fun name key _ => ?_) id
    exact congrArg (fun n : ℕ => intReply n) (Database.ifTypedLive_purge now _ _ _ key _)
  | ttl =>
    refine iff_of_true (withKey_reply_iff.mpr fun name key _ => congrArg intReply ?_) id
    refine Database.ifLive_purge now (-2) ?_ key _
    exact fun _ => rfl
  | pttl =>
    refine iff_of_true (withKey_reply_iff.mpr fun name key _ => congrArg intReply ?_) id
    refine Database.ifLive_purge now (-2) ?_ key _
    exact fun _ => rfl
  | keys => exact handleKeys_reply_iff now args _
  | lindex => exact handleLindex_reply_iff now args _
  | zscore => exact handleZscore_reply_iff now args _
  | lrange => exact withRange_read_iff fun _ _ _ _ => rfl
  | zrange => exact withRange_read_iff fun _ _ _ _ => rfl
  | zrevrange => exact withRange_read_iff fun _ _ _ _ => rfl
  | sinter => exact withKeys_read_iff (sinter_reply_iff now _)
  | sdiff => exact withKeys_read_iff (sdiff_reply_iff now _)
  | sunion => exact handleSunion_sameReply_iff now args _
  | sismember =>
    refine withTwo_read_iff false (fun m v => v.setVal.contains m) boolReply (fun _ _ _ => rfl)
      fun m v => ?_
    simp [boolReply_inj]
  | scard =>
    exact withKey_read_iff 0 (fun v => v.setVal.size) (fun n : ℕ => intReply n) (fun _ _ => rfl)
      fun v => intReply_size_ne_iff
  | hlen =>
    exact withKey_read_iff 0 (fun v => v.hashVal.size) (fun n : ℕ => intReply n) (fun _ _ => rfl)
      fun v => intReply_size_ne_iff
  | zcard =>
    exact withKey_read_iff 0 (fun v => v.zsetMemberToScore.size) (fun n : ℕ => intReply n)
      (fun _ _ => rfl) fun v => intReply_size_ne_iff
  | smembers =>
    exact withKey_read_iff [] (fun v => v.setVal.keys) arrayReply (fun _ _ => rfl)
      fun v => arrayReply_ne_nil_iff.trans (not_congr keys_eq_nil_iff)
  | hkeys =>
    exact withKey_read_iff [] (fun v => v.hashVal.keys) arrayReply (fun _ _ => rfl)
      fun v => arrayReply_ne_nil_iff.trans (not_congr keys_eq_nil_iff)
  | hvals =>
    refine withKey_read_iff [] (fun v => v.hashVal.values) arrayReply (fun _ _ => rfl)
      fun v => arrayReply_ne_nil_iff.trans ?_
    rw [← keys_eq_nil_iff.ne, UMap.keys, UMap.values]
    simp
  | hgetall =>
    exact withKey_read_iff ∅ (fun v => v.hashVal) hashReply (fun _ _ => rfl)
      fun v => not_congr hashReply_eq_empty_iff
  | hget =>
    refine withTwo_read_iff [] (fun f v => (v.hashVal.find? f).getD []) orNull
      (fun key field d => ?_) fun f v => orNull_ne_iff _
    dsimp only
    split
    · rename_i h
      exact (if_pos h).symm
    · rename_i h
      exact (if_neg h).symm
  | zrank => exact handleZrank_reply_iff now args _
  | _ => simp [Command.isRead] at hread

/-- `LLEN` tests the expiry. -/
theorem llen_hides_stale_list :
    SameReply .llen
      (dispatch Env.standalone 5 (some .llen) [.bulkString (str "LLEN"), .bulkString [107]]
        (Session.fresh staleList)).1
      (dispatch Env.standalone 5 (some .llen) [.bulkString (str "LLEN"), .bulkString [107]]
        ((Session.fresh staleList).setData (purge 5 staleList))).1 :=
  (expired_invisible_iff Env.standalone 5 .llen _ (Session.fresh staleList) rfl).mpr id

/-- `LRANGE` does not: `LRANGE k 0 0` lists the element of an expired list. -/
theorem lrange_shows_stale_list :
    ¬ ∀ (env : Env Unit) (now : ℤ) (cmd : Command) (args : Args) (s : Session NatScore Unit),
      cmd.isRead = true → SameReply cmd (dispatch env now (some cmd) args s).1
        (dispatch env now (some cmd) args (s.setData (purge now s.world.data))).1 := by
  intro h
  have hsame := h Env.standalone 5 .lrange [.bulkString (str "LRANGE"), .bulkString [107],
    .bulkString (str "0"), .bulkString (str "0")] (Session.fresh staleList) rfl
  revert hsame
  show ¬ ((_ : Bytes) = _)
  decide

end MinimalRedis
