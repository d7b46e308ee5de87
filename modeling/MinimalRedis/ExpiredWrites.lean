import MinimalRedis.ErrorReplies
import MinimalRedis.Replies

/-!
# Writing to an expired key

A write to a key whose entry has expired should do what it does on an absent key.  The commands that
go through `ifLive` erase the entry first and do.  The others use the stale entry:

* `SET`, the pushes, `SADD`, `HSET` and `ZADD` write **into** it and inherit its past expiry, so the
  acknowledged write is not live;
* the pops and removals take from its payload.

`write_on_expired_iff` says for every write command and all arguments when the difference shows.
-/

namespace MinimalRedis

open Lib Session

variable {S : Type} [Score S] {Λ : Type}

/-- The same live entries, in whatever order. -/
def SameLive (now : ℤ) (d d' : Data S) : Prop :=
  ∀ key, (purge now d).find? key = (purge now d').find? key

/-- The handler replies, and leaves live entries, as if `key` were absent. -/
def ActsAsAbsent (now : ℤ) (key : Bytes) (h : Data S → Bytes × Data S) (d : Data S) : Prop :=
  (h d).1 = (h (d.erase key)).1 ∧ SameLive now (h d).2 (h (d.erase key)).2

/-! ### Expiry of the written entry -/

def expiryAt (key : Bytes) (d : Data S) : Option ℤ := (d.find? key).map RedisValue.expiryTime

theorem expiryAt_writeThrough {write : RedisValue S → RedisValue S}
    (h : ∀ v, (write v).expiryTime = v.expiryTime) (key : Bytes) (d : Data S) :
    expiryAt key (Database.writeThrough write key d) = some ((expiryAt key d).getD 0) := by
  cases hv : d.find? key with
  | none => simp [expiryAt, Database.writeThrough, hv, h, show
      (default : RedisValue S).expiryTime = 0 from rfl]
  | some v => simp [expiryAt, Database.writeThrough, hv, h]

theorem expiryAt_incrementModCount (key : Bytes) (d : Data S) :
    expiryAt key (Database.incrementModCount key d) = some ((expiryAt key d).getD 0) := by
  unfold Database.incrementModCount
  cases hv : d.find? key with
  | none => simp [expiryAt, hv]
  | some v => simp [expiryAt, hv, RedisValue.bump]

section Stale

variable {now : ℤ} {key : Bytes} {d : Data S} {v : RedisValue S}

/-- A write that keeps the expiry is not live on the stale entry and live on an absent one. -/
theorem not_sameLive_of_expiryAt (hexp : v.isExpired now = true) {d₁ d₂ : Data S}
    (h₁ : expiryAt key d₁ = some v.expiryTime) (h₂ : expiryAt key d₂ = some 0) :
    ¬ SameLive now d₁ d₂ := by
  intro h
  obtain ⟨v₁, hv₁, he₁⟩ := Option.map_eq_some_iff.mp h₁
  obtain ⟨v₂, hv₂, he₂⟩ := Option.map_eq_some_iff.mp h₂
  have hkey := h key
  rw [find?_purge_of_expired hv₁ ((RedisValue.isExpired_congr he₁ now).trans hexp),
    find?_purge_of_live hv₂ (RedisValue.isExpired_of_expiryTime_zero he₂ now)] at hkey
  simp at hkey

/-- A handler that ends with the entry erased on both sides. -/
theorem actsAsAbsent_of_erased {h : Data S → Bytes × Data S} {r : Bytes}
    (h₁ : h d = (r, d.erase key)) (h₂ : h (d.erase key) = (r, d.erase key)) :
    ActsAsAbsent now key h d := by
  rw [ActsAsAbsent, h₁, h₂]
  exact ⟨rfl, fun _ => rfl⟩

theorem ifLive_erase {α : Type} (absent : α) (live : RedisValue S → α × Data S) :
    Database.ifLive now absent live key (d.erase key) = (absent, d.erase key) := by
  simp [Database.ifLive]

theorem updateTyped_erase {α : Type} (type : RedisType) (absent : α)
    (update : RedisValue S → α × RedisValue S) :
    Database.updateTyped type absent update key (d.erase key) = (absent, d.erase key) := by
  simp [Database.updateTyped]

variable (hv : d.find? key = some v) (hexp : v.isExpired now = true)

include hv hexp

theorem actsAsAbsent_of_refused {h : Data S → Bytes × Data S} {r : Bytes}
    (hr : ∀ d, h d = (r, d)) : ActsAsAbsent now key h d := by
  rw [ActsAsAbsent, hr, hr]
  exact ⟨rfl, fun k => by rw [purge_erase hv hexp]⟩

/-- A handler that writes through the entry and keeps its expiry. -/
theorem not_actsAsAbsent_of_write {h : Data S → Bytes × Data S}
    (hkeep : ∀ d, expiryAt key (h d).2 = some ((expiryAt key d).getD 0)) :
    ¬ ActsAsAbsent now key h d := by
  rintro ⟨-, hlive⟩
  have h₁ : expiryAt key (h d).2 = some v.expiryTime := by
    rw [hkeep, expiryAt, hv]
    rfl
  have h₂ : expiryAt key (h (d.erase key)).2 = some 0 := by
    rw [hkeep, expiryAt, UMap.find?_erase_self]
    rfl
  exact not_sameLive_of_expiryAt hexp h₁ h₂ hlive

theorem ifLive_stale {α : Type} (absent : α) (live : RedisValue S → α × Data S) :
    Database.ifLive now absent live key d = (absent, d.erase key) := by
  simp [Database.ifLive, hv, hexp]

end Stale

/-! ### Argument shapes with a key -/

theorem withTwo_key (arity notBulk : String) (run : Bytes → Bytes → Data S → Bytes × Data S)
    (name : RespValue) (key : Bytes) (rest : List RespValue) :
    (∃ arg, rest = [.bulkString arg] ∧
        withTwo arity notBulk run (name :: .bulkString key :: rest) = run key arg) ∨
      (¬ ∃ arg, rest = [.bulkString arg]) ∧
        ∃ r, ∀ d, withTwo arity notBulk run (name :: .bulkString key :: rest) d = (r, d) := by
  match rest with
  | [.bulkString arg] => exact .inl ⟨arg, rfl, rfl⟩
  | [.simpleString _] => exact .inr ⟨by simp, _, fun _ => rfl⟩
  | [.error _] => exact .inr ⟨by simp, _, fun _ => rfl⟩
  | [.integer _] => exact .inr ⟨by simp, _, fun _ => rfl⟩
  | [.array _] => exact .inr ⟨by simp, _, fun _ => rfl⟩
  | [] => exact .inr ⟨by simp, _, fun _ => rfl⟩
  | _ :: _ :: _ => exact .inr ⟨by simp, _, fun _ => rfl⟩

theorem withKey_key (arity notBulk : String) (run : Bytes → Data S → Bytes × Data S)
    (name : RespValue) (key : Bytes) (rest : List RespValue) :
    (rest = [] ∧ withKey arity notBulk run (name :: .bulkString key :: rest) = run key) ∨
      rest ≠ [] ∧ ∃ r, ∀ d, withKey arity notBulk run (name :: .bulkString key :: rest) d = (r, d) := by
  cases rest with
  | nil => exact .inl ⟨rfl, rfl⟩
  | cons v vs => exact .inr ⟨by simp, _, fun _ => rfl⟩

/-- The bulk strings after a key: at least one, and all of them bulk strings. -/
def values? : List RespValue → Option (List Bytes)
  | [] => none
  | v :: vs => allBulk (v :: vs)

theorem withKeyAndRest_key (arity notBulkKey notBulkRest : String)
    (run : Bytes → List Bytes → Data S → Bytes × Data S) (name : RespValue) (key : Bytes)
    (rest : List RespValue) :
    (∃ values, values? rest = some values ∧
        withKeyAndRest arity notBulkKey notBulkRest run (name :: .bulkString key :: rest) =
          run key values) ∨
      values? rest = none ∧ ∃ r, ∀ d,
        withKeyAndRest arity notBulkKey notBulkRest run (name :: .bulkString key :: rest) d =
          (r, d) := by
  cases rest with
  | nil => exact .inr ⟨rfl, _, fun _ => rfl⟩
  | cons v vs =>
    cases hall : allBulk (v :: vs) with
    | none =>
      refine .inr ⟨hall, errReply notBulkRest, fun d => ?_⟩
      simp only [withKeyAndRest, RespValue.bulk?, hall]
    | some values =>
      refine .inl ⟨values, hall, ?_⟩
      funext d
      simp only [withKeyAndRest, RespValue.bulk?, hall]

theorem allBulk_of_leadingPairs_eq_nil {rest : List RespValue} (hlen : 2 ≤ rest.length)
    (h : leadingPairs rest = []) : allBulk rest = none := by
  cases rest with
  | nil => simp at hlen
  | cons a rest =>
    cases rest with
    | nil => simp at hlen
    | cons b rest =>
      cases ha : a.bulk? with
      | none => simp [allBulk, ha]
      | some x =>
        cases hb : b.bulk? with
        | none => simp [allBulk, ha, hb]
        | some y => simp [leadingPairs, ha, hb] at h

/-- `HSET` enters its leading pairs and counts that if they are all, or is refused as it stands. -/
theorem handleHset_key (name : RespValue) (key : Bytes) (rest : List RespValue) :
    ((rest.length % 2 = 0 ∧ leadingPairs rest ≠ []) ∧ ∀ d : Data S,
        let entered := (leadingPairs rest).foldl (fun d p => Database.hset key p.1 p.2 d) d
        (handleHset (name :: .bulkString key :: rest) d).2 =
          if allBulk rest = none then entered else Database.incrementModCount key entered) ∨
      ¬ (rest.length % 2 = 0 ∧ leadingPairs rest ≠ []) ∧
        ∃ r, ∀ d : Data S, handleHset (name :: .bulkString key :: rest) d = (r, d) := by
  by_cases hargs : 2 ≤ rest.length ∧ rest.length % 2 = 0
  · have hpair : PairArgs key rest (name :: .bulkString key :: rest) := ⟨name, rfl, hargs⟩
    have hrun := handleHset_of_pairArgs (S := S) hpair
    by_cases hpairs : leadingPairs rest = []
    · -- the first pair is bad: nothing was entered
      refine .inr ⟨fun h => h.2 hpairs, errReply "ERR HSET field and value must be bulk strings",
        fun d => ?_⟩
      rw [hrun, if_pos (allBulk_of_leadingPairs_eq_nil hargs.1 hpairs), hpairs]
      rfl
    · refine .inl ⟨⟨hargs.2, hpairs⟩, fun d => ?_⟩
      rw [hrun]
      split <;> rfl
  · obtain ⟨msg, -, hmsg⟩ := handleHset_refuses (S := S) ((pairArgs_iff name key rest).not.mpr hargs)
    refine .inr ⟨?_, errReply msg, hmsg⟩
    intro h
    exact hargs ⟨two_le_length_of_leadingPairs h.2, h.1⟩

/-- `ZADD` adds all its pairs and counts that, or is refused as it stands. -/
theorem handleZadd_key (name : RespValue) (key : Bytes) (rest : List RespValue) :
    (∃ ps : List (S × Bytes), (rest ≠ [] ∧ rest.length % 2 = 0 ∧ zaddPairs rest = .ok ps) ∧
        ∀ d : Data S, (handleZadd (name :: .bulkString key :: rest) d).2 =
          Database.incrementModCount key (Database.zadd key ps d).2) ∨
      (¬ ∃ ps : List (S × Bytes), rest ≠ [] ∧ rest.length % 2 = 0 ∧ zaddPairs rest = .ok ps) ∧
        ∃ r, ∀ d : Data S, handleZadd (name :: .bulkString key :: rest) d = (r, d) := by
  by_cases hargs : 2 ≤ rest.length ∧ rest.length % 2 = 0
  · have hpair : PairArgs key rest (name :: .bulkString key :: rest) := ⟨name, rfl, hargs⟩
    cases hpairs : (zaddPairs rest : Except String (List (S × Bytes))) with
    | error msg =>
      refine .inr ⟨?_, errReply msg, handleZadd_of_error hpair hpairs⟩
      intro h
      obtain ⟨ps, -, -, hok⟩ := h
      cases hok
    | ok ps =>
      have hne : rest ≠ [] := List.ne_nil_of_length_pos (by omega)
      refine .inl ⟨ps, ⟨hne, hargs.2, rfl⟩, fun d => ?_⟩
      rw [handleZadd_of_ok hpair hpairs]
  · obtain ⟨msg, -, hmsg⟩ := handleZadd_refuses (S := S) ((pairArgs_iff name key rest).not.mpr hargs)
    refine .inr ⟨?_, errReply msg, hmsg⟩
    intro h
    obtain ⟨ps, hne, heven, -⟩ := h
    have hpos := List.length_pos_iff.mpr hne
    exact hargs ⟨by omega, heven⟩

/-! ### When the stale entry matters -/

/-- The write commands. -/
def Command.isWrite : Command → Bool
  | .set | .lpush | .rpush | .lpop | .rpop | .sadd | .srem | .hset | .hdel | .zadd | .zrem => true
  | .del | .expire | .pexpire | .persist => true
  | _ => false

/-- The arguments `rest` after the key are accepted, and the command writes into the stale value `v`
or takes something from it. -/
def StaleWrite (cmd : Command) (rest : List RespValue) (v : RedisValue S) : Prop :=
  match cmd with
  | .set => ∃ value, rest = [.bulkString value]
  | .lpush => (values? rest).isSome = true
  | .rpush => (values? rest).isSome = true
  | .sadd => (values? rest).isSome = true
  | .hset => rest.length % 2 = 0 ∧ leadingPairs rest ≠ []
  | .zadd => ∃ ps : List (S × Bytes), rest ≠ [] ∧ rest.length % 2 = 0 ∧ zaddPairs rest = .ok ps
  | .lpop => rest = [] ∧ v.type = .list ∧ v.listVal.headD [] ≠ []
  | .rpop => rest = [] ∧ v.type = .list ∧ v.listVal.getLastD [] ≠ []
  | .srem => ∃ members, values? rest = some members ∧ v.type = .set ∧
      ∃ m ∈ members, v.setVal.contains m = true
  | .hdel => ∃ fields, values? rest = some fields ∧ v.type = .hash ∧
      ∃ f ∈ fields, v.hashVal.contains f = true
  | .zrem => ∃ members, values? rest = some members ∧ v.type = .zset ∧
      ∃ m ∈ members, v.zsetMemberToScore.contains m = true
  | _ => False

theorem expiryAt_foldl_hset (key : Bytes) {pairs : List (Bytes × Bytes)} (hne : pairs ≠ [])
    (d : Data S) : expiryAt key (pairs.foldl (fun d p => Database.hset key p.1 p.2 d) d) =
      some ((expiryAt key d).getD 0) := by
  rw [foldl_hset key hne, expiryAt, UMap.find?_set_self, expiryAt]
  cases d.find? key <;> rfl

theorem expiryTime_foldl_zaddOne (ps : List (S × Bytes)) (v : RedisValue S) :
    (ps.foldl Database.zaddOne v).expiryTime = v.expiryTime :=
  Database.foldl_zaddOne_keeps RedisValue.expiryTime (fun _ _ => rfl) ps v

theorem foldl_zremOne_spec (ms : List Bytes) (x : Bool × RedisValue S) :
    ((ms.foldl Database.zremOne x).1 = true ↔
      x.1 = true ∨ ∃ m ∈ ms, x.2.zsetMemberToScore.contains m = true) ∧
    (ms.foldl Database.zremOne x).2.expiryTime = x.2.expiryTime := by
  induction ms generalizing x with
  | nil => simp
  | cons m ms ih =>
    rw [List.foldl_cons]
    obtain ⟨hflag, hexpiry⟩ := ih (Database.zremOne x m)
    rw [hflag, hexpiry]
    unfold Database.zremOne
    cases hm : x.2.zsetMemberToScore.find? m with
    | none => simp [UMap.contains, hm]
    | some score => simp [UMap.contains, hm]

section Commands

variable {now : ℤ} {key : Bytes} {d : Data S} {v : RedisValue S} (hv : d.find? key = some v)
  (hexp : v.isExpired now = true) (name : RespValue) (rest : List RespValue)

include hv hexp

theorem two_write_actsAsAbsent_iff {arity notBulk : String}
    {run : Bytes → Bytes → Data S → Bytes × Data S}
    (hkeep : ∀ arg d, expiryAt key (run key arg d).2 = some ((expiryAt key d).getD 0)) :
    ActsAsAbsent now key (withTwo arity notBulk run (name :: .bulkString key :: rest)) d ↔
      ¬ ∃ arg, rest = [.bulkString arg] := by
  rcases withTwo_key arity notBulk run name key rest with ⟨arg, hrest, hrun⟩ | ⟨hrest, r, hr⟩
  · rw [hrun]
    exact iff_of_false (not_actsAsAbsent_of_write hv hexp (hkeep arg)) (not_not.mpr ⟨arg, hrest⟩)
  · exact iff_of_true (actsAsAbsent_of_refused hv hexp hr) hrest

/-- The commands that erase a stale entry before anything else. -/
theorem two_erase_actsAsAbsent {arity notBulk : String}
    {run : Bytes → Bytes → Data S → Bytes × Data S}
    (h : ∀ arg, ∃ r, (∀ d, run key arg d = (r, d)) ∨
      run key arg d = (r, d.erase key) ∧ run key arg (d.erase key) = (r, d.erase key)) :
    ActsAsAbsent now key (withTwo arity notBulk run (name :: .bulkString key :: rest)) d := by
  rcases withTwo_key arity notBulk run name key rest with ⟨arg, -, hrun⟩ | ⟨-, r, hr⟩
  · rw [hrun]
    obtain ⟨r, hr | ⟨h₁, h₂⟩⟩ := h arg
    · exact actsAsAbsent_of_refused hv hexp hr
    · exact actsAsAbsent_of_erased h₁ h₂
  · exact actsAsAbsent_of_refused hv hexp hr

theorem key_erase_actsAsAbsent {arity notBulk : String} {run : Bytes → Data S → Bytes × Data S}
    {r : Bytes} (h₁ : run key d = (r, d.erase key))
    (h₂ : run key (d.erase key) = (r, d.erase key)) :
    ActsAsAbsent now key (withKey arity notBulk run (name :: .bulkString key :: rest)) d := by
  rcases withKey_key arity notBulk run name key rest with ⟨-, hrun⟩ | ⟨-, r, hr⟩
  · rw [hrun]
    exact actsAsAbsent_of_erased h₁ h₂
  · exact actsAsAbsent_of_refused hv hexp hr

/-- The pushes and `SADD`: a write through the entry, counted or not. -/
theorem rest_write_actsAsAbsent_iff {arity notBulkKey notBulkRest : String}
    {run : Bytes → List Bytes → Data S → Bytes × Data S}
    (hkeep : ∀ values d, expiryAt key (run key values d).2 = some ((expiryAt key d).getD 0)) :
    ActsAsAbsent now key
        (withKeyAndRest arity notBulkKey notBulkRest run (name :: .bulkString key :: rest)) d ↔
      ¬ (values? rest).isSome = true := by
  rcases withKeyAndRest_key arity notBulkKey notBulkRest run name key rest with
    ⟨values, hrest, hrun⟩ | ⟨hrest, r, hr⟩
  · rw [hrun, hrest]
    exact iff_of_false (not_actsAsAbsent_of_write hv hexp (hkeep values)) (by simp)
  · rw [hrest]
    exact iff_of_true (actsAsAbsent_of_refused hv hexp hr) (by simp)

/-- The removals: the reply is that of an absent key exactly when nothing was taken, and then the
stale entry stays stale. -/
theorem rest_remove_actsAsAbsent_iff {α : Type} {arity notBulkKey notBulkRest : String}
    {type : RedisType} {absent : α} (update : List Bytes → RedisValue S → α × RedisValue S)
    (reply : α → Bytes) (changed : α → Prop) [DecidablePred changed] (takes : List Bytes → Prop)
    (habsent : ¬ changed absent) (hkeep : ∀ ms, (update ms v).2.expiryTime = v.expiryTime)
    (htakes : ∀ ms, takes ms → reply (update ms v).1 ≠ reply absent)
    (hnot : ∀ ms, ¬ takes ms → (update ms v).1 = absent) :
    ActsAsAbsent now key (withKeyAndRest arity notBulkKey notBulkRest (fun key ms d =>
        let x := Database.updateTyped type absent (update ms) key d
        (reply x.1, if changed x.1 then Database.incrementModCount key x.2 else x.2))
        (name :: .bulkString key :: rest)) d ↔
      ¬ ∃ ms, values? rest = some ms ∧ v.type = type ∧ takes ms := by
  rcases withKeyAndRest_key arity notBulkKey notBulkRest (fun key ms d =>
      let x := Database.updateTyped type absent (update ms) key d
      (reply x.1, if changed x.1 then Database.incrementModCount key x.2 else x.2)) name key rest
    with ⟨ms, hrest, hrun⟩ | ⟨hrest, r, hr⟩
  · rw [hrun, hrest]
    simp only [ActsAsAbsent, updateTyped_erase, habsent, if_false, Option.some.injEq,
      exists_eq_left']
    by_cases htype : v.type = type
    · have hupdate : Database.updateTyped type absent (update ms) key d =
          ((update ms v).1, d.set key (update ms v).2) := by
        simp [Database.updateTyped, hv, htype]
      rw [hupdate]
      by_cases h : takes ms
      · exact iff_of_false (fun hact => htakes ms h hact.1) (not_not.mpr ⟨htype, h⟩)
      · refine iff_of_true ?_ fun h' => h h'.2
        rw [hnot ms h]
        refine ⟨rfl, fun k => ?_⟩
        rw [if_neg habsent, purge_erase hv hexp,
          purge_set hv hexp ((RedisValue.isExpired_congr (hkeep ms) now).trans hexp)]
    · have hupdate : Database.updateTyped type absent (update ms) key d = (absent, d) := by
        simp [Database.updateTyped, hv, htype]
      rw [hupdate]
      refine iff_of_true ⟨rfl, fun k => ?_⟩ fun h => htype h.1
      rw [if_neg habsent, purge_erase hv hexp]
  · rw [hrest]
    exact iff_of_true (actsAsAbsent_of_refused hv hexp hr) (by simp)

/-- The pops: a non-empty value taken from a stale list is handed out. -/
theorem pop_actsAsAbsent_iff {arity notBulk : String} {pop : Bytes → Data S → Bytes × Data S}
    (update : RedisValue S → Bytes × RedisValue S)
    (hpop : ∀ d, pop key d = Database.updateTyped .list [] update key d)
    (hkeep : (update v).2.expiryTime = v.expiryTime) :
    ActsAsAbsent now key (withKey arity notBulk (fun key d => popReply now key (pop key d))
        (name :: .bulkString key :: rest)) d ↔
      ¬ (rest = [] ∧ v.type = .list ∧ (update v).1 ≠ []) := by
  rcases withKey_key arity notBulk (fun key d => popReply now key (pop key d)) name key rest with
    ⟨hrest, hrun⟩ | ⟨hrest, r, hr⟩
  · rw [hrun]
    have habsent : popReply now key (pop key (d.erase key)) = (nullBulk, d.erase key) := by
      rw [hpop, updateTyped_erase]
      simp [popReply, Database.keyExists, ifLive_erase]
    by_cases htype : v.type = .list
    · have hpopped : pop key d = ((update v).1, d.set key (update v).2) := by
        simp [hpop, Database.updateTyped, hv, htype]
      have hexp' : (update v).2.isExpired now = true :=
        (RedisValue.isExpired_congr hkeep now).trans hexp
      by_cases hval : (update v).1 = []
      · refine iff_of_true ?_ (by simp [hval])
        refine actsAsAbsent_of_erased ?_ habsent
        rw [hpopped, hval, popReply, Database.keyExists,
          ifLive_stale (UMap.find?_set_self _ _ _) hexp', UMap.erase_set]
        rfl
      · refine iff_of_false (fun hact => ?_) (not_not.mpr ⟨hrest, htype, hval⟩)
        have hreply : (popReply now key (pop key d)).1 = nullBulk :=
          hact.1.trans (congrArg Prod.fst habsent)
        rw [hpopped] at hreply
        simp only [popReply, hval, if_false] at hreply
        exact bulkReply_ne_nullBulk _ hreply
    · refine iff_of_true ?_ (by simp [htype])
      have hpopped : pop key d = ([], d) := by simp [hpop, Database.updateTyped, hv, htype]
      refine actsAsAbsent_of_erased ?_ habsent
      rw [hpopped, popReply, Database.keyExists, ifLive_stale hv hexp]
      rfl
  · exact iff_of_true (actsAsAbsent_of_refused hv hexp hr) (by simp [hrest])

theorem hset_actsAsAbsent_iff :
    ActsAsAbsent now key (handleHset (name :: .bulkString key :: rest)) d ↔
      ¬ StaleWrite .hset rest v := by
  rcases handleHset_key (S := S) name key rest with ⟨hrest, hrun⟩ | ⟨hrest, r, hr⟩
  · refine iff_of_false (not_actsAsAbsent_of_write hv hexp fun d => ?_) (not_not.mpr hrest)
    have hkeep := expiryAt_foldl_hset key hrest.2 d
    rw [hrun d]
    split
    · exact hkeep
    · rw [expiryAt_incrementModCount, hkeep]
      rfl
  · exact iff_of_true (actsAsAbsent_of_refused hv hexp hr) hrest

theorem zadd_actsAsAbsent_iff :
    ActsAsAbsent now key (handleZadd (name :: .bulkString key :: rest)) d ↔
      ¬ StaleWrite .zadd rest v := by
  rcases handleZadd_key (S := S) name key rest with ⟨ps, hrest, hrun⟩ | ⟨hrest, r, hr⟩
  · refine iff_of_false (not_actsAsAbsent_of_write hv hexp fun d => ?_) (not_not.mpr ⟨ps, hrest⟩)
    have hkeep : expiryAt key (Database.zadd key ps d).2 = some ((expiryAt key d).getD 0) := by
      refine expiryAt_writeThrough (fun v => ?_) key d
      exact expiryTime_foldl_zaddOne ps _
    rw [hrun d, expiryAt_incrementModCount, hkeep]
    rfl
  · exact iff_of_true (actsAsAbsent_of_refused hv hexp hr) hrest

theorem srem_actsAsAbsent_iff :
    ActsAsAbsent now key (handleSrem (name :: .bulkString key :: rest)) d ↔
      ¬ StaleWrite .srem rest v := by
  refine rest_remove_actsAsAbsent_iff hv hexp name rest (fun members v =>
      let after := v.setVal.eraseMany members
      (v.setVal.size - after.size, { v with setVal := after })) (fun n : ℕ => intReply n) (· > 0)
    (fun ms => ∃ m ∈ ms, v.setVal.contains m = true) (lt_irrefl 0) (fun _ => rfl)
    (fun ms htakes heq => ?_) fun ms hnot => ?_
  · have hlt := UMap.size_eraseMany_lt_iff.mpr htakes
    have hzero : v.setVal.size - (v.setVal.eraseMany ms).size = 0 := intReply_natCast_inj.mp heq
    omega
  · have hle := mt UMap.size_eraseMany_lt_iff.mp hnot
    show v.setVal.size - (v.setVal.eraseMany ms).size = 0
    omega

theorem hdel_actsAsAbsent_iff :
    ActsAsAbsent now key (handleHdel (name :: .bulkString key :: rest)) d ↔
      ¬ StaleWrite .hdel rest v := by
  refine rest_remove_actsAsAbsent_iff hv hexp name rest (fun fields v =>
      let after := v.hashVal.eraseMany fields
      (decide (after.size < v.hashVal.size), { v with hashVal := after })) boolReply
    (· = true) (fun ms => ∃ f ∈ ms, v.hashVal.contains f = true) Bool.false_ne_true (fun _ => rfl)
    (fun ms htakes heq => ?_) fun ms hnot => ?_
  · have hlt := UMap.size_eraseMany_lt_iff.mpr htakes
    simp [boolReply_inj, hlt] at heq
  · have hle := mt UMap.size_eraseMany_lt_iff.mp hnot
    exact decide_eq_false hle

theorem zrem_actsAsAbsent_iff :
    ActsAsAbsent now key (handleZrem (name :: .bulkString key :: rest)) d ↔
      ¬ StaleWrite .zrem rest v := by
  refine rest_remove_actsAsAbsent_iff hv hexp name rest
    (fun members v => members.foldl Database.zremOne (false, v)) boolReply (· = true)
    (fun ms => ∃ m ∈ ms, v.zsetMemberToScore.contains m = true) Bool.false_ne_true
    (fun ms => (foldl_zremOne_spec ms (false, v)).2) (fun ms htakes heq => ?_) fun ms hnot => ?_
  · have hflag := (foldl_zremOne_spec ms (false, v)).1.mpr (.inr htakes)
    simp [boolReply_inj, hflag] at heq
  · have hflag := mt (foldl_zremOne_spec ms (false, v)).1.mp (by simpa using hnot)
    simpa using hflag

end Commands

/-! ### The law -/

/-- For every write command and all arguments after the key: on an expired entry the command does
what it does on an absent key exactly when it neither writes into the entry nor takes from it. -/
theorem write_on_expired_iff (env : Env Λ) (now : ℤ) (cmd : Command) (name : RespValue)
    (key : Bytes) (rest : List RespValue) (s : Session S Λ) (v : RedisValue S)
    (hwrite : cmd.isWrite = true) (hv : s.world.data.find? key = some v)
    (hexp : v.isExpired now = true) :
    ((dispatch env now (some cmd) (name :: .bulkString key :: rest) s).1 =
        (dispatch env now (some cmd) (name :: .bulkString key :: rest)
          (s.setData (s.world.data.erase key))).1 ∧
      SameLive now
        (dispatch env now (some cmd) (name :: .bulkString key :: rest) s).2.world.data
        (dispatch env now (some cmd) (name :: .bulkString key :: rest)
          (s.setData (s.world.data.erase key))).2.world.data) ↔
      ¬ StaleWrite cmd rest v := by
  have hkeepMod : ∀ {d : Data S} {e : Option ℤ}, expiryAt key d = some (e.getD 0) →
      expiryAt key (Database.incrementModCount key d) = some (e.getD 0) := fun h => by
    rw [expiryAt_incrementModCount, h]
    rfl
  cases cmd with
  | set =>
    refine two_write_actsAsAbsent_iff hv hexp name rest fun value d => hkeepMod ?_
    refine expiryAt_writeThrough ?_ key d
    exact fun _ => rfl
  | lpush | rpush =>
    refine rest_write_actsAsAbsent_iff hv hexp name rest fun values d => hkeepMod ?_
    refine expiryAt_writeThrough ?_ key d
    exact fun _ => rfl
  | sadd =>
    refine rest_write_actsAsAbsent_iff hv hexp name rest fun members d => ?_
    have hkeep : expiryAt key (Database.sadd key members d).2 = some ((expiryAt key d).getD 0) := by
      refine expiryAt_writeThrough ?_ key d
      exact fun _ => rfl
    dsimp only
    split
    · exact hkeepMod hkeep
    · exact hkeep
  | lpop =>
    exact pop_actsAsAbsent_iff hv hexp name rest (fun v => (v.listVal.headD [],
      { v with listVal := v.listVal.tail })) (fun _ => rfl) rfl
  | rpop =>
    exact pop_actsAsAbsent_iff hv hexp name rest (fun v => (v.listVal.getLastD [],
      { v with listVal := v.listVal.dropLast })) (fun _ => rfl) rfl
  | hset => exact hset_actsAsAbsent_iff hv hexp name rest
  | zadd => exact zadd_actsAsAbsent_iff hv hexp name rest
  | srem => exact srem_actsAsAbsent_iff hv hexp name rest
  | hdel => exact hdel_actsAsAbsent_iff hv hexp name rest
  | zrem => exact zrem_actsAsAbsent_iff hv hexp name rest
  | del =>
    refine iff_of_true (key_erase_actsAsAbsent hv hexp name rest (r := boolReply false) ?_ ?_) id
    · simp [Database.keyExists, ifLive_stale hv hexp, Database.del, UMap.erase_of_find?_none]
    · simp [Database.keyExists, ifLive_erase, Database.del, UMap.erase_of_find?_none]
  | persist =>
    refine iff_of_true (key_erase_actsAsAbsent hv hexp name rest (r := boolReply false) ?_ ?_) id
    · simp [Database.persist, ifLive_stale hv hexp]
    · simp [Database.persist, ifLive_erase]
  | expire =>
    refine iff_of_true (two_erase_actsAsAbsent hv hexp name rest fun arg => ?_) id
    cases harg : stoll arg with
    | none => exact ⟨_, .inl fun d => rfl⟩
    | some n =>
      refine ⟨boolReply false, .inr ⟨?_, ?_⟩⟩
      · simp [Database.expire, ifLive_stale hv hexp]
      · simp [Database.expire, ifLive_erase]
  | pexpire =>
    refine iff_of_true (two_erase_actsAsAbsent hv hexp name rest fun arg => ?_) id
    cases harg : stoll arg with
    | none => exact ⟨_, .inl fun d => rfl⟩
    | some n =>
      refine ⟨boolReply false, .inr ⟨?_, ?_⟩⟩
      · simp [Database.pexpire, ifLive_stale hv hexp]
      · simp [Database.pexpire, ifLive_erase]
  | _ => simp [Command.isWrite] at hwrite

/-- The key `k` with an expired set of one member. -/
def staleSet : Data NatScore :=
  UMap.set ∅ [107] { type := .set, expiryTime := 1, setVal := USet.insertMany ∅ [[97]] }

/-- `SREM k b` is accepted and finds no member to take from the expired set. -/
theorem srem_missing_on_stale_set :
    (dispatch Env.standalone 5 (some .srem) [.bulkString (str "SREM"), .bulkString [107],
        .bulkString [98]] (Session.fresh staleSet)).1 =
      (dispatch Env.standalone 5 (some .srem) [.bulkString (str "SREM"), .bulkString [107],
        .bulkString [98]] ((Session.fresh staleSet).setData (staleSet.erase [107]))).1 ∧
    SameLive 5
      (dispatch Env.standalone 5 (some .srem) [.bulkString (str "SREM"), .bulkString [107],
        .bulkString [98]] (Session.fresh staleSet)).2.world.data
      (dispatch Env.standalone 5 (some .srem) [.bulkString (str "SREM"), .bulkString [107],
        .bulkString [98]] ((Session.fresh staleSet).setData (staleSet.erase [107]))).2.world.data := by
  refine (write_on_expired_iff Env.standalone 5 .srem _ [107] [.bulkString [98]]
    (Session.fresh staleSet)
    { type := .set, expiryTime := 1, setVal := USet.insertMany ∅ [[97]] } rfl rfl (by decide)).mpr ?_
  rintro ⟨members, hvalues, -, m, hm, hcontains⟩
  obtain rfl : [[98]] = members := Option.some.inj hvalues
  obtain rfl := List.mem_singleton.mp hm
  exact absurd hcontains (by decide)

/-- `SET k v` on an expired entry is acknowledged and not live. -/
theorem set_on_stale_entry_lost :
    ¬ ∀ (env : Env Unit) (now : ℤ) (cmd : Command) (name : RespValue) (key : Bytes)
      (rest : List RespValue) (s : Session NatScore Unit) (v : RedisValue NatScore),
      cmd.isWrite = true → s.world.data.find? key = some v → v.isExpired now = true →
      (dispatch env now (some cmd) (name :: .bulkString key :: rest) s).1 =
          (dispatch env now (some cmd) (name :: .bulkString key :: rest)
            (s.setData (s.world.data.erase key))).1 ∧
        SameLive now
          (dispatch env now (some cmd) (name :: .bulkString key :: rest) s).2.world.data
          (dispatch env now (some cmd) (name :: .bulkString key :: rest)
            (s.setData (s.world.data.erase key))).2.world.data := by
  intro h
  obtain ⟨-, hlive⟩ := h Env.standalone 5 .set (.bulkString (str "SET")) [107]
    [.bulkString [118]] (Session.fresh staleList) _ rfl rfl (by decide)
  exact absurd (hlive [107]) (by decide)

end MinimalRedis
