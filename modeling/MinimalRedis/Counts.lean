import MinimalRedis.ElementReplies
import MinimalRedis.ExpiredWrites
import MinimalRedis.ZsetIndex

/-!
# Counts in replies

`SADD` and `SREM` answer with a difference of sizes, `ZADD`, `ZREM` and `HDEL` with a flag.  Here the
reply is compared with the cardinality of the collection before and after the command, as `SCARD`,
`ZCARD` and `HLEN` count it.

* `countsRemoved_iff` — the removals, by what they do to a value of their type;
* `count_replies_iff` — a flag is the count exactly when it counts at most one; `SADD` counts what it
  adds unless the key changes its type and members come back with it.
-/

namespace MinimalRedis

open Lib

variable {S : Type} [Score S]

/-- The reply is the growth of the collection. -/
def CountsAdded (card : Data S → ℕ) (d : Data S) (x : Bytes × Data S) : Prop :=
  x.1 = intReply ((card x.2 : ℤ) - card d)

/-- The reply is the loss of the collection. -/
def CountsRemoved (card : Data S → ℕ) (d : Data S) (x : Bytes × Data S) : Prop :=
  x.1 = intReply ((card d : ℤ) - card x.2)

/-- The size of a payload, when the key has a value of the type. -/
theorem readTyped_counted {type : RedisType} {size : RedisValue S → ℕ}
    (hbump : ∀ v, size v.bump = size v) {key : Bytes} {d : Data S} {v : RedisValue S}
    (hv : d.find? key = some v) (htype : v.type = type) (c : Prop) [Decidable c] :
    Database.readTyped type 0 size key (if c then Database.incrementModCount key d else d) =
      size v := by
  split
  · have hfind := UMap.find?_set_self d key v.bump
    rw [Database.incrementModCount, hv]
    exact (Database.readTyped_of_find? hfind htype).trans (hbump v)
  · exact Database.readTyped_of_find? hv htype

/-! ### Removals -/

/-- A removal changes nothing but a value of its type. -/
theorem countsRemoved_iff {α : Type} {type : RedisType} {absent : α}
    {update : RedisValue S → α × RedisValue S} {size : RedisValue S → ℕ} (reply : α → Bytes)
    (changed : α → Prop) [DecidablePred changed] (hreply : reply absent = intReply 0)
    (habsent : ¬ changed absent) (htype : ∀ v, (update v).2.type = v.type)
    (hbump : ∀ v, size v.bump = size v) (key : Bytes) (d : Data S) :
    CountsRemoved (Database.readTyped type 0 size key) d
        (reply (Database.updateTyped type absent update key d).1,
          if changed (Database.updateTyped type absent update key d).1
          then Database.incrementModCount key (Database.updateTyped type absent update key d).2
          else (Database.updateTyped type absent update key d).2) ↔
      ∀ v, d.find? key = some v → v.type = type →
        reply (update v).1 = intReply ((size v : ℤ) - size (update v).2) := by
  have hnothing : Database.updateTyped type absent update key d = (absent, d) →
      CountsRemoved (Database.readTyped type 0 size key) d
        (reply (Database.updateTyped type absent update key d).1,
          if changed (Database.updateTyped type absent update key d).1
          then Database.incrementModCount key (Database.updateTyped type absent update key d).2
          else (Database.updateTyped type absent update key d).2) := by
    intro h
    rw [h, CountsRemoved]
    simp only [habsent, if_false, sub_self]
    exact hreply
  cases hv : d.find? key with
  | none =>
    have hsame : Database.updateTyped type absent update key d = (absent, d) := by
      rw [Database.updateTyped, hv]
    exact iff_of_true (hnothing hsame) fun v h => absurd h (Option.some_ne_none v).symm
  | some v =>
    by_cases hv' : v.type = type
    · have hupdate : Database.updateTyped type absent update key d =
          ((update v).1, d.set key (update v).2) := by
        rw [Database.updateTyped, hv]
        exact if_pos hv'
      have hbefore : Database.readTyped type 0 size key d = size v :=
        Database.readTyped_of_find? hv hv'
      rw [CountsRemoved, hupdate, readTyped_counted hbump (UMap.find?_set_self _ _ _)
        ((htype v).trans hv'), hbefore]
      constructor
      · intro h w hw _
        rw [← Option.some.inj hw]
        exact h
      · intro h
        exact h v rfl hv'
    · have hsame : Database.updateTyped type absent update key d = (absent, d) := by
        rw [Database.updateTyped, hv]
        exact if_neg hv'
      refine iff_of_true (hnothing hsame) fun w hw htw => absurd ?_ hv'
      rw [Option.some.inj hw]
      exact htw

/-- A flag for a removal is its count when at most one key of the map is listed. -/
theorem flag_counts_iff {V : Type} (m : UMap Bytes V) (ks : List Bytes) {flag : Bool}
    (hflag : flag = true ↔ ∃ k ∈ ks, m.contains k = true) :
    boolReply flag = intReply ((m.size : ℤ) - (m.eraseMany ks).size) ↔
      ∀ k ∈ ks, ∀ k' ∈ ks, (m.find? k).isSome = true → (m.find? k').isSome = true → k = k' := by
  have hsize := m.size_eraseMany_add ks
  have hone : (m.domain ∩ ks.toFinset).card ≤ 1 ↔
      ∀ k ∈ ks, ∀ k' ∈ ks, (m.find? k).isSome = true → (m.find? k').isSome = true → k = k' := by
    rw [Finset.card_le_one]
    simp only [Finset.mem_inter, UMap.mem_domain, List.mem_toFinset]
    constructor
    · intro h k hk k' hk' hm hm'
      exact h k ⟨hm, hk⟩ k' ⟨hm', hk'⟩
    · intro h k hk k' hk'
      exact h k hk.2 k' hk'.2 hk.1 hk'.1
  have hlost : flag = true ↔ 0 < (m.domain ∩ ks.toFinset).card := by
    rw [hflag, ← UMap.size_eraseMany_lt_iff]
    omega
  rw [boolReply, intReply_inj, ← hone]
  cases flag with
  | true =>
    have hpos := hlost.mp rfl
    simp only [if_true]
    omega
  | false =>
    have hzero : ¬ 0 < (m.domain ∩ ks.toFinset).card := fun h => absurd (hlost.mpr h) (by decide)
    simp only [Bool.false_eq_true, if_false]
    omega

/-- The key holds a value of the type with the entry in its payload. -/
def HasEntry {V : Type} (type : RedisType) (payload : RedisValue S → UMap Bytes V)
    (key k : Bytes) (d : Data S) : Prop :=
  ∃ v, d.find? key = some v ∧ v.type = type ∧ ((payload v).find? k).isSome = true

/-- The removals that answer with a flag. -/
theorem flagRemoval_counts_iff {V : Type} {type : RedisType} (payload : RedisValue S → UMap Bytes V)
    {update : RedisValue S → Bool × RedisValue S} {ks : List Bytes}
    (hpayload : ∀ v, payload (update v).2 = (payload v).eraseMany ks)
    (hflag : ∀ v, (update v).1 = true ↔ ∃ k ∈ ks, (payload v).contains k = true)
    (htype : ∀ v, (update v).2.type = v.type) (hbump : ∀ v, payload v.bump = payload v)
    (key : Bytes) (d : Data S) :
    CountsRemoved (Database.readTyped type 0 (fun v => (payload v).size) key) d
        (boolReply (Database.updateTyped type false update key d).1,
          if (Database.updateTyped type false update key d).1 = true
          then Database.incrementModCount key (Database.updateTyped type false update key d).2
          else (Database.updateTyped type false update key d).2) ↔
      ∀ k ∈ ks, ∀ k' ∈ ks, HasEntry type payload key k d → HasEntry type payload key k' d →
        k = k' := by
  refine (countsRemoved_iff boolReply (fun b => b = true) rfl (by decide) htype
    (fun v => congrArg UMap.size (hbump v)) key d).trans ?_
  constructor
  · rintro h k hk k' hk' ⟨v, hv, hvtype, hfound⟩ ⟨w, hw, -, hfound'⟩
    obtain rfl := Option.some.inj (hv.symm.trans hw)
    have hcount := h v hv hvtype
    rw [hpayload] at hcount
    exact (flag_counts_iff (payload v) ks (hflag v)).mp hcount k hk k' hk' hfound hfound'
  · intro h v hv hvtype
    rw [hpayload, flag_counts_iff (payload v) ks (hflag v)]
    intro k hk k' hk' hfound hfound'
    exact h k hk k' hk' ⟨v, hv, hvtype, hfound⟩ ⟨v, hv, hvtype, hfound'⟩

/-- A key and values that are all bulk strings are accepted. -/
theorem withKeyAndRest_bulk (arity notBulkKey notBulkRest : String)
    (run : Bytes → List Bytes → Data S → Bytes × Data S) (name : RespValue) (key : Bytes)
    {values : List Bytes} (hne : values ≠ []) :
    withKeyAndRest arity notBulkKey notBulkRest run
      (name :: .bulkString key :: values.map .bulkString) = run key values := by
  obtain ⟨value, values, rfl⟩ := List.exists_cons_of_ne_nil hne
  have hall : allBulk (.bulkString value :: values.map .bulkString) = some (value :: values) :=
    allBulk_eq_some_iff.mpr rfl
  funext d
  rw [List.map_cons, withKeyAndRest]
  simp only [RespValue.bulk?, hall]

section Commands

variable (name : RespValue) (key : Bytes) (d : Data S)

theorem srem_counts {members : List Bytes} (hne : members ≠ []) :
    CountsRemoved (Database.scard key) d
      (handleSrem (name :: .bulkString key :: members.map .bulkString) d) := by
  rw [handleSrem, withKeyAndRest_bulk _ _ _ _ _ _ hne]
  refine (countsRemoved_iff (fun n : ℕ => intReply n) (fun n => n > 0) rfl (lt_irrefl 0)
    (fun _ => rfl) (fun _ => rfl) key d).mpr fun v hv htype => ?_
  have hsize := v.setVal.size_eraseMany_add members
  show intReply ((v.setVal.size - (v.setVal.eraseMany members).size : ℕ) : ℤ) =
    intReply ((v.setVal.size : ℤ) - (v.setVal.eraseMany members).size)
  rw [intReply_inj]
  omega

theorem hdel_counts_iff {fields : List Bytes} (hne : fields ≠ []) :
    CountsRemoved (Database.hlen key) d
        (handleHdel (name :: .bulkString key :: fields.map .bulkString) d) ↔
      ∀ f ∈ fields, ∀ f' ∈ fields, HasEntry .hash (fun v => v.hashVal) key f d →
        HasEntry .hash (fun v => v.hashVal) key f' d → f = f' := by
  rw [handleHdel, withKeyAndRest_bulk _ _ _ _ _ _ hne]
  refine flagRemoval_counts_iff (fun v => v.hashVal) (fun _ => rfl) (fun v => ?_) (fun _ => rfl)
    (fun _ => rfl) key d
  exact decide_eq_true_iff.trans UMap.size_eraseMany_lt_iff

theorem type_foldl_zremOne (ms : List Bytes) (x : Bool × RedisValue S) :
    (ms.foldl Database.zremOne x).2.type = x.2.type := by
  induction ms generalizing x with
  | nil => rfl
  | cons m ms ih =>
    rw [List.foldl_cons, ih, Database.zremOne]
    split <;> rfl

theorem zrem_counts_iff {members : List Bytes} (hne : members ≠ []) :
    CountsRemoved (Database.zcard key) d
        (handleZrem (name :: .bulkString key :: members.map .bulkString) d) ↔
      ∀ m ∈ members, ∀ m' ∈ members, IsMember key m d → IsMember key m' d → m = m' := by
  rw [handleZrem, withKeyAndRest_bulk _ _ _ _ _ _ hne]
  refine flagRemoval_counts_iff (fun v => v.zsetMemberToScore) (fun v => ?_) (fun v => ?_)
    (fun v => ?_) (fun _ => rfl) key d
  · exact Database.zsetMemberToScore_foldl_zremOne members (false, v)
  · have hspec := (foldl_zremOne_spec members (false, v)).1
    simpa using hspec
  · exact type_foldl_zremOne members (false, v)

/-! ### Additions -/

/-- An addition writes a value of its type. -/
theorem countsAdded_iff {type : RedisType} (size : RedisValue S → ℕ)
    (write : RedisValue S → RedisValue S) (hbump : ∀ v, size v.bump = size v)
    (htype : ∀ v, (write v).type = type) (n : ℤ) (c : Prop) [Decidable c] :
    CountsAdded (Database.readTyped type 0 size key) d
        (intReply n, if c then Database.incrementModCount key (Database.writeThrough write key d)
          else Database.writeThrough write key d) ↔
      n = size (write ((d.find? key).getD default)) - Database.readTyped type 0 size key d := by
  have hfind : (Database.writeThrough write key d).find? key =
      some (write ((d.find? key).getD default)) := UMap.find?_set_self _ _ _
  rw [CountsAdded, intReply_inj]
  simp only [readTyped_counted hbump hfind (htype _)]

theorem sadd_counts_iff {members : List Bytes} (hne : members ≠ []) :
    CountsAdded (Database.scard key) d
        (handleSadd (name :: .bulkString key :: members.map .bulkString) d) ↔
      ∀ v, d.find? key = some v → v.type = .set ∨ v.setVal.size = 0 := by
  rw [handleSadd, withKeyAndRest_bulk _ _ _ _ _ _ hne]
  refine (countsAdded_iff key d _ _ (fun _ => rfl) (fun _ => rfl) _ _).trans ?_
  have hadded : (Database.sadd key members d).1 =
      (USet.insertMany ((d.find? key).getD default).setVal members).size -
        ((d.find? key).getD default).setVal.size := by
    rw [Database.sadd, Database.writeThrough]
    simp only [UMap.find?_set_self, Option.getD_some]
  have hgrows := USet.size_le_size_insertMany ((d.find? key).getD default).setVal members
  rw [hadded, Database.readTyped]
  cases hv : d.find? key with
  | none =>
    rw [hv] at hgrows
    have hzero : ((none : Option (RedisValue S)).getD default).setVal.size = 0 := rfl
    refine iff_of_true ?_ fun v h => absurd h (Option.some_ne_none v).symm
    simp only [hzero, Nat.sub_zero, Nat.cast_zero, sub_zero]
  | some v =>
    rw [hv, Option.getD_some] at hgrows
    simp only [Option.getD_some, Option.some.injEq]
    by_cases htype : v.type = .set
    · refine iff_of_true ?_ fun w hw => .inl (hw ▸ htype)
      rw [if_pos htype]
      exact Int.ofNat_sub hgrows
    · rw [if_neg htype]
      constructor
      · rintro h w rfl
        right
        omega
      · intro h
        have hzero := (h v rfl).resolve_left htype
        omega

/-- The sorted set has the member, under whatever type the key has now. -/
def Stored (key member : Bytes) (d : Data S) : Prop :=
  ∃ v, d.find? key = some v ∧ (v.zsetMemberToScore.find? member).isSome = true

/-- The members `ZCARD` counts. -/
def visibleMembers (key : Bytes) (d : Data S) : Finset Bytes :=
  Database.readTyped .zset ∅ (fun v => v.zsetMemberToScore.domain) key d

/-- The members stored under the key. -/
def storedMembers (key : Bytes) (d : Data S) : Finset Bytes :=
  ((d.find? key).getD default).zsetMemberToScore.domain

theorem mem_visibleMembers {member : Bytes} :
    member ∈ visibleMembers key d ↔ IsMember key member d := by
  rw [visibleMembers, Database.readTyped, IsMember]
  cases hv : d.find? key with
  | none => simp
  | some v =>
    by_cases htype : v.type = .zset
    · simp [htype, UMap.mem_domain]
    · simp [htype]

theorem mem_storedMembers {member : Bytes} :
    member ∈ storedMembers key d ↔ Stored key member d := by
  rw [storedMembers, Stored, UMap.mem_domain]
  cases hv : d.find? key with
  | none => exact iff_of_false Bool.false_ne_true (by simp)
  | some v => simp

theorem card_visibleMembers : (visibleMembers key d).card = Database.zcard key d := by
  rw [visibleMembers, Database.apply_readTyped Finset.card, Database.zcard, Finset.card_empty]
  simp only [UMap.card_domain]

/-- `ZADD` answers one: the count when exactly one member comes into view. -/
theorem zadd_counts_iff {rest : List RespValue} {ps : List (S × Bytes)}
    (hlen : 2 ≤ rest.length ∧ rest.length % 2 = 0) (hps : zaddPairs rest = .ok ps) :
    CountsAdded (Database.zcard key) d (handleZadd (name :: .bulkString key :: rest) d) ↔
      ∃! m, ¬ IsMember key m d ∧ (m ∈ ps.map Prod.snd ∨ Stored key m d) := by
  have hsubset : visibleMembers key d ⊆ storedMembers key d ∪ (ps.map Prod.snd).toFinset := by
    intro m hm
    obtain ⟨v, hv, -, hfound⟩ := (mem_visibleMembers key d).mp hm
    exact Finset.mem_union_left _ ((mem_storedMembers key d).mpr ⟨v, hv, hfound⟩)
  have hcard := Finset.card_sdiff_add_card_eq_card hsubset
  have hsize : ((ps.foldl Database.zaddOne { (d.find? key).getD default with type := .zset }
      ).zsetMemberToScore).size = (storedMembers key d ∪ (ps.map Prod.snd).toFinset).card := by
    rw [Database.zsetMemberToScore_foldl_zaddOne, ← UMap.card_domain, UMap.domain_setMany,
      List.map_map]
    rfl
  have hadded := countsAdded_iff key d (fun v => v.zsetMemberToScore.size)
    (fun v => ps.foldl Database.zaddOne { v with type := .zset }) (fun _ => rfl)
    (fun v => Database.foldl_zaddOne_keeps RedisValue.type (fun _ _ => rfl) ps _) 1 True
  simp only [if_true, hsize] at hadded
  rw [handleZadd_of_ok ⟨name, rfl, hlen⟩ hps]
  refine hadded.trans ?_
  show (1 : ℤ) = _ - (Database.zcard key d : ℕ) ↔ _
  have hone : ((1 : ℤ) = (storedMembers key d ∪ (ps.map Prod.snd).toFinset).card -
      (Database.zcard key d : ℕ)) ↔
      ((storedMembers key d ∪ (ps.map Prod.snd).toFinset) \ visibleMembers key d).card = 1 := by
    rw [← card_visibleMembers]
    omega
  rw [hone, Finset.card_eq_one_iff_existsUnique]
  refine existsUnique_congr fun m => ?_
  rw [Finset.mem_sdiff, Finset.mem_union, mem_storedMembers, mem_visibleMembers, List.mem_toFinset,
    and_comm, or_comm]

end Commands

/-- The integer replied is the change of cardinality: always for `SREM`; for `ZREM` and `HDEL` exactly
when at most one of the members or fields named is there; for `ZADD` exactly when one member comes
into view; for `SADD` exactly when no members are left over under another type. -/
theorem count_replies_iff (name : RespValue) (key : Bytes) (d : Data S) {values : List Bytes}
    (hne : values ≠ []) {rest : List RespValue} {ps : List (S × Bytes)}
    (hlen : 2 ≤ rest.length ∧ rest.length % 2 = 0) (hps : zaddPairs rest = .ok ps) :
    (CountsAdded (Database.scard key) d
        (handleSadd (name :: .bulkString key :: values.map .bulkString) d) ↔
      ∀ v, d.find? key = some v → v.type = .set ∨ v.setVal.size = 0) ∧
    CountsRemoved (Database.scard key) d
      (handleSrem (name :: .bulkString key :: values.map .bulkString) d) ∧
    (CountsAdded (Database.zcard key) d (handleZadd (name :: .bulkString key :: rest) d) ↔
      ∃! m, ¬ IsMember key m d ∧ (m ∈ ps.map Prod.snd ∨ Stored key m d)) ∧
    (CountsRemoved (Database.zcard key) d
        (handleZrem (name :: .bulkString key :: values.map .bulkString) d) ↔
      ∀ m ∈ values, ∀ m' ∈ values, IsMember key m d → IsMember key m' d → m = m') ∧
    (CountsRemoved (Database.hlen key) d
        (handleHdel (name :: .bulkString key :: values.map .bulkString) d) ↔
      ∀ f ∈ values, ∀ f' ∈ values, HasEntry .hash (fun v => v.hashVal) key f d →
        HasEntry .hash (fun v => v.hashVal) key f' d → f = f') :=
  ⟨sadd_counts_iff name key d hne, srem_counts name key d hne, zadd_counts_iff name key d hlen hps,
    zrem_counts_iff name key d hne, hdel_counts_iff name key d hne⟩

/-- The pair `1 a`, as arguments. -/
def onePair : List RespValue := [.bulkString (str "1"), .bulkString (str "a")]

/-- A set at `k` with the member `k`, and a hash at `a` with the fields `k` and `a`. -/
def setAndHash : Data NatScore :=
  (handleHset [keyArg, .bulkString (str "a"), keyArg, keyArg, .bulkString (str "a"), keyArg]
    (handleSadd [keyArg, keyArg, keyArg] ∅).2).2

/-- One of two members comes in, one of two fields named is there, and so is one of the members taken. -/
theorem count_replies_one_each :
    CountsAdded (Database.scard (str "k")) setAndHash
        (handleSadd [keyArg, keyArg, keyArg, .bulkString (str "a")] setAndHash) ∧
      CountsRemoved (Database.scard (str "k")) setAndHash
        (handleSrem [keyArg, keyArg, keyArg, .bulkString (str "a")] setAndHash) ∧
      CountsRemoved (Database.hlen (str "a")) setAndHash
        (handleHdel [keyArg, .bulkString (str "a"), keyArg, .bulkString (str "b")] setAndHash) := by
  obtain ⟨hsadd, hsrem, -⟩ := @count_replies_iff NatScore _ keyArg (str "k") setAndHash
    [str "k", str "a"] (by decide) onePair [(1, str "a")] (by decide) rfl
  obtain ⟨-, -, -, -, hhdel⟩ := @count_replies_iff NatScore _ keyArg (str "a") setAndHash
    [str "k", str "b"] (by decide) onePair [(1, str "a")] (by decide) rfl
  refine ⟨hsadd.mpr fun v hv => .inl ?_, hsrem, hhdel.mpr fun f hf f' hf' hthere hthere' => ?_⟩
  · have htype : (setAndHash.find? (str "k")).map RedisValue.type = some .set := by decide
    rw [hv] at htype
    exact Option.some.inj htype
  · have honly : ∀ g ∈ [str "k", str "b"],
        HasEntry .hash (fun v => v.hashVal) (str "a") g setAndHash → g = str "k" := by
      rintro g hg ⟨v, hv, -, hsome⟩
      have hnone : (setAndHash.find? (str "a")).bind (fun v => v.hashVal.find? (str "b")) = none := by
        decide
      rcases List.mem_pair.mp hg with rfl | rfl
      · rfl
      · rw [hv, Option.bind_some] at hnone
        rw [hnone] at hsome
        cases hsome
    exact (honly f hf hthere).trans (honly f' hf' hthere').symm

/-- Two members come in under the reply one, two fields go under the reply one, and a member comes
back under the reply zero once a string has been there. -/
theorem count_replies_flags :
    let hash : Data NatScore :=
      (handleHset [keyArg, keyArg, keyArg, keyArg, .bulkString (str "a"), keyArg] ∅).2
    let reused : Data NatScore := (handleSet [keyArg, keyArg, keyArg]
      (handleSadd [keyArg, keyArg, keyArg] ∅).2).2
    ¬ CountsAdded (Database.zcard (str "k")) (∅ : Data NatScore) (handleZadd
        (keyArg :: keyArg :: (onePair ++ [.bulkString (str "2"), .bulkString (str "b")])) ∅) ∧
      ¬ CountsRemoved (Database.hlen (str "k")) hash
        (handleHdel [keyArg, keyArg, keyArg, .bulkString (str "a")] hash) ∧
      ¬ CountsAdded (Database.scard (str "k")) reused (handleSadd [keyArg, keyArg, keyArg] reused) := by
  refine ⟨?_, ?_, ?_⟩
  · show ¬ intReply 1 = intReply 2
    decide
  · show ¬ intReply 1 = intReply 2
    decide
  · show ¬ intReply 0 = intReply 1
    decide

end MinimalRedis
