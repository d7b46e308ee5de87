import MinimalRedis.ExpiredReads
import MinimalRedis.ExpiredWrites
import MinimalRedis.ZsetIndex

/-!
# Writes that change the type of a key

A value carries all five payloads, and the writers only flip the type tag.  So what a write of
another type leaves to be seen is its own contents **on top of** the payload of that type the value
may have kept from earlier:

* `SET` overwrites it; the pushes extend it; `SADD`, `HSET` and `ZADD` merge with it;
* `foldl_zaddOne_filter` — a sorted set merged with a hidden one, restricted to the members written,
  is the one built from nothing, ties in the same order.

`type_change_iff` says for every reachable store when the contents are those of a fresh key.
-/

namespace MinimalRedis

open Lib Session

variable {S : Type} [Score S] {Λ : Type}

/-! ### What reads of a type see -/

/-- Every read method of the type gives the same for `key`; enumerations of unordered containers up
to order. -/
def SeenAlike (now : ℤ) (type : RedisType) (key : Bytes) (d d' : Data S) : Prop :=
  match type with
  | .string => (Database.get now key d).1 = (Database.get now key d').1
  | .list => (Database.llen now key d).1 = (Database.llen now key d').1 ∧
      (∀ a b, Database.lrange key a b d = Database.lrange key a b d') ∧
      ∀ i, Database.lindex key i d = Database.lindex key i d'
  | .set => (∀ m, Database.sismember key m d = Database.sismember key m d') ∧
      Database.scard key d = Database.scard key d' ∧
      (Database.smembers key d).Perm (Database.smembers key d')
  | .hash => (∀ f, Database.hget key f d = Database.hget key f d') ∧
      Database.hlen key d = Database.hlen key d' ∧
      (Database.hkeys key d).Perm (Database.hkeys key d') ∧
      (Database.hvals key d).Perm (Database.hvals key d') ∧
      (Database.hgetall key d).entries.Perm (Database.hgetall key d').entries
  | .zset => Database.zcard key d = Database.zcard key d' ∧
      (∀ a b, Database.zrange key a b d = Database.zrange key a b d') ∧
      (∀ a b, Database.zrevrange key a b d = Database.zrevrange key a b d') ∧
      (∀ m, Database.zscore key m d = Database.zscore key m d') ∧
      ∀ m, Database.zrank key m d = Database.zrank key m d'

/-- The payload of the type is the same, unordered containers up to order. -/
def SamePayload (type : RedisType) (v w : RedisValue S) : Prop :=
  match type with
  | .string => v.strVal = w.strVal
  | .list => v.listVal = w.listVal
  | .set => ∀ m, v.setVal.find? m = w.setVal.find? m
  | .hash => ∀ f, v.hashVal.find? f = w.hashVal.find? f
  | .zset => v.zsetScoreToMember = w.zsetScoreToMember ∧
      ∀ m, v.zsetMemberToScore.find? m = w.zsetMemberToScore.find? m

/-- `k` exists in both or in neither, with the same type and contents. -/
def SameView (k : Bytes) (d d' : Data S) : Prop :=
  match d.find? k, d'.find? k with
  | none, none => True
  | some v, some v' => v.type = v'.type ∧ SamePayload v.type v v'
  | _, _ => False

theorem SamePayload.refl (type : RedisType) (v : RedisValue S) : SamePayload type v v := by
  cases type with
  | string => rfl
  | list => rfl
  | set => exact fun _ => rfl
  | hash => exact fun _ => rfl
  | zset => exact ⟨rfl, fun _ => rfl⟩

theorem sameView_of_find? {k : Bytes} {d d' : Data S} (h : d'.find? k = d.find? k) :
    SameView k d d' := by
  unfold SameView
  rw [h]
  cases d.find? k with
  | none => trivial
  | some v => exact ⟨rfl, .refl v.type v⟩

theorem ifTypedLive_of_find? {α : Type} {now : ℤ} {type : RedisType} {absent : α}
    {read : RedisValue S → α} {key : Bytes} {d : Data S} {v : RedisValue S}
    (hv : d.find? key = some v) (htype : v.type = type) (hexpiry : v.expiryTime = 0) :
    (Database.ifTypedLive now type absent read key d).1 = read v := by
  simp [Database.ifTypedLive, hv, htype, RedisValue.isExpired_of_expiryTime_zero hexpiry]

/-- Reads of a type see nothing but its payload. -/
theorem seenAlike_of_samePayload (now : ℤ) {type : RedisType} {key : Bytes} {d d' : Data S}
    {v w : RedisValue S} (hv : d.find? key = some v) (hw : d'.find? key = some w)
    (htv : v.type = type) (htw : w.type = type) (hev : v.expiryTime = 0) (hew : w.expiryTime = 0)
    (h : SamePayload type v w) : SeenAlike now type key d d' := by
  have hread : ∀ {α : Type} {absent : α} (read : RedisValue S → α), read v = read w →
      Database.readTyped type absent read key d = Database.readTyped type absent read key d' := by
    intro α absent read heq
    rw [Database.readTyped_of_find? hv htv, Database.readTyped_of_find? hw htw, heq]
  cases type with
  | string =>
    show (Database.ifTypedLive _ _ _ _ _ _).1 = (Database.ifTypedLive _ _ _ _ _ _).1
    rw [ifTypedLive_of_find? hv htv hev, ifTypedLive_of_find? hw htw hew]
    exact h
  | list =>
    have h : v.listVal = w.listVal := h
    refine ⟨?_, fun a b => hread _ (by rw [h]), fun i => hread _ (by rw [h])⟩
    show (Database.ifTypedLive _ _ _ _ _ _).1 = (Database.ifTypedLive _ _ _ _ _ _).1
    rw [ifTypedLive_of_find? hv htv hev, ifTypedLive_of_find? hw htw hew, h]
  | set =>
    have hperm := UMap.perm_of_find? h
    refine ⟨fun m => hread _ (by simp only [UMap.contains, h m]), hread _ hperm.length_eq, ?_⟩
    rw [Database.smembers, Database.smembers, Database.readTyped_of_find? hv htv,
      Database.readTyped_of_find? hw htw]
    exact hperm.map Prod.fst
  | hash =>
    have hperm := UMap.perm_of_find? h
    refine ⟨fun f => hread _ (by rw [h f]), hread _ hperm.length_eq, ?_, ?_, ?_⟩
    · rw [Database.hkeys, Database.hkeys, Database.readTyped_of_find? hv htv,
        Database.readTyped_of_find? hw htw]
      exact hperm.map Prod.fst
    · rw [Database.hvals, Database.hvals, Database.readTyped_of_find? hv htv,
        Database.readTyped_of_find? hw htw]
      exact hperm.map Prod.snd
    · rw [Database.hgetall, Database.hgetall, Database.readTyped_of_find? hv htv,
        Database.readTyped_of_find? hw htw]
      exact hperm
  | zset =>
    obtain ⟨hscore, hmember⟩ := h
    have hperm := UMap.perm_of_find? hmember
    refine ⟨hread _ hperm.length_eq, fun a b => hread _ (by rw [hscore]),
      fun a b => hread _ (by rw [hscore]), fun m => hread _ (by rw [hmember m]),
      fun m => hread _ (by rw [hmember m, hscore])⟩

/-- A key that reads of the type do not see, before or after. -/
theorem seenAlike_of_other_type (now : ℤ) {type : RedisType} {key : Bytes} {d d' : Data S}
    (h : ∀ v, d.find? key = some v → v.type ≠ type) (h' : d'.find? key = none) :
    SeenAlike now type key d d' := by
  have hread : ∀ {α : Type} {absent : α} (read : RedisValue S → α),
      Database.readTyped type absent read key d = absent ∧
        Database.readTyped type absent read key d' = absent := by
    intro α absent read
    refine ⟨Database.readTyped_of_other h, Database.readTyped_of_other fun v hv => ?_⟩
    rw [h'] at hv
    cases hv
  have hlive : ∀ {α : Type} {absent : α} (read : RedisValue S → α),
      (Database.ifTypedLive now type absent read key d).1 = absent ∧
        (Database.ifTypedLive now type absent read key d').1 = absent := by
    intro α absent read
    constructor
    · unfold Database.ifTypedLive
      split
      · rfl
      · rename_i v hv
        rw [if_neg (h v hv)]
    · simp [Database.ifTypedLive, h']
  have hsame : ∀ {α : Type} {absent : α} (read : RedisValue S → α),
      Database.readTyped type absent read key d = Database.readTyped type absent read key d' :=
    fun read => (hread read).1.trans (hread read).2.symm
  cases type with
  | string => exact (hlive _).1.trans (hlive _).2.symm
  | list =>
    exact ⟨(hlive _).1.trans (hlive _).2.symm, fun a b => hsame _, fun i => hsame _⟩
  | set => exact ⟨fun m => hsame _, hsame _, List.Perm.of_eq (hsame _)⟩
  | hash =>
    exact ⟨fun f => hsame _, hsame _, List.Perm.of_eq (hsame _), List.Perm.of_eq (hsame _),
      List.Perm.of_eq (congrArg UMap.entries (hsame _))⟩
  | zset =>
    exact ⟨hsame _, fun a b => hsame _, fun a b => hsame _, fun m => hsame _, fun m => hsame _⟩

/-! ### A sorted set on top of a hidden one -/

namespace Database

/-- With agreeing indexes, erasing the member's pair drops every pair of the member. -/
theorem zaddOne_entries {v : RedisValue S} (h : v.IndexesAgree) (p : S × Bytes) :
    (zaddOne v p).zsetScoreToMember.entries =
      insertUpper p.1 p.2 (v.zsetScoreToMember.entries.filter fun q => decide (q.2 ≠ p.2)) := by
  have hmember : ∀ q, q ∈ v.zsetScoreToMember.entries ↔
      v.zsetMemberToScore.find? q.2 = some q.1 := fun q => by
    rw [h.mem_iff, List.mem_map, ← UMap.mem_entries_iff]
    constructor
    · rintro ⟨e, he, rfl⟩
      exact he
    · exact fun he => ⟨(q.2, q.1), he, rfl⟩
  show insertUpper p.1 p.2 _ = _
  congr 1
  cases hm : v.zsetMemberToScore.find? p.2 with
  | none =>
    refine (List.filter_eq_self.mpr fun q hq => ?_).symm
    have hne : q.2 ≠ p.2 := fun he => by
      rw [hmember, he, hm] at hq
      simp at hq
    simpa using hne
  | some old =>
    have hnodup : v.zsetScoreToMember.entries.Nodup := h.membersOnce.of_map
    refine (Multimap.erase_eq_filter hnodup old p.2).trans (List.filter_congr fun q hq => ?_)
    rw [hmember] at hq
    rw [Bool.eq_iff_iff, decide_eq_true_eq, decide_eq_true_eq]
    refine not_congr ⟨fun he => by rw [he], fun he => ?_⟩
    rw [he, hm, Option.some.injEq] at hq
    exact Prod.ext hq.symm he

/-- Adding to a value and to its restriction to `ws` keeps the second a restriction of the first, to
`ws` and the members added. -/
theorem foldl_zaddOne_filter (ps : List (S × Bytes)) {v w : RedisValue S} {ws : List Bytes}
    (hv : v.IndexesAgree) (hw : w.IndexesAgree)
    (h : w.zsetScoreToMember.entries =
      v.zsetScoreToMember.entries.filter fun q => decide (q.2 ∈ ws)) :
    (ps.foldl zaddOne w).zsetScoreToMember.entries =
      (ps.foldl zaddOne v).zsetScoreToMember.entries.filter
        fun q => decide (q.2 ∈ ws ++ ps.map Prod.snd) := by
  induction ps generalizing v w ws with
  | nil => simpa using h
  | cons p ps ih =>
    have hstep : (zaddOne w p).zsetScoreToMember.entries =
        (zaddOne v p).zsetScoreToMember.entries.filter fun q => decide (q.2 ∈ ws ++ [p.2]) := by
      have hsorted := v.zsetScoreToMember.sorted.filter fun q => decide (q.2 ≠ p.2)
      rw [zaddOne_entries hw, zaddOne_entries hv, filter_insertUpper hsorted (by simp), h,
        List.filter_filter, List.filter_filter]
      congr 1
      refine List.filter_congr fun q _ => ?_
      by_cases hq : q.2 = p.2 <;> simp [hq]
    rw [List.map_cons, List.append_cons]
    exact ih (zaddOne_indexesAgree hv p) (zaddOne_indexesAgree hw p) hstep

end Database

omit [Score S] in
theorem lastScore_isSome_iff {m : Bytes} {ps : List (S × Bytes)} :
    (lastScore m ps).isSome = true ↔ m ∈ ps.map Prod.snd := by
  rw [lastScore, lookupLast_isSome_iff, List.map_map]
  rfl

/-- When every hidden member is written anew, the sorted set is the one built from nothing. -/
theorem samePayload_zset {v w : RedisValue S} (hv : v.IndexesAgree)
    (hscore : w.zsetScoreToMember = ∅) (hmember : w.zsetMemberToScore = ∅) {ps : List (S × Bytes)}
    (hall : ∀ m, v.zsetMemberToScore.contains m = true → m ∈ ps.map Prod.snd) :
    SamePayload .zset (ps.foldl Database.zaddOne v) (ps.foldl Database.zaddOne w) := by
  have hw : w.IndexesAgree := by
    rw [RedisValue.IndexesAgree, hscore, hmember]
    exact List.Perm.refl _
  have hfind : ∀ m, (ps.foldl Database.zaddOne v).zsetMemberToScore.find? m = lastScore m ps := by
    intro m
    rw [Database.find?_foldl_zaddOne]
    by_cases hm : m ∈ ps.map Prod.snd
    · obtain ⟨s, hs⟩ := Option.isSome_iff_exists.mp (lastScore_isSome_iff.mpr hm)
      simp [hs]
    · have hnone : v.zsetMemberToScore.find? m = none := by
        simpa [UMap.contains] using mt (hall m) hm
      rw [hnone, Option.or_none]
  have hempty : w.zsetScoreToMember.entries =
      v.zsetScoreToMember.entries.filter fun q => decide (q.2 ∈ ([] : List Bytes)) := by
    rw [hscore]
    simp only [List.not_mem_nil, decide_false, List.filter_false]
    rfl
  refine ⟨Multimap.ext ?_, fun m => ?_⟩
  · rw [Database.foldl_zaddOne_filter ps hv hw hempty, List.nil_append]
    refine (List.filter_eq_self.mpr fun q hq => ?_).symm
    -- every member of the merged index got its score from `ps`
    have hagree := Database.foldl_zaddOne_indexesAgree ps hv
    rw [hagree.mem_iff, List.mem_map] at hq
    obtain ⟨⟨m, s⟩, he, rfl⟩ := hq
    rw [UMap.mem_entries_iff, hfind] at he
    have hsome : (lastScore m ps).isSome = true := by rw [he]; rfl
    exact decide_eq_true (lastScore_isSome_iff.mp hsome)
  · rw [hfind, Database.find?_foldl_zaddOne, hmember]
    exact (Option.or_none).symm

/-! ### What a write leaves at its key -/

/-- The entry under `key` is `a` up to its counter. -/
def Holds (key : Bytes) (d : Data S) (a : RedisValue S) : Prop :=
  ∃ n, d.find? key = some { a with modCount := n }

theorem holds_writeThrough (write : RedisValue S → RedisValue S) (key : Bytes) (d : Data S) :
    Holds key (Database.writeThrough write key d) (write ((d.find? key).getD default)) :=
  ⟨_, UMap.find?_set_self _ _ _⟩

theorem Holds.incrementModCount {key : Bytes} {d : Data S} {a : RedisValue S} (h : Holds key d a) :
    Holds key (Database.incrementModCount key d) a := by
  obtain ⟨n, hn⟩ := h
  refine ⟨n + 1, ?_⟩
  simp [Database.incrementModCount, hn, RedisValue.bump]

theorem Holds.seenAlike {type : RedisType} {key : Bytes} {d d' : Data S} {a b : RedisValue S}
    (ha : Holds key d a) (hb : Holds key d' b) (hta : a.type = type) (htb : b.type = type)
    (hea : a.expiryTime = 0) (heb : b.expiryTime = 0) (h : SamePayload type a b) (now : ℤ) :
    SeenAlike now type key d d' := by
  obtain ⟨n, hn⟩ := ha
  obtain ⟨k, hk⟩ := hb
  refine seenAlike_of_samePayload now hn hk hta htb hea heb ?_
  cases type <;> exact h

/-- The reads that tell a leftover: the length of a list, membership in the other containers. -/
def SameOutline (type : RedisType) (a b : RedisValue S) : Prop :=
  match type with
  | .string => True
  | .list => a.listVal.length = b.listVal.length
  | .set => ∀ m, a.setVal.contains m = b.setVal.contains m
  | .hash => ∀ f, a.hashVal.contains f = b.hashVal.contains f
  | .zset => ∀ m, a.zsetMemberToScore.contains m = b.zsetMemberToScore.contains m

theorem Holds.sameOutline {type : RedisType} {key : Bytes} {d d' : Data S} {a b : RedisValue S}
    (ha : Holds key d a) (hb : Holds key d' b) (hta : a.type = type) (htb : b.type = type)
    (hea : a.expiryTime = 0) (heb : b.expiryTime = 0) {now : ℤ} (h : SeenAlike now type key d d') :
    SameOutline type a b := by
  obtain ⟨n, hn⟩ := ha
  obtain ⟨k, hk⟩ := hb
  cases type with
  | string => trivial
  | list =>
    have hlen := h.1
    rw [Database.llen, Database.llen, ifTypedLive_of_find? hn hta hea,
      ifTypedLive_of_find? hk htb heb] at hlen
    exact hlen
  | set =>
    intro m
    have hmem := h.1 m
    rw [Database.sismember, Database.sismember, Database.readTyped_of_find? hn hta,
      Database.readTyped_of_find? hk htb] at hmem
    exact hmem
  | hash =>
    intro f
    have hkeys := h.2.2.1
    rw [Database.hkeys, Database.hkeys, Database.readTyped_of_find? hn hta,
      Database.readTyped_of_find? hk htb] at hkeys
    rw [Bool.eq_iff_iff, UMap.contains_iff_mem_keys, UMap.contains_iff_mem_keys]
    exact hkeys.mem_iff
  | zset =>
    intro m
    have hrank := h.2.2.2.2 m
    rw [Database.zrank, Database.zrank, Database.readTyped_of_find? hn hta,
      Database.readTyped_of_find? hk htb] at hrank
    simp only at hrank
    cases hma : a.zsetMemberToScore.find? m with
    | none =>
      cases hmb : b.zsetMemberToScore.find? m with
      | none => simp [UMap.contains, hma, hmb]
      | some s' =>
        simp only [hma, hmb] at hrank
        have := Database.zrankLoop_nonneg s' m b.zsetScoreToMember.entries
        omega
    | some s =>
      cases hmb : b.zsetMemberToScore.find? m with
      | none =>
        simp only [hma, hmb] at hrank
        have := Database.zrankLoop_nonneg s m a.zsetScoreToMember.entries
        omega
      | some s' => simp [UMap.contains, hma, hmb]

/-! ### Leftovers -/

/-- The type a write command gives its key. -/
def Command.writesType : Command → Option RedisType
  | .set => some .string
  | .lpush | .rpush => some .list
  | .sadd => some .set
  | .hset => some .hash
  | .zadd => some .zset
  | _ => none

/-- The write goes through and the value keeps something of the new type that the write does not
cover: a list element, or a member or field that is not written. -/
def Resurfaces (cmd : Command) (rest : List RespValue) (v : RedisValue S) : Prop :=
  match cmd with
  | .lpush => (values? rest).isSome = true ∧ v.listVal ≠ []
  | .rpush => (values? rest).isSome = true ∧ v.listVal ≠ []
  | .sadd => ∃ members, values? rest = some members ∧
      ∃ m, v.setVal.contains m = true ∧ m ∉ members
  | .hset => (rest.length % 2 = 0 ∧ leadingPairs rest ≠ []) ∧
      ∃ f, v.hashVal.contains f = true ∧ f ∉ (leadingPairs rest).map Prod.fst
  | .zadd => ∃ ps : List (S × Bytes), (rest ≠ [] ∧ rest.length % 2 = 0 ∧ zaddPairs rest = .ok ps) ∧
      ∃ m, v.zsetMemberToScore.contains m = true ∧ m ∉ ps.map Prod.snd
  | _ => False

/-- What reads of the type see after the handler is what they see when `key` was absent. -/
def StartsFresh (type : RedisType) (key : Bytes) (h : Data S → Bytes × Data S) (d : Data S) : Prop :=
  ∀ now, SeenAlike now type key (h d).2 (h (d.erase key)).2

theorem type_foldl_zaddOne (ps : List (S × Bytes)) (v : RedisValue S) :
    (ps.foldl Database.zaddOne v).type = v.type :=
  Database.foldl_zaddOne_keeps RedisValue.type (fun _ _ => rfl) ps v

section Fresh

variable {type : RedisType} {key : Bytes} {d : Data S} {v : RedisValue S}
  (hv : d.find? key = some v) (hexpiry : v.expiryTime = 0) (htype : v.type ≠ type)

include hv

theorem startsFresh_of_refused {h : Data S → Bytes × Data S} {r : Bytes} (hr : ∀ d, h d = (r, d))
    (htype : v.type ≠ type) : StartsFresh type key h d := by
  intro now
  rw [hr, hr]
  refine seenAlike_of_other_type now (fun w hw => ?_) (UMap.find?_erase_self d key)
  rwa [← Option.some.inj (hv.symm.trans hw)]

include hexpiry

/-- A handler that writes `write v`: fresh contents exactly when there is no leftover. -/
theorem startsFresh_write_iff {h : Data S → Bytes × Data S} (write : RedisValue S → RedisValue S)
    {leftover : Prop} (hholds : ∀ d, Holds key (h d).2 (write ((d.find? key).getD default)))
    (hwt : ∀ v, (write v).type = type) (hwe : ∀ v, (write v).expiryTime = v.expiryTime)
    (hsame : ¬ leftover → SamePayload type (write v) (write default))
    (hshows : SameOutline type (write v) (write default) → ¬ leftover) :
    StartsFresh type key h d ↔ ¬ leftover := by
  have hd := hholds d
  have hd' := hholds (d.erase key)
  rw [hv, Option.getD_some] at hd
  rw [UMap.find?_erase_self, Option.getD_none] at hd'
  have he : (write v).expiryTime = 0 := (hwe v).trans hexpiry
  have he' : (write default).expiryTime = 0 := hwe default
  constructor
  · exact fun hfresh => hshows (hd.sameOutline hd' (hwt _) (hwt _) he he' (hfresh 0))
  · exact fun hno now => hd.seenAlike hd' (hwt _) (hwt _) he he' (hsame hno) now

include htype

theorem push_startsFresh_iff {arity notBulkKey notBulkRest : String}
    {run : Bytes → List Bytes → Data S → Bytes × Data S} (push : List Bytes → List Bytes → List Bytes)
    (hrun : ∀ values d, (run key values d).2 = Database.incrementModCount key
      (Database.writeThrough (fun val =>
        { val with type := .list, listVal := push values val.listVal }) key d))
    (hpush : ∀ values l, (push values l).length = values.length + l.length) (name : RespValue)
    (rest : List RespValue) (hlist : type = .list) :
    StartsFresh type key
        (withKeyAndRest arity notBulkKey notBulkRest run (name :: .bulkString key :: rest)) d ↔
      ¬ ((values? rest).isSome = true ∧ v.listVal ≠ []) := by
  subst hlist
  rcases withKeyAndRest_key arity notBulkKey notBulkRest run name key rest with
    ⟨values, hrest, hrun'⟩ | ⟨hrest, r, hr⟩
  · rw [hrun', hrest]
    refine startsFresh_write_iff hv hexpiry (fun val =>
      { val with type := .list, listVal := push values val.listVal }) (fun d => ?_)
      (fun _ => rfl) (fun _ => rfl) (fun hno => ?_) fun hsame hleft => ?_
    · rw [hrun]
      exact (holds_writeThrough _ key d).incrementModCount
    · have hnil : v.listVal = [] := by simpa using hno
      show push values v.listVal = push values []
      rw [hnil]
    · have hlen : (push values v.listVal).length = (push values []).length := hsame
      rw [hpush, hpush] at hlen
      exact hleft.2 (List.length_eq_zero_iff.mp (by simpa using hlen))
  · rw [hrest]
    exact iff_of_true (startsFresh_of_refused hv hr htype) (by simp)

theorem set_startsFresh (hstring : type = .string) (name : RespValue) (rest : List RespValue) :
    StartsFresh type key (handleSet (name :: .bulkString key :: rest)) d := by
  subst hstring
  unfold handleSet
  rcases withTwo_key "ERR SET requires exactly 2 arguments"
    "ERR SET arguments must be bulk strings" (fun key value (d : Data S) =>
      (okReply, Database.incrementModCount key (Database.set key value d))) name key rest with
    ⟨value, -, hrun⟩ | ⟨-, r, hr⟩
  · rw [hrun]
    have hiff : StartsFresh .string key (fun d =>
        (okReply, Database.incrementModCount key (Database.set key value d))) d ↔ ¬ False := by
      refine startsFresh_write_iff hv hexpiry (fun val =>
        { val with type := .string, strVal := value }) (fun d => ?_) (fun _ => rfl)
        (fun _ => rfl) (fun _ => rfl) fun _ => id
      exact (holds_writeThrough _ key d).incrementModCount
    exact hiff.mpr id
  · exact startsFresh_of_refused hv hr htype

theorem sadd_startsFresh_iff (hset : type = .set) (name : RespValue) (rest : List RespValue) :
    StartsFresh type key (handleSadd (name :: .bulkString key :: rest)) d ↔
      ¬ Resurfaces .sadd rest v := by
  subst hset
  have hmem : ∀ (s : USet Bytes) (xs : List Bytes) (m : Bytes),
      (USet.insertMany s xs).contains m = true ↔ s.contains m = true ∨ m ∈ xs := fun s xs m => by
    rw [UMap.contains_iff_mem_keys, UMap.contains_iff_mem_keys, USet.mem_keys_insertMany]
  unfold handleSadd
  rcases withKeyAndRest_key "ERR SADD requires at least 2 arguments"
    "ERR SADD key must be a bulk string" "ERR SADD members must be bulk strings"
    (fun key members (d : Data S) =>
      let added := Database.sadd key members d
      (intReply added.1,
        if added.1 > 0 then Database.incrementModCount key added.2 else added.2)) name key rest with
    ⟨members, hrest, hrun⟩ | ⟨hrest, r, hr⟩
  · rw [hrun]
    refine startsFresh_write_iff hv hexpiry (fun val =>
      { val with type := .set, setVal := USet.insertMany val.setVal members }) (fun d => ?_)
      (fun _ => rfl) (fun _ => rfl) (fun hno m => ?_) ?_
    · have hholds := holds_writeThrough (fun val : RedisValue S =>
        { val with type := .set, setVal := USet.insertMany val.setVal members }) key d
      dsimp only
      split
      · exact hholds.incrementModCount
      · exact hholds
    · -- values of a set are units, so membership decides the lookup
      have hunit : ∀ s t : USet Bytes, (s.contains m = true ↔ t.contains m = true) →
          s.find? m = t.find? m := fun s t h => by
        simp only [UMap.contains] at h
        cases hs : s.find? m <;> cases ht : t.find? m <;> simp_all
      refine hunit _ _ ?_
      rw [hmem, hmem]
      constructor
      · rintro (hm | hm)
        · by_contra hnot
          exact hno ⟨members, hrest, m, hm, fun hin => hnot (.inr hin)⟩
        · exact .inr hm
      · rintro (hm | hm)
        · simp [show (default : RedisValue S).setVal = ∅ from rfl, UMap.contains] at hm
        · exact .inr hm
    · rintro hsame ⟨members', hrest', m, hm, hnot⟩
      obtain rfl : members = members' := Option.some.inj (hrest.symm.trans hrest')
      have h := (hmem v.setVal members m).mpr (.inl hm)
      rw [show (USet.insertMany v.setVal members).contains m = _ from hsame m, hmem] at h
      rcases h with h | h
      · simp [show (default : RedisValue S).setVal = ∅ from rfl, UMap.contains] at h
      · exact hnot h
  · refine iff_of_true (startsFresh_of_refused hv hr htype) ?_
    rintro ⟨members, hrest', -⟩
    simp [hrest] at hrest'

theorem hset_startsFresh_iff (hhash : type = .hash) (name : RespValue) (rest : List RespValue) :
    StartsFresh type key (handleHset (name :: .bulkString key :: rest)) d ↔
      ¬ Resurfaces .hset rest v := by
  subst hhash
  rcases handleHset_key (S := S) name key rest with ⟨hrest, hrun⟩ | ⟨hrest, r, hr⟩
  · refine startsFresh_write_iff hv hexpiry (fun val =>
      { val with type := .hash, hashVal := val.hashVal.setMany (leadingPairs rest) }) (fun d => ?_)
      (fun _ => rfl) (fun _ => rfl) (fun hno f => ?_) ?_
    · have hholds : Holds key ((leadingPairs rest).foldl
          (fun d p => Database.hset key p.1 p.2 d) d) { (d.find? key).getD default with
            type := .hash
            hashVal := ((d.find? key).getD default).hashVal.setMany (leadingPairs rest) } := by
        rw [foldl_hset key hrest.2]
        exact ⟨_, UMap.find?_set_self _ _ _⟩
      rw [hrun d]
      split
      · exact hholds
      · exact hholds.incrementModCount
    · show (v.hashVal.setMany _).find? f = ((default : RedisValue S).hashVal.setMany _).find? f
      rw [UMap.find?_setMany, UMap.find?_setMany]
      by_cases hf : f ∈ (leadingPairs rest).map Prod.fst
      · obtain ⟨x, hx⟩ := Option.isSome_iff_exists.mp (lookupLast_isSome_iff.mpr hf)
        simp [hx]
      · have hnone : v.hashVal.find? f = none := by
          by_contra hsome
          refine hno ⟨hrest, f, ?_, hf⟩
          simpa [UMap.contains, Option.isSome_iff_ne_none] using hsome
        rw [hnone]
        rfl
    · rintro hsame ⟨-, f, hf, hnot⟩
      have hnone : lookupLast f (leadingPairs rest) = none := by
        simpa using mt lookupLast_isSome_iff.mp hnot
      have h : (v.hashVal.setMany (leadingPairs rest)).contains f =
          ((default : RedisValue S).hashVal.setMany (leadingPairs rest)).contains f := hsame f
      rw [UMap.contains, UMap.contains, UMap.find?_setMany, UMap.find?_setMany, hnone] at h
      have hf' : (v.hashVal.find? f).isSome = true := hf
      simp [hf', show (default : RedisValue S).hashVal = ∅ from rfl] at h
  · exact iff_of_true (startsFresh_of_refused hv hr htype) fun h => hrest h.1

theorem zadd_startsFresh_iff (hagree : v.IndexesAgree) (hzset : type = .zset) (name : RespValue)
    (rest : List RespValue) :
    StartsFresh type key (handleZadd (name :: .bulkString key :: rest)) d ↔
      ¬ Resurfaces .zadd rest v := by
  subst hzset
  rcases handleZadd_key (S := S) name key rest with ⟨ps, hrest, hrun⟩ | ⟨hrest, r, hr⟩
  · refine startsFresh_write_iff hv hexpiry (fun val => ps.foldl Database.zaddOne
      { val with type := .zset }) (fun d => ?_) (fun _ => type_foldl_zaddOne ps _)
      (fun _ => expiryTime_foldl_zaddOne ps _) (fun hno => ?_) ?_
    · have hholds := holds_writeThrough (fun val : RedisValue S => ps.foldl Database.zaddOne
        { val with type := .zset }) key d
      rw [hrun d]
      exact hholds.incrementModCount
    · refine samePayload_zset (v := { v with type := .zset })
        (w := { (default : RedisValue S) with type := .zset }) hagree rfl rfl fun m hm => ?_
      by_contra hnot
      exact hno ⟨ps, hrest, m, hm, hnot⟩
    · rintro hsame ⟨ps', hrest', m, hm, hnot⟩
      obtain rfl : ps = ps' := Except.ok.inj (hrest.2.2.symm.trans hrest'.2.2)
      have hnone : lastScore m ps = none := by
        simpa using mt lastScore_isSome_iff.mp hnot
      have h := hsame m
      rw [UMap.contains, UMap.contains, Database.find?_foldl_zaddOne, Database.find?_foldl_zaddOne,
        hnone] at h
      have hm' : (v.zsetMemberToScore.find? m).isSome = true := hm
      simp [hm', show (default : RedisValue S).zsetMemberToScore = ∅ from rfl] at h
  · refine iff_of_true (startsFresh_of_refused hv hr htype) ?_
    rintro ⟨ps, hps, -⟩
    exact hrest ⟨ps, hps⟩

end Fresh

/-! ### The law -/

/-- In every reachable store where `key` holds a value of another type without expiry: the contents
after a write are those of a fresh key exactly when the value keeps no leftover of the new type that
the write does not cover. -/
theorem type_change_iff (ops : List (Operation S)) (env : Env Λ) (now : ℤ) (cmd : Command)
    (type : RedisType) (name : RespValue) (key : Bytes) (rest : List RespValue) (s : Session S Λ)
    (v : RedisValue S) (hreach : s.world.data = Operation.run ops ∅)
    (hcmd : cmd.writesType = some type) (hv : s.world.data.find? key = some v)
    (hexpiry : v.expiryTime = 0) (htype : v.type ≠ type) :
    (∀ t, SeenAlike t type key
      (dispatch env now (some cmd) (name :: .bulkString key :: rest) s).2.world.data
      (dispatch env now (some cmd) (name :: .bulkString key :: rest)
        (s.setData (s.world.data.erase key))).2.world.data) ↔ ¬ Resurfaces cmd rest v := by
  cases cmd with
  | set =>
    have hstring := (Option.some.inj hcmd).symm
    exact iff_of_true (set_startsFresh hv hexpiry htype hstring name rest) id
  | lpush =>
    exact push_startsFresh_iff hv hexpiry htype (fun values l => values.reverse ++ l)
      (fun _ _ => rfl) (by simp) name rest (Option.some.inj hcmd).symm
  | rpush =>
    exact push_startsFresh_iff hv hexpiry htype (fun values l => l ++ values)
      (fun _ _ => rfl) (by simp [Nat.add_comm]) name rest (Option.some.inj hcmd).symm
  | sadd => exact sadd_startsFresh_iff hv hexpiry htype (Option.some.inj hcmd).symm name rest
  | hset => exact hset_startsFresh_iff hv hexpiry htype (Option.some.inj hcmd).symm name rest
  | zadd =>
    have hagree : v.IndexesAgree := by
      have hinv := (zsetInv_run (ops.flatMap Operation.calls) key).1
      rwa [← Operation.run_eq_run_calls, ← hreach, hv] at hinv
    exact zadd_startsFresh_iff hv hexpiry htype hagree (Option.some.inj hcmd).symm name rest
  | _ => simp [Command.writesType] at hcmd

/-- `RPUSH k a`, `SET k v`. -/
def listThenString : List (Operation NatScore) :=
  [.call (.rpush [107] [[97]]), .call (.set [107] [118])]

/-- A `SADD k m` on top of it sees no leftover: the value has no hidden set. -/
theorem sadd_after_set_fresh :
    ((Operation.run listThenString ∅).find? [107]).map RedisValue.type = some .string ∧
    ∀ t, SeenAlike t .set [107]
      (dispatch Env.standalone 0 (some .sadd) [.bulkString (str "SADD"), .bulkString [107],
        .bulkString [109]] (Session.fresh (Operation.run listThenString ∅))).2.world.data
      (dispatch Env.standalone 0 (some .sadd) [.bulkString (str "SADD"), .bulkString [107],
        .bulkString [109]] ((Session.fresh (Operation.run listThenString ∅)).setData
          ((Operation.run listThenString ∅).erase [107]))).2.world.data := by
  refine ⟨rfl, (type_change_iff listThenString Env.standalone 0 .sadd .set _ [107]
    [.bulkString [109]] (Session.fresh (Operation.run listThenString ∅)) _ rfl rfl rfl rfl
    (by decide)).mpr ?_⟩
  intro hresurfaces
  obtain ⟨members, -, m, hm, -⟩ := hresurfaces
  have hnone : (∅ : USet Bytes).contains m = false := rfl
  exact Bool.false_ne_true (hnone.symm.trans hm)

/-- An `RPUSH k b` on top of it brings `a` back. -/
theorem rpush_after_set_resurfaces :
    ¬ ∀ (ops : List (Operation NatScore)) (env : Env Unit) (now : ℤ) (cmd : Command)
      (type : RedisType) (name : RespValue) (key : Bytes) (rest : List RespValue)
      (s : Session NatScore Unit) (v : RedisValue NatScore),
      s.world.data = Operation.run ops ∅ → cmd.writesType = some type →
      s.world.data.find? key = some v → v.expiryTime = 0 → v.type ≠ type →
      ∀ t, SeenAlike t type key
        (dispatch env now (some cmd) (name :: .bulkString key :: rest) s).2.world.data
        (dispatch env now (some cmd) (name :: .bulkString key :: rest)
          (s.setData (s.world.data.erase key))).2.world.data := by
  intro h
  have hseen := h listThenString Env.standalone 0 .rpush .list (.bulkString (str "RPUSH")) [107]
    [.bulkString [98]] (Session.fresh (Operation.run listThenString ∅)) _ rfl rfl rfl rfl
    (by decide) 0
  exact absurd hseen.1 (by decide)

end MinimalRedis
