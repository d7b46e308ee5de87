import MinimalRedis.RdbFormat
import MinimalRedis.Rescoring

/-!
# What the RDB reader writes

The reader's calls, seen from the entries: a `Write` is what one call does to the value under its key.
A record writes through `data[key]`, so it **adds to** whatever the key holds already.

* `run_item_calls` — the calls of an item are its writes, in order;
* `find?_applyWrites` — the entry at `k` depends on the writes at `k` only;
* `foldl_apply_eq_self_iff` — writes leave a value as it is exactly when they bring no news to it.
-/

namespace MinimalRedis

open Lib

variable {S : Type} [Score S]

attribute [ext] RedisValue

variable (S) in
/-- What one call of the reader does to the value under its key. -/
inductive Write where
  | string (value : Bytes)
  | stamp (expiry : ℤ)
  | push (value : Bytes)
  | members (ms : List Bytes)
  | scored (ps : List (S × Bytes))
  | field (name value : Bytes)

namespace Write

def apply (v : RedisValue S) : Write S → RedisValue S
  | string value => { v with type := .string, strVal := value }
  | stamp expiry => { v with expiryTime := expiry }
  | push value => { v with type := .list, listVal := v.listVal ++ [value] }
  | members ms => { v with type := .set, setVal := USet.insertMany v.setVal ms }
  | scored ps => ps.foldl Database.zaddOne { v with type := .zset }
  | field name value => { v with type := .hash, hashVal := v.hashVal.set name value }

/-! The parts of a write, by the member they concern. -/

def type? : Write S → Option RedisType
  | string _ => some .string
  | stamp _ => none
  | push _ => some .list
  | members _ => some .set
  | scored _ => some .zset
  | field _ _ => some .hash

def string? : Write S → Option Bytes
  | string value => some value
  | _ => none

def stamp? : Write S → Option ℤ
  | stamp expiry => some expiry
  | _ => none

def pushed? : Write S → Option Bytes
  | push value => some value
  | _ => none

def setMembers : Write S → List Bytes
  | members ms => ms
  | _ => []

def field? : Write S → Option (Bytes × Bytes)
  | field name value => some (name, value)
  | _ => none

def scores : Write S → List (S × Bytes)
  | scored ps => ps
  | _ => []

end Write

/-! ### The value after some writes -/

section Values

/-- A member of a value that a write of `part?` assigns and every other one keeps: the last assignment
is what is left. -/
theorem foldl_apply_last {α : Type} (get : RedisValue S → α) (part? : Write S → Option α)
    (hstep : ∀ v w, get (Write.apply v w) = (part? w).getD (get v)) (ws : List (Write S))
    (v : RedisValue S) :
    get (ws.foldl Write.apply v) = (ws.filterMap part?).getLastD (get v) := by
  induction ws generalizing v with
  | nil => rfl
  | cons w ws ih =>
    rw [List.foldl_cons, ih, hstep]
    cases hpart : part? w with
    | none => rw [List.filterMap_cons_none hpart, Option.getD_none]
    | some x => rw [List.filterMap_cons_some hpart, List.getLastD_cons, Option.getD_some]

variable (ws : List (Write S)) (v : RedisValue S)

theorem type_foldl_apply : (ws.foldl Write.apply v).type =
    (ws.filterMap Write.type?).getLastD v.type := by
  apply foldl_apply_last RedisValue.type
  intro v w
  cases w with
  | scored ps => exact Database.foldl_zaddOne_keeps RedisValue.type (fun _ _ => rfl) ps _
  | _ => rfl

theorem strVal_foldl_apply : (ws.foldl Write.apply v).strVal =
    (ws.filterMap Write.string?).getLastD v.strVal := by
  apply foldl_apply_last RedisValue.strVal
  intro v w
  cases w with
  | scored ps => exact Database.foldl_zaddOne_keeps RedisValue.strVal (fun _ _ => rfl) ps _
  | _ => rfl

theorem expiryTime_foldl_apply : (ws.foldl Write.apply v).expiryTime =
    (ws.filterMap Write.stamp?).getLastD v.expiryTime := by
  apply foldl_apply_last RedisValue.expiryTime
  intro v w
  cases w with
  | scored ps => exact Database.foldl_zaddOne_keeps RedisValue.expiryTime (fun _ _ => rfl) ps _
  | _ => rfl

theorem modCount_foldl_apply : (ws.foldl Write.apply v).modCount = v.modCount := by
  induction ws generalizing v with
  | nil => rfl
  | cons w ws ih =>
    rw [List.foldl_cons, ih]
    cases w with
    | scored ps => exact Database.foldl_zaddOne_keeps RedisValue.modCount (fun _ _ => rfl) ps _
    | _ => rfl

theorem listVal_foldl_apply : (ws.foldl Write.apply v).listVal =
    v.listVal ++ ws.filterMap Write.pushed? := by
  induction ws generalizing v with
  | nil => simp
  | cons w ws ih =>
    rw [List.foldl_cons, ih]
    cases w with
    | scored ps =>
      rw [Write.apply, Database.foldl_zaddOne_keeps RedisValue.listVal (fun _ _ => rfl)]
      rfl
    | push value => simp [Write.pushed?, Write.apply]
    | _ => rfl

theorem setVal_foldl_apply : (ws.foldl Write.apply v).setVal =
    USet.insertMany v.setVal (ws.flatMap Write.setMembers) := by
  induction ws generalizing v with
  | nil => rfl
  | cons w ws ih =>
    rw [List.foldl_cons, ih, List.flatMap_cons]
    cases w with
    | scored ps =>
      rw [Write.apply, Database.foldl_zaddOne_keeps RedisValue.setVal (fun _ _ => rfl)]
      rfl
    | members ms => exact List.foldl_append.symm
    | _ => rfl

theorem hashVal_foldl_apply : (ws.foldl Write.apply v).hashVal =
    v.hashVal.setMany (ws.filterMap Write.field?) := by
  induction ws generalizing v with
  | nil => rfl
  | cons w ws ih =>
    rw [List.foldl_cons, ih]
    cases w with
    | scored ps =>
      rw [Write.apply, Database.foldl_zaddOne_keeps RedisValue.hashVal (fun _ _ => rfl)]
      rfl
    | _ => rfl

theorem zsetOf_foldl_apply : zsetOf (ws.foldl Write.apply v) =
    zsetOf ((ws.flatMap Write.scores).foldl Database.zaddOne v) := by
  induction ws generalizing v with
  | nil => rfl
  | cons w ws ih =>
    rw [List.foldl_cons, ih, List.flatMap_cons, List.foldl_append]
    cases w with
    | scored ps => exact zsetOf_foldl_zaddOne _ (zsetOf_foldl_zaddOne ps rfl)
    | _ => exact zsetOf_foldl_zaddOne _ rfl

/-- The writes bring no news to `v`: the last type, string and timestamp are the ones it has, no list
element is pushed, the set members and the last value of every hash field are there, and so is the
last score of every member scored; of the members of one score these stand last, as their last scorings
come.  Where the two indexes do not agree, scoring the members again leaves them as they are. -/
structure Known : Prop where
  type : ∀ t ∈ (ws.filterMap Write.type?).getLast?, t = v.type
  string : ∀ s ∈ (ws.filterMap Write.string?).getLast?, s = v.strVal
  stamp : ∀ t ∈ (ws.filterMap Write.stamp?).getLast?, t = v.expiryTime
  list : ∀ value, Write.push value ∉ ws
  set : ∀ ms, Write.members ms ∈ ws → ∀ m ∈ ms, v.setVal.contains m = true
  hash : ∀ name value, lookupLast name (ws.filterMap Write.field?) = some value →
    v.hashVal.find? name = some value
  zsetScores : ∀ m s, lastScore m (ws.flatMap Write.scores) = some s → v.zsetMemberToScore.find? m = some s
  zsetOrder : v.IndexesAgree → ∀ s, valuesAt s v.zsetScoreToMember.entries =
    (valuesAt s v.zsetScoreToMember.entries).filter
        (fun m => decide (m ∉ (ws.flatMap Write.scores).map Prod.snd)) ++
      valuesAt s (lastScorings (ws.flatMap Write.scores))
  zsetApart : ¬ v.IndexesAgree → (ws.flatMap Write.scores).foldl Database.zaddOne v = v

theorem getLastD_eq_self_iff {α : Type} (l : List α) (x : α) :
    l.getLastD x = x ↔ ∀ y ∈ l.getLast?, y = x := by
  rw [List.getLastD_eq_getLast?]
  cases l.getLast? with
  | none => simp
  | some y => simp

theorem insertMany_eq_self_iff {s : USet Bytes} {xs : List Bytes} :
    USet.insertMany s xs = s ↔ ∀ x ∈ xs, s.contains x = true := by
  constructor
  · intro h
    apply USet.contains_of_size_insertMany_le
    rw [h]
  · exact USet.insertMany_eq_self

omit [Score S] in
theorem filterMap_pushed?_eq_nil_iff :
    ws.filterMap Write.pushed? = [] ↔ ∀ value, Write.push value ∉ ws := by
  rw [List.filterMap_eq_nil_iff]
  constructor
  · intro h value hmem
    cases h _ hmem
  · intro h w hw
    cases w with
    | push value => exact absurd hw (h value)
    | _ => rfl

omit [Score S] in
theorem forall_mem_setMembers_iff {P : Bytes → Prop} :
    (∀ m ∈ ws.flatMap Write.setMembers, P m) ↔ ∀ ms, Write.members ms ∈ ws → ∀ m ∈ ms, P m := by
  constructor
  · intro h ms hms m hm
    exact h m (List.mem_flatMap.mpr ⟨_, hms, hm⟩)
  · intro h m hm
    obtain ⟨w, hw, hmem⟩ := List.mem_flatMap.mp hm
    cases w with
    | members ms => exact h ms hw m hmem
    | _ => cases hmem

theorem foldl_apply_eq_self_iff : ws.foldl Write.apply v = v ↔ Known ws v := by
  constructor
  · intro h
    have hzset := zsetOf_foldl_apply ws v
    rw [h] at hzset
    obtain ⟨hscores, horder, hapart⟩ := (foldl_zaddOne_eq_self_iff_cases _ v).mp
      ((foldl_zaddOne_eq_self_iff _ v).mp hzset.symm)
    refine ⟨?_, ?_, ?_, ?_, ?_, ?_, hscores, horder, hapart⟩
    · rw [← getLastD_eq_self_iff, ← type_foldl_apply, h]
    · rw [← getLastD_eq_self_iff, ← strVal_foldl_apply, h]
    · rw [← getLastD_eq_self_iff, ← expiryTime_foldl_apply, h]
    · refine (filterMap_pushed?_eq_nil_iff ws).mp ?_
      have hlist := listVal_foldl_apply ws v
      rw [h] at hlist
      exact List.append_right_eq_self.mp hlist.symm
    · rw [← forall_mem_setMembers_iff, ← insertMany_eq_self_iff, ← setVal_foldl_apply, h]
    · rw [← UMap.setMany_eq_self_iff, ← hashVal_foldl_apply, h]
  · intro h
    have hzset := zsetOf_foldl_apply ws v
    rw [(foldl_zaddOne_eq_self_iff_cases _ v).mpr ⟨h.zsetScores, h.zsetOrder, h.zsetApart⟩] at hzset
    obtain ⟨hscore, hmember⟩ := Prod.mk.inj hzset
    ext1
    · rw [type_foldl_apply, getLastD_eq_self_iff]
      exact h.type
    · rw [expiryTime_foldl_apply, getLastD_eq_self_iff]
      exact h.stamp
    · exact modCount_foldl_apply ws v
    · rw [strVal_foldl_apply, getLastD_eq_self_iff]
      exact h.string
    · rw [listVal_foldl_apply, List.append_right_eq_self, filterMap_pushed?_eq_nil_iff]
      exact h.list
    · rw [setVal_foldl_apply, insertMany_eq_self_iff, forall_mem_setMembers_iff]
      exact h.set
    · rw [hashVal_foldl_apply, UMap.setMany_eq_self_iff]
      exact h.hash
    · exact hscore
    · exact hmember

end Values

/-! ### The database after some writes -/

/-- Write through `data[key]`, one after the other. -/
def applyWrites (ws : List (Bytes × Write S)) (d : Data S) : Data S :=
  ws.foldl (fun d w => Database.writeThrough (fun v => w.2.apply v) w.1 d) d

/-- The writes under one key. -/
def writesAt (k : Bytes) (ws : List (Bytes × Write S)) : List (Write S) :=
  ws.filterMap fun w => if w.1 = k then some w.2 else none

theorem applyWrites_append (ws ws' : List (Bytes × Write S)) (d : Data S) :
    applyWrites (ws ++ ws') d = applyWrites ws' (applyWrites ws d) := List.foldl_append

theorem find?_applyWrites (ws : List (Bytes × Write S)) (d : Data S) (k : Bytes) :
    (applyWrites ws d).find? k =
      if writesAt k ws = [] then d.find? k
      else some ((writesAt k ws).foldl Write.apply ((d.find? k).getD default)) := by
  induction ws generalizing d with
  | nil => rfl
  | cons w ws ih =>
    show (applyWrites ws (Database.writeThrough (fun v => w.2.apply v) w.1 d)).find? k = _
    rw [ih, Database.writeThrough]
    by_cases hk : w.1 = k
    · subst hk
      have hat : writesAt w.1 (w :: ws) = w.2 :: writesAt w.1 ws := by simp [writesAt]
      rw [hat, UMap.find?_set_self, if_neg (List.cons_ne_nil _ _), List.foldl_cons, Option.getD_some]
      split
      · rename_i hnil
        rw [hnil]
        rfl
      · rfl
    · have hat : writesAt k (w :: ws) = writesAt k ws := by simp [writesAt, hk]
      rw [hat, UMap.find?_set_ne _ _ (Ne.symm hk)]

omit [Score S] in
/-- Writes under one key. -/
theorem writesAt_map (k key : Bytes) (ws : List (Write S)) :
    writesAt k (ws.map (key, ·)) = if key = k then ws else [] := by
  split
  · rename_i hkey
    simp [writesAt, hkey, List.filterMap_map]
  · rename_i hkey
    simp [writesAt, hkey, List.filterMap_map]

theorem keys_applyWrites {ws : List (Bytes × Write S)} {d : Data S}
    (h : ∀ w ∈ ws, w.1 ∈ d.keys) : (applyWrites ws d).keys = d.keys := by
  induction ws generalizing d with
  | nil => rfl
  | cons w ws ih =>
    have hkeys : (Database.writeThrough (fun v => w.2.apply v) w.1 d).keys = d.keys :=
      map_fst_setList_of_mem _ (h w List.mem_cons_self)
    show (applyWrites ws (Database.writeThrough (fun v => w.2.apply v) w.1 d)).keys = _
    rw [ih, hkeys]
    intro w' hw'
    rw [hkeys]
    exact h w' (List.mem_cons_of_mem _ hw')

/-- Writes leave a database as it is exactly when they are all under keys that it holds, and bring no
news there. -/
theorem applyWrites_eq_self_iff (ws : List (Bytes × Write S)) (d : Data S) :
    applyWrites ws d = d ↔
      ∀ k, writesAt k ws ≠ [] → ∃ v, d.find? k = some v ∧ Known (writesAt k ws) v := by
  constructor
  · intro h k hk
    have hfind := find?_applyWrites ws d k
    rw [h, if_neg hk] at hfind
    cases hv : d.find? k with
    | none =>
      rw [hv] at hfind
      cases hfind
    | some v =>
      rw [hv, Option.getD_some] at hfind
      exact ⟨v, rfl, (foldl_apply_eq_self_iff _ v).mp (Option.some.inj hfind).symm⟩
  · intro h
    refine UMap.ext_of_keys (keys_applyWrites ?_) ?_
    · intro w hw
      have hne : writesAt w.1 ws ≠ [] := by
        intro hnil
        have := List.filterMap_eq_nil_iff.mp hnil w hw
        simp at this
      obtain ⟨v, hv, -⟩ := h w.1 hne
      rw [UMap.mem_keys_iff, hv]
      rfl
    · intro k
      rw [find?_applyWrites]
      split
      · rfl
      · rename_i hne
        obtain ⟨v, hv, hknown⟩ := h k hne
        rw [hv, Option.getD_some, (foldl_apply_eq_self_iff _ v).mpr hknown]

/-! ### The writes of an item -/

/-- What the calls of a payload do to the value under the key. -/
def Payload.writes (expiryMs : ℤ) : Payload → List (Write S)
  | string value => .string value.content :: if expiryMs > 0 then [.stamp expiryMs] else []
  | list values _ => values.map fun value => .push value.content
  | set members _ => [.members (members.map Encoded.content)]
  | zset members _ => [.scored (members.map memberPair)]
  | hash fields _ => fields.map fun f => .field f.1.content f.2.content
  | selectdb => []
  | unknown _ _ => []

def Item.writes (item : Item) : List (Bytes × Write S) :=
  (item.payload.writes item.expiryMs).map (item.key.content, ·)

/-- A call that writes through `data[key]`. -/
def IsWrite (c : Call S) (w : Bytes × Write S) : Prop :=
  ∀ d, c.apply d = Database.writeThrough (fun v => w.2.apply v) w.1 d

theorem run_eq_applyWrites {α : Type} (call : α → Call S) (write : α → Bytes × Write S)
    (h : ∀ x, IsWrite (call x) (write x)) (l : List α) (d : Data S) :
    Call.run (l.map call) d = applyWrites (l.map write) d := by
  induction l generalizing d with
  | nil => rfl
  | cons x l ih =>
    show Call.run (l.map call) ((call x).apply d) =
      applyWrites (l.map write) (Database.writeThrough (fun v => (write x).2.apply v) (write x).1 d)
    rw [ih, h x d]

theorem run_fieldCalls (key : Bytes) (fields : List (Encoded × Encoded)) (d : Data S) :
    Call.run (fields.map (fieldCall key)) d =
      applyWrites (fields.map fun f => (key, .field f.1.content f.2.content)) d := by
  apply run_eq_applyWrites
  intro f d
  rfl

theorem run_payload_calls (key : Bytes) (expiryMs : ℤ) (p : Payload) (d : Data S) :
    Call.run (p.calls key expiryMs) d = applyWrites ((p.writes expiryMs).map (key, ·)) d := by
  cases p with
  | string value =>
    simp only [Payload.calls, Payload.writes]
    split
    · -- the string is there by the time its timestamp is set
      show Database.setExpiryTime key expiryMs (Database.set key value.content d) =
        Database.writeThrough (fun v => (Write.stamp expiryMs).apply v) key
          (Database.set key value.content d)
      simp only [Database.setExpiryTime, Database.set, Database.writeThrough, UMap.find?_set_self,
        Option.getD_some, Write.apply]
    · rfl
  | list values fits =>
    simp only [Payload.calls, Payload.writes, List.map_map]
    apply run_eq_applyWrites
    intro value d
    rfl
  | hash fields fits =>
    simp only [Payload.calls, Payload.writes, List.map_map]
    exact run_fieldCalls key fields d
  | set members fits => rfl
  | zset members fits => rfl
  | selectdb => rfl
  | unknown type h => rfl

theorem run_item_calls (item : Item) (d : Data S) :
    Call.run item.calls d = applyWrites item.writes d :=
  run_payload_calls item.key.content item.expiryMs item.payload d

end MinimalRedis
