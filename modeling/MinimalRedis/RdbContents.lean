import MinimalRedis.RdbWrites

/-!
# The contents that writes build

The reader builds a database by its writes alone.  Here their result is said by members, scores and
order, without running them.

* `Builds`, `builds_iff` — when the writes under a key build an entry of the same type and contents;
* `sameView_run_items_iff` — so when a row of items read into an empty database shows the same under a
  key as another database.
-/

namespace MinimalRedis

open Lib

variable {S : Type} [Score S]

/-! ### A new entry -/

/-- Into a new entry, the writes build one of the type of `v` and with its contents: the last string,
the elements as they are pushed, the members, the last value of each field, and of each member the last
score, those of one score as their last scorings come. -/
structure Builds (ws : List (Write S)) (v : RedisValue S) : Prop where
  type : (ws.filterMap Write.type?).getLastD .string = v.type
  string : v.type = .string → (ws.filterMap Write.string?).getLastD [] = v.strVal
  list : v.type = .list → ws.filterMap Write.pushed? = v.listVal
  set : v.type = .set → ∀ m, m ∈ ws.flatMap Write.setMembers ↔ v.setVal.contains m = true
  hash : v.type = .hash → ∀ name, lookupLast name (ws.filterMap Write.field?) = v.hashVal.find? name
  scores : v.type = .zset → ∀ m, lastScore m (ws.flatMap Write.scores) = v.zsetMemberToScore.find? m
  order : v.type = .zset → ∀ s, valuesAt s (lastScorings (ws.flatMap Write.scores)) =
    valuesAt s v.zsetScoreToMember.entries

/-- A set's table says no more than which keys are there. -/
theorem eq_of_isSome_iff {x y : Option Unit} (h : x.isSome = true ↔ y.isSome = true) : x = y := by
  cases x with
  | none =>
    cases y with
    | none => rfl
    | some u => exact absurd (h.mpr rfl) Bool.false_ne_true
  | some u =>
    cases y with
    | none => exact absurd (h.mp rfl) Bool.false_ne_true
    | some u' => rfl

theorem builds_iff (ws : List (Write S)) (v : RedisValue S) :
    v.type = (ws.foldl Write.apply default).type ∧ SamePayload v.type v (ws.foldl Write.apply default) ↔
      Builds ws v := by
  have htype : (ws.foldl Write.apply (default : RedisValue S)).type =
      (ws.filterMap Write.type?).getLastD .string := type_foldl_apply ws default
  have hstring : (ws.foldl Write.apply (default : RedisValue S)).strVal =
      (ws.filterMap Write.string?).getLastD [] := strVal_foldl_apply ws default
  have hlist : (ws.foldl Write.apply (default : RedisValue S)).listVal =
      ws.filterMap Write.pushed? := listVal_foldl_apply ws default
  have hset : ∀ m, (ws.foldl Write.apply (default : RedisValue S)).setVal.contains m = true ↔
      m ∈ ws.flatMap Write.setMembers := by
    intro m
    rw [setVal_foldl_apply, UMap.contains_iff_mem_keys, USet.mem_keys_insertMany]
    exact or_iff_right List.not_mem_nil
  have hhash : ∀ name, (ws.foldl Write.apply (default : RedisValue S)).hashVal.find? name =
      lookupLast name (ws.filterMap Write.field?) := by
    intro name
    rw [hashVal_foldl_apply, UMap.find?_setMany]
    exact Option.or_none
  obtain ⟨hbyScore, hbyMember⟩ := Prod.mk.inj (zsetOf_foldl_apply ws (default : RedisValue S))
  have hscores : ∀ m, (ws.foldl Write.apply (default : RedisValue S)).zsetMemberToScore.find? m =
      lastScore m (ws.flatMap Write.scores) := by
    intro m
    rw [hbyMember, Database.find?_foldl_zaddOne]
    exact Option.or_none
  have horder : ∀ s, valuesAt s (ws.foldl Write.apply (default : RedisValue S)).zsetScoreToMember.entries =
      valuesAt s (lastScorings (ws.flatMap Write.scores)) := by
    intro s
    rw [hbyScore, valuesAt_foldl_zaddOne _ RedisValue.indexesAgree_default]
    rfl
  constructor
  · intro ⟨hsame, hpayload⟩
    refine ⟨(hsame.trans htype).symm, fun ht => ?_, fun ht => ?_, fun ht m => ?_, fun ht name => ?_,
      fun ht m => ?_, fun ht s => ?_⟩
    all_goals rw [ht] at hpayload
    · exact hstring.symm.trans hpayload.symm
    · exact hlist.symm.trans hpayload.symm
    · rw [← hset, UMap.contains, UMap.contains, hpayload m]
    · rw [← hhash, hpayload name]
    · rw [← hscores, hpayload.2 m]
    · rw [← horder, hpayload.1]
  · intro h
    refine ⟨(htype.trans h.type).symm, ?_⟩
    cases ht : v.type with
    | string => exact (hstring.trans (h.string ht)).symm
    | list => exact (hlist.trans (h.list ht)).symm
    | set =>
      intro m
      have hcontains := (h.set ht m).symm.trans (hset m).symm
      exact eq_of_isSome_iff hcontains
    | hash => exact fun name => ((hhash name).trans (h.hash ht name)).symm
    | zset =>
      refine ⟨Multimap.ext ?_, fun m => ((hscores m).trans (h.scores ht m)).symm⟩
      refine eq_of_valuesAt (Multimap.sorted _) (Multimap.sorted _) fun s => ?_
      exact ((horder s).trans (h.order ht s)).symm

/-! ### A new database -/

theorem run_items_calls (items : List Item) (d : Data S) :
    Call.run (items.flatMap Item.calls) d = applyWrites (items.flatMap Item.writes) d := by
  induction items generalizing d with
  | nil => rfl
  | cons item items ih =>
    rw [List.flatMap_cons, List.flatMap_cons, Call.run_append, applyWrites_append, ih, run_item_calls]

/-- The writes of a row of items under one key. -/
def writesUnder (key : Bytes) (items : List Item) : List (Write S) :=
  writesAt key (items.flatMap Item.writes)

theorem sameView_iff {key : Bytes} {d d' : Data S} :
    SameView key d d' ↔ (d.find? key = none → d'.find? key = none) ∧
      ∀ v, d.find? key = some v →
        ∃ w, d'.find? key = some w ∧ v.type = w.type ∧ SamePayload v.type v w := by
  unfold SameView
  cases d.find? key with
  | none => cases d'.find? key <;> simp
  | some v => cases d'.find? key <;> simp

/-- What items build in an empty database looks like `d` under a key exactly when they write there if
and only if `d` holds the key, and build its entry. -/
theorem sameView_run_items_iff (items : List Item) (d : Data S) (key : Bytes) :
    SameView key d (Call.run (items.flatMap Item.calls) ∅) ↔
      (d.find? key = none → writesUnder (S := S) key items = []) ∧
      ∀ v, d.find? key = some v → writesUnder (S := S) key items ≠ [] ∧ Builds (writesUnder key items) v := by
  have hfind : (Call.run (items.flatMap Item.calls) (∅ : Data S)).find? key =
      if writesUnder (S := S) key items = [] then none
      else some ((writesUnder key items).foldl Write.apply default) := by
    rw [run_items_calls]
    exact find?_applyWrites _ _ _
  rw [sameView_iff, hfind]
  refine and_congr (imp_congr_right fun _ => ?_) (forall_congr' fun v => imp_congr_right fun _ => ?_)
  · exact ite_eq_left_iff.trans (by simp)
  · rw [← builds_iff]
    by_cases hempty : writesUnder (S := S) key items = []
    · simp [hempty]
    · simp [hempty]

end MinimalRedis
