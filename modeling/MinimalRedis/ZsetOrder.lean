import MinimalRedis.TypeChange
import MinimalRedis.ZsetRank

/-!
# The order of equal scores

`redis_value.h` calls the score index "ordered by score then lexicographically".  It is a multimap
**keyed by the score alone**: a new pair goes behind the pairs of its score, whatever their names, so
equal scores are walked in the order in which they were added.

* `ties_foldl_zaddOne_iff` — which `zadd` loops leave equal scores in name order;
* `ties_run` — over every run whose `zadd`s are of that kind they are in name order under every key;
* `zrange_in_order_iff` — `zrange` over the whole set lists the members by score and name in every state
  of a run **exactly when** each of its `zadd`s is, and then the list is a function of the scores.
-/

namespace MinimalRedis

open Lib

variable {S : Type} [Score S]

/-! ### The `zadd` loop -/

/-- Each pair that stands, its member not being given again behind it, comes to members with smaller
names only, among those that have its score by then and keep it. -/
def AddsInOrder (v : RedisValue S) (ps : List (S × Bytes)) : Prop :=
  ∀ before s m after, ps = before ++ (s, m) :: after → m ∉ after.map Prod.snd →
    ∀ m', m' ≠ m → m' ∉ after.map Prod.snd →
      (lastScore m' before).or (v.zsetMemberToScore.find? m') = some s → m' < m

/-- Equal scores are stored in name order, the members of `ms` left aside. -/
def TiesInOrderBut (ms : List Bytes) (v : RedisValue S) : Prop :=
  (v.zsetScoreToMember.entries.filter fun q => !ms.contains q.2).Pairwise
    fun p q => p.1 = q.1 → p.2 < q.2

theorem tiesInOrderBut_nil (v : RedisValue S) : TiesInOrderBut [] v ↔ v.TiesInNameOrder := by
  simp only [TiesInOrderBut, List.contains_nil, Bool.not_false, List.filter_true]
  rfl

theorem TiesInNameOrder.but {v : RedisValue S} (h : v.TiesInNameOrder) (ms : List Bytes) :
    TiesInOrderBut ms v := List.Pairwise.filter _ h

omit [Score S] in
theorem lastScore_cons (m : Bytes) (p : S × Bytes) (ps : List (S × Bytes)) :
    lastScore m (p :: ps) = (lastScore m ps).or (if p.2 = m then some p.1 else none) := rfl

/-- The score a member has behind the first pair. -/
theorem scores_zaddOne (v : RedisValue S) (p : S × Bytes) (before : List (S × Bytes)) (m : Bytes) :
    (lastScore m before).or ((Database.zaddOne v p).zsetMemberToScore.find? m) =
      (lastScore m (p :: before)).or (v.zsetMemberToScore.find? m) := by
  show (lastScore m before).or ((v.zsetMemberToScore.set p.2 p.1).find? m) = _
  rw [lastScore_cons, Option.or_assoc, UMap.find?_set]
  by_cases hm : m = p.2
  · rw [if_pos hm, if_pos hm.symm, Option.some_or]
  · rw [if_neg hm, if_neg (Ne.symm hm), Option.none_or]

theorem addsInOrder_cons_iff {v : RedisValue S} {p : S × Bytes} {ps : List (S × Bytes)} :
    AddsInOrder v (p :: ps) ↔
      (p.2 ∉ ps.map Prod.snd → ∀ m', m' ≠ p.2 → m' ∉ ps.map Prod.snd →
        v.zsetMemberToScore.find? m' = some p.1 → m' < p.2) ∧
      AddsInOrder (Database.zaddOne v p) ps := by
  constructor
  · intro h
    refine ⟨fun hlast m' hne hkeeps hscore => ?_, fun before s m after hps hlast m' hne hkeeps hscore => ?_⟩
    · exact h [] p.1 p.2 ps rfl hlast m' hne hkeeps hscore
    · rw [scores_zaddOne] at hscore
      exact h (p :: before) s m after (by rw [hps, List.cons_append]) hlast m' hne hkeeps hscore
  · intro ⟨hfirst, hrest⟩ before s m after hps hlast m' hne hkeeps hscore
    rcases List.cons_eq_append_iff.mp hps with ⟨rfl, hcons⟩ | ⟨before', rfl, htail⟩
    · obtain ⟨rfl, rfl⟩ := List.cons.inj hcons
      exact hfirst hlast m' hne hkeeps hscore
    · rw [← scores_zaddOne] at hscore
      exact hrest before' s m after htail hlast m' hne hkeeps hscore

/-- One iteration, with the members that are given again behind it left aside. -/
theorem tiesInOrderBut_zaddOne_iff {v : RedisValue S} (hagree : v.IndexesAgree) (p : S × Bytes)
    (ms : List Bytes) :
    TiesInOrderBut ms (Database.zaddOne v p) ↔
      TiesInOrderBut (p.2 :: ms) v ∧ (p.2 ∉ ms → ∀ m', m' ≠ p.2 → m' ∉ ms →
        v.zsetMemberToScore.find? m' = some p.1 → m' < p.2) := by
  have hboth : (v.zsetScoreToMember.entries.filter fun q => decide (q.2 ≠ p.2)).filter
      (fun q => !ms.contains q.2) =
      v.zsetScoreToMember.entries.filter fun q => !(p.2 :: ms).contains q.2 := by
    rw [List.filter_filter]
    refine List.filter_congr fun q _ => ?_
    rw [Bool.eq_iff_iff]
    simp [and_comm]
  have hsorted := v.zsetScoreToMember.sorted.filter fun q => decide (q.2 ≠ p.2)
  rw [TiesInOrderBut, Database.zaddOne_entries hagree]
  by_cases hp : p.2 ∈ ms
  · -- the pair itself is left aside
    rw [filter_insertUpper_of_neg (by simpa using hp), hboth]
    exact ⟨fun h => ⟨h, fun hnot => absurd hp hnot⟩, fun h => h.1⟩
  · rw [filter_insertUpper hsorted (by simpa using hp), hboth, pairwise_insertUpper_iff]
    · refine and_congr_right fun _ => ?_
      constructor
      · intro h _ m' hne hkeeps hscore
        refine h (p.1, m') (List.mem_filter.mpr ⟨hagree.mem_entries_iff.mpr hscore, ?_⟩) rfl
        simp [hne, hkeeps]
      · intro h q hq hscore
        obtain ⟨hmem, hname⟩ := List.mem_filter.mp hq
        obtain ⟨hne, hkeeps⟩ : q.2 ≠ p.2 ∧ q.2 ∉ ms := by simpa using hname
        refine h hp q.2 hne hkeeps ?_
        rw [← hscore]
        exact hagree.mem_entries_iff.mp hmem
    · exact v.zsetScoreToMember.sorted.filter _

/-- The whole loop. -/
theorem ties_foldl_zaddOne_iff (ps : List (S × Bytes)) {v : RedisValue S} (hagree : v.IndexesAgree) :
    (ps.foldl Database.zaddOne v).TiesInNameOrder ↔
      TiesInOrderBut (ps.map Prod.snd) v ∧ AddsInOrder v ps := by
  induction ps generalizing v with
  | nil =>
    rw [List.foldl_nil, List.map_nil, tiesInOrderBut_nil]
    refine ⟨fun h => ⟨h, fun before s m after hnil => ?_⟩, fun h => h.1⟩
    simp at hnil
  | cons p ps ih =>
    rw [List.foldl_cons, ih (Database.zaddOne_indexesAgree hagree p), tiesInOrderBut_zaddOne_iff hagree,
      addsInOrder_cons_iff, List.map_cons, and_assoc]

/-! ### Runs -/

/-- Every `zadd` of the run, on the value it finds. -/
def AddsEachInOrder (calls : List (Call S)) : Prop :=
  ∀ before key ps after, calls = before ++ .zadd key ps :: after →
    AddsInOrder (((Call.run before ∅).find? key).getD default) ps

theorem AddsEachInOrder.before {calls after : List (Call S)}
    (h : AddsEachInOrder (calls ++ after)) : AddsEachInOrder calls := by
  intro before key ps after' hcalls
  apply h before key ps (after' ++ after)
  rw [hcalls, List.append_assoc, List.cons_append]

theorem foldl_zremOne_sublist (ms : List Bytes) (x : Bool × RedisValue S) :
    (ms.foldl Database.zremOne x).2.zsetScoreToMember.entries.Sublist
      x.2.zsetScoreToMember.entries := by
  induction ms generalizing x with
  | nil => exact List.Sublist.refl _
  | cons m ms ih =>
    have hstep : (Database.zremOne x m).2.zsetScoreToMember.entries.Sublist
        x.2.zsetScoreToMember.entries := by
      rw [Database.zremOne]
      split
      · exact List.Sublist.refl _
      · rename_i score _
        exact x.2.zsetScoreToMember.erase_sublist score m
    exact (ih (Database.zremOne x m)).trans hstep

/-- Every call but `zadd` leaves of each score index a part of it, in its order. -/
theorem Call.sublist_apply (c : Call S) (h : ∀ key ps, c ≠ .zadd key ps) (d : Data S) :
    EntryFrame (fun v w => w.zsetScoreToMember.entries.Sublist v.zsetScoreToMember.entries) d
      (c.apply d) := by
  cases hc : c.touchesZset with
  | false =>
    intro key w hw
    rw [(c.sameZset_apply hc d key w hw).1]
  | true =>
    cases c with
    | zadd key ps => exact absurd rfl (h key ps)
    | zrem key ms =>
      exact EntryFrame.updateTyped (fun _ => List.Sublist.refl _)
        (fun v => foldl_zremOne_sublist ms (false, v)) key d
    | _ => cases hc

/-- The value a `zadd` leaves. -/
theorem find?_run_zadd (before : List (Call S)) (key : Bytes) (ps : List (S × Bytes)) :
    (Call.run (before ++ [.zadd key ps]) ∅).find? key =
      some (ps.foldl Database.zaddOne
        { ((Call.run before ∅).find? key).getD default with type := .zset }) := by
  rw [Call.run_append]
  exact UMap.find?_set_self _ _ _

theorem indexesAgree_run (calls : List (Call S)) (key : Bytes) :
    (((Call.run calls ∅).find? key).getD default).IndexesAgree := (zsetInv_run calls key).1

/-- Under every key, hidden sorted sets included. -/
theorem ties_run {calls : List (Call S)} (h : AddsEachInOrder calls) (key : Bytes) :
    (((Call.run calls ∅).find? key).getD default).TiesInNameOrder := by
  induction calls using List.reverseRecOn generalizing key with
  | nil => exact List.Pairwise.nil
  | append_singleton calls c ih =>
    have hcalls := ih h.before
    by_cases hadd : ∃ key' ps, c = .zadd key' ps
    · obtain ⟨key', ps, rfl⟩ := hadd
      by_cases hk : key = key'
      · subst hk
        rw [find?_run_zadd, Option.getD_some]
        apply (ties_foldl_zaddOne_iff ps _).mpr
        · exact ⟨TiesInNameOrder.but (hcalls key) _, h calls key ps [] rfl⟩
        · exact indexesAgree_run calls key
      · have hfind : (Call.run (calls ++ [.zadd key' ps]) ∅).find? key =
            (Call.run calls ∅).find? key := by
          rw [Call.run_append]
          exact UMap.find?_set_ne _ _ hk
        rw [hfind]
        exact hcalls key
    · push Not at hadd
      rw [Call.run_append]
      cases hv : (c.apply (Call.run calls ∅)).find? key with
      | none =>
        show (((c.apply (Call.run calls ∅)).find? key).getD default).TiesInNameOrder
        rw [hv]
        exact List.Pairwise.nil
      | some w =>
        show (((c.apply (Call.run calls ∅)).find? key).getD default).TiesInNameOrder
        rw [hv]
        exact (hcalls key).sublist (c.sublist_apply hadd _ key w hv)

/-! ### The whole range -/

/-- The member-to-score map under a key, empty where there is no sorted set. -/
def scoreMap (key : Bytes) (d : Data S) : UMap Bytes S :=
  Database.readTyped .zset ∅ (fun v => v.zsetMemberToScore) key d

/-- Both have scores; the smaller score comes first, and of equal scores the smaller name. -/
def Precedes (scores : UMap Bytes S) (m m' : Bytes) : Prop :=
  ∃ s s', scores.find? m = some s ∧ scores.find? m' = some s' ∧ (s < s' ∨ s = s' ∧ m < m')

/-- The whole range lists every member once, by score and name. -/
structure ListsInOrder (key : Bytes) (d : Data S) : Prop where
  once : (Database.zrange key 0 (-1) d).Perm (scoreMap key d).keys
  sorted : (Database.zrange key 0 (-1) d).Pairwise (Precedes (scoreMap key d))

theorem Precedes.not_symm {scores : UMap Bytes S} {m m' : Bytes} (h : Precedes scores m m') :
    ¬ Precedes scores m' m := by
  intro h'
  obtain ⟨s, s', hs, hs', hlt⟩ := h
  obtain ⟨t', t, ht', ht, hgt⟩ := h'
  obtain rfl : s = t := Option.some.inj (hs.symm.trans ht)
  obtain rfl : s' = t' := Option.some.inj (hs'.symm.trans ht')
  rcases hlt with hlt | ⟨rfl, hlt⟩
  · rcases hgt with hgt | ⟨rfl, -⟩
    · exact lt_asymm hlt hgt
    · exact lt_irrefl _ hlt
  · rcases hgt with hgt | ⟨-, hgt⟩
    · exact lt_irrefl _ hgt
    · exact List.lt_asymm hlt hgt

/-- The list is a function of the map. -/
theorem ListsInOrder.zrange_eq {key : Bytes} {d d' : Data S} (h : ListsInOrder key d)
    (h' : ListsInOrder key d') (hscores : ∀ m, (scoreMap key d).find? m = (scoreMap key d').find? m) :
    Database.zrange key 0 (-1) d = Database.zrange key 0 (-1) d' := by
  have hkeys : (scoreMap key d).keys.Perm (scoreMap key d').keys :=
    (UMap.perm_of_find? hscores).map Prod.fst
  have hsame : Precedes (scoreMap key d') = Precedes (scoreMap key d) := by
    funext m m'
    simp only [Precedes, hscores]
  refine List.Perm.eq_of_pairwise ?_ h.sorted ?_ ((h.once.trans hkeys).trans h'.once.symm)
  · intro m m' _ _ hlt hgt
    exact absurd hgt hlt.not_symm
  · rw [← hsame]
    exact h'.sorted

section Holding

variable {v : RedisValue S} {key : Bytes} {d : Data S} (hv : d.find? key = some v)
  (htype : v.type = .zset)

include hv htype

theorem scoreMap_of_find? : scoreMap key d = v.zsetMemberToScore :=
  Database.readTyped_of_find? hv htype

theorem listsInOrder_of_ties (hagree : v.IndexesAgree) (hties : v.TiesInNameOrder)
    (hsize : v.zsetMemberToScore.size < 2 ^ 31) : ListsInOrder key d := by
  have hrange : Database.zrange key 0 (-1) d = v.walk := by
    rw [zrange_of_find? hv htype, Database.slice_all]
    rwa [v.length_walk, hagree.sizes]
  refine ⟨?_, ?_⟩
  · rw [hrange, scoreMap_of_find? hv htype]
    exact hagree.walk_perm_keys
  · rw [hrange, scoreMap_of_find? hv htype, RedisValue.walk, List.pairwise_map]
    refine (v.zsetScoreToMember.sorted.and hties).imp_of_mem ?_
    intro p q hp hq hpq
    refine ⟨p.1, q.1, hagree.mem_entries_iff.mp hp, hagree.mem_entries_iff.mp hq, ?_⟩
    rcases lt_or_eq_of_le hpq.1 with hlt | heq
    · exact .inl hlt
    · exact .inr ⟨heq, hpq.2 heq⟩

theorem ties_of_listsInOrder (hagree : v.IndexesAgree) (h : ListsInOrder key d) :
    v.TiesInNameOrder ∧ v.zsetMemberToScore.size < 2 ^ 31 := by
  have hlen : (Database.slice v.walk 0 (-1)).length = v.walk.length := by
    have honce := h.once.length_eq
    rw [zrange_of_find? hv htype, scoreMap_of_find? hv htype] at honce
    exact honce.trans hagree.walk_perm_keys.length_eq.symm
  have hsize : v.walk.length < 2 ^ 31 := by
    by_contra hlarge
    have hshort := Database.length_slice_lt v.walk (not_lt.mp hlarge)
    omega
  refine ⟨?_, ?_⟩
  · have hsorted := h.sorted
    rw [zrange_of_find? hv htype, Database.slice_all _ hsize, scoreMap_of_find? hv htype,
      RedisValue.walk, List.pairwise_map] at hsorted
    refine hsorted.imp_of_mem ?_
    intro p q hp hq hpq heq
    obtain ⟨s, s', hs, hs', hlt⟩ := hpq
    rw [hagree.mem_entries_iff.mp hp] at hs
    rw [hagree.mem_entries_iff.mp hq] at hs'
    obtain rfl := Option.some.inj hs
    obtain rfl := Option.some.inj hs'
    rcases hlt with hlt | ⟨-, hlt⟩
    · exact absurd heq hlt.ne
    · exact hlt
  · rwa [← hagree.sizes, ← v.length_walk]

end Holding

theorem listsInOrder_of_no_zset {key : Bytes} {d : Data S}
    (h : ∀ v, d.find? key = some v → v.type ≠ .zset) : ListsInOrder key d := by
  have habsent : ∀ {α : Type} (absent : α) (read : RedisValue S → α),
      Database.readTyped .zset absent read key d = absent := by
    intro α absent read
    exact Database.readTyped_of_other h
  have hrange : Database.zrange key 0 (-1) d = [] := habsent _ _
  refine ⟨?_, ?_⟩
  · rw [hrange, scoreMap, habsent]
    exact List.Perm.nil
  · rw [hrange]
    exact List.Pairwise.nil

/-- In every state of the run and under every key. -/
def RangesInOrder (calls : List (Call S)) : Prop :=
  ∀ before after, calls = before ++ after → ∀ key, ListsInOrder key (Call.run before ∅)

/-- The bounds of `zrange` are of type `int`. -/
def RangesFit (calls : List (Call S)) : Prop :=
  ∀ before after, calls = before ++ after → ∀ key, Database.zcard key (Call.run before ∅) < 2 ^ 31

theorem rangesInOrder_iff (calls : List (Call S)) :
    RangesInOrder calls ↔ AddsEachInOrder calls ∧ RangesFit calls := by
  constructor
  · intro h
    refine ⟨fun before key ps after hcalls => ?_, fun before after hcalls key => ?_⟩
    · have hlists := h (before ++ [.zadd key ps]) after (by simp [hcalls]) key
      have hagree := indexesAgree_run before key
      have hties := (ties_of_listsInOrder (find?_run_zadd before key ps) (type_foldl_zaddOne ps _)
        (Database.foldl_zaddOne_indexesAgree ps hagree) hlists).1
      have hadds := (ties_foldl_zaddOne_iff ps (by exact hagree)).mp hties
      exact hadds.2
    · have hlists := h before after hcalls key
      have hagree := indexesAgree_run before key
      cases hv : (Call.run before ∅).find? key with
      | none => simp [Database.zcard, Database.readTyped, hv]
      | some v =>
        by_cases htype : v.type = .zset
        · rw [hv, Option.getD_some] at hagree
          rw [zcard_of_find? hv htype]
          exact (ties_of_listsInOrder hv htype hagree hlists).2
        · simp [Database.zcard, Database.readTyped, hv, htype]
  · rintro ⟨hadds, hfit⟩ before after rfl key
    have hties := ties_run hadds.before key
    have hagree := indexesAgree_run before key
    by_cases hzset : ∃ v, (Call.run before ∅).find? key = some v ∧ v.type = .zset
    · obtain ⟨v, hv, htype⟩ := hzset
      have hsize := hfit before after rfl key
      rw [zcard_of_find? hv htype] at hsize
      rw [hv, Option.getD_some] at hties hagree
      exact listsInOrder_of_ties hv htype hagree hties hsize
    · push Not at hzset
      exact listsInOrder_of_no_zset hzset

/-- **By score and name, whatever the history.**  In every state of a run of `Database` calls the whole
range of every key lists its members once, by score and then by name, **exactly when** each `zadd` of
the run adds its pairs in order, on sets whose size is an `int`; and two runs of this kind that end with
the same scores under a key end with the same range. -/
theorem zrange_in_order_iff (calls calls' : List (Call S)) :
    (RangesInOrder calls ↔ AddsEachInOrder calls ∧ RangesFit calls) ∧
    (AddsEachInOrder calls ∧ RangesFit calls → AddsEachInOrder calls' ∧ RangesFit calls' →
      ∀ key, (∀ m, (scoreMap key (Call.run calls ∅)).find? m =
          (scoreMap key (Call.run calls' ∅)).find? m) →
        Database.zrange key 0 (-1) (Call.run calls ∅) =
          Database.zrange key 0 (-1) (Call.run calls' ∅)) := by
  refine ⟨rangesInOrder_iff calls, fun h h' key hscores => ?_⟩
  have hlists := (rangesInOrder_iff calls).mpr h calls [] (List.append_nil _).symm key
  have hlists' := (rangesInOrder_iff calls').mpr h' calls' [] (List.append_nil _).symm key
  exact hlists.zrange_eq hlists' hscores

/-- `ZADD k 1 b 1 a` and `ZADD k 1 a 1 b` make the same sorted set and not the same range. -/
theorem zrange_tells_histories_apart :
    let d : Data NatScore := Call.run [.zadd [107] [(1, [98]), (1, [97])]] ∅
    let d' : Data NatScore := Call.run [.zadd [107] [(1, [97]), (1, [98])]] ∅
    (∀ m, (scoreMap [107] d).find? m = (scoreMap [107] d').find? m) ∧
      Database.zrange [107] 0 (-1) d = [[98], [97]] ∧
      Database.zrange [107] 0 (-1) d' = [[97], [98]] ∧ ¬ ListsInOrder [107] d := by
  intro d d'
  have hrange : Database.zrange [107] 0 (-1) d = [[98], [97]] := by decide
  refine ⟨fun m => ?_, hrange, by decide, fun h => ?_⟩
  · show lookupList m [([98], (1 : NatScore)), ([97], 1)] = lookupList m [([97], 1), ([98], 1)]
    simp only [lookupList]
    split_ifs with hb ha
    · exact absurd (hb.trans ha.symm) (by decide)
    · rfl
    · rfl
    · rfl
  · have hsorted := h.sorted
    rw [hrange, List.pairwise_pair] at hsorted
    obtain ⟨s, s', hs, hs', hlt⟩ := hsorted
    obtain rfl := Option.some.inj hs
    obtain rfl := Option.some.inj hs'
    revert hlt
    decide

end MinimalRedis
