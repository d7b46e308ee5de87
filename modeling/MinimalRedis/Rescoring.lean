import MinimalRedis.TypeChange

/-!
# Scoring members again

What a `zadd` loop leaves of a sorted set, said by members, scores and order, without running the loop.

* `lastScorings` — the pairs that stand: for each member the last one;
* `valuesAt_foldl_zaddOne` — the members of one score behind the loop: those it does not name, then
  those it names, as their last scorings come;
* `foldl_zaddOne_eq_self_iff_valuesAt` — so the loop changes nothing exactly when the members it names
  have their last scores and stand **last** among the members of these, in that order.
-/

namespace MinimalRedis

open Lib

variable {S : Type} [Score S]

/-! ### The two indexes -/

/-- A loop of `zaddOne` touches the two indexes only. -/
theorem foldl_zaddOne_members (ps : List (S × Bytes)) (v : RedisValue S) :
    ∃ byScore byMember, ps.foldl Database.zaddOne v =
      { v with zsetScoreToMember := byScore, zsetMemberToScore := byMember } := by
  induction ps generalizing v with
  | nil => exact ⟨_, _, rfl⟩
  | cons p ps ih =>
    obtain ⟨byScore, byMember, h⟩ := ih (Database.zaddOne v p)
    exact ⟨byScore, byMember, h⟩

/-- Both indexes of a value. -/
def zsetOf (v : RedisValue S) : Multimap S Bytes × UMap Bytes S :=
  (v.zsetScoreToMember, v.zsetMemberToScore)

theorem zsetOf_zaddOne {v w : RedisValue S} (h : zsetOf v = zsetOf w) (p : S × Bytes) :
    zsetOf (Database.zaddOne v p) = zsetOf (Database.zaddOne w p) := by
  obtain ⟨hscore, hmember⟩ := Prod.mk.inj h
  simp only [zsetOf, Database.zaddOne, hscore, hmember]

theorem zsetOf_foldl_zaddOne (ps : List (S × Bytes)) {v w : RedisValue S}
    (h : zsetOf v = zsetOf w) :
    zsetOf (ps.foldl Database.zaddOne v) = zsetOf (ps.foldl Database.zaddOne w) := by
  induction ps generalizing v w with
  | nil => exact h
  | cons p ps ih => exact ih (zsetOf_zaddOne h p)

theorem foldl_zaddOne_eq_self_iff (ps : List (S × Bytes)) (v : RedisValue S) :
    zsetOf (ps.foldl Database.zaddOne v) = zsetOf v ↔ ps.foldl Database.zaddOne v = v := by
  constructor
  · intro h
    obtain ⟨byScore, byMember, hfold⟩ := foldl_zaddOne_members ps v
    rw [hfold] at h
    obtain ⟨rfl, rfl⟩ := Prod.mk.inj h
    exact hfold
  · intro h
    rw [h]

/-! ### Scoring members -/

/-- The pairs whose member is not given again behind them. -/
def lastScorings : List (S × Bytes) → List (S × Bytes)
  | [] => []
  | p :: ps => if (lastScore p.2 ps).isSome then lastScorings ps else p :: lastScorings ps

/-- The members of one score behind one iteration of the `zadd` loop. -/
theorem valuesAt_zaddOne {v : RedisValue S} (h : v.IndexesAgree) (p : S × Bytes) (s : S) :
    valuesAt s (Database.zaddOne v p).zsetScoreToMember.entries =
      (valuesAt s v.zsetScoreToMember.entries).filter (fun m => decide (m ≠ p.2)) ++
        if p.1 = s then [p.2] else [] := by
  rw [Database.zaddOne_entries h, valuesAt_insertUpper (v.zsetScoreToMember.sorted.filter _),
    valuesAt_filter s fun m => decide (m ≠ p.2)]

theorem valuesAt_foldl_zaddOne (ps : List (S × Bytes)) {v : RedisValue S} (h : v.IndexesAgree) (s : S) :
    valuesAt s (ps.foldl Database.zaddOne v).zsetScoreToMember.entries =
      (valuesAt s v.zsetScoreToMember.entries).filter (fun m => decide (m ∉ ps.map Prod.snd)) ++
        valuesAt s (lastScorings ps) := by
  induction ps generalizing v with
  | nil => simp [lastScorings, valuesAt]
  | cons p ps ih =>
    rw [List.foldl_cons, ih (Database.zaddOne_indexesAgree h p), valuesAt_zaddOne h, List.filter_append,
      List.filter_filter, List.append_assoc]
    congr 1
    · refine List.filter_congr fun m _ => ?_
      rw [← Bool.decide_and, List.map_cons, decide_eq_decide, List.mem_cons, not_or, and_comm]
    · -- the new pair stands unless its member comes again
      rw [lastScorings]
      by_cases hagain : (lastScore p.2 ps).isSome = true
      · have hmem : p.2 ∈ ps.map Prod.snd := lastScore_isSome_iff.mp hagain
        rw [if_pos hagain]
        split
        · rw [List.filter_cons_of_neg (by simpa using hmem), List.filter_nil, List.nil_append]
        · rfl
      · have hmem : p.2 ∉ ps.map Prod.snd := fun h => hagain (lastScore_isSome_iff.mpr h)
        rw [if_neg hagain, valuesAt_cons]
        split
        · rw [List.filter_cons_of_pos (by simpa using hmem), List.filter_nil]
          rfl
        · rfl

/-- A loop that changes nothing gives the scores that are there. -/
theorem find?_of_foldl_zaddOne_eq_self {ps : List (S × Bytes)} {v : RedisValue S}
    (hself : ps.foldl Database.zaddOne v = v) {m : Bytes} {s : S} (hm : lastScore m ps = some s) :
    v.zsetMemberToScore.find? m = some s := by
  have hfind := Database.find?_foldl_zaddOne ps v m
  rw [hself, hm] at hfind
  exact hfind

/-- Scoring the members again leaves a sorted set as it is exactly when each has the last score it is
given, and the members of a score are those not named and then those named, as their last scorings
come. -/
theorem foldl_zaddOne_eq_self_iff_valuesAt (ps : List (S × Bytes)) {v : RedisValue S}
    (h : v.IndexesAgree) :
    ps.foldl Database.zaddOne v = v ↔
      (∀ m s, lastScore m ps = some s → v.zsetMemberToScore.find? m = some s) ∧
      ∀ s, valuesAt s v.zsetScoreToMember.entries =
        (valuesAt s v.zsetScoreToMember.entries).filter (fun m => decide (m ∉ ps.map Prod.snd)) ++
          valuesAt s (lastScorings ps) := by
  constructor
  · intro hself
    refine ⟨fun m s hm => find?_of_foldl_zaddOne_eq_self hself hm, fun s => ?_⟩
    have hvalues := valuesAt_foldl_zaddOne ps h s
    rwa [hself] at hvalues
  · intro ⟨hscores, hvalues⟩
    rw [← foldl_zaddOne_eq_self_iff ps v]
    refine Prod.ext (Multimap.ext ?_) ?_
    · refine eq_of_valuesAt (Multimap.sorted _) v.zsetScoreToMember.sorted fun s => ?_
      exact (valuesAt_foldl_zaddOne ps h s).trans (hvalues s).symm
    · show (ps.foldl Database.zaddOne v).zsetMemberToScore = v.zsetMemberToScore
      rw [Database.zsetMemberToScore_foldl_zaddOne, UMap.setMany_eq_self_iff]
      exact hscores

/-- The same for any value, whether or not its indexes agree: where they do not, the loop may take a
stale pair for the member's own, and is run. -/
theorem foldl_zaddOne_eq_self_iff_cases (ps : List (S × Bytes)) (v : RedisValue S) :
    ps.foldl Database.zaddOne v = v ↔
      (∀ m s, lastScore m ps = some s → v.zsetMemberToScore.find? m = some s) ∧
      (v.IndexesAgree → ∀ s, valuesAt s v.zsetScoreToMember.entries =
        (valuesAt s v.zsetScoreToMember.entries).filter (fun m => decide (m ∉ ps.map Prod.snd)) ++
          valuesAt s (lastScorings ps)) ∧
      (¬ v.IndexesAgree → ps.foldl Database.zaddOne v = v) := by
  constructor
  · intro hself
    refine ⟨fun m s hm => find?_of_foldl_zaddOne_eq_self hself hm, fun h => ?_, fun _ => hself⟩
    exact ((foldl_zaddOne_eq_self_iff_valuesAt ps h).mp hself).2
  · intro ⟨hscores, horder, hapart⟩
    by_cases h : v.IndexesAgree
    · exact (foldl_zaddOne_eq_self_iff_valuesAt ps h).mpr ⟨hscores, horder h⟩
    · exact hapart h

end MinimalRedis
