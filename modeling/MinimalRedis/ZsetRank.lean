import MinimalRedis.ZsetIndex

/-!
# Ranks and positions

`zrange(key, 0, -1)` walks the score index; `zrank` counts the pairs with a smaller score and, among
equal scores, those with a smaller **name**, and stops at the member.  The multimap keeps equal
scores in insertion order, so the count misses the ties that were stored before the member under a
greater name.

* `zrankLoop_split` — the loop counts the pairs before the member, without those ties;
* `slice_all`, `length_slice_lt` — `(0, -1)` is the whole walk exactly below `2 ^ 31` pairs, where
  the `int` arithmetic of `zrange` is exact;
* `zrank_agrees_iff` — on every reachable sorted set, ranks are positions **iff** equal scores are
  stored in name order and there are fewer than `2 ^ 31` members.
-/

namespace MinimalRedis

open Lib

variable {S : Type} [Score S]

/-! ### The whole range -/

namespace Database

/-- How far `(0, -1)` reaches. -/
theorem slice_zero_neg_one {α : Type} (l : List α) :
    slice l 0 (-1) =
      l.take (min (wrap32 l.length - 1) (wrap32 (l.length + -1)) + 1).toNat := by
  simp only [slice, Int.lt_irrefl, if_false, if_pos (show (-1 : ℤ) < 0 by decide), max_self,
    Int.toNat_zero, List.drop_zero, Int.sub_zero]
  split
  · rfl
  · rename_i hstop
    rw [Int.toNat_of_nonpos (by omega), List.take_zero]

theorem slice_all {α : Type} (l : List α) (h : l.length < 2 ^ 31) : slice l 0 (-1) = l := by
  have hsize : wrap32 (l.length : ℤ) = l.length := by
    show Int.bmod _ _ = _
    rw [Int.bmod_def]
    omega
  have hlast : wrap32 ((l.length : ℤ) + -1) = (l.length : ℤ) - 1 := by
    show Int.bmod _ _ = _
    rw [Int.bmod_def]
    omega
  rw [slice_zero_neg_one, hsize, hlast]
  apply List.take_of_length_le
  omega

/-- From `2 ^ 31` pairs on the bounds wrap, and the walk ends early. -/
theorem length_slice_lt {α : Type} (l : List α) (h : 2 ^ 31 ≤ l.length) :
    (slice l 0 (-1)).length < l.length := by
  have hsize : wrap32 (l.length : ℤ) < 2 ^ 31 := Int.bmod_lt (by decide)
  rw [slice_zero_neg_one, List.length_take]
  omega

/-! ### What the loop counts -/

/-- The pairs that `zrank` counts. -/
def ranksBelow (score : S) (member : Bytes) (p : S × Bytes) : Bool :=
  decide (p.1 < score ∨ p.1 = score ∧ p.2 < member)

theorem zrankLoop_split (score : S) (member : Bytes) (before after : List (S × Bytes))
    (h : (score, member) ∉ before) :
    zrankLoop score member (before ++ (score, member) :: after) =
      (before.countP (ranksBelow score member) : ℤ) := by
  induction before with
  | nil => simp [zrankLoop]
  | cons p before ih =>
    have hp : ¬ (p.1 = score ∧ p.2 = member) := by
      intro hp
      apply h
      rw [show p = (score, member) from Prod.ext hp.1 hp.2]
      exact List.mem_cons_self
    have ih := ih fun hmem => h (List.mem_cons_of_mem p hmem)
    rw [List.cons_append, zrankLoop]
    by_cases hlt : p.1 < score
    · rw [if_pos hlt, ih, List.countP_cons_of_pos (by simp [ranksBelow, hlt])]
      omega
    · by_cases htie : p.1 = score ∧ p.2 < member
      · rw [if_neg hlt, if_pos htie, ih, List.countP_cons_of_pos (by simp [ranksBelow, htie])]
        omega
      · rw [if_neg hlt, if_neg htie, if_neg hp, ih,
          List.countP_cons_of_neg (by simpa [ranksBelow, hlt] using htie)]

/-- In a list sorted by score the loop reaches the member's position iff the ties before it have
smaller names. -/
theorem zrankLoop_eq_length_iff {score : S} {member : Bytes} {before after : List (S × Bytes)}
    (h : (score, member) ∉ before) (hsorted : ∀ p ∈ before, p.1 ≤ score) :
    zrankLoop score member (before ++ (score, member) :: after) = (before.length : ℤ) ↔
      ∀ p ∈ before, p.1 = score → p.2 < member := by
  rw [zrankLoop_split score member before after h, Int.natCast_inj, List.countP_eq_length]
  apply forall_congr'
  intro p
  apply imp_congr_right
  intro hp
  rw [ranksBelow, decide_eq_true_iff]
  rcases lt_or_eq_of_le (hsorted p hp) with hlt | heq
  · simp [hlt, ne_of_lt hlt]
  · simp [heq]

end Database

/-! ### Ranks against positions -/

/-- Equal scores are stored in name order. -/
def RedisValue.TiesInNameOrder (v : RedisValue S) : Prop :=
  v.zsetScoreToMember.entries.Pairwise fun p q => p.1 = q.1 → p.2 < q.2

instance (v : RedisValue S) : Decidable v.TiesInNameOrder :=
  inferInstanceAs (Decidable (List.Pairwise _ _))

/-- The names in the order of the walk. -/
def RedisValue.walk (v : RedisValue S) : List Bytes := v.zsetScoreToMember.entries.map Prod.snd

theorem RedisValue.length_walk (v : RedisValue S) : v.walk.length = v.zsetScoreToMember.size :=
  List.length_map _

/-- Every member's rank is its position in the whole range, and the ranks of the members are
`0, …, zcard - 1`, each taken once. -/
structure RanksArePositions (key : Bytes) (v : RedisValue S) (d : Data S) : Prop where
  position : ∀ m ∈ v.zsetMemberToScore.keys, m ∈ Database.zrange key 0 (-1) d ∧
    Database.zrank key m d = ((Database.zrange key 0 (-1) d).idxOf m : ℤ)
  once : (v.zsetMemberToScore.keys.map fun m => Database.zrank key m d).Perm
    ((List.range (Database.zcard key d)).map Int.ofNat)

/-- A relation holds pairwise when it holds from each element back to those before it. -/
theorem pairwise_of_splits {α : Type} {R : α → α → Prop} {l : List α}
    (h : ∀ before q after, l = before ++ q :: after → ∀ p ∈ before, R p q) : l.Pairwise R := by
  rw [List.pairwise_iff_getElem]
  intro i j hi hj hij
  apply h (l.take j) l[j] (l.drop (j + 1))
  · rw [← List.drop_eq_getElem_cons hj, List.take_append_drop]
  · rw [List.mem_take_iff_getElem]
    exact ⟨i, by omega, rfl⟩

/-- In a list without repetitions the positions of the elements are `0, 1, …`. -/
theorem map_idxOf_self {l : List Bytes} (h : l.Nodup) : l.map l.idxOf = List.range l.length := by
  apply List.ext_getElem
  · simp
  · intro i hi _
    rw [List.length_map] at hi
    rw [List.getElem_map, List.getElem_range, h.idxOf_getElem i hi]

namespace RedisValue.IndexesAgree

variable {v : RedisValue S} (h : v.IndexesAgree)

include h

theorem mem_entries_iff {s : S} {m : Bytes} :
    (s, m) ∈ v.zsetScoreToMember.entries ↔ v.zsetMemberToScore.find? m = some s := by
  rw [h.mem_iff, ← UMap.mem_entries_iff, List.mem_map]
  constructor
  · intro ⟨p, hp, hswap⟩
    rwa [← Prod.swap_swap p, hswap] at hp
  · intro hp
    exact ⟨(m, s), hp, rfl⟩

theorem nodup_walk : v.walk.Nodup := h.membersOnce

theorem walk_perm_keys : v.walk.Perm v.zsetMemberToScore.keys := by
  have hperm := h.map Prod.snd
  rwa [List.map_map] at hperm

/-- The member of a pair is not the name of a pair before it. -/
theorem not_mem_before {before after : List (S × Bytes)} {s : S} {m : Bytes}
    (hsplit : v.zsetScoreToMember.entries = before ++ (s, m) :: after) :
    m ∉ before.map Prod.snd := by
  have hnodup := h.membersOnce
  rw [hsplit, List.map_append, List.map_cons] at hnodup
  intro hmem
  exact (List.nodup_append.mp hnodup).2.2 m hmem m List.mem_cons_self rfl

/-- At one member: its rank is its position iff the ties before it have smaller names. -/
theorem zrankLoop_eq_idxOf_iff {before after : List (S × Bytes)} {s : S} {m : Bytes}
    (hsplit : v.zsetScoreToMember.entries = before ++ (s, m) :: after) :
    Database.zrankLoop s m v.zsetScoreToMember.entries = (v.walk.idxOf m : ℤ) ↔
      ∀ p ∈ before, p.1 = s → p.2 < m := by
  have hbefore := h.not_mem_before hsplit
  have hposition : v.walk.idxOf m = before.length := by
    show (v.zsetScoreToMember.entries.map Prod.snd).idxOf m = before.length
    rw [hsplit, List.map_append, List.map_cons, List.idxOf_append, if_neg hbefore,
      List.idxOf_cons_self, List.length_map, Nat.zero_add]
  have hsorted := v.zsetScoreToMember.sorted
  rw [hsplit] at hsorted
  rw [hposition, hsplit]
  apply Database.zrankLoop_eq_length_iff
  · intro hmem
    exact hbefore (List.mem_map_of_mem hmem)
  · intro p hp
    exact (List.pairwise_append.mp hsorted).2.2 p hp (s, m) List.mem_cons_self

end RedisValue.IndexesAgree

section Reachable

variable {v : RedisValue S} {key : Bytes} {d : Data S} (hv : d.find? key = some v)
  (htype : v.type = .zset)

include hv htype

theorem zrange_of_find? (start stop : ℤ) :
    Database.zrange key start stop d = Database.slice v.walk start stop := by
  rw [Database.zrange, Database.readTyped_of_find? hv htype, RedisValue.walk]

theorem zcard_of_find? : Database.zcard key d = v.zsetMemberToScore.size := by
  rw [Database.zcard, Database.readTyped_of_find? hv htype]

theorem zrank_of_find? {m : Bytes} {s : S} (hm : v.zsetMemberToScore.find? m = some s) :
    Database.zrank key m d = Database.zrankLoop s m v.zsetScoreToMember.entries := by
  rw [Database.zrank, Database.readTyped_of_find? hv htype, hm]

/-- Ranks that are positions leave no tie out of name order and no member beyond the range. -/
theorem ties_of_positions (hagree : v.IndexesAgree) (h : RanksArePositions key v d) :
    v.TiesInNameOrder ∧ v.zsetScoreToMember.size < 2 ^ 31 := by
  have hsize : v.zsetScoreToMember.size < 2 ^ 31 := by
    by_contra hlarge
    -- the range is shorter than the walk, but every name of the walk is in it
    have hshort : (Database.slice v.walk 0 (-1)).length < v.walk.length := by
      apply Database.length_slice_lt
      rw [v.length_walk]
      omega
    have hsub : v.walk ⊆ Database.slice v.walk 0 (-1) := by
      intro m hm
      rw [← zrange_of_find? hv htype]
      exact (h.position m (hagree.walk_perm_keys.subset hm)).1
    have hlong := (hagree.nodup_walk.subperm hsub).length_le
    omega
  refine ⟨pairwise_of_splits fun before q after hsplit => ?_, hsize⟩
  obtain ⟨s, m⟩ := q
  have hm : v.zsetMemberToScore.find? m = some s := by
    rw [← hagree.mem_entries_iff, hsplit]
    simp
  have hrank := (h.position m (UMap.mem_keys_iff.mpr (by rw [hm]; rfl))).2
  rw [zrange_of_find? hv htype, Database.slice_all _ (by rwa [v.length_walk]),
    zrank_of_find? hv htype hm] at hrank
  exact (hagree.zrankLoop_eq_idxOf_iff hsplit).mp hrank

theorem positions_of_ties (hagree : v.IndexesAgree) (hties : v.TiesInNameOrder)
    (hsize : v.zsetScoreToMember.size < 2 ^ 31) : RanksArePositions key v d := by
  have hrange : Database.zrange key 0 (-1) d = v.walk := by
    rw [zrange_of_find? hv htype, Database.slice_all]
    rwa [v.length_walk]
  have hposition : ∀ m ∈ v.zsetMemberToScore.keys,
      Database.zrank key m d = (v.walk.idxOf m : ℤ) := by
    intro m hm
    obtain ⟨s, hs⟩ := Option.isSome_iff_exists.mp (UMap.mem_keys_iff.mp hm)
    obtain ⟨before, after, hsplit⟩ := List.append_of_mem (hagree.mem_entries_iff.mpr hs)
    rw [zrank_of_find? hv htype hs, hagree.zrankLoop_eq_idxOf_iff hsplit]
    intro p hp
    have hpair : (before ++ (s, m) :: after).Pairwise fun p q : S × Bytes => p.1 = q.1 → p.2 < q.2 :=
      hsplit ▸ hties
    exact (List.pairwise_append.mp hpair).2.2 p hp (s, m) List.mem_cons_self
  refine ⟨fun m hm => ?_, ?_⟩
  · rw [hrange]
    exact ⟨hagree.walk_perm_keys.mem_iff.mpr hm, hposition m hm⟩
  · rw [List.map_congr_left hposition]
    have hperm := hagree.walk_perm_keys.symm.map fun m => (v.walk.idxOf m : ℤ)
    apply hperm.trans
    rw [zcard_of_find? hv htype, ← hagree.sizes, ← v.length_walk, ← map_idxOf_self hagree.nodup_walk,
      List.map_map]
    exact List.Perm.refl _

end Reachable

/-- On every reachable sorted set, ranks are positions iff no tie is stored out of name order and the
`int` bounds of the range are exact. -/
theorem zrank_agrees_iff (ops : List (Operation S)) (key : Bytes) (v : RedisValue S)
    (hv : (Operation.run ops ∅).find? key = some v) (htype : v.type = .zset) :
    RanksArePositions key v (Operation.run ops ∅) ↔
      v.TiesInNameOrder ∧ v.zsetScoreToMember.size < 2 ^ 31 := by
  have hagree := (zsetInv_run (ops.flatMap Operation.calls) key).1
  rw [← Operation.run_eq_run_calls, hv, Option.getD_some] at hagree
  constructor
  · exact ties_of_positions hv htype hagree
  · intro h
    exact positions_of_ties hv htype hagree h.1 h.2

/-- `ZADD k 1 a 1 b`: the ties came in name order. -/
theorem zrank_agrees_in_name_order :
    ∃ v, (Operation.run [.call (.zadd [107] [((1 : NatScore), [97]), (1, [98])])] ∅).find? [107] =
        some v ∧ v.type = .zset ∧ RanksArePositions [107] v
          (Operation.run [.call (.zadd [107] [((1 : NatScore), [97]), (1, [98])])] ∅) :=
  ⟨_, rfl, rfl, (zrank_agrees_iff _ [107] _ rfl rfl).mpr ⟨by decide, by decide⟩⟩

/-- `ZADD k 1 b 1 a`: the walk is `b, a`, and both members have rank zero. -/
theorem zrank_ties_out_of_name_order :
    ¬ ∀ (ops : List (Operation NatScore)) (key : Bytes) (v : RedisValue NatScore),
      (Operation.run ops ∅).find? key = some v → v.type = .zset →
        RanksArePositions key v (Operation.run ops ∅) := by
  intro h
  have hranks := h [.call (.zadd [107] [(1, [98]), (1, [97])])] [107] _ rfl rfl
  have ha := (hranks.position [97] (by decide)).2
  exact absurd ha (by decide)

end MinimalRedis
