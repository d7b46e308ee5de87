import Mathlib.Algebra.Order.BigOperators.Group.List
import MinimalRedis.Outcomes
import MinimalRedis.ExpiredReads

/-!
# How much a store holds

`Database.elements` counts the entries of the store and the elements of their containers.  A method
adds no more than the arguments it was given and an entry for the key, which gives every reply that
counts something a bound:

* `elements_writeThrough`, `elements_updateTyped`, `elements_of_purged` — one lemma for each access
  pattern;
* `length_sunion_le` — the answers that combine several keys stay within the store.
-/

namespace MinimalRedis

open Lib

variable {S : Type} [Score S]

/-- The elements of all five payloads. -/
def RedisValue.elements (v : RedisValue S) : ℕ :=
  v.listVal.length + v.setVal.size + v.hashVal.size + v.zsetMemberToScore.size +
    v.zsetScoreToMember.size

/-- The entries of the store with their elements. -/
def Database.elements (d : Data S) : ℕ := UMap.total (fun _ v => 1 + v.elements) d

namespace Database

variable {α : Type} {key : Bytes} {d d' : Data S} {v : RedisValue S} {n : ℕ}

/-! ### Entries within the store -/

theorem elements_of_find? (h : d.find? key = some v) : 1 + v.elements ≤ elements d := by
  have htotal := UMap.total_erase_add (fun _ (v : RedisValue S) => 1 + v.elements) d key
  rw [h, Option.elim_some] at htotal
  unfold elements
  omega

theorem size_le_elements (d : Data S) : d.size ≤ elements d := by
  unfold elements UMap.total UMap.size
  rw [← List.length_map (f := fun e : Bytes × RedisValue S => 1 + e.2.elements)]
  apply List.length_le_sum_of_one_le
  intro n hn
  obtain ⟨e, -, rfl⟩ := List.mem_map.mp hn
  omega

theorem readTyped_le {type : RedisType} {size : RedisValue S → ℕ}
    (h : ∀ v, size v ≤ v.elements) : readTyped type 0 size key d ≤ elements d := by
  unfold readTyped
  split
  · omega
  · rename_i v hv
    have hle := elements_of_find? hv
    have hsize := h v
    split <;> omega

theorem length_readTyped_le {type : RedisType} {list : RedisValue S → List α}
    (h : ∀ v, (list v).length ≤ v.elements) : (readTyped type [] list key d).length ≤ elements d := by
  unfold readTyped
  split
  · simp
  · rename_i v hv
    have hle := elements_of_find? hv
    have hsize := h v
    split
    · omega
    · simp

theorem length_slice_le (l : List α) (start stop : ℤ) : (slice l start stop).length ≤ l.length := by
  unfold slice
  extract_lets start₁ stop₁ start₂ stop₂
  split
  · rw [List.length_take, List.length_drop]
    omega
  · simp

/-! ### What a method adds -/

theorem elements_erase_le (key : Bytes) (d : Data S) : elements (d.erase key) ≤ elements d := by
  have htotal := UMap.total_erase_add (fun _ (v : RedisValue S) => 1 + v.elements) d key
  unfold elements
  omega

theorem elements_of_purged {now : ℤ} (h : Purged now key d d') : elements d' ≤ elements d := by
  rcases h with rfl | ⟨-, rfl⟩
  · exact Nat.le_refl _
  · exact elements_erase_le key d

/-- An assignment adds what the value has gained, and an entry when there was none. -/
theorem elements_set_le (h : v.elements ≤ ((d.find? key).getD default).elements + n) :
    elements (d.set key v) ≤ elements d + n + 1 := by
  have htotal := UMap.total_set_add (fun _ (v : RedisValue S) => 1 + v.elements) d key v
  unfold elements
  cases hold : d.find? key with
  | none =>
    have hzero : (default : RedisValue S).elements = 0 := rfl
    rw [hold, Option.elim_none] at htotal
    rw [hold, Option.getD_none, hzero] at h
    omega
  | some old =>
    rw [hold, Option.elim_some] at htotal
    rw [hold, Option.getD_some] at h
    omega

/-- An assignment to an entry that was there. -/
theorem elements_set_of_find? {old : RedisValue S} (hold : d.find? key = some old)
    (h : v.elements ≤ old.elements) : elements (d.set key v) ≤ elements d := by
  have htotal := UMap.total_set_add (fun _ (v : RedisValue S) => 1 + v.elements) d key v
  rw [hold, Option.elim_some] at htotal
  unfold elements
  omega

theorem elements_writeThrough {write : RedisValue S → RedisValue S}
    (h : ∀ v, (write v).elements ≤ v.elements + n) (key : Bytes) (d : Data S) :
    elements (writeThrough write key d) ≤ elements d + n + 1 := elements_set_le (h _)

theorem elements_incrementModCount (key : Bytes) (d : Data S) :
    elements (incrementModCount key d) ≤ elements d + 1 := by
  unfold incrementModCount
  split
  · rename_i v hv
    have hle : elements (d.set key v.bump) ≤ elements d := elements_set_of_find? hv (Nat.le_refl _)
    omega
  · exact elements_set_le (n := 0) (Nat.zero_le _)

theorem elements_updateTyped {type : RedisType} {absent : α}
    {update : RedisValue S → α × RedisValue S} (h : ∀ v, (update v).2.elements ≤ v.elements)
    (key : Bytes) (d : Data S) :
    elements (updateTyped type absent update key d).2 ≤ elements d := by
  rcases updateTyped_cases type absent update key d with heq | ⟨v, hv, -, heq⟩
  · rw [heq]
  · rw [heq]
    exact elements_set_of_find? hv (h v)

/-! ### The methods -/

theorem size_insertMany_le (s : USet Bytes) (xs : List Bytes) :
    (USet.insertMany s xs).size ≤ s.size + xs.length := by
  rw [USet.insertMany_eq_setMany]
  refine (UMap.size_setMany_le _ _).trans ?_
  rw [List.length_map]

theorem size_eraseMany_le {V : Type} (m : UMap Bytes V) (ks : List Bytes) :
    (m.eraseMany ks).size ≤ m.size := by
  have hlength : ∀ m : UMap Bytes V, m.keys.length = m.size := fun m => List.length_map _
  rw [← hlength, ← hlength, UMap.keys_eraseMany]
  exact List.length_filter_le _ _

theorem elements_zaddOne (v : RedisValue S) (p : S × Bytes) :
    (zaddOne v p).elements ≤ v.elements + 2 := by
  have hmember : (v.zsetMemberToScore.set p.2 p.1).size ≤ v.zsetMemberToScore.size + 1 :=
    UMap.size_setMany_le v.zsetMemberToScore [(p.2, p.1)]
  unfold zaddOne RedisValue.elements
  cases v.zsetMemberToScore.find? p.2 with
  | none =>
    simp only [Multimap.size_insert]
    omega
  | some old =>
    have herase := v.zsetScoreToMember.size_erase_le old p.2
    simp only [Multimap.size_insert]
    omega

theorem elements_foldl_zaddOne (ps : List (S × Bytes)) (v : RedisValue S) :
    (ps.foldl zaddOne v).elements ≤ v.elements + 2 * ps.length := by
  induction ps generalizing v with
  | nil => exact Nat.le_refl _
  | cons p ps ih =>
    have hone := elements_zaddOne v p
    have hrest := ih (zaddOne v p)
    rw [List.foldl_cons, List.length_cons]
    omega

theorem elements_foldl_zremOne (ms : List Bytes) (x : Bool × RedisValue S) :
    (ms.foldl zremOne x).2.elements ≤ x.2.elements := by
  induction ms generalizing x with
  | nil => exact Nat.le_refl _
  | cons m ms ih =>
    refine (ih (zremOne x m)).trans ?_
    unfold zremOne
    split
    · exact Nat.le_refl _
    · rename_i score hm
      have hmember : (x.2.zsetMemberToScore.erase m).size ≤ x.2.zsetMemberToScore.size :=
        size_eraseMany_le x.2.zsetMemberToScore [m]
      have hscore := x.2.zsetScoreToMember.size_erase_le score m
      simp only [RedisValue.elements]
      omega

theorem zrankLoop_le (score : S) (member : Bytes) (l : List (S × Bytes)) :
    zrankLoop score member l ≤ l.length := by
  induction l with
  | nil => exact le_refl _
  | cons p l ih =>
    rw [zrankLoop, List.length_cons]
    split
    · omega
    · split
      · omega
      · split
        · omega
        · omega

theorem zrank_le (key member : Bytes) (d : Data S) :
    -1 ≤ zrank key member d ∧ zrank key member d ≤ elements d := by
  unfold zrank readTyped
  split
  · omega
  · rename_i v hv
    have hle := elements_of_find? hv
    split
    · simp only
      split
      · omega
      · rename_i score hscore
        have hloop := zrankLoop_le score member v.zsetScoreToMember.entries
        have hnonneg := zrankLoop_nonneg score member v.zsetScoreToMember.entries
        have hsize : v.zsetScoreToMember.entries.length ≤ v.elements :=
          show v.zsetScoreToMember.size ≤ _ by unfold RedisValue.elements; omega
        omega
    · omega

/-! ### Several keys -/

/-- The members of all sets of the store, with repetitions. -/
def allMembers (d : Data S) : List Bytes := d.entries.flatMap fun e => e.2.setVal.keys

theorem length_allMembers_le (d : Data S) : (allMembers d).length ≤ elements d := by
  unfold allMembers elements UMap.total
  rw [List.length_flatMap]
  apply List.sum_le_sum
  intro e _
  have hkeys : e.2.setVal.keys.length = e.2.setVal.size := List.length_map _
  show e.2.setVal.keys.length ≤ 1 + e.2.elements
  unfold RedisValue.elements
  omega

/-- Members of sets of the store, each listed once. -/
theorem length_le_elements {l : List Bytes} (hnodup : l.Nodup)
    (h : ∀ x ∈ l, ∃ key, SetHolds d key x) : l.length ≤ elements d := by
  refine (hnodup.subperm fun x hx => ?_).length_le.trans (length_allMembers_le d)
  obtain ⟨key, set, hset, hmem⟩ := h x hx
  unfold setAt readTyped at hset
  split at hset
  · cases hset
  · rename_i v hv
    split at hset
    · cases hset
      exact List.mem_flatMap.mpr
        ⟨(key, v), UMap.mem_entries_iff.mpr hv, UMap.contains_iff_mem_keys.mp hmem⟩
    · cases hset

theorem length_sunion_le (keys : List Bytes) (d : Data S) : (sunion keys d).length ≤ elements d := by
  apply length_le_elements (nodup_sunion keys d)
  intro x hx
  obtain ⟨key, -, hkey⟩ := mem_sunion.mp hx
  exact ⟨key, hkey⟩

theorem length_sinter_le (keys : List Bytes) (d : Data S) : (sinter keys d).length ≤ elements d := by
  cases keys with
  | nil => exact Nat.zero_le _
  | cons key keys =>
    apply length_le_elements (nodup_sinter key keys d)
    intro x hx
    exact ⟨key, mem_sinter.mp hx key List.mem_cons_self⟩

theorem length_sdiff_le (keys : List Bytes) (d : Data S) : (sdiff keys d).length ≤ elements d := by
  cases keys with
  | nil => exact Nat.zero_le _
  | cons key keys =>
    apply length_le_elements (nodup_sdiff key keys d)
    intro x hx
    exact ⟨key, (mem_sdiff.mp hx).1⟩

end Database

end MinimalRedis
