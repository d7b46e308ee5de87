import Mathlib.Data.List.Sort
import Mathlib.Order.Lattice
import Mathlib.Tactic.Common

/-!
# Ordered multimaps

A multimap keyed by a linear order: a list of pairs sorted by key, the order being a field of the
structure.  `insert` places a pair **behind** every pair with the same key (the upper bound of its
equal range), so equal keys stay in insertion order; `erase` removes the first pair equal to the one
given, which is what a walk over the equal range of its key finds first.

* `insert_perm` and `erase_perm` give both operations as multisets;
* `filter_insertUpper` — insertion commutes with dropping other pairs, ties included;
* `pairwise_insertUpper_iff` — when an insertion keeps the values of equal keys in a given order;
* `valuesAt_insertUpper`, `eq_of_valuesAt` — an insertion, and a whole list, by the values under each key.
-/

namespace Lib

variable {S M : Type} [LinearOrder S]

/-- Insert behind the equal keys. -/
def insertUpper (s : S) (m : M) (l : List (S × M)) : List (S × M) :=
  l.orderedInsert (fun a b => a.1 < b.1) (s, m)

theorem insertUpper_cons_of_lt {s : S} {m : M} {p : S × M} (l : List (S × M)) (h : s < p.1) :
    insertUpper s m (p :: l) = (s, m) :: p :: l := by
  simp [insertUpper, List.orderedInsert, h]

theorem insertUpper_cons_of_le {s : S} {m : M} {p : S × M} (l : List (S × M)) (h : p.1 ≤ s) :
    insertUpper s m (p :: l) = p :: insertUpper s m l := by
  simp [insertUpper, List.orderedInsert, not_lt.mpr h]

theorem insertUpper_perm (s : S) (m : M) (l : List (S × M)) :
    (insertUpper s m l).Perm ((s, m) :: l) := List.perm_orderedInsert _ _ _

/-- No key above the new one: the pair goes to the end. -/
theorem insertUpper_of_forall_le {s : S} {m : M} {l : List (S × M)} (h : ∀ p ∈ l, p.1 ≤ s) :
    insertUpper s m l = l ++ [(s, m)] := by
  induction l with
  | nil => rfl
  | cons p l ih =>
    obtain ⟨hp, hl⟩ := List.forall_mem_cons.mp h
    rw [insertUpper_cons_of_le l hp, ih hl, List.cons_append]

theorem sorted_insertUpper {s : S} {m : M} {l : List (S × M)}
    (h : l.Pairwise fun a b => a.1 ≤ b.1) :
    (insertUpper s m l).Pairwise fun a b => a.1 ≤ b.1 := by
  induction l with
  | nil => simp [insertUpper]
  | cons p l ih =>
    obtain ⟨hp, hl⟩ := List.pairwise_cons.mp h
    rcases lt_or_ge s p.1 with hlt | hle
    · rw [insertUpper_cons_of_lt l hlt]
      refine List.pairwise_cons.mpr ⟨fun q hq => ?_, h⟩
      rcases List.mem_cons.mp hq with rfl | hq
      · exact hlt.le
      · exact hlt.le.trans (hp q hq)
    · rw [insertUpper_cons_of_le l hle]
      refine List.pairwise_cons.mpr ⟨fun q hq => ?_, ih hl⟩
      rcases List.mem_cons.mp ((insertUpper_perm s m l).subset hq) with rfl | hq
      · exact hle
      · exact hp q hq

/-- The new pair comes behind all pairs of its key and before no other, so equal keys stay in the order
of `R` exactly when every value under the key is below the new one. -/
theorem pairwise_insertUpper_iff {R : M → M → Prop} {s : S} {m : M} {l : List (S × M)}
    (h : l.Pairwise fun a b => a.1 ≤ b.1) :
    (insertUpper s m l).Pairwise (fun p q => p.1 = q.1 → R p.2 q.2) ↔
      l.Pairwise (fun p q => p.1 = q.1 → R p.2 q.2) ∧ ∀ p ∈ l, p.1 = s → R p.2 m := by
  induction l with
  | nil => simp [insertUpper]
  | cons p l ih =>
    obtain ⟨hp, hl⟩ := List.pairwise_cons.mp h
    rcases lt_or_ge s p.1 with hlt | hle
    · have habove : ∀ q ∈ p :: l, s < q.1 := by
        intro q hq
        rcases List.mem_cons.mp hq with rfl | hq
        · exact hlt
        · exact hlt.trans_le (hp q hq)
      rw [insertUpper_cons_of_lt l hlt, List.pairwise_cons, and_comm]
      refine and_congr_right fun _ => iff_of_true ?_ ?_
      · exact fun q hq heq => absurd heq (habove q hq).ne
      · exact fun q hq heq => absurd heq (habove q hq).ne'
    · have hmem : (∀ q ∈ insertUpper s m l, p.1 = q.1 → R p.2 q.2) ↔
          (p.1 = s → R p.2 m) ∧ ∀ q ∈ l, p.1 = q.1 → R p.2 q.2 := by
        have hcons := List.forall_mem_cons (p := fun q : S × M => p.1 = q.1 → R p.2 q.2)
          (a := (s, m)) (l := l)
        rw [← hcons]
        exact forall_congr' fun q => by rw [(insertUpper_perm s m l).mem_iff]
      rw [insertUpper_cons_of_le l hle, List.pairwise_cons, List.pairwise_cons, hmem, ih hl,
        List.forall_mem_cons]
      tauto

/-- In a sorted list, the new pair lands in the same place whatever other pairs are dropped. -/
theorem filter_insertUpper {s : S} {m : M} {l : List (S × M)} {q : S × M → Bool}
    (h : l.Pairwise fun a b => a.1 ≤ b.1) (hq : q (s, m) = true) :
    (insertUpper s m l).filter q = insertUpper s m (l.filter q) := by
  induction l with
  | nil => simp [insertUpper, hq]
  | cons p l ih =>
    obtain ⟨hp, hl⟩ := List.pairwise_cons.mp h
    rcases lt_or_ge s p.1 with hlt | hle
    · rw [insertUpper_cons_of_lt l hlt, List.filter_cons_of_pos hq]
      -- whatever is kept of `p :: l` is above `s`
      cases hfilter : (p :: l).filter q with
      | nil => simp [insertUpper]
      | cons r rs =>
        have hr : r ∈ p :: l := List.mem_of_mem_filter (hfilter ▸ List.mem_cons_self)
        have hsr : s < r.1 := by
          rcases List.mem_cons.mp hr with rfl | hr
          · exact hlt
          · exact hlt.trans_le (hp r hr)
        rw [insertUpper_cons_of_lt rs hsr]
    · rw [insertUpper_cons_of_le l hle]
      by_cases hqp : q p = true
      · rw [List.filter_cons_of_pos hqp, List.filter_cons_of_pos hqp, ih hl,
          insertUpper_cons_of_le _ hle]
      · rw [List.filter_cons_of_neg hqp, List.filter_cons_of_neg hqp, ih hl]

theorem filter_insertUpper_of_neg {s : S} {m : M} {q : S × M → Bool} (hq : q (s, m) = false)
    (l : List (S × M)) : (insertUpper s m l).filter q = l.filter q := by
  have hneg : ¬ q (s, m) = true := by rw [hq]; exact Bool.false_ne_true
  induction l with
  | nil => exact List.filter_cons_of_neg hneg
  | cons p l ih =>
    rcases lt_or_ge s p.1 with hlt | hle
    · rw [insertUpper_cons_of_lt l hlt, List.filter_cons_of_neg hneg]
    · rw [insertUpper_cons_of_le l hle, List.filter_cons, List.filter_cons, ih]

/-- The values under one key, in their order. -/
def valuesAt (s : S) (l : List (S × M)) : List M := (l.filter fun p => decide (p.1 = s)).map Prod.snd

theorem valuesAt_cons (s : S) (p : S × M) (l : List (S × M)) :
    valuesAt s (p :: l) = if p.1 = s then p.2 :: valuesAt s l else valuesAt s l := by
  unfold valuesAt
  split
  · rename_i hp
    rw [List.filter_cons_of_pos (by simpa using hp), List.map_cons]
  · rename_i hp
    rw [List.filter_cons_of_neg (by simpa using hp)]

theorem valuesAt_of_forall_ne {s : S} {l : List (S × M)} (h : ∀ p ∈ l, p.1 ≠ s) : valuesAt s l = [] := by
  rw [valuesAt, List.filter_eq_nil_iff.mpr fun p hp => by simpa using h p hp, List.map_nil]

/-- What is dropped by its value is dropped under each key. -/
theorem valuesAt_filter (s : S) (keep : M → Bool) (l : List (S × M)) :
    valuesAt s (l.filter fun p => keep p.2) = (valuesAt s l).filter keep := by
  unfold valuesAt
  rw [List.filter_map, List.filter_filter, List.filter_filter]
  congr 1
  refine List.filter_congr fun p _ => ?_
  exact Bool.and_comm _ _

/-- The new value comes behind those of its key. -/
theorem valuesAt_insertUpper {s : S} {m : M} {l : List (S × M)} (h : l.Pairwise fun a b => a.1 ≤ b.1)
    (s' : S) : valuesAt s' (insertUpper s m l) = valuesAt s' l ++ if s = s' then [m] else [] := by
  unfold valuesAt
  split
  · rename_i hs
    subst hs
    rw [filter_insertUpper h (by simp), insertUpper_of_forall_le, List.map_append]
    · rfl
    · intro p hp
      exact (of_decide_eq_true (List.mem_filter.mp hp).2).le
  · rename_i hs
    rw [filter_insertUpper_of_neg (by simpa using hs), List.append_nil]

/-- A sorted list has no values under a key below its first one. -/
theorem not_lt_of_valuesAt {p q : S × M} {l l' : List (S × M)}
    (h : (q :: l').Pairwise fun a b => a.1 ≤ b.1)
    (heq : valuesAt p.1 (p :: l) = valuesAt p.1 (q :: l')) : ¬ p.1 < q.1 := by
  intro hlt
  have hnone : valuesAt p.1 (q :: l') = [] := by
    apply valuesAt_of_forall_ne
    intro r hr
    rcases List.mem_cons.mp hr with rfl | hr
    · exact hlt.ne'
    · exact (hlt.trans_le ((List.pairwise_cons.mp h).1 r hr)).ne'
  rw [hnone, valuesAt_cons, if_pos rfl] at heq
  cases heq

/-- Sorted lists with the same values under every key are the same.  By induction on both, the first
keys being equal because neither is below the other. -/
theorem eq_of_valuesAt {l l' : List (S × M)} (h : l.Pairwise fun a b => a.1 ≤ b.1)
    (h' : l'.Pairwise fun a b => a.1 ≤ b.1) (heq : ∀ s, valuesAt s l = valuesAt s l') : l = l' := by
  induction l generalizing l' with
  | nil =>
    cases l' with
    | nil => rfl
    | cons q l' =>
      have hq := heq q.1
      rw [valuesAt_cons, if_pos rfl] at hq
      cases hq
  | cons p l ih =>
    cases l' with
    | nil =>
      have hp := heq p.1
      rw [valuesAt_cons, if_pos rfl] at hp
      cases hp
    | cons q l' =>
      have hkey : p.1 = q.1 := le_antisymm (not_lt.mp (not_lt_of_valuesAt h (heq q.1).symm))
        (not_lt.mp (not_lt_of_valuesAt h' (heq p.1)))
      have hfirst := heq p.1
      rw [valuesAt_cons, if_pos rfl, valuesAt_cons, if_pos hkey.symm] at hfirst
      obtain ⟨hvalue, -⟩ := List.cons.inj hfirst
      obtain rfl : p = q := Prod.ext hkey hvalue
      congr 1
      refine ih (List.pairwise_cons.mp h).2 (List.pairwise_cons.mp h').2 fun s => ?_
      have hs := heq s
      rw [valuesAt_cons, valuesAt_cons] at hs
      split at hs
      · exact (List.cons.inj hs).2
      · exact hs

/-- A multimap: pairs sorted by key. -/
@[ext] structure Multimap (S M : Type) [LinearOrder S] where
  entries : List (S × M)
  sorted : entries.Pairwise fun a b => a.1 ≤ b.1

namespace Multimap

instance [DecidableEq M] : DecidableEq (Multimap S M) := fun a b =>
  decidable_of_iff (a.entries = b.entries) ⟨Multimap.ext, congrArg _⟩

instance : EmptyCollection (Multimap S M) := ⟨⟨[], List.Pairwise.nil⟩⟩

instance : Inhabited (Multimap S M) := ⟨∅⟩

def size (t : Multimap S M) : ℕ := t.entries.length

def insert (t : Multimap S M) (s : S) (m : M) : Multimap S M :=
  ⟨insertUpper s m t.entries, sorted_insertUpper t.sorted⟩

/-- Remove the first pair `(s, m)`; nothing when there is none. -/
def erase [DecidableEq M] (t : Multimap S M) (s : S) (m : M) : Multimap S M :=
  ⟨t.entries.erase (s, m), t.sorted.sublist List.erase_sublist⟩

theorem insert_perm (t : Multimap S M) (s : S) (m : M) :
    (t.insert s m).entries.Perm ((s, m) :: t.entries) := insertUpper_perm s m t.entries

theorem size_insert (t : Multimap S M) (s : S) (m : M) : (t.insert s m).size = t.size + 1 :=
  (t.insert_perm s m).length_eq

theorem erase_sublist [DecidableEq M] (t : Multimap S M) (s : S) (m : M) :
    (t.erase s m).entries.Sublist t.entries := List.erase_sublist

theorem size_erase_le [DecidableEq M] (t : Multimap S M) (s : S) (m : M) :
    (t.erase s m).size ≤ t.size := (t.erase_sublist s m).length_le

theorem erase_perm [DecidableEq M] {t : Multimap S M} {s : S} {m : M} {l : List (S × M)}
    (h : t.entries.Perm ((s, m) :: l)) : (t.erase s m).entries.Perm l := by
  have := h.erase (s, m)
  rwa [List.erase_cons_head] at this

theorem erase_eq_filter [DecidableEq M] {t : Multimap S M} (h : t.entries.Nodup) (s : S) (m : M) :
    (t.erase s m).entries = t.entries.filter fun q => decide (q ≠ (s, m)) := by
  rw [show (t.erase s m).entries = t.entries.erase (s, m) from rfl, h.erase_eq_filter]
  refine List.filter_congr fun q _ => ?_
  rw [Bool.eq_iff_iff]
  simp

end Multimap

end Lib
