import Mathlib.Algebra.GroupWithZero.Nat
import Mathlib.Data.Finset.Card
import Mathlib.Data.List.Nodup
import Mathlib.Data.List.Perm.Basic
import Mathlib.Tactic.Common

/-!
# Unordered maps with an explicit enumeration order

A hash map offers lookup, in-place assignment, creation of a missing key, erasure and
enumeration.  Its enumeration order is unspecified but fixed while the map does not change, so the
model keeps it: a `UMap K V` is a list of entries with **distinct keys**, the invariant being a
field of the structure.

* `set` replaces the value of a present key in place and appends a missing one, `erase` and
  `filter` keep the order of the entries that stay;
* `find?_set`, `find?_erase`, `find?_filter` give every operation through lookups, and
  `mem_entries_iff` ties lookups to enumeration;
* `USet` is the map to `Unit`, read as a set.
-/

namespace Lib

/-! ### Entry lists -/

section Entries

variable {K V : Type} [DecidableEq K]

/-- The value of the first entry under `k`. -/
def lookupList (k : K) : List (K × V) → Option V
  | [] => none
  | e :: l => if e.1 = k then some e.2 else lookupList k l

/-- The value of the last entry under `k`. -/
def lookupLast (k : K) : List (K × V) → Option V
  | [] => none
  | e :: l => (lookupLast k l).or (if e.1 = k then some e.2 else none)

/-- Assign in place, or append when `k` is missing. -/
def setList (k : K) (v : V) : List (K × V) → List (K × V)
  | [] => [(k, v)]
  | e :: l => if e.1 = k then (k, v) :: l else e :: setList k v l

theorem lookupLast_isSome_iff {k : K} {l : List (K × V)} :
    (lookupLast k l).isSome = true ↔ k ∈ l.map Prod.fst := by
  induction l with
  | nil => simp [lookupLast]
  | cons e l ih =>
    rw [lookupLast, Option.isSome_or, Bool.or_eq_true, ih, List.map_cons, List.mem_cons]
    by_cases he : e.1 = k
    · simp [he]
    · simp [he, Ne.symm he]

theorem lookupList_eq_none {k : K} {l : List (K × V)} :
    lookupList k l = none ↔ k ∉ l.map Prod.fst := by
  induction l with
  | nil => simp [lookupList]
  | cons e l ih =>
    by_cases h : e.1 = k
    · simp [lookupList, h]
    · simp [lookupList, h, ih, Ne.symm h]

theorem lookupList_setList (k k' : K) (v : V) (l : List (K × V)) :
    lookupList k' (setList k v l) = if k' = k then some v else lookupList k' l := by
  induction l with
  | nil =>
    by_cases h : k' = k
    · simp [setList, lookupList, h]
    · simp [setList, lookupList, h, Ne.symm h]
  | cons e l ih =>
    by_cases he : e.1 = k
    · by_cases h : k' = k
      · simp [setList, he, lookupList, h]
      · simp [setList, he, lookupList, h, Ne.symm h]
    · by_cases h' : e.1 = k'
      · simp [setList, lookupList, h', show k' ≠ k from fun e' => he (h'.trans e')]
      · simp [setList, he, lookupList, h', ih]

theorem map_fst_setList_of_mem {k : K} {l : List (K × V)} (v : V) (h : k ∈ l.map Prod.fst) :
    (setList k v l).map Prod.fst = l.map Prod.fst := by
  induction l with
  | nil => simp at h
  | cons e l ih =>
    by_cases he : e.1 = k
    · simp [setList, he]
    · have hk : k ∈ l.map Prod.fst := by
        rcases List.mem_cons.mp (by simpa only [List.map_cons] using h) with rfl | hk
        · exact absurd rfl he
        · exact hk
      simp only [setList, he, if_false, List.map_cons, ih hk]

theorem setList_of_not_mem {k : K} {l : List (K × V)} (v : V) (h : k ∉ l.map Prod.fst) :
    setList k v l = l ++ [(k, v)] := by
  induction l with
  | nil => rfl
  | cons e l ih =>
    simp only [List.map_cons, List.mem_cons, not_or] at h
    simp only [setList, Ne.symm h.1, if_false, ih h.2, List.cons_append]

theorem nodup_setList {k : K} {l : List (K × V)} (v : V) (h : (l.map Prod.fst).Nodup) :
    ((setList k v l).map Prod.fst).Nodup := by
  by_cases hk : k ∈ l.map Prod.fst
  · rw [map_fst_setList_of_mem v hk]
    exact h
  · rw [setList_of_not_mem v hk, List.map_append]
    refine List.Nodup.append h (by simp) ?_
    simpa [List.disjoint_singleton] using hk

theorem setList_setList (k : K) (v w : V) (l : List (K × V)) :
    setList k w (setList k v l) = setList k w l := by
  induction l with
  | nil => simp [setList]
  | cons e l ih => by_cases he : e.1 = k <;> simp [setList, he, ih]

theorem setList_of_lookup {k : K} {v : V} {l : List (K × V)} (h : lookupList k l = some v) :
    setList k v l = l := by
  induction l with
  | nil => simp [lookupList] at h
  | cons e l ih =>
    by_cases he : e.1 = k
    · simp only [lookupList, he, if_true, Option.some.injEq] at h
      simp [setList, ← h, ← he]
    · simp only [lookupList, he, if_false] at h
      simp [setList, he, ih h]

theorem lookupList_filter (p : K × V → Bool) (k : K) {l : List (K × V)}
    (hl : (l.map Prod.fst).Nodup) :
    lookupList k (l.filter p) = (lookupList k l).filter fun v => p (k, v) := by
  induction l with
  | nil => rfl
  | cons e l ih =>
    obtain ⟨he, hl⟩ := List.nodup_cons.mp (by simpa only [List.map_cons] using hl)
    by_cases hk : e.1 = k
    · subst hk
      by_cases hp : p e
      · simp [lookupList, hp, Option.filter]
      · -- the entry goes, and no later entry has its key
        have hnone : lookupList e.1 l = none := lookupList_eq_none.mpr he
        simp [lookupList, hp, ih hl, hnone, Option.filter]
    · by_cases hp : p e <;> simp [lookupList, hp, hk, ih hl]

theorem lookupList_map {V' : Type} (f : V → V') (k : K) (l : List (K × V)) :
    lookupList k (l.map fun e => (e.1, f e.2)) = (lookupList k l).map f := by
  induction l with
  | nil => rfl
  | cons e l ih =>
    rw [List.map_cons, lookupList, lookupList, ih]
    split
    · rfl
    · rfl

theorem setList_map {V' : Type} (f : V → V') (k : K) (v : V) (l : List (K × V)) :
    setList k (f v) (l.map fun e => (e.1, f e.2)) = (setList k v l).map fun e => (e.1, f e.2) := by
  induction l with
  | nil => rfl
  | cons e l ih =>
    rw [List.map_cons, setList, setList]
    split
    · rfl
    · rw [ih, List.map_cons]

theorem mem_iff_lookupList {k : K} {v : V} {l : List (K × V)} (hl : (l.map Prod.fst).Nodup) :
    (k, v) ∈ l ↔ lookupList k l = some v := by
  induction l with
  | nil => simp [lookupList]
  | cons e l ih =>
    obtain ⟨he, hl⟩ := List.nodup_cons.mp (by simpa only [List.map_cons] using hl)
    by_cases hk : e.1 = k
    · subst hk
      have hnot : (e.1, v) ∉ l := fun hm => he (List.mem_map.mpr ⟨_, hm, rfl⟩)
      simp only [List.mem_cons, hnot, or_false, lookupList, if_true, Option.some.injEq]
      constructor
      · intro h; exact (congrArg Prod.snd h).symm
      · intro h; exact Prod.ext rfl h.symm
    · have hne : (k, v) ≠ e := fun h => hk (congrArg Prod.fst h).symm
      simp [lookupList, hk, hne, ih hl]

theorem lookupLast_eq_lookupList {l : List (K × V)} (hl : (l.map Prod.fst).Nodup) (k : K) :
    lookupLast k l = lookupList k l := by
  induction l with
  | nil => rfl
  | cons e l ih =>
    obtain ⟨he, hl⟩ := List.nodup_cons.mp (by simpa only [List.map_cons] using hl)
    rw [lookupLast, lookupList, ih hl]
    by_cases hk : e.1 = k
    · subst hk
      rw [lookupList_eq_none.mpr he, if_pos rfl, Option.none_or]
    · rw [if_neg hk, if_neg hk, Option.or_none]

/-- Assigning an entry that the test rejects, over one it rejected, is invisible to the test. -/
theorem filter_setList_of_neg {p : K × V → Bool} {k : K} {v : V} {l : List (K × V)}
    (hv : p (k, v) = false) (hold : ∀ w, lookupList k l = some w → p (k, w) = false) :
    (setList k v l).filter p = l.filter p := by
  induction l with
  | nil => simp [setList, hv]
  | cons e l ih =>
    by_cases he : e.1 = k
    · have he' : p e = false := by
        have := hold e.2 (by simp [lookupList, he])
        rwa [← he] at this
      rw [setList, if_pos he, List.filter_cons_of_neg (by simp [hv]),
        List.filter_cons_of_neg (by simp [he'])]
    · have hl := ih fun w hw => hold w (by simpa [lookupList, he] using hw)
      by_cases hp : p e <;> simp [setList, he, hp, hl]

end Entries

/-! ### The map -/

/-- An unordered map: entries in enumeration order, no key twice. -/
@[ext] structure UMap (K V : Type) where
  entries : List (K × V)
  nodup : (entries.map Prod.fst).Nodup

namespace UMap

variable {K V : Type}

instance [DecidableEq K] [DecidableEq V] : DecidableEq (UMap K V) := fun a b =>
  decidable_of_iff (a.entries = b.entries) ⟨UMap.ext, congrArg _⟩

instance : EmptyCollection (UMap K V) := ⟨⟨[], List.nodup_nil⟩⟩

instance : Inhabited (UMap K V) := ⟨∅⟩

def size (m : UMap K V) : ℕ := m.entries.length

def keys (m : UMap K V) : List K := m.entries.map Prod.fst

def values (m : UMap K V) : List V := m.entries.map Prod.snd

/-- Keep the entries that satisfy `p`, in order. -/
def filter (m : UMap K V) (p : K → V → Bool) : UMap K V where
  entries := m.entries.filter fun e => p e.1 e.2
  nodup := m.nodup.sublist (List.filter_sublist.map Prod.fst)

/-- Replace every value, in place. -/
def mapValues {V' : Type} (f : V → V') (m : UMap K V) : UMap K V' where
  entries := m.entries.map fun e => (e.1, f e.2)
  nodup := by
    rw [List.map_map]
    exact m.nodup

theorem size_eq_zero_iff {m : UMap K V} : m.size = 0 ↔ m = ∅ := by
  constructor
  · intro h; exact UMap.ext (List.length_eq_zero_iff.mp h)
  · rintro rfl; rfl

theorem filter_filter_comm (m : UMap K V) (p q : K → V → Bool) :
    (m.filter p).filter q = (m.filter q).filter p := by
  refine UMap.ext ?_
  show (m.entries.filter _).filter _ = (m.entries.filter _).filter _
  rw [List.filter_filter, List.filter_filter]
  exact List.filter_congr fun e _ => Bool.and_comm _ _

variable [DecidableEq K]

def find? (m : UMap K V) (k : K) : Option V := lookupList k m.entries

def contains (m : UMap K V) (k : K) : Bool := (m.find? k).isSome

def set (m : UMap K V) (k : K) (v : V) : UMap K V := ⟨setList k v m.entries, nodup_setList v m.nodup⟩

def erase (m : UMap K V) (k : K) : UMap K V := m.filter fun k' _ => k' ≠ k

/-- Assign a list of pairs from left to right. -/
def setMany (m : UMap K V) (l : List (K × V)) : UMap K V := l.foldl (fun m e => m.set e.1 e.2) m

/-- Erase a list of keys from left to right. -/
def eraseMany (m : UMap K V) (ks : List K) : UMap K V := ks.foldl erase m

@[simp] theorem find?_empty (k : K) : (∅ : UMap K V).find? k = none := rfl

theorem find?_set (m : UMap K V) (k k' : K) (v : V) :
    (m.set k v).find? k' = if k' = k then some v else m.find? k' :=
  lookupList_setList k k' v m.entries

@[simp] theorem find?_set_self (m : UMap K V) (k : K) (v : V) : (m.set k v).find? k = some v := by
  simp [find?_set]

theorem find?_set_ne (m : UMap K V) {k k' : K} (v : V) (h : k' ≠ k) :
    (m.set k v).find? k' = m.find? k' := by simp [find?_set, h]

theorem find?_filter (m : UMap K V) (p : K → V → Bool) (k : K) :
    (m.filter p).find? k = (m.find? k).filter (p k) :=
  lookupList_filter (fun e => p e.1 e.2) k m.nodup

theorem find?_mapValues {V' : Type} (f : V → V') (m : UMap K V) (k : K) :
    (m.mapValues f).find? k = (m.find? k).map f :=
  lookupList_map f k m.entries

omit [DecidableEq K] in
theorem keys_mapValues {V' : Type} (f : V → V') (m : UMap K V) : (m.mapValues f).keys = m.keys := by
  show (m.entries.map _).map _ = _
  rw [List.map_map]
  rfl

theorem find?_erase (m : UMap K V) (k k' : K) :
    (m.erase k).find? k' = if k' = k then none else m.find? k' := by
  rw [erase, find?_filter]
  by_cases h : k' = k
  · cases m.find? k' <;> simp [h]
  · cases m.find? k' <;> simp [h]

@[simp] theorem find?_erase_self (m : UMap K V) (k : K) : (m.erase k).find? k = none := by
  simp [find?_erase]

theorem find?_erase_ne (m : UMap K V) {k k' : K} (h : k' ≠ k) :
    (m.erase k).find? k' = m.find? k' := by simp [find?_erase, h]

theorem mem_entries_iff {m : UMap K V} {k : K} {v : V} :
    (k, v) ∈ m.entries ↔ m.find? k = some v := mem_iff_lookupList m.nodup

theorem mem_keys_iff {m : UMap K V} {k : K} : k ∈ m.keys ↔ (m.find? k).isSome := by
  rw [keys, ← not_iff_not, ← lookupList_eq_none, Option.not_isSome_iff_eq_none, find?]

theorem mapValues_set {V' : Type} (f : V → V') (m : UMap K V) (k : K) (v : V) :
    (m.set k v).mapValues f = (m.mapValues f).set k (f v) :=
  UMap.ext (setList_map f k v m.entries).symm

theorem mapValues_erase {V' : Type} (f : V → V') (m : UMap K V) (k : K) :
    (m.erase k).mapValues f = (m.mapValues f).erase k := by
  apply UMap.ext
  show (m.entries.filter _).map _ = (m.entries.map _).filter _
  rw [List.filter_map]
  rfl

@[simp] theorem set_set (m : UMap K V) (k : K) (v w : V) : (m.set k v).set k w = m.set k w :=
  UMap.ext (setList_setList k v w m.entries)

/-- Assigning the value a key already has changes nothing. -/
theorem set_of_find? {m : UMap K V} {k : K} {v : V} (h : m.find? k = some v) : m.set k v = m :=
  UMap.ext (setList_of_lookup h)

theorem filter_eq_self {m : UMap K V} {p : K → V → Bool}
    (h : ∀ k v, m.find? k = some v → p k v = true) : m.filter p = m :=
  UMap.ext (List.filter_eq_self.mpr fun e he => h e.1 e.2 (mem_entries_iff.mp he))

theorem erase_of_find?_none {m : UMap K V} {k : K} (h : m.find? k = none) : m.erase k = m :=
  filter_eq_self fun k' v hv => by
    have : k' ≠ k := fun e => by rw [e, h] at hv; simp at hv
    simpa using this

theorem entries_set_of_find?_none {m : UMap K V} {k : K} (v : V) (h : m.find? k = none) :
    (m.set k v).entries = m.entries ++ [(k, v)] :=
  setList_of_not_mem v (lookupList_eq_none.mp h)

/-- Dropping entries by a test commutes with assigning an entry the test rejects. -/
theorem filter_set_of_neg {m : UMap K V} {p : K → V → Bool} {k : K} {v : V}
    (hv : p k v = false) (hold : ∀ w, m.find? k = some w → p k w = false) :
    (m.set k v).filter p = m.filter p :=
  UMap.ext (filter_setList_of_neg (p := fun e => p e.1 e.2) hv hold)

theorem erase_set (m : UMap K V) (k : K) (v : V) : (m.set k v).erase k = m.erase k :=
  filter_set_of_neg (by simp) (by simp)

/-- A present key splits off the enumeration. -/
theorem perm_cons_erase {m : UMap K V} {k : K} {v : V} (h : m.find? k = some v) :
    m.entries.Perm ((k, v) :: (m.erase k).entries) := by
  have hfresh : (k, v) ∉ (m.erase k).entries := by
    rw [mem_entries_iff, find?_erase_self]
    simp
  refine (List.perm_ext_iff_of_nodup m.nodup.of_map
    (List.nodup_cons.mpr ⟨hfresh, (m.erase k).nodup.of_map⟩)).mpr fun e => ?_
  obtain ⟨k', v'⟩ := e
  rw [List.mem_cons, mem_entries_iff, mem_entries_iff, find?_erase]
  by_cases hk : k' = k
  · subst hk
    simp [h, eq_comm]
  · simp [hk]

theorem perm_set (m : UMap K V) (k : K) (v : V) :
    (m.set k v).entries.Perm ((k, v) :: (m.erase k).entries) := by
  have := perm_cons_erase (find?_set_self m k v)
  rwa [erase_set] at this

theorem size_set_of_some {m : UMap K V} {k : K} {w : V} (v : V) (h : m.find? k = some w) :
    (m.set k v).size = m.size := by
  have hk : k ∈ m.entries.map Prod.fst := mem_keys_iff.mpr (by rw [h]; rfl)
  have := congrArg List.length (map_fst_setList_of_mem v hk)
  simpa [size, set] using this

theorem size_set_of_none {m : UMap K V} {k : K} (v : V) (h : m.find? k = none) :
    (m.set k v).size = m.size + 1 := by
  simp [size, entries_set_of_find?_none v h]

/-- A map is determined by its keys in order and its lookups. -/
theorem ext_of_keys {m m' : UMap K V} (hk : m.keys = m'.keys)
    (h : ∀ k, m.find? k = m'.find? k) : m = m' := by
  have hentry : ∀ m : UMap K V, m.entries.map (fun e => (e.1, m.find? e.1)) =
      m.entries.map fun e => (e.1, some e.2) := fun m =>
    List.map_congr_left fun e he => by rw [mem_entries_iff.mp he]
  have hinj : Function.Injective fun e : K × V => (e.1, some e.2) := by
    rintro ⟨k, v⟩ ⟨k', v'⟩ he
    simpa using he
  refine UMap.ext (List.map_injective_iff.mpr hinj ?_)
  show m.entries.map (fun e => (e.1, some e.2)) = m'.entries.map fun e => (e.1, some e.2)
  rw [← hentry m, ← hentry m']
  have hcomp : ∀ m : UMap K V, ∀ f : K → Option V, m.entries.map (fun e => (e.1, f e.1)) =
      m.keys.map fun k => (k, f k) := fun m f => by simp [keys]
  rw [hcomp m m.find?, hcomp m' m'.find?, hk]
  exact List.map_congr_left fun k _ => by rw [h k]

/-- Equal lookups mean the same entries. -/
theorem perm_of_find? {m m' : UMap K V} (h : ∀ k, m.find? k = m'.find? k) :
    m.entries.Perm m'.entries := by
  refine (List.perm_ext_iff_of_nodup m.nodup.of_map m'.nodup.of_map).mpr fun e => ?_
  obtain ⟨k, v⟩ := e
  rw [mem_entries_iff, mem_entries_iff, h k]

theorem size_of_find? {m m' : UMap K V} (h : ∀ k, m.find? k = m'.find? k) : m.size = m'.size :=
  (perm_of_find? h).length_eq

theorem contains_iff_mem_keys {m : UMap K V} {k : K} : m.contains k = true ↔ k ∈ m.keys :=
  mem_keys_iff.symm

/-! ### Many assignments, many erasures -/

theorem keys_eraseMany (m : UMap K V) (ks : List K) :
    (m.eraseMany ks).keys = m.keys.filter fun k => decide (k ∉ ks) := by
  induction ks generalizing m with
  | nil => simp [eraseMany]
  | cons k ks ih =>
    have herase : (m.erase k).keys = m.keys.filter fun k' => decide (k' ≠ k) := by
      simp [erase, keys, filter, List.filter_map, Function.comp_def]
    show ((m.erase k).eraseMany ks).keys = _
    rw [ih, herase, List.filter_filter]
    exact List.filter_congr fun x _ => by simp [Bool.and_comm]

theorem eraseMany_eq_self {m : UMap K V} {ks : List K} (h : ∀ k ∈ ks, m.find? k = none) :
    m.eraseMany ks = m := by
  induction ks with
  | nil => rfl
  | cons k ks ih =>
    show (m.erase k).eraseMany ks = m
    rw [erase_of_find?_none (h k (by simp))]
    exact ih fun k' hk' => h k' (by simp [hk'])

/-- Erasing keys lowers the size exactly when one of them is there. -/
theorem size_eraseMany_lt_iff {m : UMap K V} {ks : List K} :
    (m.eraseMany ks).size < m.size ↔ ∃ k ∈ ks, m.contains k = true := by
  have hsize : ∀ m : UMap K V, m.size = m.keys.length := fun m => by simp [size, keys]
  rw [hsize, hsize, keys_eraseMany, List.length_filter_lt_length_iff_exists]
  simp only [contains_iff_mem_keys, decide_not, Bool.not_eq_true', decide_eq_false_iff_not, not_not]
  exact ⟨fun ⟨k, hk, hks⟩ => ⟨k, hks, hk⟩, fun ⟨k, hks, hk⟩ => ⟨k, hk, hks⟩⟩

theorem find?_setMany (l : List (K × V)) (m : UMap K V) (k : K) :
    (m.setMany l).find? k = (lookupLast k l).or (m.find? k) := by
  induction l generalizing m with
  | nil => rfl
  | cons e l ih =>
    show ((m.set e.1 e.2).setMany l).find? k = _
    rw [ih, lookupLast, Option.or_assoc, find?_set]
    by_cases hk : e.1 = k
    · simp [hk]
    · simp [hk, Ne.symm hk]

/-- A map is rebuilt from its entries, listed in any order. -/
theorem find?_setMany_empty {l : List (K × V)} {m : UMap K V} (h : l.Perm m.entries) (k : K) :
    ((∅ : UMap K V).setMany l).find? k = m.find? k := by
  have hl : (l.map Prod.fst).Nodup := (h.map Prod.fst).nodup_iff.mpr m.nodup
  rw [find?_setMany, find?_empty, Option.or_none, lookupLast_eq_lookupList hl]
  apply Option.ext
  intro v
  rw [← mem_iff_lookupList hl, h.mem_iff, mem_entries_iff]

theorem keys_setMany_of_mem {l : List (K × V)} {m : UMap K V} (h : ∀ e ∈ l, e.1 ∈ m.keys) :
    (m.setMany l).keys = m.keys := by
  induction l generalizing m with
  | nil => rfl
  | cons e l ih =>
    have hkeys : (m.set e.1 e.2).keys = m.keys := map_fst_setList_of_mem e.2 (h e (by simp))
    show ((m.set e.1 e.2).setMany l).keys = m.keys
    rw [ih fun e' he' => by rw [hkeys]; exact h e' (by simp [he']), hkeys]

/-- Assignments change nothing when the last one to each key is the value the key has. -/
theorem setMany_eq_self_iff {l : List (K × V)} {m : UMap K V} :
    m.setMany l = m ↔ ∀ k v, lookupLast k l = some v → m.find? k = some v := by
  constructor
  · intro h k v hv
    rw [← h, find?_setMany, hv]
    rfl
  · intro h
    refine ext_of_keys (keys_setMany_of_mem fun e he => ?_) fun k => ?_
    · obtain ⟨v, hv⟩ := Option.isSome_iff_exists.mp
        (lookupLast_isSome_iff.mpr (List.mem_map_of_mem he))
      rw [mem_keys_iff, h e.1 v hv]
      rfl
    · rw [find?_setMany]
      cases hl : lookupLast k l with
      | none => rfl
      | some v => rw [h k v hl]; rfl

/-! ### Cardinalities -/

/-- The keys of a map as a finite set. -/
def domain (m : UMap K V) : Finset K := m.keys.toFinset

theorem mem_domain {m : UMap K V} {k : K} : k ∈ m.domain ↔ (m.find? k).isSome = true := by
  rw [domain, List.mem_toFinset, mem_keys_iff]

theorem card_domain (m : UMap K V) : m.domain.card = m.size := by
  rw [domain, keys, List.toFinset_card_of_nodup m.nodup, List.length_map, size]

theorem domain_eraseMany (m : UMap K V) (ks : List K) :
    (m.eraseMany ks).domain = m.domain \ ks.toFinset := by
  ext k
  rw [domain, keys_eraseMany, Finset.mem_sdiff, List.mem_toFinset, List.mem_filter, domain,
    List.mem_toFinset, List.mem_toFinset, decide_eq_true_iff]

theorem domain_setMany (m : UMap K V) (l : List (K × V)) :
    (m.setMany l).domain = m.domain ∪ (l.map Prod.fst).toFinset := by
  ext k
  rw [mem_domain, find?_setMany, Option.isSome_or, Bool.or_eq_true, lookupLast_isSome_iff,
    Finset.mem_union, mem_domain, List.mem_toFinset, or_comm]

/-- What many erasures take away: the keys of the map among those listed. -/
theorem size_eraseMany_add (m : UMap K V) (ks : List K) :
    (m.eraseMany ks).size + (m.domain ∩ ks.toFinset).card = m.size := by
  rw [← card_domain, ← card_domain m, domain_eraseMany]
  exact Finset.card_sdiff_add_card_inter _ _

/-! ### Totals -/

/-- The sum of a measure over the entries. -/
def total (f : K → V → ℕ) (m : UMap K V) : ℕ := (m.entries.map fun e => f e.1 e.2).sum

/-- An absent key counts nothing. -/
theorem total_erase_add (f : K → V → ℕ) (m : UMap K V) (k : K) :
    (m.erase k).total f + (m.find? k).elim 0 (f k) = m.total f := by
  cases h : m.find? k with
  | none =>
    rw [erase_of_find?_none h]
    rfl
  | some v =>
    have hsum := ((perm_cons_erase h).map fun e : K × V => f e.1 e.2).sum_nat
    rw [List.map_cons, List.sum_cons] at hsum
    show ((m.erase k).entries.map fun e => f e.1 e.2).sum + f k v = _
    rw [total, hsum, Nat.add_comm]

/-- An assignment exchanges the old value's share for the new one's. -/
theorem total_set_add (f : K → V → ℕ) (m : UMap K V) (k : K) (v : V) :
    (m.set k v).total f + (m.find? k).elim 0 (f k) = m.total f + f k v := by
  have hset := total_erase_add f (m.set k v) k
  rw [erase_set, find?_set_self] at hset
  have hold := total_erase_add f m k
  simp only [Option.elim_some] at hset
  omega

theorem size_setMany_le (m : UMap K V) (l : List (K × V)) :
    (m.setMany l).size ≤ m.size + l.length := by
  induction l generalizing m with
  | nil => exact Nat.le_refl _
  | cons e l ih =>
    have hstep : (m.set e.1 e.2).size ≤ m.size + 1 := by
      cases h : m.find? e.1 with
      | none => exact Nat.le_of_eq (size_set_of_none e.2 h)
      | some v => rw [size_set_of_some _ h]; omega
    have hrest := ih (m.set e.1 e.2)
    show ((m.set e.1 e.2).setMany l).size ≤ _
    rw [List.length_cons]
    omega

/-- Many assignments, when every entry counts at least `c`: each one that adds no key has displaced an
entry, so the total misses at least `c` for it. -/
theorem total_setMany_le {f : K → V → ℕ} {c : ℕ} (hc : ∀ k v, c ≤ f k v) (m : UMap K V)
    (l : List (K × V)) :
    (m.setMany l).total f + c * (m.size + l.length) ≤
      m.total f + (l.map fun e => f e.1 e.2).sum + c * (m.setMany l).size := by
  induction l generalizing m with
  | nil => simp [setMany]
  | cons e l ih =>
    have hset := total_set_add f m e.1 e.2
    have hrest := ih (m.set e.1 e.2)
    show ((m.set e.1 e.2).setMany l).total f + _ ≤ _ + c * ((m.set e.1 e.2).setMany l).size
    rw [List.map_cons, List.sum_cons, List.length_cons]
    cases h : m.find? e.1 with
    | none =>
      rw [size_set_of_none _ h] at hrest
      rw [h, Option.elim_none] at hset
      rw [show m.size + (l.length + 1) = m.size + 1 + l.length by omega]
      omega
    | some v =>
      have hdisplaced := hc e.1 v
      rw [size_set_of_some _ h] at hrest
      rw [h, Option.elim_some] at hset
      rw [← Nat.add_assoc, Nat.mul_succ]
      omega

/-- A total is bounded by that of a map that has every key, with at least the same share. -/
theorem total_le_total {V' : Type} {f : K → V → ℕ} {g : K → V' → ℕ} {m : UMap K V}
    {m' : UMap K V'} (h : ∀ e ∈ m.entries, ∃ v', m'.find? e.1 = some v' ∧ f e.1 e.2 ≤ g e.1 v') :
    m.total f ≤ m'.total g := by
  obtain ⟨l, hl⟩ := m
  show (l.map fun e => f e.1 e.2).sum ≤ m'.total g
  induction l generalizing m' with
  | nil => exact Nat.zero_le _
  | cons e l ih =>
    obtain ⟨he, hl⟩ := List.nodup_cons.mp (by simpa only [List.map_cons] using hl)
    obtain ⟨v', hv', hle⟩ := h e (by simp)
    have hrest : (l.map fun e => f e.1 e.2).sum ≤ (m'.erase e.1).total g := ih hl fun x hx => by
      have hne : x.1 ≠ e.1 := fun hk => he (hk ▸ List.mem_map_of_mem hx)
      rw [find?_erase_ne m' hne]
      exact h x (by simp [hx])
    have htotal := total_erase_add g m' e.1
    rw [hv', Option.elim_some] at htotal
    rw [List.map_cons, List.sum_cons]
    omega

end UMap

/-! ### Sets -/

/-- An unordered set. -/
abbrev USet (K : Type) := UMap K Unit

namespace USet

variable {K : Type} [DecidableEq K]

def insert (s : USet K) (x : K) : USet K := s.set x ()

def insertMany (s : USet K) (xs : List K) : USet K := xs.foldl insert s

theorem insertMany_eq_setMany (s : USet K) (xs : List K) :
    insertMany s xs = UMap.setMany s (xs.map fun x => (x, ())) := by
  rw [UMap.setMany, List.foldl_map]
  rfl

theorem mem_keys_insertMany {s : USet K} {xs : List K} {x : K} :
    x ∈ (insertMany s xs).keys ↔ x ∈ s.keys ∨ x ∈ xs := by
  have hdomain := congrArg (x ∈ ·) (UMap.domain_setMany s (xs.map fun x => (x, ())))
  rw [← insertMany_eq_setMany] at hdomain
  simpa [UMap.domain, Function.comp_def] using hdomain

theorem insert_of_contains {s : USet K} {x : K} (h : s.contains x = true) : s.insert x = s := by
  obtain ⟨u, hu⟩ := Option.isSome_iff_exists.mp h
  exact UMap.set_of_find? hu

theorem insertMany_eq_self {s : USet K} {xs : List K} (h : ∀ x ∈ xs, s.contains x = true) :
    insertMany s xs = s := by
  induction xs with
  | nil => rfl
  | cons x xs ih =>
    show insertMany (s.insert x) xs = s
    rw [insert_of_contains (h x (by simp))]
    exact ih fun x' hx' => h x' (by simp [hx'])

theorem size_insert_of_not_contains {s : USet K} {x : K} (h : s.contains x = false) :
    (s.insert x).size = s.size + 1 :=
  UMap.size_set_of_none () (by simpa [UMap.contains] using h)

theorem size_le_size_insertMany (s : USet K) (xs : List K) : s.size ≤ (insertMany s xs).size := by
  induction xs generalizing s with
  | nil => exact Nat.le_refl _
  | cons x xs ih =>
    refine Nat.le_trans ?_ (ih (s.insert x))
    cases h : s.contains x with
    | true => exact Nat.le_of_eq (congrArg UMap.size (insert_of_contains h).symm)
    | false =>
      rw [size_insert_of_not_contains h]
      omega

/-- An insertion that adds nothing found everything there. -/
theorem contains_of_size_insertMany_le {s : USet K} {xs : List K}
    (h : (insertMany s xs).size ≤ s.size) : ∀ x ∈ xs, s.contains x = true := by
  induction xs with
  | nil => simp
  | cons x xs ih =>
    have h' : (insertMany (s.insert x) xs).size ≤ s.size := h
    cases hx : s.contains x with
    | false =>
      have hle := size_le_size_insertMany (s.insert x) xs
      rw [size_insert_of_not_contains hx] at hle
      omega
    | true =>
      rw [insert_of_contains hx] at h'
      intro y hy
      rcases List.mem_cons.mp hy with rfl | hy
      · exact hx
      · exact ih h' y hy

end USet

end Lib
