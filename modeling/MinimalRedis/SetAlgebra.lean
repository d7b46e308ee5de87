import Mathlib.Data.Set.Lattice
import MinimalRedis.Database

/-!
# Set algebra

`SINTER`, `SUNION` and `SDIFF` run over their keys with three different accumulators: a filtered
vector, a growing set and a shrinking one.  Each loop is first read by membership (`SetHolds`), by
induction over the keys:

* `mem_sinter`, `mem_sunion`, `sdiff_cons` — what the commands list;
* `sinter_congr`, `sunion_congr`, `sdiff_congr` — a loop sees of the store what it finds under its
  keys;
* `set_algebra` — the commands against the operations on the mathematical sets the keys stand for,
  empty when a key is missing or of another type.  Order and repetition of the keys do not matter,
  because the set operations do not see them.
-/

namespace MinimalRedis

open Lib

variable {S : Type} [Score S]

/-- The key holds a set, stale or not, that contains `x`. -/
def SetHolds (d : Data S) (key x : Bytes) : Prop :=
  ∃ s, Database.setAt key d = some s ∧ s.contains x = true

instance (d : Data S) (key x : Bytes) : Decidable (SetHolds d key x) :=
  match h : Database.setAt key d with
  | none => isFalse (by rintro ⟨s, hs, -⟩; simp [h] at hs)
  | some s => decidable_of_iff (s.contains x = true)
      ⟨fun hx => ⟨s, h, hx⟩, fun ⟨t, ht, hx⟩ => by
        obtain rfl : s = t := Option.some.inj (h.symm.trans ht)
        exact hx⟩

theorem setHolds_of_setAt {key x : Bytes} {d : Data S} {s : USet Bytes}
    (h : Database.setAt key d = some s) : SetHolds d key x ↔ s.contains x = true := by
  simp [SetHolds, h]

theorem not_setHolds_of_setAt {key x : Bytes} {d : Data S} (h : Database.setAt key d = none) :
    ¬ SetHolds d key x := by
  simp [SetHolds, h]

namespace Database

/-! ### `SINTER` -/

theorem mem_sinterLoop {d : Data S} {keys result : List Bytes} {x : Bytes} :
    x ∈ sinterLoop d keys result ↔ x ∈ result ∧ ∀ key ∈ keys, SetHolds d key x := by
  induction keys generalizing result with
  | nil => simp [sinterLoop]
  | cons key keys ih =>
    rw [sinterLoop, List.forall_mem_cons]
    cases hset : setAt key d with
    | none => simp [not_setHolds_of_setAt hset]
    | some s =>
      show x ∈ sinterLoop d keys (result.filter s.contains) ↔ _
      rw [ih, List.mem_filter, setHolds_of_setAt hset, and_assoc]

theorem mem_sinter {d : Data S} {key : Bytes} {keys : List Bytes} {x : Bytes} :
    x ∈ sinter (key :: keys) d ↔ ∀ k ∈ key :: keys, SetHolds d k x := by
  rw [sinter, List.forall_mem_cons]
  cases hset : setAt key d with
  | none => simp [not_setHolds_of_setAt hset]
  | some s =>
    show x ∈ sinterLoop d keys s.keys ↔ _
    rw [mem_sinterLoop, setHolds_of_setAt hset, UMap.contains_iff_mem_keys]

theorem nodup_sinterLoop (d : Data S) (keys : List Bytes) {result : List Bytes}
    (h : result.Nodup) : (sinterLoop d keys result).Nodup := by
  induction keys generalizing result with
  | nil => exact h
  | cons key keys ih =>
    rw [sinterLoop]
    split
    · exact List.nodup_nil
    · exact ih (h.filter _)

theorem nodup_sinter (key : Bytes) (keys : List Bytes) (d : Data S) :
    (sinter (key :: keys) d).Nodup := by
  rw [sinter]
  split
  · exact List.nodup_nil
  · rename_i s _
    exact nodup_sinterLoop d keys s.nodup

theorem sinterLoop_congr {d d' : Data S} {keys : List Bytes}
    (h : ∀ key ∈ keys, setAt key d = setAt key d') (result : List Bytes) :
    sinterLoop d keys result = sinterLoop d' keys result := by
  induction keys generalizing result with
  | nil => rfl
  | cons key keys ih =>
    rw [sinterLoop, sinterLoop, h key (by simp)]
    split
    · rfl
    · exact ih (fun k hk => h k (by simp [hk])) _

theorem sinter_congr {d d' : Data S} {keys : List Bytes}
    (h : ∀ key ∈ keys, setAt key d = setAt key d') : sinter keys d = sinter keys d' := by
  cases keys with
  | nil => rfl
  | cons key keys =>
    rw [sinter, sinter, h key (by simp)]
    split
    · rfl
    · exact sinterLoop_congr (fun k hk => h k (by simp [hk])) _

/-! ### `SUNION` -/

theorem mem_foldl_insertMany {sets : List (USet Bytes)} {union : USet Bytes} {x : Bytes} :
    x ∈ (sets.foldl (fun union s => USet.insertMany union s.keys) union).keys ↔
      x ∈ union.keys ∨ ∃ s ∈ sets, x ∈ s.keys := by
  induction sets generalizing union with
  | nil => simp
  | cons s sets ih =>
    rw [List.foldl_cons, ih, USet.mem_keys_insertMany]
    simp [or_assoc]

theorem mem_sunion {d : Data S} {keys : List Bytes} {x : Bytes} :
    x ∈ sunion keys d ↔ ∃ key ∈ keys, SetHolds d key x := by
  rw [sunion, unionOf, mem_foldl_insertMany]
  simp only [List.mem_filterMap, SetHolds, UMap.contains_iff_mem_keys]
  constructor
  · intro h
    rcases h with hx | ⟨s, ⟨key, hkey, hs⟩, hx⟩
    · cases hx
    · exact ⟨key, hkey, s, hs, hx⟩
  · intro h
    obtain ⟨key, hkey, s, hs, hx⟩ := h
    exact .inr ⟨s, ⟨key, hkey, hs⟩, hx⟩

theorem sunion_congr {d d' : Data S} {keys : List Bytes}
    (h : ∀ key ∈ keys, setAt key d = setAt key d') : sunion keys d = sunion keys d' := by
  rw [sunion, sunion, List.filterMap_congr h]

theorem nodup_sunion (keys : List Bytes) (d : Data S) : (sunion keys d).Nodup :=
  (unionOf (keys.filterMap fun key => setAt key d)).nodup

/-! ### `SDIFF` -/

/-- The difference keeps the members of the first set that no other key's set holds. -/
theorem sdiff_cons {d : Data S} {key : Bytes} {first : USet Bytes} (hset : setAt key d = some first)
    (others : List Bytes) :
    sdiff (key :: others) d =
      first.keys.filter fun x => decide (∀ k ∈ others, ¬ SetHolds d k x) := by
  simp only [sdiff, hset]
  clear hset
  induction others generalizing first with
  | nil => simp
  | cons k others ih =>
    rw [List.foldl_cons, ih]
    cases hk : setAt k d with
    | none =>
      refine List.filter_congr fun x _ => ?_
      simp [not_setHolds_of_setAt hk]
    | some s =>
      have hholds : ∀ x, SetHolds d k x ↔ x ∈ s.keys := fun x =>
        (setHolds_of_setAt hk).trans UMap.contains_iff_mem_keys
      rw [UMap.keys_eraseMany, List.filter_filter]
      refine List.filter_congr fun x _ => ?_
      rw [Bool.eq_iff_iff]
      simp only [Bool.and_eq_true, decide_eq_true_eq, List.forall_mem_cons, hholds]
      exact and_comm

theorem mem_sdiff {d : Data S} {key : Bytes} {others : List Bytes} {x : Bytes} :
    x ∈ sdiff (key :: others) d ↔ SetHolds d key x ∧ ∀ k ∈ others, ¬ SetHolds d k x := by
  cases hset : setAt key d with
  | none => simp [sdiff, hset, not_setHolds_of_setAt hset]
  | some first =>
    rw [sdiff_cons hset, List.mem_filter, decide_eq_true_eq, setHolds_of_setAt hset,
      UMap.contains_iff_mem_keys]

theorem sdiff_congr {d d' : Data S} {keys : List Bytes}
    (h : ∀ key ∈ keys, setAt key d = setAt key d') : sdiff keys d = sdiff keys d' := by
  cases keys with
  | nil => rfl
  | cons key keys =>
    rw [sdiff, sdiff, h key (by simp)]
    split
    · rfl
    · refine congrArg UMap.keys (List.foldl_ext _ _ _ fun diff k hk => ?_)
      rw [h k (by simp [hk])]

theorem nodup_sdiff (key : Bytes) (others : List Bytes) (d : Data S) :
    (sdiff (key :: others) d).Nodup := by
  rw [sdiff]
  split
  · exact List.nodup_nil
  · exact UMap.nodup _

end Database

/-! ### The sets behind the keys -/

/-- The set a key stands for. -/
def members (key : Bytes) (d : Data S) : Set Bytes := {x | Database.sismember key x d = true}

/-- The elements of the entry, when it is a set; none for a missing key or another type. -/
theorem mem_members_iff {key x : Bytes} {d : Data S} : x ∈ members key d ↔
    ∃ v, d.find? key = some v ∧ v.type = .set ∧ v.setVal.contains x = true :=
  Database.readTyped_eq_iff Bool.false_ne_true.symm

/-- The elements a command lists. -/
def elementsOf (l : List Bytes) : Set Bytes := {x | x ∈ l}

theorem mem_members {key x : Bytes} {d : Data S} : x ∈ members key d ↔ SetHolds d key x := by
  have hread : Database.sismember key x d =
      (Database.setAt key d).elim false fun s => s.contains x := by
    rw [Database.setAt, Database.apply_readTyped fun set : Option (USet Bytes) =>
      set.elim false fun s => s.contains x]
    rfl
  show Database.sismember key x d = true ↔ _
  rw [hread]
  cases hset : Database.setAt key d with
  | none => exact iff_of_false Bool.false_ne_true (not_setHolds_of_setAt hset)
  | some s => exact (setHolds_of_setAt hset).symm

/-- The three commands list, without repetition, the intersection of the sets, their union, and the
first without the others; which keys are named decides the elements, not their order or number. -/
theorem set_algebra (d : Data S) (key : Bytes) (keys : List Bytes) :
    ((Database.sinter (key :: keys) d).Nodup ∧ (Database.sunion (key :: keys) d).Nodup ∧
      (Database.sdiff (key :: keys) d).Nodup) ∧
    elementsOf (Database.sinter (key :: keys) d) = ⋂ k ∈ key :: keys, members k d ∧
    elementsOf (Database.sunion (key :: keys) d) = ⋃ k ∈ key :: keys, members k d ∧
    elementsOf (Database.sdiff (key :: keys) d) = members key d \ ⋃ k ∈ keys, members k d ∧
    (∀ key' keys', (∀ k, k ∈ key' :: keys' ↔ k ∈ key :: keys) →
      elementsOf (Database.sinter (key' :: keys') d) = elementsOf (Database.sinter (key :: keys) d) ∧
      elementsOf (Database.sunion (key' :: keys') d) =
        elementsOf (Database.sunion (key :: keys) d)) ∧
    ∀ keys', (∀ k, k ∈ keys' ↔ k ∈ keys) →
      elementsOf (Database.sdiff (key :: keys') d) = elementsOf (Database.sdiff (key :: keys) d) := by
  have hinter : ∀ key keys, elementsOf (Database.sinter (key :: keys) d) =
      ⋂ k ∈ key :: keys, members k d := by
    intro key keys
    ext x
    rw [Set.mem_iInter₂]
    simp only [mem_members]
    exact Database.mem_sinter
  have hunion : ∀ keys, elementsOf (Database.sunion keys d) = ⋃ k ∈ keys, members k d := by
    intro keys
    ext x
    rw [Set.mem_iUnion₂]
    simp only [exists_prop, mem_members]
    exact Database.mem_sunion
  have hdiff : ∀ keys, elementsOf (Database.sdiff (key :: keys) d) =
      members key d \ ⋃ k ∈ keys, members k d := by
    intro keys
    ext x
    rw [Set.mem_sdiff, Set.mem_iUnion₂]
    simp only [exists_prop, not_exists, not_and, mem_members]
    exact Database.mem_sdiff
  refine ⟨⟨Database.nodup_sinter key keys d, Database.nodup_sunion (key :: keys) d,
    Database.nodup_sdiff key keys d⟩, hinter key keys, hunion _, hdiff keys,
    fun key' keys' hsame => ⟨?_, ?_⟩, fun keys' hsame => ?_⟩
  · rw [hinter, hinter]
    simp only [hsame]
  · rw [hunion, hunion]
    simp only [hsame]
  · rw [hdiff, hdiff]
    simp only [hsame]

end MinimalRedis
