import Mathlib.Data.Vector.Basic
import Mathlib.Tactic.Common

/-!
# Storage of a fixed size

An area of `n` cells is read, written and moved within; every access is checked against its end.
What a later read of the front sees is all that is said about an access:

* `writeAt_eq_some` — a write that fits is made: the cells before it stay, its own are the data;
* `moveWithin_eq_some` — the same for `memmove`, whose source and destination may overlap.
-/

namespace Lib

variable {α : Type} {n : ℕ}

/-- The `len` cells from `pos` on; `none` when one of them lies outside. -/
def readAt (area : List.Vector α n) (pos len : ℕ) : Option (List α) :=
  if pos + len ≤ n then some ((area.toList.drop pos).take len) else none

/-- Store `xs` at `pos`; `none` when a cell lies outside. -/
def writeAt (area : List.Vector α n) (pos : ℕ) (xs : List α) : Option (List.Vector α n) :=
  if h : pos + xs.length ≤ n then
    some ⟨area.toList.take pos ++ (xs ++ area.toList.drop (pos + xs.length)), by
      simp only [List.length_append, List.length_take, List.length_drop,
        List.Vector.toList_length]
      omega⟩
  else none

/-- The `len` cells from `src` on are stored at `dst`, as they were before. -/
def moveWithin (area : List.Vector α n) (dst src len : ℕ) : Option (List.Vector α n) :=
  (readAt area src len).bind (writeAt area dst)

theorem readAt_eq_some (area : List.Vector α n) {pos len : ℕ} (h : pos + len ≤ n) :
    readAt area pos len = some ((area.toList.drop pos).take len) := if_pos h

theorem length_of_readAt {area : List.Vector α n} {pos len : ℕ} {xs : List α}
    (h : readAt area pos len = some xs) : xs.length = len := by
  obtain ⟨hin, hxs⟩ := Option.ite_none_right_eq_some.mp h
  rw [← Option.some.inj hxs, List.length_take, List.length_drop, List.Vector.toList_length]
  omega

/-- A write that fits is made, and keeps what lies before it. -/
theorem writeAt_eq_some (area : List.Vector α n) {pos : ℕ} {xs : List α}
    (h : pos + xs.length ≤ n) : ∃ area', writeAt area pos xs = some area' ∧
      area'.toList.take (pos + xs.length) = area.toList.take pos ++ xs := by
  refine ⟨_, dif_pos h, ?_⟩
  have hfront : (area.toList.take pos ++ xs).length = pos + xs.length := by
    rw [List.length_append, List.length_take, List.Vector.toList_length]
    omega
  rw [List.Vector.toList_mk, ← List.append_assoc, List.take_left' hfront]

/-- What lies before a write is seen as before it. -/
theorem take_writeAt {area area' : List.Vector α n} {pos k : ℕ} {xs : List α}
    (h : writeAt area pos xs = some area') (hk : k ≤ pos) :
    area'.toList.take k = area.toList.take k := by
  obtain ⟨hin, harea⟩ := Option.dite_none_right_eq_some.mp h
  have hlen : (area.toList.take pos).length = pos := by
    rw [List.length_take, List.Vector.toList_length]
    omega
  rw [← Option.some.inj harea, List.Vector.toList_mk, List.take_append_of_le_length (by omega),
    List.take_take, min_eq_left hk]

theorem moveWithin_eq_some (area : List.Vector α n) {dst src len : ℕ} (hsrc : src + len ≤ n)
    (hdst : dst + len ≤ n) : ∃ area', moveWithin area dst src len = some area' ∧
      area'.toList.take (dst + len) = area.toList.take dst ++ (area.toList.drop src).take len := by
  have hread := readAt_eq_some area hsrc
  have hlen := length_of_readAt hread
  rw [moveWithin, hread, Option.bind_some]
  obtain ⟨area', hwrite, hfront⟩ := writeAt_eq_some area
    (show dst + ((area.toList.drop src).take len).length ≤ n by rwa [hlen])
  rw [hlen] at hfront
  exact ⟨area', hwrite, hfront⟩

end Lib
