import MinimalRedis.Commands

/-!
# Replies determine what they carry

Counts and lengths are decimal numerals closed by CR LF, so a reply can be read back: equal array
replies list equal items, equal integer replies carry equal numbers, and the null reply is no bulk
reply.
-/

namespace MinimalRedis

open Lib

theorem bulkReply_append_inj {s t x y : Bytes} (h : bulkReply s ++ x = bulkReply t ++ y) :
    s = t ∧ x = y := by
  simp only [bulkReply, List.cons_append, List.append_assoc, List.cons.injEq, true_and] at h
  obtain ⟨hlen, htail⟩ := natBytes_crlf_inj h
  obtain ⟨hs, htail⟩ := List.append_inj htail hlen
  exact ⟨hs, List.append_cancel_left htail⟩

theorem flatMap_bulkReply_inj {items items' : List Bytes} (hlen : items.length = items'.length)
    (h : items.flatMap bulkReply = items'.flatMap bulkReply) : items = items' := by
  induction items generalizing items' with
  | nil => exact (List.length_eq_zero_iff.mp hlen.symm).symm
  | cons s items ih =>
    cases items' with
    | nil => simp at hlen
    | cons t items' =>
      rw [List.flatMap_cons, List.flatMap_cons] at h
      obtain ⟨rfl, htail⟩ := bulkReply_append_inj h
      rw [ih (by simpa using hlen) htail]

theorem arrayReply_injective : Function.Injective arrayReply := by
  intro items items' h
  obtain ⟨hlen, hflat⟩ := natBytes_crlf_inj (List.cons.inj h).2
  exact flatMap_bulkReply_inj hlen hflat

/-- A numeral has no sign. -/
theorem natBytes_ne_minus (n : ℕ) (bs : Bytes) : natBytes n ≠ 45 :: bs := by
  intro h
  have hdigit : isDigit 45 = true := isDigit_of_mem_natBytes (n := n) (by simp [h])
  cases hdigit

theorem intBytes_injective : Function.Injective intBytes := by
  intro z w h
  rw [intBytes, intBytes] at h
  split at h
  · split at h
    · have habs := natBytes_injective (List.cons.inj h).2
      omega
    · exact absurd h.symm (natBytes_ne_minus _ _)
  · split at h
    · exact absurd h (natBytes_ne_minus _ _)
    · have habs := natBytes_injective h
      omega

theorem intReply_inj {z w : ℤ} : intReply z = intReply w ↔ z = w := by
  constructor
  · intro h
    exact intBytes_injective (List.append_cancel_right (List.cons.inj h).2)
  · rintro rfl
    rfl

theorem intReply_natCast_inj {n m : ℕ} : intReply n = intReply m ↔ n = m := by
  rw [intReply_inj]
  exact Int.natCast_inj

theorem boolReply_inj {a b : Bool} : boolReply a = boolReply b ↔ a = b := by
  cases a <;> cases b <;> decide

theorem bulkReply_ne_nullBulk (s : Bytes) : bulkReply s ≠ nullBulk := by
  intro h
  obtain ⟨d, ds, hd⟩ := List.exists_cons_of_ne_nil (natBytes_ne_nil s.length)
  have h' : natBytes s.length ++ (crlf ++ (s ++ crlf)) = str "-1\r\n" := (List.cons.inj h).2
  rw [hd] at h'
  obtain rfl : d = 45 := (List.cons.inj h').1
  exact natBytes_ne_minus _ _ hd

theorem intReply_ne_nullBulk (z : ℤ) : intReply z ≠ nullBulk := by
  intro h
  have hhead := congrArg List.head? h
  exact absurd (show some (58 : UInt8) = some 36 from hhead) (by decide)

theorem hashReply_eq_empty_iff {hash : UMap Bytes Bytes} :
    hashReply hash = hashReply ∅ ↔ hash = ∅ := by
  constructor
  · intro h
    have hsize : hash.size * 2 = 0 := (natBytes_crlf_inj (List.cons.inj h).2).1
    exact UMap.size_eq_zero_iff.mp (by omega)
  · rintro rfl
    rfl

end MinimalRedis
