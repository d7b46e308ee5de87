import Mathlib.Data.List.DropRight
import Mathlib.Data.Nat.Digits.Lemmas
import Mathlib.Tactic.Ring
import Mathlib.Tactic.NormNum

/-!
# Byte strings: literals, little-endian words, decimal numerals

The byte-level vocabulary of a wire or file format, over `List UInt8`:

* `str` — the bytes of an ASCII literal;
* `leBytes w n` / `ofLE` — a `w`-byte little-endian word, with `ofLE_leBytes` (exact below
  `256 ^ w`) and its converse `leBytes_ofLE`;
* `natBytes` / `intBytes` — decimal printing, and `readInteger`, the longest-prefix reader of the
  C library (blanks, one sign, digits), with the range-checked readers `stoi`, `stoll`, `stoul`;
* `readInteger_natBytes`, `stoul_natBytes` — reading back what was printed;
* `beginsWith_iff`, `stoi_eq_some_iff` — what these readers accept: blanks, a `Numeral`, anything.

`natBytes_crlf_inj` is the framing fact: a decimal numeral closed by CR LF is self-delimiting.
-/

namespace Lib

abbrev Bytes := List UInt8

/-- The bytes of a literal. -/
def str (s : String) : Bytes := s.toUTF8.data.toList

def crlf : Bytes := [13, 10]

/-! ### Little-endian words -/

/-- The `w` low bytes of `n`, least significant first. -/
def leBytes : ℕ → ℕ → Bytes
  | 0, _ => []
  | w + 1, n => UInt8.ofNat (n % 256) :: leBytes w (n / 256)

def ofLE : Bytes → ℕ
  | [] => 0
  | b :: bs => b.toNat + 256 * ofLE bs

@[simp] theorem length_leBytes (w n : ℕ) : (leBytes w n).length = w := by
  induction w generalizing n with
  | zero => rfl
  | succ w ih => simp only [leBytes, List.length_cons, ih]

theorem toNat_ofNat_mod (n : ℕ) : (UInt8.ofNat (n % 256)).toNat = n % 256 := by
  rw [UInt8.toNat_ofNat']
  exact Nat.mod_eq_of_lt (Nat.mod_lt n (by norm_num))

theorem ofLE_leBytes {w n : ℕ} (h : n < 256 ^ w) : ofLE (leBytes w n) = n := by
  induction w generalizing n with
  | zero => simp only [pow_zero, Nat.lt_one_iff] at h; simp [leBytes, ofLE, h]
  | succ w ih =>
    have hdiv : n / 256 < 256 ^ w := by
      rw [pow_succ] at h
      exact Nat.div_lt_of_lt_mul (by rw [Nat.mul_comm]; exact h)
    rw [leBytes, ofLE, ih hdiv, toNat_ofNat_mod]
    exact Nat.mod_add_div n 256

/-- Only the low `w` bytes are kept. -/
theorem leBytes_mod (w n : ℕ) : leBytes w (n % 256 ^ w) = leBytes w n := by
  induction w generalizing n with
  | zero => rfl
  | succ w ih =>
    rw [leBytes, leBytes, pow_succ', Nat.mod_mul_right_mod, Nat.mod_mul_right_div_self, ih]

theorem leBytes_ofLE (bs : Bytes) : leBytes bs.length (ofLE bs) = bs := by
  induction bs with
  | nil => rfl
  | cons b bs ih =>
    have hb : b.toNat < 256 := b.toNat_lt
    rw [List.length_cons, ofLE, leBytes]
    have hlow : (b.toNat + 256 * ofLE bs) % 256 = b.toNat := by omega
    have hhigh : (b.toNat + 256 * ofLE bs) / 256 = ofLE bs := by omega
    rw [hlow, hhigh, ih, UInt8.ofNat_toNat]

theorem ofLE_lt (bs : Bytes) : ofLE bs < 256 ^ bs.length := by
  induction bs with
  | nil => simp [ofLE]
  | cons b bs ih =>
    have hb : b.toNat < 256 := b.toNat_lt
    rw [ofLE, List.length_cons, pow_succ]
    omega

/-! ### Decimal numerals -/

def isBlank (b : UInt8) : Bool := b == 32 || (9 ≤ b && b ≤ 13)

def isDigit (b : UInt8) : Bool := 48 ≤ b && b ≤ 57

/-- The numeral of `n` in base ten. -/
def natBytes (n : ℕ) : Bytes :=
  if n = 0 then [48] else (Nat.digits 10 n).reverse.map fun d => UInt8.ofNat (48 + d)

def intBytes (z : ℤ) : Bytes := if z < 0 then 45 :: natBytes z.natAbs else natBytes z.natAbs

/-- The value of a run of digits. -/
def digitsValue (ds : Bytes) : ℕ := ds.foldl (fun acc b => acc * 10 + (b.toNat - 48)) 0

/-- Sign and magnitude of the longest numeric head: blanks, at most one sign, digits.  `none` when
there is no digit. -/
def readInteger (s : Bytes) : Option (Bool × ℕ) :=
  let body := s.dropWhile isBlank
  let neg := body.head? == some 45
  let rest := if body.head? == some 45 || body.head? == some 43 then body.tail else body
  let ds := rest.takeWhile isDigit
  if ds = [] then none else some (neg, digitsValue ds)

/-- The value of a sign and magnitude. -/
def signed (x : Bool × ℕ) : ℤ := if x.1 then -(x.2 : ℤ) else x.2

/-- `std::stoi`: the value, or an exception (`none`) for no digits or outside 32 bits. -/
def stoi (s : Bytes) : Option ℤ :=
  (readInteger s).bind fun x =>
    if -(2 ^ 31) ≤ signed x ∧ signed x < 2 ^ 31 then some (signed x) else none

/-- `std::stoll`, with the 64-bit range. -/
def stoll (s : Bytes) : Option ℤ :=
  (readInteger s).bind fun x =>
    if -(2 ^ 63) ≤ signed x ∧ signed x < 2 ^ 63 then some (signed x) else none

/-- `std::stoul`: the magnitude must fit 64 bits; a minus sign negates modulo `2 ^ 64`. -/
def stoul (s : Bytes) : Option ℕ :=
  (readInteger s).bind fun x =>
    if x.2 < 2 ^ 64 then some (if x.1 then (2 ^ 64 - x.2) % 2 ^ 64 else x.2) else none

theorem stoul_lt {s : Bytes} {n : ℕ} (h : stoul s = some n) : n < 2 ^ 64 := by
  obtain ⟨⟨neg, m⟩, -, h⟩ := Option.bind_eq_some_iff.mp h
  simp only [Option.ite_none_right_eq_some, Option.some.injEq] at h
  obtain ⟨hm, rfl⟩ := h
  cases neg
  · simpa using hm
  · simpa using Nat.mod_lt _ (by norm_num)

theorem toNat_digit {d : ℕ} (h : d < 10) : (UInt8.ofNat (48 + d)).toNat = 48 + d := by
  rw [UInt8.toNat_ofNat']
  exact Nat.mod_eq_of_lt (by omega)

theorem isDigit_of_mem_natBytes {n : ℕ} {b : UInt8} (h : b ∈ natBytes n) : isDigit b = true := by
  unfold natBytes at h
  split at h
  · simp only [List.mem_singleton] at h
    subst h
    rfl
  · obtain ⟨d, hd, rfl⟩ := List.mem_map.mp h
    have hd10 : d < 10 := Nat.digits_lt_base (by norm_num) (List.mem_reverse.mp hd)
    have := toNat_digit hd10
    simp only [isDigit, Bool.and_eq_true, decide_eq_true_eq, UInt8.le_iff_toNat_le]
    rw [this]
    exact ⟨by simp, by simp; omega⟩

theorem natBytes_ne_nil (n : ℕ) : natBytes n ≠ [] := by
  unfold natBytes
  split
  · simp
  · rename_i h
    simpa using Nat.digits_ne_nil_iff_ne_zero.mpr h

/-- Folding from the left is `Nat.ofDigits` on the reversed digits. -/
theorem digitsValue_eq_ofDigits (ds : Bytes) :
    digitsValue ds = Nat.ofDigits 10 (ds.reverse.map fun b => b.toNat - 48) := by
  induction ds using List.reverseRecOn with
  | nil => rfl
  | append_singleton ds b ih =>
    rw [digitsValue, List.foldl_append] at *
    rw [ih, List.reverse_append, List.reverse_singleton, List.singleton_append, List.map_cons,
      Nat.ofDigits_cons, List.foldl_cons, List.foldl_nil]
    omega

theorem digitsValue_natBytes (n : ℕ) : digitsValue (natBytes n) = n := by
  unfold natBytes
  split
  · rename_i h
    subst h
    rfl
  · have hdigits : ∀ d ∈ Nat.digits 10 n,
        ((fun b : UInt8 => b.toNat - 48) ∘ fun d => UInt8.ofNat (48 + d)) d = id d := by
      intro d hd
      show (UInt8.ofNat (48 + d)).toNat - 48 = d
      rw [toNat_digit (Nat.digits_lt_base (by norm_num) hd)]
      omega
    rw [digitsValue_eq_ofDigits, ← List.map_reverse, List.reverse_reverse, List.map_map,
      List.map_congr_left hdigits, List.map_id, Nat.ofDigits_digits]

theorem natBytes_injective : Function.Injective natBytes := by
  intro n m h
  rw [← digitsValue_natBytes n, h, digitsValue_natBytes]

theorem isBlank_eq_false_of_isDigit {b : UInt8} (h : isDigit b = true) : isBlank b = false := by
  simp only [isDigit, Bool.and_eq_true, decide_eq_true_eq, UInt8.le_iff_toNat_le] at h
  simp only [isBlank, Bool.or_eq_false_iff, beq_eq_false_iff_ne, ne_eq, Bool.and_eq_false_iff,
    decide_eq_false_iff_not, UInt8.le_iff_toNat_le, ← UInt8.toNat_inj]
  simp at h ⊢
  omega

section Digits

variable {ds rest : Bytes} (hne : ds ≠ []) (hds : ∀ b ∈ ds, isDigit b = true)
  (hrest : ∀ b ∈ rest.head?, isDigit b = false)

include hds hrest in
theorem takeWhile_isDigit : (ds ++ rest).takeWhile isDigit = ds := by
  rw [List.takeWhile_append_of_pos hds]
  cases rest with
  | nil => simp
  | cons c cs => simp [hrest c (by simp)]

include hne hds hrest

/-- Reading digits followed by a byte that is not a digit (or by nothing). -/
theorem readInteger_digits : readInteger (ds ++ rest) = some (false, digitsValue ds) := by
  have htake := takeWhile_isDigit hds hrest
  obtain ⟨b, bs, rfl⟩ := List.exists_cons_of_ne_nil hne
  have hb : isDigit b = true := hds b (by simp)
  have hne45 : b ≠ 45 := fun e => by subst e; revert hb; decide
  have hne43 : b ≠ 43 := fun e => by subst e; revert hb; decide
  have hdrop : (b :: bs ++ rest).dropWhile isBlank = b :: bs ++ rest := by
    simp [isBlank_eq_false_of_isDigit hb]
  simp only [readInteger, hdrop]
  simp only [List.cons_append] at htake ⊢
  simp [hne45, hne43, htake]

theorem readInteger_minus_digits :
    readInteger (45 :: (ds ++ rest)) = some (true, digitsValue ds) := by
  have hdrop : (45 :: (ds ++ rest)).dropWhile isBlank = 45 :: (ds ++ rest) := by
    rw [List.dropWhile_cons_of_neg (by decide)]
  simp only [readInteger, hdrop]
  simp [takeWhile_isDigit hds hrest, hne]

end Digits

/-- Reading a numeral followed by a byte that is not a digit (or by nothing). -/
theorem readInteger_natBytes (n : ℕ) {rest : Bytes} (h : ∀ b ∈ rest.head?, isDigit b = false) :
    readInteger (natBytes n ++ rest) = some (false, n) := by
  rw [readInteger_digits (natBytes_ne_nil n) (fun _ => isDigit_of_mem_natBytes) h,
    digitsValue_natBytes]

/-- A byte that is no digit ends a numeral: numerals closed by it are self-delimiting. -/
theorem natBytes_stop_inj {n m : ℕ} {c : UInt8} (hc : isDigit c = false) {x y : Bytes}
    (h : natBytes n ++ c :: x = natBytes m ++ c :: y) : n = m ∧ x = y := by
  have htake : ∀ (k : ℕ) (z : Bytes), (natBytes k ++ c :: z).takeWhile isDigit = natBytes k := by
    intro k z
    rw [List.takeWhile_append_of_pos fun b hb => isDigit_of_mem_natBytes hb]
    simp [hc]
  have hnm : natBytes n = natBytes m := by rw [← htake n x, h, htake]
  refine ⟨natBytes_injective hnm, ?_⟩
  rw [hnm] at h
  simpa using List.append_cancel_left h

theorem natBytes_crlf_inj {n m : ℕ} {x y : Bytes}
    (h : natBytes n ++ (crlf ++ x) = natBytes m ++ (crlf ++ y)) : n = m ∧ x = y := by
  obtain ⟨hnm, hxy⟩ := natBytes_stop_inj (c := 13) rfl
    (show natBytes n ++ 13 :: (10 :: x) = natBytes m ++ 13 :: (10 :: y) from h)
  exact ⟨hnm, by simpa using hxy⟩

/-! ### Leading zeros -/

/-- The numeral of `n` behind any number of zeros. -/
def PaddedNat (n : ℕ) (ds : Bytes) : Prop := ∃ zeros, ds = List.replicate zeros 48 ++ natBytes n

theorem paddedNat_natBytes (n : ℕ) : PaddedNat n (natBytes n) := ⟨0, rfl⟩

theorem digitsValue_cons (b : UInt8) (ds : Bytes) :
    digitsValue (b :: ds) = (b.toNat - 48) * 10 ^ ds.length + digitsValue ds := by
  have hfold : ∀ (ds : Bytes) (acc : ℕ), ds.foldl (fun acc b => acc * 10 + (b.toNat - 48)) acc =
      acc * 10 ^ ds.length + digitsValue ds := by
    intro ds
    induction ds with
    | nil => simp [digitsValue]
    | cons c ds ih =>
      intro acc
      rw [digitsValue, List.foldl_cons, List.foldl_cons, ih, ih, List.length_cons]
      ring
  rw [digitsValue, List.foldl_cons, hfold]
  simp

theorem digitsValue_zeros (k : ℕ) (ds : Bytes) :
    digitsValue (List.replicate k 48 ++ ds) = digitsValue ds := by
  induction k with
  | zero => rfl
  | succ k ih =>
    rw [List.replicate_succ, List.cons_append, digitsValue_cons, ih]
    simp

/-- Digits that do not start with a zero are the numeral of their value. -/
theorem natBytes_digitsValue {ds : Bytes} (hne : ds ≠ []) (hds : ∀ b ∈ ds, isDigit b = true)
    (hhead : ds.head? ≠ some 48) : natBytes (digitsValue ds) = ds := by
  have hrange : ∀ b ∈ ds, 48 ≤ b.toNat ∧ b.toNat ≤ 57 := by
    intro b hb
    simpa [isDigit, UInt8.le_iff_toNat_le] using hds b hb
  have hdigits : Nat.digits 10 (digitsValue ds) = ds.reverse.map fun b => b.toNat - 48 := by
    rw [digitsValue_eq_ofDigits]
    apply Nat.digits_ofDigits 10 (by norm_num)
    · intro d hd
      obtain ⟨b, hb, rfl⟩ := List.mem_map.mp hd
      have := hrange b (List.mem_reverse.mp hb)
      omega
    · intro hnil
      obtain ⟨b, bs, rfl⟩ := List.exists_cons_of_ne_nil hne
      have hb := hrange b (by simp)
      have hb48 : b.toNat ≠ 48 := fun h =>
        hhead (congrArg some (UInt8.toNat_inj.mp (show b.toNat = (48 : UInt8).toNat from h)))
      simp only [List.getLast_map, List.getLast_reverse, List.head_cons]
      omega
  have hzero : digitsValue ds ≠ 0 := by
    intro hzero
    rw [hzero, Nat.digits_zero] at hdigits
    exact hne (by simpa using hdigits.symm)
  have hbytes : ∀ b ∈ ds, ((fun d => UInt8.ofNat (48 + d)) ∘ fun b : UInt8 => b.toNat - 48) b =
      id b := by
    intro b hb
    have hb := hrange b hb
    show UInt8.ofNat (48 + (b.toNat - 48)) = b
    rw [show 48 + (b.toNat - 48) = b.toNat by omega, UInt8.ofNat_toNat]
  rw [natBytes, if_neg hzero, hdigits, ← List.map_reverse, List.reverse_reverse, List.map_map,
    List.map_congr_left hbytes, List.map_id]

theorem paddedNat_iff {n : ℕ} {ds : Bytes} :
    PaddedNat n ds ↔ ds ≠ [] ∧ (∀ b ∈ ds, isDigit b = true) ∧ digitsValue ds = n := by
  constructor
  · intro h
    obtain ⟨k, rfl⟩ := h
    refine ⟨by simp [natBytes_ne_nil], ?_, by rw [digitsValue_zeros, digitsValue_natBytes]⟩
    intro b hb
    rcases List.mem_append.mp hb with hb | hb
    · obtain rfl := List.eq_of_mem_replicate hb
      rfl
    · exact isDigit_of_mem_natBytes hb
  · intro h
    obtain ⟨hne, hds, rfl⟩ := h
    induction ds with
    | nil => exact absurd rfl hne
    | cons b ds ih =>
      by_cases hb : b = 48
      · subst hb
        rcases List.eq_nil_or_concat ds with rfl | ⟨_, _, hcons⟩
        · exact ⟨0, rfl⟩
        · obtain ⟨k, hk⟩ := ih (by simp [hcons]) fun c hc => hds c (List.mem_cons_of_mem 48 hc)
          refine ⟨k + 1, ?_⟩
          rw [digitsValue_cons, List.replicate_succ, List.cons_append]
          simpa using hk
      · exact ⟨0, (natBytes_digitsValue hne hds (by simpa using hb)).symm⟩

namespace PaddedNat

variable {n : ℕ} {ds : Bytes}

theorem not_mem (h : PaddedNat n ds) {b : UInt8} (hb : isDigit b = false) : b ∉ ds := by
  intro hmem
  rw [(paddedNat_iff.mp h).2.1 b hmem] at hb
  cases hb

theorem ne_minus_one (h : PaddedNat n ds) : ds ≠ str "-1" := by
  intro heq
  exact h.not_mem (b := 45) rfl (by rw [heq]; decide)

theorem readInteger_eq (h : PaddedNat n ds) : readInteger ds = some (false, n) := by
  obtain ⟨hne, hds, hvalue⟩ := paddedNat_iff.mp h
  have hread := readInteger_digits hne hds (show ∀ b ∈ ([] : Bytes).head?, isDigit b = false by simp)
  rwa [List.append_nil, hvalue] at hread

theorem readInteger_minus (h : PaddedNat n ds) : readInteger (45 :: ds) = some (true, n) := by
  obtain ⟨hne, hds, hvalue⟩ := paddedNat_iff.mp h
  have hread :=
    readInteger_minus_digits hne hds (show ∀ b ∈ ([] : Bytes).head?, isDigit b = false by simp)
  rwa [List.append_nil, hvalue] at hread

theorem stoul_eq (h : PaddedNat n ds) (hn : n < 2 ^ 64) : stoul ds = some n := by
  simp only [stoul, h.readInteger_eq, Option.bind_some, hn, if_true, Bool.false_eq_true, if_false]

end PaddedNat

theorem stoul_natBytes {n : ℕ} (h : n < 2 ^ 64) : stoul (natBytes n) = some n :=
  (paddedNat_natBytes n).stoul_eq h

/-- The sign in front of an integer's digits. -/
def signBytes (n : ℤ) : Bytes := if n < 0 then [45] else []

theorem intBytes_eq (n : ℤ) : intBytes n = signBytes n ++ natBytes n.natAbs := by
  unfold intBytes signBytes
  split <;> rfl

theorem lf_not_mem_signBytes (n : ℤ) : (10 : UInt8) ∉ signBytes n := by
  unfold signBytes
  split <;> decide

theorem stoll_of_signed {s : Bytes} {x : Bool × ℕ} {n : ℤ} (hread : readInteger s = some x)
    (hsigned : signed x = n) (hrange : -(2 ^ 63) ≤ n ∧ n < 2 ^ 63) : stoll s = some n := by
  simp only [stoll, hread, Option.bind_some, hsigned, hrange, and_self, if_true]

theorem PaddedNat.stoll_eq {n : ℤ} {ds : Bytes} (h : PaddedNat n.natAbs ds)
    (hrange : -(2 ^ 63) ≤ n ∧ n < 2 ^ 63) : stoll (signBytes n ++ ds) = some n := by
  unfold signBytes
  split
  · rename_i hneg
    apply stoll_of_signed h.readInteger_minus _ hrange
    show -((n.natAbs : ℕ) : ℤ) = n
    omega
  · rename_i hneg
    apply stoll_of_signed h.readInteger_eq _ hrange
    show ((n.natAbs : ℕ) : ℤ) = n
    omega

/-! ### Texts that are a numeral, texts that begin with one -/

/-- An optional sign and one or more digits, of value `n`. -/
inductive Numeral : Bytes → ℤ → Prop where
  | digits {n : ℕ} {ds : Bytes} : PaddedNat n ds → Numeral ds n
  | plus {n : ℕ} {ds : Bytes} : PaddedNat n ds → Numeral (43 :: ds) n
  | minus {n : ℕ} {ds : Bytes} : PaddedNat n ds → Numeral (45 :: ds) (-n)

/-- Blanks, a numeral of value `n`, and what is no further digit. -/
def BeginsWith (s : Bytes) (n : ℤ) : Prop :=
  ∃ blanks t rest, s = blanks ++ (t ++ rest) ∧ (∀ b ∈ blanks, isBlank b = true) ∧ Numeral t n ∧
    ∀ b ∈ rest.head?, isDigit b = false

theorem Numeral.beginsWith {s : Bytes} {n : ℤ} (h : Numeral s n) : BeginsWith s n :=
  ⟨[], s, [], by simp, by simp, h, by simp⟩

theorem Numeral.not_mem {s : Bytes} {n : ℤ} (h : Numeral s n) {b : UInt8} (hb : isDigit b = false)
    (hplus : b ≠ 43) (hminus : b ≠ 45) : b ∉ s := by
  cases h with
  | digits h => exact h.not_mem hb
  | plus h => exact List.not_mem_cons_of_ne_of_not_mem hplus (h.not_mem hb)
  | minus h => exact List.not_mem_cons_of_ne_of_not_mem hminus (h.not_mem hb)

theorem readInteger_blanks {blanks s : Bytes} (h : ∀ b ∈ blanks, isBlank b = true) :
    readInteger (blanks ++ s) = readInteger s := by
  simp only [readInteger, List.dropWhile_append_of_pos h]

section Digits

variable {ds rest : Bytes} (hne : ds ≠ []) (hds : ∀ b ∈ ds, isDigit b = true)
  (hrest : ∀ b ∈ rest.head?, isDigit b = false)

include hne hds hrest

theorem readInteger_plus_digits :
    readInteger (43 :: (ds ++ rest)) = some (false, digitsValue ds) := by
  have hdrop : (43 :: (ds ++ rest)).dropWhile isBlank = 43 :: (ds ++ rest) := by
    rw [List.dropWhile_cons_of_neg (by decide)]
  simp only [readInteger, hdrop]
  simp [takeWhile_isDigit hds hrest, hne]

end Digits

theorem Numeral.readInteger_append {t rest : Bytes} {n : ℤ} (h : Numeral t n)
    (hrest : ∀ b ∈ rest.head?, isDigit b = false) :
    ∃ x, readInteger (t ++ rest) = some x ∧ signed x = n := by
  cases h with
  | digits h =>
    obtain ⟨hne, hds, rfl⟩ := paddedNat_iff.mp h
    exact ⟨_, readInteger_digits hne hds hrest, rfl⟩
  | plus h =>
    obtain ⟨hne, hds, rfl⟩ := paddedNat_iff.mp h
    exact ⟨_, readInteger_plus_digits hne hds hrest, rfl⟩
  | minus h =>
    obtain ⟨hne, hds, rfl⟩ := paddedNat_iff.mp h
    exact ⟨_, readInteger_minus_digits hne hds hrest, rfl⟩

/-- The digits at the front of a text, and what follows them. -/
theorem exists_digits {s : Bytes} (hne : s.takeWhile isDigit ≠ []) :
    ∃ ds rest, s = ds ++ rest ∧ PaddedNat (digitsValue (s.takeWhile isDigit)) ds ∧
      ∀ b ∈ rest.head?, isDigit b = false := by
  refine ⟨s.takeWhile isDigit, s.dropWhile isDigit, List.takeWhile_append_dropWhile.symm,
    paddedNat_iff.mpr ⟨hne, List.all_eq_true.mp List.all_takeWhile, rfl⟩, fun b hb => ?_⟩
  have hhead := List.head?_dropWhile_not isDigit s
  rw [Option.mem_def.mp hb] at hhead
  simpa using hhead

/-- A sign and digits at the front of a text that does not begin with a blank. -/
theorem exists_numeral {body : Bytes} {x : Bool × ℕ} (hbody : body.dropWhile isBlank = body)
    (h : readInteger body = some x) :
    ∃ t rest, body = t ++ rest ∧ Numeral t (signed x) ∧ ∀ b ∈ rest.head?, isDigit b = false := by
  simp only [readInteger, hbody, Option.ite_none_left_eq_some, Option.some.injEq] at h
  obtain ⟨hne, rfl⟩ := h
  cases body with
  | nil => exact absurd rfl hne
  | cons c body =>
    by_cases hminus : c = 45
    · subst hminus
      obtain ⟨ds, rest, hsplit, hds, hrest⟩ := exists_digits hne
      exact ⟨45 :: ds, rest, by rw [List.cons_append, ← hsplit]; rfl, .minus hds, hrest⟩
    · by_cases hplus : c = 43
      · subst hplus
        obtain ⟨ds, rest, hsplit, hds, hrest⟩ := exists_digits hne
        exact ⟨43 :: ds, rest, by rw [List.cons_append, ← hsplit]; rfl, .plus hds, hrest⟩
      · simp only [List.head?_cons, Option.some_beq_some, beq_iff_eq, hminus, hplus, Bool.or_eq_true,
          or_self, if_false] at hne ⊢
        obtain ⟨ds, rest, hsplit, hds, hrest⟩ := exists_digits hne
        refine ⟨ds, rest, hsplit, ?_, hrest⟩
        rw [beq_eq_false_iff_ne.mpr hminus]
        exact .digits hds

/-- `readInteger` succeeds on what begins with a numeral. -/
theorem beginsWith_iff {s : Bytes} {n : ℤ} :
    BeginsWith s n ↔ ∃ x, readInteger s = some x ∧ signed x = n := by
  constructor
  · rintro ⟨blanks, t, rest, rfl, hblanks, ht, hrest⟩
    rw [readInteger_blanks hblanks]
    exact ht.readInteger_append hrest
  · rintro ⟨x, hread, rfl⟩
    have hsplit : s.takeWhile isBlank ++ s.dropWhile isBlank = s := List.takeWhile_append_dropWhile
    have hblanks : ∀ b ∈ s.takeWhile isBlank, isBlank b = true :=
      List.all_eq_true.mp List.all_takeWhile
    rw [← hsplit, readInteger_blanks hblanks] at hread
    obtain ⟨t, rest, hbody, ht, hrest⟩ := exists_numeral (List.dropWhile_idempotent _ _) hread
    exact ⟨s.takeWhile isBlank, t, rest, by rw [← hbody, hsplit], hblanks, ht, hrest⟩

theorem stoi_eq_some_iff {s : Bytes} {n : ℤ} :
    stoi s = some n ↔ BeginsWith s n ∧ -(2 ^ 31) ≤ n ∧ n < 2 ^ 31 := by
  rw [beginsWith_iff, stoi, Option.bind_eq_some_iff]
  simp only [Option.ite_none_right_eq_some, Option.some.injEq]
  constructor
  · rintro ⟨x, hread, hrange, rfl⟩
    exact ⟨⟨x, hread, rfl⟩, hrange⟩
  · rintro ⟨⟨x, hread, rfl⟩, hrange⟩
    exact ⟨x, hread, hrange, rfl⟩

theorem stoll_eq_some_iff {s : Bytes} {n : ℤ} :
    stoll s = some n ↔ BeginsWith s n ∧ -(2 ^ 63) ≤ n ∧ n < 2 ^ 63 := by
  rw [beginsWith_iff, stoll, Option.bind_eq_some_iff]
  simp only [Option.ite_none_right_eq_some, Option.some.injEq]
  constructor
  · rintro ⟨x, hread, hrange, rfl⟩
    exact ⟨⟨x, hread, rfl⟩, hrange⟩
  · rintro ⟨⟨x, hread, rfl⟩, hrange⟩
    exact ⟨x, hread, hrange, rfl⟩

/-! ### Cutting a concatenation -/

/-- A proper beginning of a concatenation: some blocks, and a proper beginning of the next one. -/
theorem cut_flatMap {α β : Type} (f : α → List β) {l : List α} {t w : List β}
    (h : t ++ w = l.flatMap f) (hw : w ≠ []) :
    ∃ done x todo v v', l = done ++ x :: todo ∧ t = done.flatMap f ++ v ∧ v ++ v' = f x ∧ v' ≠ [] := by
  induction l generalizing t with
  | nil => exact absurd (List.append_eq_nil_iff.mp h).2 hw
  | cons a l ih =>
    have hstep : ∀ c, t = f a ++ c → c ++ w = l.flatMap f → ∃ done x todo v v',
        a :: l = done ++ x :: todo ∧ t = done.flatMap f ++ v ∧ v ++ v' = f x ∧ v' ≠ [] := by
      intro c ht hc
      obtain ⟨done, x, todo, v, v', rfl, rfl, hv, hv'⟩ := ih hc
      exact ⟨a :: done, x, todo, v, v', rfl, by rw [ht]; simp, hv, hv'⟩
    rw [List.flatMap_cons] at h
    rcases List.append_eq_append_iff.mp h with ⟨v', hfa, hrest⟩ | ⟨c, ht, hc⟩
    · by_cases hv' : v' = []
      · subst hv'
        exact hstep [] (by simpa using hfa.symm) (by simpa using hrest)
      · exact ⟨[], a, l, t, v', rfl, rfl, hfa.symm, hv'⟩
    · exact hstep c ht hc.symm

/-- What follows a block does not depend on how the block is read. -/
def SelfDelimiting {α β : Type} (f : α → List β) : Prop :=
  ∀ x y r r', f x ++ r = f y ++ r' → r = r'

/-- Two ways to read a row of blocks up to something that starts no block read equally far. -/
theorem SelfDelimiting.row_eq {α β : Type} {f : α → List β} (hf : SelfDelimiting f) {l l' : List α}
    {r r' : List β} (hr : ∀ x t, r ≠ f x ++ t) (hr' : ∀ x t, r' ≠ f x ++ t)
    (h : l.flatMap f ++ r = l'.flatMap f ++ r') : l.length = l'.length ∧ r = r' := by
  induction l generalizing l' with
  | nil =>
    cases l' with
    | nil => exact ⟨rfl, h⟩
    | cons y l' =>
      rw [List.flatMap_cons, List.append_assoc] at h
      exact absurd h (hr y _)
  | cons x l ih =>
    rw [List.flatMap_cons, List.append_assoc] at h
    cases l' with
    | nil => exact absurd h.symm (hr' x _)
    | cons y l' =>
      rw [List.flatMap_cons, List.append_assoc] at h
      obtain ⟨hlen, hrest⟩ := ih (hf x y _ _ h)
      exact ⟨by rw [List.length_cons, List.length_cons, hlen], hrest⟩

theorem SelfDelimiting.length_eq {α β : Type} {f : α → List β} (hf : SelfDelimiting f)
    (hne : ∀ x, f x ≠ []) {l l' : List α} (h : l.flatMap f = l'.flatMap f) :
    l.length = l'.length := by
  have hnil : ∀ x t, ([] : List β) ≠ f x ++ t := by
    intro x t hx
    exact hne x (List.append_eq_nil_iff.mp hx.symm).1
  exact (hf.row_eq hnil hnil (by rw [h])).1

end Lib
