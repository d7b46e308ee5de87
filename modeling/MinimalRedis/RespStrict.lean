import MinimalRedis.RespGrammar

/-!
# What the parser accepts beyond RESP

`stoll` and `stoul` skip blanks, take a plus sign and ignore what follows the digits; `read_line`
drops the byte before the LF **whatever it is**, and `read_bulk_string` skips two bytes **unseen**.
`Lax buf p` lists what this lets through at a value that starts at `p`.

* `taken_of_parse` — what an accepted buffer holds, read off the parser: `Taken buf vs p q` says that
  the parser makes the values `vs` of the bytes between `p` and `q`;
* `wireRow_iff` — by induction on `Taken`: these bytes are a wire form of the values **iff no value
  that was reached on the way is lax**;
* `parse_strict_iff` — the same for a whole parse.
-/

namespace MinimalRedis

open Lib

theorem map_eq_ok {ε α β : Type} {x : Except ε α} {f : α → β} {b : β} (h : x.map f = .ok b) :
    ∃ a, x = .ok a ∧ f a = b := by
  cases x with
  | error err => cases h
  | ok a => exact ⟨a, rfl, Except.ok.inj h⟩

theorem bind_eq_ok {ε α β : Type} {x : Except ε α} {f : α → Except ε β} {b : β}
    (h : x.bind f = .ok b) : ∃ a, x = .ok a ∧ f a = .ok b := by
  cases x with
  | error err => cases h
  | ok a => exact ⟨a, rfl, h⟩

namespace RespParser

/-! ### Laxness -/

def AllDigits (line : Bytes) : Prop := ∀ b ∈ line, isDigit b = true

instance (line : Bytes) : Decidable (AllDigits line) := List.decidableBAll _ _

/-- Digits, or a minus sign and digits that are not all zeros. -/
def IntegerLine (line : Bytes) : Prop :=
  AllDigits line ∨ ∃ ds, line = 45 :: ds ∧ AllDigits ds ∧ digitsValue ds ≠ 0

/-- The value at `p` is accepted although it is no RESP. -/
inductive Lax (buf : Bytes) (p : ℕ) : Prop where
  /-- The byte dropped before the LF is no CR. -/
  | lineEnd (line : Bytes) (e : ℕ) : lineAt? buf (p + 1) = some (line, e) → buf[e - 2]? ≠ some 13 →
      Lax buf p
  /-- A second CR goes with the first. -/
  | extraCR (line : Bytes) (e : ℕ) : buf[p]? = some 43 ∨ buf[p]? = some 45 →
      lineAt? buf (p + 1) = some (line, e) → line.getLast? = some 13 → Lax buf p
  /-- Blanks, a plus sign, text behind the digits, or a negative zero. -/
  | integerText (line : Bytes) (e : ℕ) : buf[p]? = some 58 →
      lineAt? buf (p + 1) = some (line, e) → ¬ IntegerLine line → Lax buf p
  /-- A length with anything but digits, the null length apart. -/
  | lengthText (line : Bytes) (e : ℕ) : buf[p]? = some 36 → lineAt? buf (p + 1) = some (line, e) →
      line ≠ str "-1" → ¬ AllDigits line → Lax buf p
  /-- The two bytes behind the payload are no CR LF. -/
  | payloadEnd (line : Bytes) (e n : ℕ) : buf[p]? = some 36 →
      lineAt? buf (p + 1) = some (line, e) → line ≠ str "-1" → stoul line = some n →
      (buf.drop (e + n)).take 2 ≠ crlf → Lax buf p
  /-- A count with anything but digits. -/
  | countText (line : Bytes) (e : ℕ) : buf[p]? = some 42 → lineAt? buf (p + 1) = some (line, e) →
      ¬ AllDigits line → Lax buf p

/-! ### What was accepted -/

/-- A value other than an array, from `p` to `q`. -/
inductive TakenFlat (buf : Bytes) (p : ℕ) : RespValue → ℕ → Prop where
  | simpleString {line : Bytes} {e : ℕ} : buf[p]? = some 43 →
      lineAt? buf (p + 1) = some (line, e) → TakenFlat buf p (.simpleString (popCR line)) e
  | error {line : Bytes} {e : ℕ} : buf[p]? = some 45 → lineAt? buf (p + 1) = some (line, e) →
      TakenFlat buf p (.error (popCR line)) e
  | integer {line : Bytes} {e : ℕ} {n : ℤ} : buf[p]? = some 58 →
      lineAt? buf (p + 1) = some (line, e) → stoll line = some n → TakenFlat buf p (.integer n) e
  | nullBulk {e : ℕ} : buf[p]? = some 36 → lineAt? buf (p + 1) = some (str "-1", e) →
      TakenFlat buf p (.bulkString []) e
  | bulkString {line : Bytes} {e n : ℕ} : buf[p]? = some 36 →
      lineAt? buf (p + 1) = some (line, e) → line ≠ str "-1" → stoul line = some n →
      e + n + 2 ≤ buf.length → TakenFlat buf p (.bulkString ((buf.drop e).take n)) (e + n + 2)

/-- The values made of the bytes from `p` to `q`. -/
inductive Taken (buf : Bytes) : List RespValue → ℕ → ℕ → Prop where
  | nil (p : ℕ) : Taken buf [] p p
  | flat {v : RespValue} {vs : List RespValue} {p q r : ℕ} : TakenFlat buf p v q →
      Taken buf vs q r → Taken buf (v :: vs) p r
  | array {elems vs : List RespValue} {p e q r : ℕ} : arrayHead? buf p = some (elems.length, e) →
      Taken buf elems e q → Taken buf vs q r → Taken buf (.array elems :: vs) p r

theorem TakenFlat.flatEnd? {buf : Bytes} {p q : ℕ} {v : RespValue} (h : TakenFlat buf p v q) :
    flatEnd? buf p = some q := by
  cases h with
  | simpleString hchar hline => simp [RespParser.flatEnd?, hchar, hline]
  | error hchar hline => simp [RespParser.flatEnd?, hchar, hline]
  | integer hchar hline hn => simp [RespParser.flatEnd?, hchar, hline, hn]
  | nullBulk hchar hline => simp [RespParser.flatEnd?, hchar, hline]
  | bulkString hchar hline hne hn hend => simp [RespParser.flatEnd?, hchar, hline, hne, hn, hend]

theorem Taken.spans {buf : Bytes} {vs : List RespValue} {p q : ℕ} (h : Taken buf vs p q) :
    Spans buf vs.length p q := by
  induction h with
  | nil p => exact .nil p
  | flat hflat _ ih => exact .flat hflat.flatEnd? ih
  | array hhead _ _ ih ih' => exact .array hhead ih ih'

section Accepted

variable {grants : ℕ} {buf : Bytes} (hlen : buf.length < 2 ^ 63 - 1)

include hlen

theorem lineAt?_of_readLine {p e : ℕ} {line : Bytes} (h : readLine grants buf p = .ok (line, e)) :
    lineAt? buf p = some (line, e) := by
  unfold readLine at h
  unfold lineAt?
  cases hlf : findLF buf p with
  | none => rw [hlf] at h; cases h
  | some lf =>
    have hle := (findLF_spec hlf).1
    have hlt := lt_length_of_findLF hlf
    simp only [hlf, makeString, allocate] at h
    by_cases heq : lf = p
    · -- the length wraps above `max_size`
      rw [if_pos (by unfold stringMaxSize; omega)] at h
      cases h
    · rw [show (lf + 2 ^ 64 - p - 1) % 2 ^ 64 = lf - p - 1 by omega] at h
      split at h
      · cases h
      · split at h
        · cases h
        · simp only [Except.map, Except.ok.injEq] at h
          rw [Option.bind_some, if_neg heq, h]

theorem bulk_of_readBulkString {e n q : ℕ} {s : Bytes} (he : e ≤ buf.length)
    (h : readBulkString grants buf e n = .ok (s, q)) :
    e + n + 2 ≤ buf.length ∧ s = (buf.drop e).take n ∧ q = e + n + 2 := by
  unfold readBulkString makeString allocate at h
  split at h
  · cases h
  · rename_i hend
    split at h
    · cases h
    · rename_i hmax
      split at h
      · cases h
      · simp only [Except.map, Except.ok.injEq, Prod.mk.injEq] at h
        -- neither summand is long enough for the sum to wrap
        unfold stringMaxSize at hmax
        rw [Nat.mod_eq_of_lt (by omega)] at hend h
        exact ⟨by omega, h.1.symm, h.2.symm⟩

/-- An accepted value that is no array. -/
theorem takenFlat_of_parseFrom {fuel p q : ℕ} {v : RespValue} (hchar : ¬ buf[p]? = some 42)
    (h : parseFrom grants buf (fuel + 1) p = .ok (v, q)) : TakenFlat buf p v q := by
  by_cases h43 : buf[p]? = some 43
  · rw [parseFrom_of_plus h43] at h
    obtain ⟨⟨line, e⟩, hline, hv⟩ := map_eq_ok h
    cases hv
    exact .simpleString h43 (lineAt?_of_readLine hlen hline)
  by_cases h45 : buf[p]? = some 45
  · rw [parseFrom_of_minus h45] at h
    obtain ⟨⟨line, e⟩, hline, hv⟩ := map_eq_ok h
    cases hv
    exact .error h45 (lineAt?_of_readLine hlen hline)
  by_cases h58 : buf[p]? = some 58
  · rw [parseFrom_of_colon h58] at h
    obtain ⟨⟨line, e⟩, hline, hv⟩ := bind_eq_ok h
    cases hn : stoll line with
    | none => simp [hn] at hv
    | some n =>
      simp only [hn, Except.ok.injEq, Prod.mk.injEq] at hv
      obtain ⟨rfl, rfl⟩ := hv
      exact .integer h58 (lineAt?_of_readLine hlen hline) hn
  by_cases h36 : buf[p]? = some 36
  · rw [parseFrom_of_dollar h36] at h
    obtain ⟨⟨line, e⟩, hline, hv⟩ := bind_eq_ok h
    have hline := lineAt?_of_readLine hlen hline
    simp only at hv
    split at hv
    · rename_i hnull
      cases hv
      exact .nullBulk h36 (by rw [hline, hnull])
    · rename_i hne
      cases hn : stoul line with
      | none => simp [hn] at hv
      | some n =>
        simp only [hn] at hv
        obtain ⟨⟨s, q'⟩, hread, hv⟩ := map_eq_ok hv
        obtain ⟨hend, rfl, rfl⟩ := bulk_of_readBulkString hlen (lineAt?_spec hline).2 hread
        cases hv
        exact .bulkString h36 hline hne hn hend
  · rw [parseFrom] at h
    cases hget : buf[p]? with
    | none => rw [hget] at h; cases h
    | some c =>
      rw [hget, Option.some.injEq] at h43 h45 h58 h36 hchar
      simp [hget, h43, h45, h58, h36, hchar] at h

omit hlen in
theorem Taken.cons {v : RespValue} {vs : List RespValue} {p q r : ℕ} (h : Taken buf [v] p q)
    (h' : Taken buf vs q r) : Taken buf (v :: vs) p r := by
  cases h with
  | flat hflat hnil =>
    cases hnil
    exact .flat hflat h'
  | array hhead helems hnil =>
    cases hnil
    exact .array hhead helems h'

/-- What an accepted buffer holds. -/
theorem taken_of_parse (fuel : ℕ) :
    (∀ p v q, parseFrom grants buf fuel p = .ok (v, q) → Taken buf [v] p q) ∧
      ∀ n p vs q, parseElems grants buf fuel n p = .ok (vs, q) →
        Taken buf vs p q ∧ vs.length = n := by
  induction fuel with
  | zero =>
    refine ⟨fun p v q h => ?_, fun n p vs q h => ?_⟩
    · rw [parseFrom] at h
      cases h
    · rw [parseElems] at h
      cases h
  | succ fuel ih =>
    refine ⟨fun p v q h => ?_, fun n p vs q h => ?_⟩
    · by_cases hstar : buf[p]? = some 42
      · rw [parseFrom_of_star hstar] at h
        obtain ⟨⟨m, e⟩, hcount, h⟩ := bind_eq_ok h
        obtain ⟨⟨elems, q'⟩, helems, hv⟩ := map_eq_ok h
        cases hv
        obtain ⟨htaken, hm⟩ := ih.2 _ _ _ _ helems
        obtain ⟨⟨line, e'⟩, hline, hcount⟩ := bind_eq_ok hcount
        have hline := lineAt?_of_readLine hlen hline
        cases hn : stoul line with
        | none => simp [hn] at hcount
        | some n =>
          simp only [hn] at hcount
          obtain ⟨-, -, hpair⟩ := map_eq_ok hcount
          cases hpair
          refine .array ?_ htaken (.nil _)
          simp [arrayHead?, hstar, hline, hn, hm]
      · exact .flat (takenFlat_of_parseFrom hlen hstar h) (.nil q)
    · cases n with
      | zero =>
        rw [parseElems] at h
        cases h
        exact ⟨.nil _, rfl⟩
      | succ n =>
        rw [parseElems] at h
        obtain ⟨⟨v, q'⟩, hv, h⟩ := bind_eq_ok h
        obtain ⟨⟨vs', q''⟩, hvs, hpair⟩ := map_eq_ok h
        cases hpair
        obtain ⟨hrest, hn⟩ := ih.2 _ _ _ _ hvs
        exact ⟨(ih.1 _ _ _ hv).cons hrest, by rw [List.length_cons, hn]⟩

end Accepted

/-! ### Numerals -/

theorem AllDigits.paddedNat {line : Bytes} (h : AllDigits line) (hne : line ≠ []) :
    PaddedNat (digitsValue line) line := paddedNat_iff.mpr ⟨hne, h, rfl⟩

/-- A length or count of digits only is read as the numeral it is. -/
theorem paddedNat_of_stoul {line : Bytes} {n : ℕ} (h : AllDigits line) (hn : stoul line = some n) :
    PaddedNat n line := by
  have hne : line ≠ [] := by
    intro hnil
    rw [hnil] at hn
    cases hn
  have hpadded := h.paddedNat hne
  simp only [stoul, hpadded.readInteger_eq, Option.bind_some, Bool.false_eq_true, if_false,
    Option.ite_none_right_eq_some, Option.some.injEq] at hn
  rwa [hn.2] at hpadded

theorem stoll_spec {line : Bytes} {n : ℤ} (hn : stoll line = some n) :
    (-(2 ^ 63) ≤ n ∧ n < 2 ^ 63) ∧ ∃ x, readInteger line = some x ∧ signed x = n := by
  obtain ⟨x, hread, hx⟩ := Option.bind_eq_some_iff.mp hn
  rw [Option.ite_none_right_eq_some, Option.some.injEq] at hx
  obtain ⟨hrange, rfl⟩ := hx
  exact ⟨hrange, x, hread, rfl⟩

/-- An accepted integer line is a sign and a numeral exactly when it is an `IntegerLine`. -/
theorem integerLine_iff {line : Bytes} {n : ℤ} (hn : stoll line = some n) :
    IntegerLine line ↔ ∃ ds, line = signBytes n ++ ds ∧ PaddedNat n.natAbs ds := by
  obtain ⟨-, x, hread, hx⟩ := stoll_spec hn
  constructor
  · intro h
    rcases h with hds | ⟨ds, rfl, hds, hzero⟩
    · have hne : line ≠ [] := by
        intro hnil
        rw [hnil] at hn
        cases hn
      have hpadded := hds.paddedNat hne
      rw [hpadded.readInteger_eq, Option.some.injEq] at hread
      obtain rfl : (digitsValue line : ℤ) = n := by rw [← hx, ← hread]; rfl
      exact ⟨line, by simp [signBytes], by rwa [Int.natAbs_natCast]⟩
    · have hne : ds ≠ [] := by
        intro hnil
        exact hzero (by rw [hnil]; rfl)
      have hpadded := hds.paddedNat hne
      rw [hpadded.readInteger_minus, Option.some.injEq] at hread
      obtain rfl : -(digitsValue ds : ℤ) = n := by rw [← hx, ← hread]; rfl
      refine ⟨ds, ?_, by rwa [Int.natAbs_neg, Int.natAbs_natCast]⟩
      rw [signBytes, if_pos (by omega), List.singleton_append]
  · intro h
    obtain ⟨ds, rfl, hds⟩ := h
    obtain ⟨-, hall, hvalue⟩ := paddedNat_iff.mp hds
    unfold signBytes
    split
    · exact .inr ⟨ds, rfl, hall, by omega⟩
    · exact .inl hall

/-! ### The bytes of one value -/

theorem lineAt?_split {buf line : Bytes} {p e : ℕ} (h : lineAt? buf p = some (line, e)) :
    ∃ x, buf.drop p = line ++ x :: 10 :: buf.drop e ∧ (10 : UInt8) ∉ line ∧ x ≠ 10 ∧
      buf[e - 2]? = some x := by
  obtain ⟨lf, hlf, hline⟩ := Option.bind_eq_some_iff.mp h
  obtain ⟨i, hi, rfl⟩ := Option.map_eq_some_iff.mp hlf
  obtain ⟨hlt, hten, hfirst⟩ := List.findIdx?_eq_some_iff_getElem.mp hi
  split at hline
  · cases hline
  · rename_i hne
    simp only [Option.some.injEq, Prod.mk.injEq] at hline
    obtain ⟨rfl, rfl⟩ := hline
    obtain ⟨k, rfl⟩ : ∃ k, i = k + 1 := ⟨i - 1, by omega⟩
    have hk : k < (buf.drop p).length := by omega
    have hno : ∀ j (hj : j < k + 1), (buf.drop p)[j] ≠ 10 := by
      intro j hj
      simpa using hfirst j hj
    refine ⟨(buf.drop p)[k], ?_, ?_, hno k (by omega), ?_⟩
    · have hten : (buf.drop p)[k + 1] = 10 := by simpa using hten
      have hdrop : buf.drop (p + (k + 1) + 1) = (buf.drop p).drop (k + 1 + 1) := by
        rw [List.drop_drop, Nat.add_assoc]
      rw [show p + (k + 1) - p - 1 = k by omega, hdrop, ← hten, ← List.drop_eq_getElem_cons hlt,
        ← List.drop_eq_getElem_cons hk, List.take_append_drop]
    · rw [show p + (k + 1) - p - 1 = k by omega, List.mem_take_iff_getElem]
      intro hmem
      obtain ⟨j, hj, hjten⟩ := hmem
      exact hno j (by omega) hjten
    · rw [show p + (k + 1) + 1 - 2 = p + k by omega, ← List.getElem?_drop]
      exact List.getElem?_eq_getElem hk

theorem lineAt?_of_drop {buf line rest : Bytes} {p : ℕ} (h : buf.drop p = line ++ (crlf ++ rest))
    (hline : (10 : UInt8) ∉ line) : lineAt? buf p = some (line, p + line.length + 2) := by
  have hlf : findLF buf p = some (p + (line ++ [13]).length) := by
    have hsplit : buf.drop p = (line ++ [13]) ++ 10 :: rest := by simp [h, crlf]
    exact findLF_of_drop hsplit (by simpa using hline)
  simp only [List.length_append, List.length_cons, List.length_nil] at hlf
  rw [lineAt?, hlf, Option.bind_some, if_neg (by omega), h,
    show p + (line.length + (0 + 1)) - p - 1 = line.length by omega, List.take_left]
  rfl

/-- A type character and the line behind it. -/
theorem drop_of_line {buf line : Bytes} {p e : ℕ} {c : UInt8} (hchar : buf[p]? = some c)
    (hline : lineAt? buf (p + 1) = some (line, e)) :
    ∃ x, buf.drop p = (c :: (line ++ [x, 10])) ++ buf.drop e ∧ (10 : UInt8) ∉ line ∧ x ≠ 10 ∧
      buf[e - 2]? = some x := by
  obtain ⟨x, hdrop, hlf, hx, hget⟩ := lineAt?_split hline
  refine ⟨x, ?_, hlf, hx, hget⟩
  obtain ⟨hp, hc⟩ := List.getElem?_eq_some_iff.mp hchar
  rw [List.drop_eq_getElem_cons hp, hc, hdrop]
  simp

/-- The bytes of a value that is only a line. -/
theorem bytes_of_line {buf line bs : Bytes} {p e : ℕ} {c : UInt8} (hchar : buf[p]? = some c)
    (hline : lineAt? buf (p + 1) = some (line, e)) (hbs : buf.drop p = bs ++ buf.drop e) :
    ∃ x, bs = c :: (line ++ [x, 10]) ∧ (10 : UInt8) ∉ line ∧ x ≠ 10 ∧ buf[e - 2]? = some x := by
  obtain ⟨x, hdrop, hlf, hx, hget⟩ := drop_of_line hchar hline
  exact ⟨x, List.append_cancel_right (hbs.symm.trans hdrop), hlf, hx, hget⟩

/-- Two lines agree when their bytes up to the LF do. -/
theorem line_inj {a b x y : Bytes} {c d : UInt8} (h : a ++ c :: 10 :: x = b ++ d :: 10 :: y)
    (ha : (10 : UInt8) ∉ a) (hc : c ≠ 10) (hb : (10 : UInt8) ∉ b) (hd : d ≠ 10) :
    a = b ∧ c = d ∧ x = y := by
  have hsplit : (a ++ [c]) ++ 10 :: x = (b ++ [d]) ++ 10 :: y := by simpa using h
  have ha : (10 : UInt8) ∉ a ++ [c] := by simp [ha, Ne.symm hc]
  have hb : (10 : UInt8) ∉ b ++ [d] := by simp [hb, Ne.symm hd]
  -- the first LF stands at the same place
  have hlen : (a ++ [c]).length = (b ++ [d]).length := by
    have hfirst := congrArg (List.idxOf 10) hsplit
    rwa [List.idxOf_append, if_neg ha, List.idxOf_append, if_neg hb, List.idxOf_cons_self,
      List.idxOf_cons_self, Nat.zero_add, Nat.zero_add] at hfirst
  obtain ⟨hline, hrest⟩ := List.append_inj hsplit hlen
  obtain ⟨hab, hcd⟩ := List.append_inj' hline rfl
  exact ⟨hab, List.singleton_inj.mp hcd, (List.cons.inj hrest).2⟩

section OneValue

variable {buf line : Bytes} {p e : ℕ} {c : UInt8} (hchar : buf[p]? = some c)
  (hline : lineAt? buf (p + 1) = some (line, e))

include hchar hline

/-- What laxness means once the type character and the line are known. -/
theorem lax_iff : Lax buf p ↔ buf[e - 2]? ≠ some 13 ∨
    ((c = 43 ∨ c = 45) ∧ line.getLast? = some 13) ∨ (c = 58 ∧ ¬ IntegerLine line) ∨
    (c = 36 ∧ line ≠ str "-1" ∧ (¬ AllDigits line ∨
      ∃ n, stoul line = some n ∧ (buf.drop (e + n)).take 2 ≠ crlf)) ∨
    (c = 42 ∧ ¬ AllDigits line) := by
  have hsame : ∀ line' e', lineAt? buf (p + 1) = some (line', e') → line' = line ∧ e' = e := by
    intro line' e' h
    rw [hline, Option.some.injEq, Prod.mk.injEq] at h
    exact ⟨h.1.symm, h.2.symm⟩
  have hc : ∀ b, buf[p]? = some b ↔ c = b := by
    intro b
    rw [hchar, Option.some.injEq]
  constructor
  · intro h
    cases h with
    | lineEnd line' e' hl hget =>
      obtain ⟨rfl, rfl⟩ := hsame _ _ hl
      exact .inl hget
    | extraCR line' e' hb hl hcr =>
      obtain ⟨rfl, rfl⟩ := hsame _ _ hl
      rw [hc, hc] at hb
      exact .inr (.inl ⟨hb, hcr⟩)
    | integerText line' e' hb hl hint =>
      obtain ⟨rfl, rfl⟩ := hsame _ _ hl
      exact .inr (.inr (.inl ⟨(hc 58).mp hb, hint⟩))
    | lengthText line' e' hb hl hne hds =>
      obtain ⟨rfl, rfl⟩ := hsame _ _ hl
      exact .inr (.inr (.inr (.inl ⟨(hc 36).mp hb, hne, .inl hds⟩)))
    | payloadEnd line' e' n hb hl hne hn hend =>
      obtain ⟨rfl, rfl⟩ := hsame _ _ hl
      exact .inr (.inr (.inr (.inl ⟨(hc 36).mp hb, hne, .inr ⟨n, hn, hend⟩⟩)))
    | countText line' e' hb hl hds =>
      obtain ⟨rfl, rfl⟩ := hsame _ _ hl
      exact .inr (.inr (.inr (.inr ⟨(hc 42).mp hb, hds⟩)))
  · intro h
    rcases h with hget | ⟨hb, hcr⟩ | ⟨hb, hint⟩ | ⟨hb, hne, hds | ⟨n, hn, hend⟩⟩ | ⟨hb, hds⟩
    · exact .lineEnd line e hline hget
    · exact .extraCR line e (by rwa [hc, hc]) hline hcr
    · exact .integerText line e ((hc 58).mpr hb) hline hint
    · exact .lengthText line e ((hc 36).mpr hb) hline hne hds
    · exact .payloadEnd line e n ((hc 36).mpr hb) hline hne hn hend
    · exact .countText line e ((hc 42).mpr hb) hline hds

end OneValue

/-! ### One value against its bytes -/

theorem wire_simpleString_iff {s bs : Bytes} : Wire (.simpleString s) bs ↔
    bs = 43 :: (s ++ crlf) ∧ 10 ∉ s ∧ s.getLast? ≠ some 13 := by
  constructor
  · intro h
    cases h with
    | simpleString hlf hcr => exact ⟨rfl, hlf, hcr⟩
  · intro h
    obtain ⟨rfl, hlf, hcr⟩ := h
    exact .simpleString hlf hcr

theorem wire_error_iff {s bs : Bytes} : Wire (.error s) bs ↔
    bs = 45 :: (s ++ crlf) ∧ 10 ∉ s ∧ s.getLast? ≠ some 13 := by
  constructor
  · intro h
    cases h with
    | error hlf hcr => exact ⟨rfl, hlf, hcr⟩
  · intro h
    obtain ⟨rfl, hlf, hcr⟩ := h
    exact .error hlf hcr

theorem wire_bulkString_iff {s bs : Bytes} : Wire (.bulkString s) bs ↔
    (∃ ds, bs = 36 :: (ds ++ (crlf ++ (s ++ crlf))) ∧ PaddedNat s.length ds) ∨
      s = [] ∧ bs = 36 :: (str "-1" ++ crlf) := by
  constructor
  · intro h
    cases h with
    | bulkString hds => exact .inl ⟨_, rfl, hds⟩
    | nullBulk => exact .inr ⟨rfl, rfl⟩
  · intro h
    rcases h with ⟨ds, rfl, hds⟩ | ⟨rfl, rfl⟩
    · exact .bulkString hds
    · exact .nullBulk

/-- Dropping a CR shortens the line. -/
theorem popCR_spec (line : Bytes) :
    (line.getLast? = some 13 ∧ (popCR line).length < line.length) ∨
      (line.getLast? ≠ some 13 ∧ popCR line = line) := by
  unfold popCR
  split
  · rename_i h
    refine .inl ⟨h, ?_⟩
    have hpos : 0 < line.length := List.length_pos_iff.mpr fun hnil => by rw [hnil] at h; cases h
    rw [List.length_dropLast]
    omega
  · exact .inr ⟨‹_›, rfl⟩

/-- Simple strings and errors: the line must be closed by one CR. -/
theorem line_wire_iff {line : Bytes} {c x : UInt8} (hlf : (10 : UInt8) ∉ line) :
    (c :: (line ++ [x, 10]) = c :: (popCR line ++ crlf) ∧ 10 ∉ popCR line ∧
        (popCR line).getLast? ≠ some 13) ↔ x = 13 ∧ line.getLast? ≠ some 13 := by
  constructor
  · intro h
    obtain ⟨heq, -, -⟩ := h
    have hlen := congrArg List.length heq
    simp only [List.length_cons, List.length_append, crlf, List.length_nil] at hlen
    rcases popCR_spec line with ⟨-, hshort⟩ | ⟨hlast, hsame⟩
    · omega
    · rw [hsame] at heq
      exact ⟨by simpa [crlf] using heq, hlast⟩
  · intro h
    obtain ⟨rfl, hlast⟩ := h
    rw [popCR_eq_self hlast]
    exact ⟨rfl, hlf, hlast⟩

theorem integer_wire_iff {line : Bytes} {x : UInt8} {n : ℤ} (hn : stoll line = some n) :
    Wire (.integer n) (58 :: (line ++ [x, 10])) ↔ x = 13 ∧ IntegerLine line := by
  rw [integerLine_iff hn]
  constructor
  · intro h
    generalize hbs : 58 :: (line ++ [x, 10]) = bs at h
    cases h with
    | @integer _ ds hds _ =>
      obtain ⟨hline, hend⟩ := List.append_inj' (List.cons.inj hbs).2 rfl
      exact ⟨by simpa [crlf] using hend, ds, hline, hds⟩
  · intro h
    obtain ⟨rfl, ds, rfl, hds⟩ := h
    exact .integer hds (stoll_spec hn).1

theorem null_wire_iff {x : UInt8} : Wire (.bulkString []) (36 :: (str "-1" ++ [x, 10])) ↔ x = 13 := by
  rw [wire_bulkString_iff]
  constructor
  · intro h
    rcases h with ⟨ds, hbs, hds⟩ | ⟨-, hbs⟩
    · -- the bytes of an empty bulk string have a second line end
      have hlen := congrArg List.length hbs
      have hpos := List.length_pos_iff.mpr (paddedNat_iff.mp hds).1
      simp only [List.length_cons, List.length_append, crlf, List.length_nil,
        show (str "-1").length = 2 from rfl] at hlen
      omega
    · simpa [crlf] using hbs
  · intro h
    subst h
    exact .inr ⟨rfl, rfl⟩

theorem bulk_wire_iff {line payload stop : Bytes} {x : UInt8} (hlf : (10 : UInt8) ∉ line)
    (hx : x ≠ 10) (hn : stoul line = some payload.length) (hstop : stop.length = 2) :
    Wire (.bulkString payload) (36 :: (line ++ x :: 10 :: (payload ++ stop))) ↔
      x = 13 ∧ AllDigits line ∧ stop = crlf := by
  rw [wire_bulkString_iff]
  constructor
  · intro h
    rcases h with ⟨ds, hbs, hds⟩ | ⟨rfl, hbs⟩
    · obtain ⟨rfl, rfl, hrest⟩ := line_inj (List.cons.inj hbs).2 hlf hx (hds.not_mem rfl) (by decide)
      exact ⟨rfl, (paddedNat_iff.mp hds).2.1, List.append_cancel_left hrest⟩
    · -- the null bulk string has no second line end
      obtain ⟨rfl, rfl, hrest⟩ := line_inj (List.cons.inj hbs).2 hlf hx (by decide) (by decide)
      rw [List.nil_append] at hrest
      rw [hrest] at hstop
      cases hstop
  · intro h
    obtain ⟨rfl, hds, rfl⟩ := h
    exact .inl ⟨line, rfl, paddedNat_of_stoul hds hn⟩

/-- A value that is no array is well-formed exactly when it is not lax. -/
theorem wire_flat_iff {buf bs : Bytes} {p q : ℕ} {v : RespValue} (h : TakenFlat buf p v q)
    (hbs : buf.drop p = bs ++ buf.drop q) : Wire v bs ↔ ¬ Lax buf p := by
  cases h with
  | simpleString hchar hline =>
    obtain ⟨x, rfl, hlf, -, hget⟩ := bytes_of_line hchar hline hbs
    rw [wire_simpleString_iff, line_wire_iff hlf, lax_iff hchar hline, hget]
    simp
  | error hchar hline =>
    obtain ⟨x, rfl, hlf, -, hget⟩ := bytes_of_line hchar hline hbs
    rw [wire_error_iff, line_wire_iff hlf, lax_iff hchar hline, hget]
    simp
  | integer hchar hline hn =>
    obtain ⟨x, rfl, -, -, hget⟩ := bytes_of_line hchar hline hbs
    rw [integer_wire_iff hn, lax_iff hchar hline, hget]
    simp
  | nullBulk hchar hline =>
    obtain ⟨x, rfl, -, -, hget⟩ := bytes_of_line hchar hline hbs
    rw [null_wire_iff, lax_iff hchar hline, hget]
    simp
  | @bulkString line e n hchar hline hne hn hend =>
    obtain ⟨x, hdrop, hlf, hx, hget⟩ := drop_of_line hchar hline
    have hpayload : ((buf.drop e).take n).length = n := by
      rw [List.length_take, List.length_drop]
      omega
    have hstop : ((buf.drop (e + n)).take 2).length = 2 := by
      rw [List.length_take, List.length_drop]
      omega
    have hrest : buf.drop e =
        (buf.drop e).take n ++ ((buf.drop (e + n)).take 2 ++ buf.drop (e + n + 2)) := by
      rw [← List.drop_drop (i := 2), List.take_append_drop, ← List.drop_drop (i := n),
        List.take_append_drop]
    have hall : bs = 36 :: (line ++ x :: 10 ::
        ((buf.drop e).take n ++ (buf.drop (e + n)).take 2)) := by
      apply List.append_cancel_right (hbs.symm.trans _)
      rw [hdrop]
      nth_rewrite 1 [hrest]
      simp
    rw [hall, bulk_wire_iff hlf hx (by rw [hpayload, hn]) hstop, lax_iff hchar hline, hget]
    simp [hne, hn]

/-! ### Rows of values -/

/-- The bytes of a row of values. -/
inductive WireRow : List RespValue → Bytes → Prop where
  | nil : WireRow [] []
  | cons {v : RespValue} {vs : List RespValue} {bs bs' : Bytes} : Wire v bs → WireRow vs bs' →
      WireRow (v :: vs) (bs ++ bs')

theorem wireRow_of_elems {elems : List (RespValue × Bytes)} (h : ∀ e ∈ elems, Wire e.1 e.2) :
    WireRow (elems.map Prod.fst) (elems.map Prod.snd).flatten := by
  induction elems with
  | nil => exact .nil
  | cons e elems ih =>
    rw [List.map_cons, List.map_cons, List.flatten_cons]
    exact .cons (h e List.mem_cons_self) (ih fun e' he => h e' (List.mem_cons_of_mem e he))

theorem WireRow.elems {vs : List RespValue} {bs : Bytes} (h : WireRow vs bs) :
    ∃ elems : List (RespValue × Bytes), elems.map Prod.fst = vs ∧
      (elems.map Prod.snd).flatten = bs ∧ ∀ e ∈ elems, Wire e.1 e.2 := by
  induction h with
  | nil => exact ⟨[], rfl, rfl, by simp⟩
  | @cons v vs bs bs' hv _ ih =>
    obtain ⟨elems, rfl, rfl, helems⟩ := ih
    exact ⟨(v, bs) :: elems, rfl, rfl, List.forall_mem_cons.mpr ⟨hv, helems⟩⟩

theorem wire_array_iff {vs : List RespValue} {bs : Bytes} : Wire (.array vs) bs ↔
    ∃ ds row, bs = 42 :: (ds ++ (crlf ++ row)) ∧ PaddedNat vs.length ds ∧ WireRow vs row := by
  constructor
  · intro h
    cases h with
    | array hds helems =>
      exact ⟨_, _, rfl, by rwa [List.length_map], wireRow_of_elems helems⟩
  · intro h
    obtain ⟨ds, row, rfl, hds, hrow⟩ := h
    obtain ⟨elems, rfl, rfl, helems⟩ := hrow.elems
    rw [List.length_map] at hds
    exact .array hds helems

/-- A type character and a line in the buffer. -/
theorem line_of_drop {buf line rest : Bytes} {p : ℕ} {c : UInt8} (hlf : (10 : UInt8) ∉ line)
    (hdrop : buf.drop p = (c :: (line ++ crlf)) ++ rest) :
    buf[p]? = some c ∧ lineAt? buf (p + 1) = some (line, p + (c :: (line ++ crlf)).length) := by
  rw [List.cons_append, List.append_assoc] at hdrop
  refine ⟨getElem?_of_drop hdrop, ?_⟩
  rw [lineAt?_of_drop (drop_succ_of_drop hdrop) hlf, List.length_cons, List.length_append]
  simp only [crlf, List.length_cons, List.length_nil]
  congr 2
  omega

/-- One complete value after the other. -/
theorem spans_of_row {buf : Bytes} {elems : List (RespValue × Bytes)}
    (h : ∀ e ∈ elems, ∀ {p : ℕ} {rest : Bytes}, buf.drop p = e.2 ++ rest →
      Spans buf 1 p (p + e.2.length)) {p : ℕ} {rest : Bytes}
    (hdrop : buf.drop p = (elems.map Prod.snd).flatten ++ rest) :
    Spans buf elems.length p (p + (elems.map Prod.snd).flatten.length) := by
  induction elems generalizing p with
  | nil => exact .nil p
  | cons e elems ih =>
    rw [List.map_cons, List.flatten_cons, List.append_assoc] at hdrop
    rw [List.map_cons, List.flatten_cons, List.length_append, ← Nat.add_assoc]
    apply spans_succ_iff.mpr
    exact ⟨p + e.2.length, h e List.mem_cons_self hdrop,
      ih (fun e' he => h e' (List.mem_cons_of_mem e he)) (drop_add_of_drop hdrop)⟩

/-- A wire form in the buffer is one complete value there. -/
theorem spans_of_wire {buf : Bytes} (hlen : buf.length < 2 ^ 63 - 1) {v : RespValue} {bs : Bytes}
    (h : Wire v bs) : ∀ {p : ℕ} {rest : Bytes}, buf.drop p = bs ++ rest →
      Spans buf 1 p (p + bs.length) := by
  induction h with
  | simpleString hlf hcr =>
    intro p rest hdrop
    obtain ⟨hchar, hline⟩ := line_of_drop hlf hdrop
    exact spans_one_iff.mpr (.inl (TakenFlat.simpleString hchar hline).flatEnd?)
  | error hlf hcr =>
    intro p rest hdrop
    obtain ⟨hchar, hline⟩ := line_of_drop hlf hdrop
    exact spans_one_iff.mpr (.inl (TakenFlat.error hchar hline).flatEnd?)
  | @integer n ds hds hrange =>
    intro p rest hdrop
    have hlf : (10 : UInt8) ∉ signBytes n ++ ds := by
      intro hmem
      rcases List.mem_append.mp hmem with hmem | hmem
      · exact lf_not_mem_signBytes n hmem
      · exact hds.not_mem rfl hmem
    obtain ⟨hchar, hline⟩ := line_of_drop hlf hdrop
    exact spans_one_iff.mpr (.inl (TakenFlat.integer hchar hline (hds.stoll_eq hrange)).flatEnd?)
  | nullBulk =>
    intro p rest hdrop
    obtain ⟨hchar, hline⟩ := line_of_drop (by decide) hdrop
    exact spans_one_iff.mpr (.inl (TakenFlat.nullBulk hchar hline).flatEnd?)
  | @bulkString s ds hds =>
    intro p rest hdrop
    have hbuf := length_of_drop hdrop (by simp)
    have hhead : buf.drop p = (36 :: (ds ++ crlf)) ++ (s ++ (crlf ++ rest)) := by
      rw [hdrop]
      simp
    obtain ⟨hchar, hline⟩ := line_of_drop (hds.not_mem rfl) hhead
    simp only [List.length_cons, List.length_append, crlf, List.length_nil] at hbuf hline ⊢
    have hspan := (TakenFlat.bulkString hchar hline hds.ne_minus_one
      (hds.stoul_eq (by omega)) (by omega)).flatEnd?
    rw [spans_one_iff]
    left
    rw [hspan]
    congr 1
    omega
  | @array elems ds hds helems ih =>
    intro p rest hdrop
    have hbuf := length_of_drop hdrop (by simp)
    have hhead : buf.drop p =
        (42 :: (ds ++ crlf)) ++ ((elems.map Prod.snd).flatten ++ rest) := by
      rw [hdrop]
      simp
    have hrow := spans_of_row ih (drop_add_of_drop hhead)
    have hcount := length_le_flatten fun e he => (helems e he).ne_nil
    obtain ⟨hchar, hline⟩ := line_of_drop (hds.not_mem rfl) hhead
    simp only [List.length_cons, List.length_append, crlf, List.length_nil] at hbuf hline hrow ⊢
    have hhead : arrayHead? buf p = some (elems.length, p + (ds.length + (0 + 1 + 1) + 1)) := by
      rw [arrayHead?, if_pos hchar, hline, Option.bind_some, hds.stoul_eq (by omega)]
      rfl
    refine spans_one_iff.mpr (.inr ⟨_, _, hhead, ?_⟩)
    convert hrow using 1
    omega

theorem array_wire_iff {line row : Bytes} {elems : List RespValue} {x : UInt8}
    (hlf : (10 : UInt8) ∉ line) (hx : x ≠ 10) (hn : stoul line = some elems.length) :
    Wire (.array elems) (42 :: (line ++ x :: 10 :: row)) ↔
      (x = 13 ∧ AllDigits line) ∧ WireRow elems row := by
  rw [wire_array_iff]
  constructor
  · intro h
    obtain ⟨ds, row', hbs, hds, hrow⟩ := h
    obtain ⟨rfl, rfl, rfl⟩ := line_inj (List.cons.inj hbs).2 hlf hx (hds.not_mem rfl) (by decide)
    exact ⟨⟨rfl, (paddedNat_iff.mp hds).2.1⟩, hrow⟩
  · intro h
    obtain ⟨⟨rfl, hds⟩, hrow⟩ := h
    exact ⟨line, row, rfl, paddedNat_of_stoul hds hn, hrow⟩

theorem arrayHead?_line {buf : Bytes} {p m e : ℕ} (h : arrayHead? buf p = some (m, e)) :
    ∃ line, lineAt? buf (p + 1) = some (line, e) ∧ stoul line = some m := by
  rw [arrayHead?, if_pos (arrayHead?_spec h).1] at h
  obtain ⟨⟨line, e'⟩, hline, hcount⟩ := Option.bind_eq_some_iff.mp h
  obtain ⟨n, hn, hpair⟩ := Option.map_eq_some_iff.mp hcount
  obtain ⟨rfl, rfl⟩ := Prod.mk.inj hpair
  exact ⟨line, hline, hn⟩

/-! ### What was reached -/

section Reached

variable {buf : Bytes} {n p q : ℕ} {P : ℕ → Prop}

theorem forall_reached_succ (h : Spans buf 1 p q) : (∀ r, Reached buf (n + 1) p r → P r) ↔
    (∀ r, Reached buf 1 p r → P r) ∧ ∀ r, Reached buf n q r → P r := by
  constructor
  · intro hall
    exact ⟨fun r hr => hall r (reached_succ_iff.mpr (.inl hr)),
      fun r hr => hall r (reached_succ_iff.mpr (.inr ⟨q, h, hr⟩))⟩
  · intro hall r hr
    rcases reached_succ_iff.mp hr with hr | ⟨q', hq', hr⟩
    · exact hall.1 r hr
    · obtain rfl := h.unique hq'
      exact hall.2 r hr

theorem forall_reached_flat (h : flatEnd? buf p = some q) :
    (∀ r, Reached buf 1 p r → P r) ↔ P p := by
  constructor
  · intro hall
    exact hall p .here
  · intro hp r hr
    rcases reached_one_iff.mp hr with rfl | ⟨m, e, hhead, -⟩
    · exact hp
    · rw [flatEnd?_of_array (arrayHead?_spec hhead).1] at h
      cases h

theorem forall_reached_array {m e : ℕ} (h : arrayHead? buf p = some (m, e)) :
    (∀ r, Reached buf 1 p r → P r) ↔ P p ∧ ∀ r, Reached buf m e r → P r := by
  constructor
  · intro hall
    exact ⟨hall p .here, fun r hr => hall r (.inside h hr)⟩
  · intro hall r hr
    rcases reached_one_iff.mp hr with rfl | ⟨m', e', hhead, hr⟩
    · exact hall.1
    · obtain ⟨rfl, rfl⟩ := Prod.mk.inj (Option.some.inj (h.symm.trans hhead))
      exact hall.2 r hr

end Reached

theorem bytes_between {buf : Bytes} {p q : ℕ} (hp : p ≤ q) (hq : q ≤ buf.length) :
    ∃ bs, buf.drop p = bs ++ buf.drop q ∧ q = p + bs.length := by
  refine ⟨(buf.drop p).take (q - p), ?_, ?_⟩
  · rw [show buf.drop q = (buf.drop p).drop (q - p) by rw [List.drop_drop, Nat.add_sub_cancel' hp],
      List.take_append_drop]
  · rw [List.length_take, List.length_drop]
    omega

theorem Spans.bytes {buf : Bytes} {n p q : ℕ} (h : Spans buf n p q) :
    ∃ bs, buf.drop p = bs ++ buf.drop q ∧ q = p + bs.length := by
  induction h with
  | nil p => exact ⟨[], rfl, rfl⟩
  | flat hend _ ih =>
    obtain ⟨bs', hrest, hr⟩ := ih
    have hspec := flatEnd?_spec hend
    obtain ⟨bs, hfirst, hq⟩ := bytes_between hspec.1.le hspec.2
    exact ⟨bs ++ bs', by rw [hfirst, hrest, List.append_assoc], by rw [List.length_append]; omega⟩
  | array hhead _ _ ih ih' =>
    obtain ⟨row, hrow, hq⟩ := ih
    obtain ⟨bs', hrest, hr⟩ := ih'
    obtain ⟨-, hspec⟩ := arrayHead?_spec hhead
    obtain ⟨bs, hfirst, he⟩ := bytes_between hspec.1.le hspec.2
    refine ⟨bs ++ row ++ bs', by rw [hfirst, hrow, hrest]; simp, ?_⟩
    rw [List.length_append, List.length_append]
    omega

section Rows

variable {buf : Bytes} (hlen : buf.length < 2 ^ 63 - 1)

include hlen

/-- The first value of a row takes the bytes up to its end, so the row splits there. -/
theorem wireRow_cons_iff {v : RespValue} {vs : List RespValue} {bs bs' rest : Bytes} {p : ℕ}
    (hspan : Spans buf 1 p (p + bs.length)) (hdrop : buf.drop p = bs ++ (bs' ++ rest)) :
    WireRow (v :: vs) (bs ++ bs') ↔ Wire v bs ∧ WireRow vs bs' := by
  constructor
  · intro h
    generalize hrow : bs ++ bs' = row at h
    cases h with
    | @cons _ _ b b' hv hvs =>
      have hspan' : Spans buf 1 p (p + b.length) := by
        apply spans_of_wire hlen hv
        rw [hdrop, ← List.append_assoc, hrow, List.append_assoc]
      have hsame := hspan.unique hspan'
      obtain ⟨rfl, rfl⟩ := List.append_inj hrow (by omega)
      exact ⟨hv, hvs⟩
  · intro h
    exact .cons h.1 h.2

/-- The bytes the parser took are a wire form of the values it made of them iff no value it came to
is lax.  By induction on what was taken; the row splits where the parser saw its first value end. -/
theorem wireRow_iff {vs : List RespValue} {p q : ℕ} (h : Taken buf vs p q) :
    ∀ {bs : Bytes}, buf.drop p = bs ++ buf.drop q →
      (WireRow vs bs ↔ ∀ r, Reached buf vs.length p r → ¬ Lax buf r) := by
  induction h with
  | nil p =>
    intro bs hbs
    obtain rfl : bs = [] := by simpa using hbs
    exact ⟨fun _ r hr => absurd hr not_reached_zero, fun _ => .nil⟩
  | @flat v vs p q r hflat hrest ih =>
    intro bs hbs
    have hspan : Spans buf 1 p q := spans_one_iff.mpr (.inl hflat.flatEnd?)
    obtain ⟨bs₁, hfirst, rfl⟩ := hspan.bytes
    obtain ⟨bs₂, hnext, -⟩ := hrest.spans.bytes
    obtain rfl : bs = bs₁ ++ bs₂ := by
      apply List.append_cancel_right (hbs.symm.trans _)
      rw [hfirst, hnext, List.append_assoc]
    rw [wireRow_cons_iff hlen hspan (by rw [hfirst, hnext]), wire_flat_iff hflat hfirst, ih hnext,
      List.length_cons, forall_reached_succ hspan, forall_reached_flat hflat.flatEnd?]
  | @array elems vs p e q r hhead helems hrest ih ih' =>
    intro bs hbs
    have hspan : Spans buf 1 p q := spans_one_iff.mpr (.inr ⟨_, _, hhead, helems.spans⟩)
    obtain ⟨bs₁, hfirst, rfl⟩ := hspan.bytes
    obtain ⟨bs₂, hnext, -⟩ := hrest.spans.bytes
    obtain ⟨row, hrow, -⟩ := helems.spans.bytes
    obtain rfl : bs = bs₁ ++ bs₂ := by
      apply List.append_cancel_right (hbs.symm.trans _)
      rw [hfirst, hnext, List.append_assoc]
    -- the array itself: its count line and the row of its elements
    have hone : Wire (.array elems) bs₁ ↔ ¬ Lax buf p ∧ WireRow elems row := by
      have hstar := (arrayHead?_spec hhead).1
      obtain ⟨line, hline, hn⟩ := arrayHead?_line hhead
      obtain ⟨x, hdrop, hlf, hx, hget⟩ := drop_of_line hstar hline
      obtain rfl : bs₁ = 42 :: (line ++ x :: 10 :: row) := by
        apply List.append_cancel_right (hfirst.symm.trans _)
        rw [hdrop, hrow]
        simp
      rw [array_wire_iff hlf hx hn, lax_iff hstar hline, hget]
      simp
    rw [wireRow_cons_iff hlen hspan (by rw [hfirst, hnext]), hone, ih hrow, ih' hnext,
      List.length_cons, forall_reached_succ hspan, forall_reached_array hhead]

end Rows

/-! ### Exactly when only RESP is accepted -/

/-- On a buffer the parser accepts (of any length an object can have), the consumed bytes are a wire
form of the value exactly when no value the parser came to is lax. -/
theorem parse_strict_iff (grants : ℕ) (buf : Bytes) (hlen : buf.length < 2 ^ 63 - 1) (v : RespValue)
    (n : ℕ) (h : parse grants buf = .ok (v, n)) :
    Wire v (buf.take n) ↔ ∀ p, Reached buf 1 0 p → ¬ Lax buf p := by
  have htaken : Taken buf [v] 0 n := (taken_of_parse hlen (fuelFor buf)).1 0 v n h
  have hrow : WireRow [v] (buf.take n) ↔ Wire v (buf.take n) := by
    constructor
    · intro hrow
      generalize buf.take n = bs at hrow
      cases hrow with
      | cons hv hnil =>
        cases hnil
        rwa [List.append_nil]
    · intro hv
      have := WireRow.cons hv .nil
      rwa [List.append_nil] at this
  rw [← hrow]
  exact wireRow_iff hlen htaken (by rw [List.drop_zero, List.take_append_drop])

/-- `*02 $3 GET :-007`, with other bytes behind it. -/
theorem parse_strict_padded :
    let buf := str "*02\r\n$3\r\nGET\r\n:-007\r\n+x"
    parse 64 buf = .ok (.array [.bulkString (str "GET"), .integer (-7)], 21) ∧
      ∀ p, Reached buf 1 0 p → ¬ Lax buf p := by
  intro buf
  have hwire : Wire (.array [.bulkString (str "GET"), .integer (-7)]) (buf.take 21) :=
    @Wire.array [(.bulkString (str "GET"), str "$3\r\nGET\r\n"), (.integer (-7), str ":-007\r\n")]
      (str "02") ⟨1, by decide⟩ (List.forall_mem_cons.mpr
        ⟨@Wire.bulkString (str "GET") (str "3") ⟨0, by decide⟩, List.forall_mem_singleton.mpr
          (@Wire.integer (-7) (str "007") ⟨2, by decide⟩ (by decide))⟩)
  have hparse : parse 64 (buf.take 21 ++ str "+x") = .ok (_, (buf.take 21).length) :=
    parse_of_wire hwire (by decide) (by decide) (by decide) (str "+x")
  exact ⟨hparse, (parse_strict_iff 64 buf (by decide) _ _ hparse).mp hwire⟩

/-- Taken as `5`, `a` and `7`: a plus sign, any two bytes for the line end of a payload, and any byte
for the CR. -/
theorem parse_accepts_more :
    parse 64 (str ":+5\r\n") = .ok (.integer 5, 5) ∧
      parse 64 (str "$1\r\naXY") = .ok (.bulkString (str "a"), 7) ∧
      parse 64 (str ":7?\n") = .ok (.integer 7, 4) ∧
      ¬ ∀ (grants : ℕ) (buf : Bytes), buf.length < 2 ^ 63 - 1 → ∀ v n,
        parse grants buf = .ok (v, n) → Wire v (buf.take n) := by
  refine ⟨rfl, rfl, rfl, fun h => ?_⟩
  have hwire := h 64 (str ":+5\r\n") (by decide) (.integer 5) 5 rfl
  generalize hbs : (str ":+5\r\n").take 5 = bs at hwire
  cases hwire with
  | @integer _ ds hds _ =>
    have hmem : (43 : UInt8) ∈ ds := by
      have : (43 : UInt8) ∈ 58 :: (signBytes 5 ++ ds ++ crlf) := by
        rw [← hbs]
        decide
      simpa [signBytes, crlf] using this
    exact hds.not_mem rfl hmem

end RespParser

end MinimalRedis
