import MinimalRedis.RespStrict

/-!
# Parsing goes forward, ends, and reads nothing behind what it takes

The count of an array is any 64-bit number, whatever the buffer holds, so the loop of `parse_array`
is bounded by the bytes and not by its count.

* `advances_of_parse` — a value takes at least one byte, all of them in the buffer, also where the
  position arithmetic could wrap;
* `ends_of_fuel` — so the recursion ends within two rounds for each byte that is left, whatever the
  allocator refuses; `extends_succ` — and further rounds change nothing;
* `agrees_of_parse` — by induction over the same recursion: a value is read from the bytes it takes,
  so another buffer with the same bytes in front gives the same value;
* `parse_progress` — the three for `parse`.
-/

namespace MinimalRedis

open Lib

namespace RespParser

variable {α β : Type} {grants : ℕ} {buf : Bytes}

/-! ### Going forward -/

theorem Spans.le_length {n p q : ℕ} (h : Spans buf n p q) (hp : p ≤ buf.length) :
    q ≤ buf.length := by
  induction h with
  | nil p => exact hp
  | flat hend _ ih => exact ih (flatEnd?_spec hend).2
  | array hhead _ _ ih ih' => exact ih' (ih (arrayHead?_spec hhead).2.2)

theorem lt_length_of_parseFrom {fuel p q : ℕ} {v : RespValue}
    (h : parseFrom grants buf fuel p = .ok (v, q)) : p < buf.length := by
  by_contra hp
  cases fuel with
  | zero =>
    rw [parseFrom] at h
    cases h
  | succ fuel =>
    rw [parseFrom, List.getElem?_eq_none (not_lt.mp hp)] at h
    cases h

section Forward

variable (hlen : buf.length < 2 ^ 63 - 1)

include hlen

/-- Every value takes a byte, and ends in the buffer. -/
theorem advances_of_parse {fuel p q : ℕ} {v : RespValue}
    (h : parseFrom grants buf fuel p = .ok (v, q)) : p < q ∧ q ≤ buf.length := by
  have hspans : Spans buf 1 p q := ((taken_of_parse hlen fuel).1 p v q h).spans
  exact ⟨hspans.le, hspans.le_length (lt_length_of_parseFrom h).le⟩

theorem forward_of_parseElems {fuel n p q : ℕ} {vs : List RespValue}
    (h : parseElems grants buf fuel n p = .ok (vs, q)) : p + n ≤ q := by
  obtain ⟨htaken, rfl⟩ := (taken_of_parse hlen fuel).2 n p vs q h
  exact htaken.spans.le

theorem lt_of_readLine {p e : ℕ} {line : Bytes} (h : readLine grants buf p = .ok (line, e)) :
    p < e ∧ e ≤ buf.length := lineAt?_spec (lineAt?_of_readLine hlen h)

theorem lt_of_readArrayCount {p n e : ℕ} (h : readArrayCount grants buf p = .ok (n, e)) :
    p < e ∧ e ≤ buf.length := by
  obtain ⟨⟨line, e'⟩, hline, h⟩ := bind_eq_ok h
  cases hn : stoul line with
  | none => simp [hn] at h
  | some m =>
    simp only [hn] at h
    obtain ⟨-, -, hpair⟩ := map_eq_ok h
    cases hpair
    exact lt_of_readLine hlen hline

end Forward

/-! ### Ending -/

/-- The outcome is one of the program's own: the recursion was not cut off. -/
def Ends (x : Except ParseException α) : Prop := x ≠ .error .outOfFuel

theorem ends_ok (a : α) : Ends (.ok a) := by
  intro h
  cases h

theorem ends_runtimeError (msg : ParseMessage) : Ends (.error (.runtimeError msg) : Except _ α) := by
  intro h
  cases h

theorem Ends.map {x : Except ParseException α} (h : Ends x) (f : α → β) : Ends (x.map f) := by
  cases x with
  | error err =>
    intro hmap
    exact h (congrArg Except.error (Except.error.inj hmap))
  | ok a => exact ends_ok (f a)

theorem Ends.bind {x : Except ParseException α} {f : α → Except ParseException β} (h : Ends x)
    (hf : ∀ a, x = .ok a → Ends (f a)) : Ends (x.bind f) := by
  cases x with
  | error err =>
    intro hbind
    exact h (congrArg Except.error (Except.error.inj hbind))
  | ok a => exact hf a rfl

theorem ends_allocate (maxSize grants n : ℕ) : Ends (allocate maxSize grants n) := by
  intro h
  rw [allocate] at h
  split at h
  · cases h
  · split at h
    · cases h
    · cases h

theorem ends_readLine (grants : ℕ) (buf : Bytes) (p : ℕ) : Ends (readLine grants buf p) := by
  rw [readLine]
  cases findLF buf p with
  | none => exact ends_runtimeError _
  | some lf => exact ((ends_allocate _ _ _).map _).map _

theorem ends_readArrayCount (grants : ℕ) (buf : Bytes) (p : ℕ) :
    Ends (readArrayCount grants buf p) := by
  refine (ends_readLine grants buf p).bind ?_
  intro x _
  cases stoul x.1 with
  | none => exact ends_runtimeError _
  | some count => exact (ends_allocate _ _ _).map _

theorem ends_parseInteger (grants : ℕ) (buf : Bytes) (p : ℕ) : Ends (parseInteger grants buf p) := by
  refine (ends_readLine grants buf p).bind ?_
  intro x _
  cases stoll x.1 with
  | none => exact ends_runtimeError _
  | some n => exact ends_ok _

theorem ends_parseBulkString (grants : ℕ) (buf : Bytes) (p : ℕ) :
    Ends (parseBulkString grants buf p) := by
  refine (ends_readLine grants buf p).bind ?_
  intro x _
  show Ends (if x.1 = str "-1" then _ else _)
  split
  · exact ends_ok _
  · cases stoul x.1 with
    | none => exact ends_runtimeError _
    | some length =>
      refine Ends.map ?_ _
      rw [readBulkString]
      split
      · exact ends_runtimeError _
      · exact ((ends_allocate _ _ _).map _).map _

/-- A value that is no array takes one round, and only needs that. -/
theorem ends_of_no_star {p : ℕ} (h : ¬ buf[p]? = some 42) (fuel : ℕ) :
    Ends (parseFrom grants buf (fuel + 1) p) ∧
      ∀ k, parseFrom grants buf (k + 1) p = parseFrom grants buf (fuel + 1) p := by
  cases hget : buf[p]? with
  | none =>
    simp only [parseFrom, hget]
    exact ⟨ends_runtimeError _, fun _ => trivial⟩
  | some c =>
    have hstar : c ≠ 42 := by
      intro hc
      exact h (by rw [hget, hc])
    simp only [parseFrom, hget, if_neg hstar]
    refine ⟨?_, fun _ => trivial⟩
    split
    · exact (ends_readLine _ _ _).map _
    · split
      · exact (ends_readLine _ _ _).map _
      · split
        · exact ends_parseInteger _ _ _
        · split
          · exact ends_parseBulkString _ _ _
          · exact ends_runtimeError _

/-- Two rounds for each byte that is left, and one: by induction on the rounds, since every element
leaves fewer bytes. -/
theorem ends_of_fuel (hlen : buf.length < 2 ^ 63 - 1) (fuel : ℕ) :
    (∀ p, 2 * (buf.length - p) + 1 ≤ fuel → Ends (parseFrom grants buf fuel p)) ∧
      ∀ n p, 2 * (buf.length - p) + 2 ≤ fuel → Ends (parseElems grants buf fuel n p) := by
  induction fuel with
  | zero => exact ⟨fun p h => by omega, fun n p h => by omega⟩
  | succ fuel ih =>
    refine ⟨fun p hp => ?_, fun n p hp => ?_⟩
    · by_cases hstar : buf[p]? = some 42
      · rw [parseFrom_of_star hstar]
        refine (ends_readArrayCount _ _ _).bind ?_
        intro x hx
        have he := lt_of_readArrayCount (n := x.1) (e := x.2) hlen hx
        exact (ih.2 x.1 x.2 (by omega)).map _
      · exact (ends_of_no_star hstar fuel).1
    · cases n with
      | zero =>
        rw [parseElems]
        exact ends_ok _
      | succ n =>
        rw [parseElems]
        refine (ih.1 p (by omega)).bind ?_
        intro x hx
        have hq := advances_of_parse (v := x.1) (q := x.2) hlen hx
        have hp := lt_length_of_parseFrom (v := x.1) (q := x.2) hx
        exact (ih.2 n x.2 (by omega)).map _

/-- `y` is what `x` comes to when it is not cut off. -/
def Extends (x y : Except ParseException α) : Prop := Ends x → y = x

theorem Extends.map {x y : Except ParseException α} (h : Extends x y) (f : α → β) :
    Extends (x.map f) (y.map f) := by
  intro hends
  rw [h fun hx => hends (by rw [hx]; rfl)]

theorem Extends.bind {x y : Except ParseException α} {f g : α → Except ParseException β}
    (h : Extends x y) (hf : ∀ a, Extends (f a) (g a)) : Extends (x.bind f) (y.bind g) := by
  intro hends
  rw [h fun hx => hends (by rw [hx]; rfl)]
  cases x with
  | error err => rfl
  | ok a => exact hf a hends

/-- A further round changes no outcome. -/
theorem extends_succ (fuel : ℕ) :
    (∀ p, Extends (parseFrom grants buf fuel p) (parseFrom grants buf (fuel + 1) p)) ∧
      ∀ n p, Extends (parseElems grants buf fuel n p) (parseElems grants buf (fuel + 1) n p) := by
  induction fuel with
  | zero =>
    refine ⟨fun p hends => ?_, fun n p hends => ?_⟩
    · rw [parseFrom] at hends
      exact absurd rfl hends
    · rw [parseElems] at hends
      exact absurd rfl hends
  | succ fuel ih =>
    refine ⟨fun p => ?_, fun n p => ?_⟩
    · by_cases hstar : buf[p]? = some 42
      · rw [parseFrom_of_star hstar, parseFrom_of_star hstar]
        refine Extends.bind (fun _ => rfl) ?_
        intro x
        exact (ih.2 x.1 x.2).map _
      · intro _
        exact (ends_of_no_star hstar fuel).2 (fuel + 1)
    · cases n with
      | zero =>
        intro _
        rw [parseElems, parseElems]
      | succ n =>
        rw [parseElems, parseElems]
        refine (ih.1 p).bind ?_
        intro x
        exact (ih.2 n x.2).map _

theorem parseFrom_of_le {fuel k p : ℕ} (hends : Ends (parseFrom grants buf fuel p)) (hk : fuel ≤ k) :
    parseFrom grants buf k p = parseFrom grants buf fuel p := by
  induction k, hk using Nat.le_induction with
  | base => rfl
  | succ k _ ih =>
    rw [← ih] at hends ⊢
    exact (extends_succ k).1 p hends

/-! ### Reading no more than it takes -/

/-- A success of `x` at a position up to `m` is one of `y`. -/
def AgreesUpTo (m : ℕ) (x y : Except ParseException (α × ℕ)) : Prop :=
  ∀ a q, x = .ok (a, q) → q ≤ m → y = .ok (a, q)

theorem AgreesUpTo.map {m : ℕ} {x y : Except ParseException (α × ℕ)} (h : AgreesUpTo m x y)
    (f : α → β) : AgreesUpTo m (x.map fun z => (f z.1, z.2)) (y.map fun z => (f z.1, z.2)) := by
  intro b q hx hq
  obtain ⟨⟨a, e⟩, rfl, hpair⟩ := map_eq_ok hx
  cases hpair
  rw [h a e rfl hq]
  rfl

/-- What follows goes forward, so the first part ends before `m` too. -/
theorem AgreesUpTo.bind {m : ℕ} {x y : Except ParseException (α × ℕ)}
    {f g : α × ℕ → Except ParseException (β × ℕ)} (h : AgreesUpTo m x y)
    (hforward : ∀ a e b q, x = .ok (a, e) → f (a, e) = .ok (b, q) → e ≤ q)
    (hf : ∀ a e, x = .ok (a, e) → AgreesUpTo m (f (a, e)) (g (a, e))) :
    AgreesUpTo m (x.bind f) (y.bind g) := by
  intro b q hx hq
  obtain ⟨⟨a, e⟩, rfl, hb⟩ := bind_eq_ok hx
  have he := hforward a e b q rfl hb
  rw [h a e rfl (by omega)]
  exact hf a e rfl b q hb hq

section Agrees

variable {buf' : Bytes} {m : ℕ} (hlen : buf.length < 2 ^ 63 - 1)
  (hagree : buf'.take m = buf.take m)

include hagree

theorem take_drop_of_agree {p n : ℕ} (h : p + n ≤ m) :
    (buf'.drop p).take n = (buf.drop p).take n := by
  have htake : buf'.take (p + n) = buf.take (p + n) := by
    rw [← min_eq_left h, ← List.take_take, hagree, List.take_take]
  rw [List.take_drop, List.take_drop, htake]

theorem getElem?_of_agree {p : ℕ} (h : p < m) : buf'[p]? = buf[p]? := by
  rw [← List.getElem?_take_of_lt h, hagree, List.getElem?_take_of_lt h]

theorem le_length_of_agree {q : ℕ} (hq : q ≤ m) (h : q ≤ buf.length) : q ≤ buf'.length := by
  have := congrArg List.length hagree
  rw [List.length_take, List.length_take] at this
  omega

theorem findLF_of_agree {p lf : ℕ} (h : findLF buf p = some lf) (hlf : lf < m) :
    findLF buf' p = some lf := by
  obtain ⟨i, hi, rfl⟩ := Option.map_eq_some_iff.mp h
  have htake := take_drop_of_agree hagree (show p + (i + 1) ≤ m by omega)
  have hfront : ((buf.drop p).take (i + 1)).findIdx? (· = 10) = some i := by
    rw [List.findIdx?_take, hi]
    simp
  rw [← htake, List.findIdx?_take] at hfront
  obtain ⟨j, hj, hji⟩ := Option.bind_eq_some_iff.mp hfront
  obtain ⟨rfl, -⟩ : j = i ∧ j ≤ i := by simpa using hji
  rw [findLF, hj]
  rfl

theorem makeString_of_agree {p n : ℕ} (h : p + n ≤ m) :
    makeString grants buf' p n = makeString grants buf p n := by
  rw [makeString, makeString, take_drop_of_agree hagree h]

include hlen

theorem agrees_readLine (p : ℕ) :
    AgreesUpTo m (readLine grants buf p) (readLine grants buf' p) := by
  intro line e h he
  obtain ⟨lf, hlf, hline⟩ := Option.bind_eq_some_iff.mp (lineAt?_of_readLine hlen h)
  have hbetween := (findLF_spec hlf).1
  have hin := lt_length_of_findLF hlf
  split at hline
  · cases hline
  · rename_i hne
    cases hline
    have hlineLen : (lf + 2 ^ 64 - p - 1) % 2 ^ 64 = lf - p - 1 := by omega
    rw [readLine, hlf] at h
    rw [readLine, findLF_of_agree hagree hlf (by omega)]
    simp only [hlineLen] at h ⊢
    rw [makeString_of_agree hagree (by omega), h]

theorem agrees_readBulkString {e : ℕ} (he : e ≤ buf.length) (n : ℕ) :
    AgreesUpTo m (readBulkString grants buf e n) (readBulkString grants buf' e n) := by
  intro s q h hq
  obtain ⟨hend, rfl, rfl⟩ := bulk_of_readBulkString hlen he h
  have hmod : (e + n + 2) % 2 ^ 64 = e + n + 2 := Nat.mod_eq_of_lt (by omega)
  have hend' := le_length_of_agree hagree hq hend
  rw [readBulkString, hmod, if_neg (by omega)] at h
  rw [readBulkString, hmod, if_neg (by omega), makeString_of_agree hagree (by omega), h]

theorem agrees_parseInteger (p : ℕ) :
    AgreesUpTo m (parseInteger grants buf p) (parseInteger grants buf' p) := by
  refine (agrees_readLine hlen hagree p).bind ?_ fun _ _ _ _ _ h _ => h
  intro line e v q _ h
  simp only at h
  split at h
  · cases h
  · cases h
    exact le_rfl

theorem agrees_parseBulkString (p : ℕ) :
    AgreesUpTo m (parseBulkString grants buf p) (parseBulkString grants buf' p) := by
  refine (agrees_readLine hlen hagree p).bind ?_ ?_
  · intro line e v q hline h
    simp only at h
    split at h
    · cases h
      exact le_rfl
    · split at h
      · cases h
      · obtain ⟨⟨s, q'⟩, hread, hpair⟩ := map_eq_ok h
        cases hpair
        obtain ⟨-, -, rfl⟩ := bulk_of_readBulkString hlen (lt_of_readLine hlen hline).2 hread
        omega
  · intro line e hline
    simp only
    split
    · exact fun _ _ h _ => h
    · cases stoul line with
      | none => exact fun _ _ h _ => h
      | some n =>
        exact (agrees_readBulkString hlen hagree (lt_of_readLine hlen hline).2 n).map RespValue.bulkString

theorem agrees_readArrayCount (p : ℕ) :
    AgreesUpTo m (readArrayCount grants buf p) (readArrayCount grants buf' p) := by
  refine (agrees_readLine hlen hagree p).bind ?_ fun _ _ _ _ _ h _ => h
  intro line e n q _ h
  simp only at h
  split at h
  · cases h
  · obtain ⟨-, -, hpair⟩ := map_eq_ok h
    cases hpair
    exact le_rfl

/-- One round of `parse` at the same type character, given the loop. -/
theorem agrees_round {fuel p : ℕ} (hchar : buf'[p]? = buf[p]?)
    (hloop : ∀ n e,
      AgreesUpTo m (parseElems grants buf fuel n e) (parseElems grants buf' fuel n e)) :
    AgreesUpTo m (parseFrom grants buf (fuel + 1) p) (parseFrom grants buf' (fuel + 1) p) := by
  rw [parseFrom, parseFrom, hchar]
  cases buf[p]? with
  | none => exact fun _ _ h _ => h
  | some c =>
    simp only
    split
    · exact (agrees_readLine hlen hagree _).map fun line => RespValue.simpleString (popCR line)
    · split
      · exact (agrees_readLine hlen hagree _).map fun line => RespValue.error (popCR line)
      · split
        · exact agrees_parseInteger hlen hagree _
        · split
          · exact agrees_parseBulkString hlen hagree _
          · split
            · refine (agrees_readArrayCount hlen hagree _).bind ?_ ?_
              · intro n e v q _ h
                obtain ⟨⟨elems, q'⟩, helems, hpair⟩ := map_eq_ok h
                cases hpair
                have hforward := forward_of_parseElems hlen helems
                omega
              · intro n e _
                exact (hloop n e).map RespValue.array
            · exact fun _ _ h _ => h

/-- A value read up to `m` is read from any buffer with the same `m` bytes in front. -/
theorem agrees_of_parse (fuel : ℕ) :
    (∀ p, AgreesUpTo m (parseFrom grants buf fuel p) (parseFrom grants buf' fuel p)) ∧
      ∀ n p, AgreesUpTo m (parseElems grants buf fuel n p) (parseElems grants buf' fuel n p) := by
  induction fuel with
  | zero =>
    refine ⟨fun p v q h => ?_, fun n p vs q h => ?_⟩
    · rw [parseFrom] at h
      cases h
    · rw [parseElems] at h
      cases h
  | succ fuel ih =>
    refine ⟨fun p v q h hq => ?_, fun n p => ?_⟩
    · -- the type character is one of the bytes taken
      have hp := (advances_of_parse hlen h).1
      exact agrees_round hlen hagree (getElem?_of_agree hagree (by omega)) ih.2 v q h hq
    · cases n with
      | zero =>
        rw [parseElems, parseElems]
        exact fun _ _ h _ => h
      | succ n =>
        rw [parseElems, parseElems]
        refine (ih.1 p).bind ?_ ?_
        · intro v e vs q _ h
          obtain ⟨⟨elems, q'⟩, helems, hpair⟩ := map_eq_ok h
          cases hpair
          have hforward := forward_of_parseElems hlen helems
          omega
        · intro v e _
          exact (ih.2 n e).map fun vs => v :: vs

end Agrees

/-! ### Whole parses -/

theorem ends_fuelFor (hlen : buf.length < 2 ^ 63 - 1) (p : ℕ) :
    Ends (parseFrom grants buf (fuelFor buf) p) := by
  apply (ends_of_fuel hlen (fuelFor buf)).1
  rw [fuelFor]
  omega

/-- Any number of rounds that gives a value gives the value of `parse`. -/
theorem parse_of_parseFrom (hlen : buf.length < 2 ^ 63 - 1) {fuel : ℕ} {x : RespValue × ℕ}
    (h : parseFrom grants buf fuel 0 = .ok x) : parse grants buf = .ok x := by
  have hends : Ends (parseFrom grants buf fuel 0) := by
    rw [h]
    exact ends_ok x
  have hmore := parseFrom_of_le hends (le_max_left fuel (fuelFor buf))
  have hwhole := parseFrom_of_le (@ends_fuelFor grants buf hlen 0) (le_max_right fuel (fuelFor buf))
  rw [parse, ← hwhole, hmore, h]

/-- Another buffer with the consumed bytes in front gives the same value. -/
theorem parse_of_agree {buf' : Bytes} {v : RespValue} {n : ℕ} (hlen : buf.length < 2 ^ 63 - 1)
    (hlen' : buf'.length < 2 ^ 63 - 1) (h : parse grants buf = .ok (v, n))
    (hagree : buf'.take n = buf.take n) : parse grants buf' = .ok (v, n) :=
  parse_of_parseFrom hlen' ((agrees_of_parse hlen hagree (fuelFor buf)).1 0 v n h le_rfl)

/-- Parsing `buf` ends, goes forward, and reads nothing behind what it takes. -/
structure Progresses (grants : ℕ) (buf : Bytes) : Prop where
  /-- From every position the recursion ends within `fuelFor buf` rounds: it is not cut off there,
  and more rounds come to the same. -/
  ends : ∀ p, parseFrom grants buf (fuelFor buf) p ≠ .error .outOfFuel ∧
    ∀ fuel, fuelFor buf ≤ fuel →
      parseFrom grants buf fuel p = parseFrom grants buf (fuelFor buf) p
  /-- Every value that is parsed, an element of an array too, moves the position. -/
  advances : ∀ fuel p v q, parseFrom grants buf fuel p = .ok (v, q) → p < q ∧ q ≤ buf.length
  consumed : ∀ v n, parse grants buf = .ok (v, n) → 0 < n ∧ n ≤ buf.length
  determined : ∀ v n, parse grants buf = .ok (v, n) → ∀ buf' : Bytes, buf'.length < 2 ^ 63 - 1 →
    buf'.take n = buf.take n → parse grants buf' = .ok (v, n)

/-- For every buffer (of any length an object can have) and every allocator. -/
theorem parse_progress (grants : ℕ) (buf : Bytes) (hlen : buf.length < 2 ^ 63 - 1) :
    Progresses grants buf where
  ends p := ⟨ends_fuelFor hlen p, fun _ hfuel => parseFrom_of_le (ends_fuelFor hlen p) hfuel⟩
  advances _ _ _ _ h := advances_of_parse hlen h
  consumed _ _ h := advances_of_parse hlen h
  determined _ _ h _ hlen' hagree := parse_of_agree hlen hlen' h hagree

/-- A count far beyond the bytes: the loop stops at the end of the buffer, and a value behind an
array of two stays unread. -/
theorem parse_progress_counts :
    Progresses (2 ^ 60) (str "*576460752303423487\r\n:1\r\n") ∧
      parse (2 ^ 60) (str "*576460752303423487\r\n:1\r\n") =
        .error (.runtimeError .incompleteCommand) ∧
      ∀ rest : Bytes, rest.length < 2 ^ 62 →
        parse 20 (str "*2\r\n:1\r\n$0\r\n\r\n" ++ rest) =
          .ok (.array [.integer 1, .bulkString []], 14) := by
  refine ⟨parse_progress _ _ (by decide), by rfl, fun rest hrest => ?_⟩
  have hparse : parse 20 (str "*2\r\n:1\r\n$0\r\n\r\n") =
      .ok (.array [.integer 1, .bulkString []], 14) := rfl
  refine (parse_progress 20 (str "*2\r\n:1\r\n$0\r\n\r\n") (by decide)).determined _ _ hparse _ ?_ ?_
  · rw [List.length_append, show (str "*2\r\n:1\r\n$0\r\n\r\n").length = 14 by decide]
    omega
  · exact List.take_left' (by decide)

end RespParser

end MinimalRedis
