import MinimalRedis.Resp

/-!
# Which buffers make the parser ask for too much memory

The positions at which `parse` starts a value are described without running it: `Spans buf n p q` says
that `n` complete values lie between `p` and `q`, and `Reached buf n p r` that reading `n` values from
`p` comes to a value that starts at `r`.

* `reads_parseFrom` — the parser returns a value, throws a `std::runtime_error`, or asks for more than
  the allocator serves, exactly as the grammar says; it never runs out of fuel;
* `parse_safe_iff` — so nothing escapes **exactly when no value that is reached is `Oversized`**.
-/

namespace MinimalRedis

open Lib

namespace RespParser

/-! ### Lines and values in a buffer -/

/-- The line at `p` without its last byte, and the position behind it; `none` for no line, and for a
line that is only its LF. -/
def lineAt? (buf : Bytes) (p : ℕ) : Option (Bytes × ℕ) :=
  (findLF buf p).bind fun lf =>
    if lf = p then none else some ((buf.drop p).take (lf - p - 1), lf + 1)

/-- The end of a value at `p` that is no array. -/
def flatEnd? (buf : Bytes) (p : ℕ) : Option ℕ :=
  if buf[p]? = some 43 ∨ buf[p]? = some 45 then (lineAt? buf (p + 1)).map Prod.snd
  else if buf[p]? = some 58 then
    (lineAt? buf (p + 1)).bind fun x => (stoll x.1).map fun _ => x.2
  else if buf[p]? = some 36 then
    (lineAt? buf (p + 1)).bind fun x =>
      if x.1 = str "-1" then some x.2
      else (stoul x.1).bind fun n =>
        if x.2 + n + 2 ≤ buf.length then some (x.2 + n + 2) else none
  else none

/-- The count of an array at `p`, and the position of its first element. -/
def arrayHead? (buf : Bytes) (p : ℕ) : Option (ℕ × ℕ) :=
  if buf[p]? = some 42 then
    (lineAt? buf (p + 1)).bind fun x => (stoul x.1).map fun n => (n, x.2)
  else none

/-- `n` complete values lie between `p` and `q`. -/
inductive Spans (buf : Bytes) : ℕ → ℕ → ℕ → Prop where
  | nil (p : ℕ) : Spans buf 0 p p
  | flat {n p q r : ℕ} : flatEnd? buf p = some q → Spans buf n q r → Spans buf (n + 1) p r
  | array {n m p e q r : ℕ} : arrayHead? buf p = some (m, e) → Spans buf m e q → Spans buf n q r →
      Spans buf (n + 1) p r

/-- Reading `n` values from `p` comes to a value that starts at `r`: every value before it is
complete. -/
inductive Reached (buf : Bytes) : ℕ → ℕ → ℕ → Prop where
  | here {n p : ℕ} : Reached buf (n + 1) p p
  | inside {n m p e r : ℕ} : arrayHead? buf p = some (m, e) → Reached buf m e r →
      Reached buf (n + 1) p r
  | after {n p q r : ℕ} : Spans buf 1 p q → Reached buf n q r → Reached buf (n + 1) p r

/-- The value at `p` asks for a length that has nothing to do with the buffer. -/
inductive Oversized (grants : ℕ) (buf : Bytes) (p : ℕ) : Prop where
  /-- The LF follows the type character: `pos - start - 1` wraps. -/
  | emptyLine (c : UInt8) : c ∈ [43, 45, 58, 36, 42] → buf[p]? = some c → buf[p + 1]? = some 10 →
      Oversized grants buf p
  /-- A bulk string whose end wraps to a position inside the buffer. -/
  | bulkWraps (line : Bytes) (e n : ℕ) : buf[p]? = some 36 → lineAt? buf (p + 1) = some (line, e) →
      line ≠ str "-1" → stoul line = some n → 2 ^ 64 ≤ e + n + 2 →
      e + n + 2 ≤ 2 ^ 64 + buf.length → Oversized grants buf p
  /-- An array whose count is more than the vector holds or the allocator serves. -/
  | hugeArray (m e : ℕ) : arrayHead? buf p = some (m, e) → vectorMaxSize < m ∨ grants < m →
      Oversized grants buf p

/-! ### The grammar -/

theorem findLF_spec {buf : Bytes} {p lf : ℕ} (h : findLF buf p = some lf) :
    p ≤ lf ∧ buf[lf]? = some 10 := by
  obtain ⟨i, hi, rfl⟩ := Option.map_eq_some_iff.mp h
  obtain ⟨hlt, hten, -⟩ := List.findIdx?_eq_some_iff_getElem.mp hi
  refine ⟨by omega, ?_⟩
  rw [← List.getElem?_drop, List.getElem?_eq_getElem hlt]
  simpa using hten

theorem lt_length_of_findLF {buf : Bytes} {p lf : ℕ} (h : findLF buf p = some lf) :
    lf < buf.length := (List.getElem?_eq_some_iff.mp (findLF_spec h).2).1

theorem lineAt?_spec {buf line : Bytes} {p e : ℕ} (h : lineAt? buf p = some (line, e)) :
    p < e ∧ e ≤ buf.length := by
  obtain ⟨lf, hlf, hline⟩ := Option.bind_eq_some_iff.mp h
  have hle := (findLF_spec hlf).1
  have hlt := lt_length_of_findLF hlf
  split at hline
  · cases hline
  · simp only [Option.some.injEq, Prod.mk.injEq] at hline
    omega

theorem flatEnd?_spec {buf : Bytes} {p q : ℕ} (h : flatEnd? buf p = some q) :
    p < q ∧ q ≤ buf.length := by
  unfold flatEnd? at h
  split at h
  · obtain ⟨⟨line, e⟩, hline, rfl⟩ := Option.map_eq_some_iff.mp h
    have := lineAt?_spec hline
    simp only
    omega
  · split at h
    · obtain ⟨⟨line, e⟩, hline, hx⟩ := Option.bind_eq_some_iff.mp h
      obtain ⟨-, -, rfl⟩ := Option.map_eq_some_iff.mp hx
      have := lineAt?_spec hline
      simp only
      omega
    · split at h
      · obtain ⟨⟨line, e⟩, hline, hx⟩ := Option.bind_eq_some_iff.mp h
        have := lineAt?_spec hline
        simp only at hx
        split at hx
        · simp only [Option.some.injEq] at hx
          omega
        · obtain ⟨n, -, hn⟩ := Option.bind_eq_some_iff.mp hx
          split at hn
          · simp only [Option.some.injEq] at hn
            omega
          · cases hn
      · cases h

theorem arrayHead?_spec {buf : Bytes} {p m e : ℕ} (h : arrayHead? buf p = some (m, e)) :
    buf[p]? = some 42 ∧ p < e ∧ e ≤ buf.length := by
  unfold arrayHead? at h
  split at h
  · rename_i hchar
    obtain ⟨⟨line, e'⟩, hline, hx⟩ := Option.bind_eq_some_iff.mp h
    obtain ⟨n, -, hn⟩ := Option.map_eq_some_iff.mp hx
    have := lineAt?_spec hline
    simp only [Prod.mk.injEq] at hn
    exact ⟨hchar, by omega, by omega⟩
  · cases h

/-- An array is no flat value. -/
theorem flatEnd?_of_array {buf : Bytes} {p : ℕ} (h : buf[p]? = some 42) : flatEnd? buf p = none := by
  unfold flatEnd?
  rw [h]
  rfl

theorem Spans.le {buf : Bytes} {n p q : ℕ} (h : Spans buf n p q) : p + n ≤ q := by
  induction h with
  | nil p => exact le_rfl
  | flat hend _ ih =>
    have := (flatEnd?_spec hend).1
    omega
  | array hhead _ _ ih ih' =>
    have := (arrayHead?_spec hhead).2.1
    omega

theorem Spans.unique {buf : Bytes} {n p q q' : ℕ} (h : Spans buf n p q) (h' : Spans buf n p q') :
    q = q' := by
  induction h generalizing q' with
  | nil p =>
    cases h'
    rfl
  | flat hend _ ih =>
    cases h' with
    | flat hend' hrest' =>
      obtain rfl := Option.some.inj (hend.symm.trans hend')
      exact ih hrest'
    | array hhead' _ _ =>
      rw [flatEnd?_of_array (arrayHead?_spec hhead').1] at hend
      cases hend
  | array hhead _ _ ih ih' =>
    cases h' with
    | flat hend' _ =>
      rw [flatEnd?_of_array (arrayHead?_spec hhead).1] at hend'
      cases hend'
    | array hhead' hin' hrest' =>
      obtain ⟨rfl, rfl⟩ := Prod.mk.inj (Option.some.inj (hhead.symm.trans hhead'))
      obtain rfl := ih hin'
      exact ih' hrest'

theorem spans_one_iff {buf : Bytes} {p q : ℕ} :
    Spans buf 1 p q ↔ flatEnd? buf p = some q ∨
      ∃ m e, arrayHead? buf p = some (m, e) ∧ Spans buf m e q := by
  constructor
  · intro h
    cases h with
    | flat hend hrest =>
      cases hrest
      exact .inl hend
    | array hhead hin hrest =>
      cases hrest
      exact .inr ⟨_, _, hhead, hin⟩
  · intro h
    rcases h with hend | ⟨m, e, hhead, hin⟩
    · exact .flat hend (.nil q)
    · exact .array hhead hin (.nil q)

theorem spans_succ_iff {buf : Bytes} {n p r : ℕ} :
    Spans buf (n + 1) p r ↔ ∃ q, Spans buf 1 p q ∧ Spans buf n q r := by
  constructor
  · intro h
    cases h with
    | flat hend hrest => exact ⟨_, .flat hend (.nil _), hrest⟩
    | array hhead hin hrest => exact ⟨_, .array hhead hin (.nil _), hrest⟩
  · intro h
    obtain ⟨q, hone, hrest⟩ := h
    rcases spans_one_iff.mp hone with hend | ⟨m, e, hhead, hin⟩
    · exact .flat hend hrest
    · exact .array hhead hin hrest

theorem not_reached_zero {buf : Bytes} {p r : ℕ} : ¬ Reached buf 0 p r := by
  intro h
  cases h

theorem reached_one_iff {buf : Bytes} {p r : ℕ} :
    Reached buf 1 p r ↔ r = p ∨ ∃ m e, arrayHead? buf p = some (m, e) ∧ Reached buf m e r := by
  constructor
  · intro h
    cases h with
    | here => exact .inl rfl
    | inside hhead hin => exact .inr ⟨_, _, hhead, hin⟩
    | after _ hrest => exact absurd hrest not_reached_zero
  · intro h
    rcases h with rfl | ⟨m, e, hhead, hin⟩
    · exact .here
    · exact .inside hhead hin

theorem reached_succ_iff {buf : Bytes} {n p r : ℕ} :
    Reached buf (n + 1) p r ↔
      Reached buf 1 p r ∨ ∃ q, Spans buf 1 p q ∧ Reached buf n q r := by
  constructor
  · intro h
    cases h with
    | here => exact .inl .here
    | inside hhead hin => exact .inl (.inside hhead hin)
    | after hone hrest => exact .inr ⟨_, hone, hrest⟩
  · intro h
    rcases h with hone | ⟨q, hone, hrest⟩
    · rcases reached_one_iff.mp hone with rfl | ⟨m, e, hhead, hin⟩
      · exact .here
      · exact .inside hhead hin
    · exact .after hone hrest

/-! ### The parser against the grammar -/

section Reads

variable {grants : ℕ} {buf : Bytes}

/-- No value reached by reading `n` values from `p` is oversized. -/
def SafeFrom (grants : ℕ) (buf : Bytes) (n p : ℕ) : Prop :=
  ∀ r, Reached buf n p r → ¬ Oversized grants buf r

/-- An outcome of reading `n` values from `p`, with the end position, is the one the grammar gives. -/
def Reads (grants : ℕ) (buf : Bytes) (n p : ℕ) : Except ParseException ℕ → Prop
  | .ok q => Spans buf n p q ∧ SafeFrom grants buf n p
  | .error (.runtimeError _) => (∀ q, ¬ Spans buf n p q) ∧ SafeFrom grants buf n p
  | .error .outOfFuel => False
  | .error .lengthError => ∃ r, Reached buf n p r ∧ Oversized grants buf r
  | .error .badAlloc => ∃ r, Reached buf n p r ∧ Oversized grants buf r

theorem safeFrom_one_iff {p : ℕ} : SafeFrom grants buf 1 p ↔ ¬ Oversized grants buf p ∧
    ∀ m e, arrayHead? buf p = some (m, e) → SafeFrom grants buf m e := by
  constructor
  · intro h
    refine ⟨h p .here, fun m e hhead r hr => h r (.inside hhead hr)⟩
  · intro h r hr
    rcases reached_one_iff.mp hr with rfl | ⟨m, e, hhead, hin⟩
    · exact h.1
    · exact h.2 m e hhead r hin

variable (hlen : buf.length < 2 ^ 62) (hgrants : buf.length ≤ grants)

include hlen hgrants

theorem makeString_of_le {start n : ℕ} (hn : n ≤ buf.length) :
    makeString grants buf start n = .ok ((buf.drop start).take n) := by
  unfold makeString allocate stringMaxSize
  rw [if_neg (by omega), if_neg (by omega)]
  rfl

/-- `read_line` finds no LF, wraps on an empty line, or gives the line. -/
theorem readLine_cases (p : ℕ) :
    (lineAt? buf p = none ∧ buf[p]? ≠ some 10 ∧
        readLine grants buf p = .error (.runtimeError .incompleteLine)) ∨
      (lineAt? buf p = none ∧ buf[p]? = some 10 ∧ readLine grants buf p = .error .lengthError) ∨
      ∃ line e, lineAt? buf p = some (line, e) ∧ buf[p]? ≠ some 10 ∧
        readLine grants buf p = .ok (line, e) := by
  unfold lineAt? readLine
  cases hlf : findLF buf p with
  | none =>
    refine .inl ⟨rfl, ?_, rfl⟩
    intro hten
    have hnone := List.findIdx?_eq_none_iff.mp (Option.map_eq_none_iff.mp hlf)
    have hmem : (10 : UInt8) ∈ buf.drop p := by
      rw [List.mem_iff_getElem?]
      exact ⟨0, by rw [List.getElem?_drop, Nat.add_zero, hten]⟩
    simpa using hnone 10 hmem
  | some lf =>
    have hle := (findLF_spec hlf).1
    have hlt := lt_length_of_findLF hlf
    by_cases heq : lf = p
    · subst heq
      refine .inr (.inl ⟨by simp, (findLF_spec hlf).2, ?_⟩)
      have hwrap : (lf + 2 ^ 64 - lf - 1) % 2 ^ 64 = 2 ^ 64 - 1 := by omega
      simp only [hwrap, makeString, allocate, stringMaxSize]
      rfl
    · refine .inr (.inr ⟨(buf.drop p).take (lf - p - 1), lf + 1, by simp [heq], ?_, ?_⟩)
      · -- the first LF lies behind `p`
        obtain ⟨i, hi, hip⟩ := Option.map_eq_some_iff.mp hlf
        obtain ⟨hbound, -, hfirst⟩ := List.findIdx?_eq_some_iff_getElem.mp hi
        intro hten
        have hzero := hfirst 0 (by omega)
        obtain ⟨hp, hget⟩ := List.getElem?_eq_some_iff.mp hten
        simp [hget] at hzero
      · have hwrap : (lf + 2 ^ 64 - p - 1) % 2 ^ 64 = lf - p - 1 := by omega
        simp only [hwrap]
        rw [makeString_of_le hlen hgrants (by omega)]
        rfl

omit hlen hgrants in
/-- A value that is no array: its outcome is decided on the spot. -/
theorem reads_flat {p : ℕ} {x : Except ParseException (RespValue × ℕ)} (hchar : buf[p]? ≠ some 42)
    (hx : match x with
      | .ok y => flatEnd? buf p = some y.2 ∧ ¬ Oversized grants buf p
      | .error (.runtimeError _) => flatEnd? buf p = none ∧ ¬ Oversized grants buf p
      | .error .outOfFuel => False
      | .error _ => Oversized grants buf p) :
    Reads grants buf 1 p (x.map Prod.snd) := by
  have hhead : ∀ m e, arrayHead? buf p ≠ some (m, e) :=
    fun m e h => hchar (arrayHead?_spec h).1
  have hsafe : ¬ Oversized grants buf p → SafeFrom grants buf 1 p := fun h =>
    safeFrom_one_iff.mpr ⟨h, fun m e he => absurd he (hhead m e)⟩
  match x, hx with
  | .ok y, ⟨hend, hnot⟩ => exact ⟨spans_one_iff.mpr (.inl hend), hsafe hnot⟩
  | .error (.runtimeError msg), ⟨hend, hnot⟩ =>
    refine ⟨fun q hq => ?_, hsafe hnot⟩
    rcases spans_one_iff.mp hq with hq | ⟨m, e, hq, -⟩
    · rw [hend] at hq
      cases hq
    · exact hhead m e hq
  | .error .lengthError, hover => exact ⟨p, .here, hover⟩
  | .error .badAlloc, hover => exact ⟨p, .here, hover⟩

omit hlen hgrants in
/-- A line with a byte before its LF leaves only the bulk length and the array count to be judged. -/
theorem not_oversized {p : ℕ} (hten : buf[p + 1]? ≠ some 10)
    (hbulk : buf[p]? = some 36 → ∀ line e n, lineAt? buf (p + 1) = some (line, e) →
      line ≠ str "-1" → stoul line = some n → ¬ (2 ^ 64 ≤ e + n + 2 ∧ e + n + 2 ≤ 2 ^ 64 + buf.length))
    (harray : ∀ m e, arrayHead? buf p = some (m, e) → ¬ (vectorMaxSize < m ∨ grants < m)) :
    ¬ Oversized grants buf p := by
  intro h
  cases h with
  | emptyLine c _ _ h10 => exact hten h10
  | bulkWraps line e n hchar hline hne hn hlo hhi => exact hbulk hchar line e n hline hne hn ⟨hlo, hhi⟩
  | hugeArray m e hhead hbig => exact harray m e hhead hbig

/-- Simple strings and errors. -/
theorem reads_line {p : ℕ} {c : UInt8} (hc : c = 43 ∨ c = 45) (hchar : buf[p]? = some c)
    (make : Bytes → RespValue) :
    Reads grants buf 1 p
      (((readLine grants buf (p + 1)).map fun x => (make x.1, x.2)).map Prod.snd) := by
  have hne : ∀ b : UInt8, b ≠ 43 → b ≠ 45 → buf[p]? ≠ some b := by
    intro b h43 h45 h
    rw [hchar, Option.some.injEq] at h
    subst h
    rcases hc with rfl | rfl
    · exact h43 rfl
    · exact h45 rfl
  have hend : flatEnd? buf p = (lineAt? buf (p + 1)).map Prod.snd := by
    unfold flatEnd?
    rw [if_pos]
    rcases hc with rfl | rfl
    · exact .inl hchar
    · exact .inr hchar
  have hnot : buf[p + 1]? ≠ some 10 → ¬ Oversized grants buf p := fun hten =>
    not_oversized hten (fun h => absurd h (hne 36 (by decide) (by decide)))
      fun m e h => absurd (arrayHead?_spec h).1 (hne 42 (by decide) (by decide))
  apply reads_flat (hne 42 (by decide) (by decide))
  rw [hend]
  rcases readLine_cases hlen hgrants (p + 1) with
    ⟨hline, hten, h⟩ | ⟨hline, hten, h⟩ | ⟨line, e, hline, hten, h⟩
  · rw [h, hline]
    exact ⟨rfl, hnot hten⟩
  · rw [h]
    refine .emptyLine c ?_ hchar hten
    rcases hc with rfl | rfl <;> decide
  · rw [h, hline]
    exact ⟨rfl, hnot hten⟩

theorem reads_integer {p : ℕ} (hchar : buf[p]? = some 58) :
    Reads grants buf 1 p ((parseInteger grants buf (p + 1)).map Prod.snd) := by
  have hend : flatEnd? buf p =
      (lineAt? buf (p + 1)).bind fun x => (stoll x.1).map fun _ => x.2 := by
    unfold flatEnd?
    rw [hchar]
    rfl
  have hnot : buf[p + 1]? ≠ some 10 → ¬ Oversized grants buf p := fun hten =>
    not_oversized hten (fun h => by rw [hchar] at h; cases h)
      fun m e h => by
        have := (arrayHead?_spec h).1
        rw [hchar] at this
        cases this
  apply reads_flat (by rw [hchar]; decide)
  rw [hend]
  unfold parseInteger
  rcases readLine_cases hlen hgrants (p + 1) with
    ⟨hline, hten, h⟩ | ⟨hline, hten, h⟩ | ⟨line, e, hline, hten, h⟩
  · rw [h, hline]
    exact ⟨rfl, hnot hten⟩
  · rw [h]
    exact .emptyLine 58 (by decide) hchar hten
  · rw [h, hline]
    simp only [Except.bind, Option.bind_some]
    cases stoll line with
    | none => exact ⟨rfl, hnot hten⟩
    | some n => exact ⟨rfl, hnot hten⟩

theorem reads_bulkString {p : ℕ} (hchar : buf[p]? = some 36) :
    Reads grants buf 1 p ((parseBulkString grants buf (p + 1)).map Prod.snd) := by
  have hend : flatEnd? buf p = (lineAt? buf (p + 1)).bind fun x =>
      if x.1 = str "-1" then some x.2
      else (stoul x.1).bind fun n =>
        if x.2 + n + 2 ≤ buf.length then some (x.2 + n + 2) else none := by
    unfold flatEnd?
    rw [hchar]
    rfl
  have harray : ∀ m e, arrayHead? buf p = some (m, e) → ¬ (vectorMaxSize < m ∨ grants < m) := by
    intro m e h
    have := (arrayHead?_spec h).1
    rw [hchar] at this
    cases this
  apply reads_flat (by rw [hchar]; decide)
  rw [hend]
  unfold parseBulkString
  rcases readLine_cases hlen hgrants (p + 1) with
    ⟨hline, hten, h⟩ | ⟨hline, hten, h⟩ | ⟨line, e, hline, hten, h⟩
  · rw [h, hline]
    refine ⟨rfl, not_oversized hten ?_ harray⟩
    intro _ line e n hline'
    rw [hline] at hline'
    cases hline'
  · rw [h]
    exact .emptyLine 36 (by decide) hchar hten
  · have hunique : ∀ line' e', lineAt? buf (p + 1) = some (line', e') → line' = line ∧ e' = e := by
      intro line' e' h'
      rw [hline] at h'
      exact ⟨(Prod.mk.inj (Option.some.inj h')).1.symm, (Prod.mk.inj (Option.some.inj h')).2.symm⟩
    rw [h, hline]
    simp only [Except.bind, Option.bind_some]
    by_cases hnull : line = str "-1"
    · rw [if_pos hnull, if_pos hnull]
      refine ⟨rfl, not_oversized hten ?_ harray⟩
      intro _ line' e' n h' hne
      exact absurd ((hunique line' e' h').1.trans hnull) hne
    · rw [if_neg hnull, if_neg hnull]
      cases hn : stoul line with
      | none =>
        refine ⟨rfl, not_oversized hten ?_ harray⟩
        intro _ line' e' n h' _ hn'
        rw [(hunique line' e' h').1, hn] at hn'
        cases hn'
      | some n =>
        have hn64 := stoul_lt hn
        have he := lineAt?_spec hline
        have hsafe : ¬ (2 ^ 64 ≤ e + n + 2 ∧ e + n + 2 ≤ 2 ^ 64 + buf.length) →
            ¬ Oversized grants buf p := fun hnot => by
          refine not_oversized hten ?_ harray
          intro _ line' e' n' h' _ hn'
          obtain ⟨rfl, rfl⟩ := hunique line' e' h'
          obtain rfl := Option.some.inj (hn.symm.trans hn')
          exact hnot
        simp only [Option.bind_some, readBulkString]
        by_cases hwrap : 2 ^ 64 ≤ e + n + 2
        · have hmod : (e + n + 2) % 2 ^ 64 = e + n + 2 - 2 ^ 64 := by omega
          by_cases hin : e + n + 2 ≤ 2 ^ 64 + buf.length
          · -- the wrapped end passes the test, and the string is far too long
            rw [if_neg (by omega)]
            have hbig : makeString grants buf e n = .error .lengthError := by
              unfold makeString allocate stringMaxSize
              rw [if_pos (by omega)]
              rfl
            rw [hbig]
            exact .bulkWraps line e n hchar hline hnull hn hwrap hin
          · rw [if_pos (by omega), if_neg (by omega)]
            exact ⟨rfl, hsafe fun h => hin h.2⟩
        · have hmod : (e + n + 2) % 2 ^ 64 = e + n + 2 := by omega
          rw [hmod]
          by_cases hin : e + n + 2 ≤ buf.length
          · rw [if_neg (by omega), if_pos hin, makeString_of_le hlen hgrants (by omega)]
            exact ⟨rfl, hsafe fun h => hwrap h.1⟩
          · rw [if_pos (by omega), if_neg hin]
            exact ⟨rfl, hsafe fun h => hwrap h.1⟩

/-- The head of an array: the line is bad, or the count is too large, or the elements come next. -/
theorem readArrayCount_cases {p : ℕ} (hchar : buf[p]? = some 42) :
    (arrayHead? buf p = none ∧ ¬ Oversized grants buf p ∧
        ∃ msg, readArrayCount grants buf (p + 1) = .error (.runtimeError msg)) ∨
      (Oversized grants buf p ∧ (readArrayCount grants buf (p + 1) = .error .lengthError ∨
        readArrayCount grants buf (p + 1) = .error .badAlloc)) ∨
      ∃ m e, arrayHead? buf p = some (m, e) ∧ ¬ Oversized grants buf p ∧
        readArrayCount grants buf (p + 1) = .ok (m, e) := by
  have hhead : arrayHead? buf p =
      (lineAt? buf (p + 1)).bind fun x => (stoul x.1).map fun n => (n, x.2) := by
    unfold arrayHead?
    rw [if_pos hchar]
  have hbulk : buf[p]? = some 36 → ∀ line e n, lineAt? buf (p + 1) = some (line, e) →
      line ≠ str "-1" → stoul line = some n →
        ¬ (2 ^ 64 ≤ e + n + 2 ∧ e + n + 2 ≤ 2 ^ 64 + buf.length) := by
    intro h
    rw [hchar] at h
    cases h
  unfold readArrayCount
  rcases readLine_cases hlen hgrants (p + 1) with
    ⟨hline, hten, h⟩ | ⟨hline, hten, h⟩ | ⟨line, e, hline, hten, h⟩
  · have hnone : arrayHead? buf p = none := by rw [hhead, hline]; rfl
    refine .inl ⟨hnone, not_oversized hten hbulk ?_, _, by rw [h]; rfl⟩
    intro m e hm
    rw [hnone] at hm
    cases hm
  · exact .inr (.inl ⟨.emptyLine 42 (by decide) hchar hten, .inl (by rw [h]; rfl)⟩)
  · rw [h]
    simp only [Except.bind]
    cases hn : stoul line with
    | none =>
      have hnone : arrayHead? buf p = none := by rw [hhead, hline, Option.bind_some, hn]; rfl
      refine .inl ⟨hnone, not_oversized hten hbulk ?_, _, rfl⟩
      intro m e hm
      rw [hnone] at hm
      cases hm
    | some m =>
      have hsome : arrayHead? buf p = some (m, e) := by rw [hhead, hline, Option.bind_some, hn]; rfl
      by_cases hvector : vectorMaxSize < m
      · refine .inr (.inl ⟨.hugeArray m e hsome (.inl hvector), .inl ?_⟩)
        simp only [allocate, if_pos hvector]
        rfl
      · by_cases hbig : grants < m
        · refine .inr (.inl ⟨.hugeArray m e hsome (.inr hbig), .inr ?_⟩)
          simp only [allocate, if_neg hvector, if_pos hbig]
          rfl
        · refine .inr (.inr ⟨m, e, hsome, not_oversized hten hbulk ?_, ?_⟩)
          · intro m' e' hm
            obtain ⟨rfl, rfl⟩ := Prod.mk.inj (Option.some.inj (hsome.symm.trans hm))
            omega
          · simp only [allocate, if_neg hvector, if_neg hbig]
            rfl

omit hlen hgrants in
/-- An array whose head is read: its outcome is that of its elements. -/
theorem reads_array {p m e : ℕ} (hhead : arrayHead? buf p = some (m, e))
    (hnot : ¬ Oversized grants buf p) {x : Except ParseException (List RespValue × ℕ)}
    (hx : Reads grants buf m e (x.map Prod.snd)) :
    Reads grants buf 1 p ((x.map fun y => (RespValue.array y.1, y.2)).map Prod.snd) := by
  have hunique : ∀ m' e', arrayHead? buf p = some (m', e') → m' = m ∧ e' = e := by
    intro m' e' h
    obtain ⟨rfl, rfl⟩ := Prod.mk.inj (Option.some.inj (hhead.symm.trans h))
    exact ⟨rfl, rfl⟩
  have hsafe : SafeFrom grants buf m e → SafeFrom grants buf 1 p := fun h =>
    safeFrom_one_iff.mpr ⟨hnot, fun m' e' he => by obtain ⟨rfl, rfl⟩ := hunique m' e' he; exact h⟩
  match x, hx with
  | .ok y, ⟨hspans, hs⟩ => exact ⟨spans_one_iff.mpr (.inr ⟨m, e, hhead, hspans⟩), hsafe hs⟩
  | .error (.runtimeError msg), ⟨hspans, hs⟩ =>
    refine ⟨fun q hq => ?_, hsafe hs⟩
    rcases spans_one_iff.mp hq with hflat | ⟨m', e', hhead', hin⟩
    · rw [flatEnd?_of_array (arrayHead?_spec hhead).1] at hflat
      cases hflat
    · obtain ⟨rfl, rfl⟩ := hunique m' e' hhead'
      exact hspans q hin
  | .error .lengthError, ⟨r, hr, hover⟩ => exact ⟨r, .inside hhead hr, hover⟩
  | .error .badAlloc, ⟨r, hr, hover⟩ => exact ⟨r, .inside hhead hr, hover⟩

omit hlen hgrants in
/-- One element and then the others. -/
theorem reads_cons {n p : ℕ} {x : Except ParseException (RespValue × ℕ)}
    {rest : ℕ → Except ParseException (List RespValue × ℕ)}
    (hx : Reads grants buf 1 p (x.map Prod.snd))
    (hrest : ∀ v q, x = .ok (v, q) → Reads grants buf n q ((rest q).map Prod.snd)) :
    Reads grants buf (n + 1) p
      ((x.bind fun a => (rest a.2).map fun y => (a.1 :: y.1, y.2)).map Prod.snd) := by
  -- a value reached behind a failed element would need that element to be complete
  have hfailed : (∀ q, ¬ Spans buf 1 p q) → SafeFrom grants buf 1 p →
      SafeFrom grants buf (n + 1) p := by
    intro hnone hs r hr
    rcases reached_succ_iff.mp hr with hr | ⟨q, hq, -⟩
    · exact hs r hr
    · exact absurd hq (hnone q)
  have hnext : ∀ q, Spans buf 1 p q → SafeFrom grants buf 1 p → SafeFrom grants buf n q →
      SafeFrom grants buf (n + 1) p := by
    intro q hq hs hs' r hr
    rcases reached_succ_iff.mp hr with hr | ⟨q', hq', hr⟩
    · exact hs r hr
    · obtain rfl := hq.unique hq'
      exact hs' r hr
  match x, hx with
  | .ok (v, q), ⟨hspans, hs⟩ =>
    have hq := hrest v q rfl
    simp only [Except.bind]
    match rest q, hq with
    | .ok y, ⟨hspans', hs'⟩ =>
      exact ⟨spans_succ_iff.mpr ⟨q, hspans, hspans'⟩, hnext q hspans hs hs'⟩
    | .error (.runtimeError msg), ⟨hnone, hs'⟩ =>
      refine ⟨fun r hr => ?_, hnext q hspans hs hs'⟩
      obtain ⟨q', hq', hr⟩ := spans_succ_iff.mp hr
      obtain rfl := hspans.unique hq'
      exact hnone r hr
    | .error .lengthError, ⟨r, hr, hover⟩ => exact ⟨r, .after hspans hr, hover⟩
    | .error .badAlloc, ⟨r, hr, hover⟩ => exact ⟨r, .after hspans hr, hover⟩
  | .error (.runtimeError msg), ⟨hnone, hs⟩ =>
    refine ⟨fun r hr => ?_, hfailed hnone hs⟩
    obtain ⟨q, hq, -⟩ := spans_succ_iff.mp hr
    exact hnone q hq
  | .error .lengthError, ⟨r, hr, hover⟩ => exact ⟨r, reached_succ_iff.mpr (.inl hr), hover⟩
  | .error .badAlloc, ⟨r, hr, hover⟩ => exact ⟨r, reached_succ_iff.mpr (.inl hr), hover⟩

/-- One round of `parse`, given what the loop does with less fuel. -/
theorem reads_parseFrom_succ {fuel p : ℕ} (hfuel : 2 * (buf.length - p) + 1 ≤ fuel + 1)
    (hloop : ∀ n q, 2 * (buf.length - q) + 2 ≤ fuel →
      Reads grants buf n q ((parseElems grants buf fuel n q).map Prod.snd)) :
    Reads grants buf 1 p ((parseFrom grants buf (fuel + 1) p).map Prod.snd) := by
  have hflat : buf[p]? ≠ some 42 → flatEnd? buf p = none → (¬ Oversized grants buf p) →
      ∀ msg, Reads grants buf 1 p
        ((Except.error (.runtimeError msg) : Except ParseException (RespValue × ℕ)).map Prod.snd) :=
    fun hchar hend hnot msg => reads_flat hchar ⟨hend, hnot⟩
  cases hchar : buf[p]? with
  | none =>
    rw [parseFrom, hchar]
    apply hflat (by rw [hchar]; decide)
    · simp [flatEnd?, hchar]
    · intro hover
      cases hover with
      | emptyLine c _ h _ => rw [hchar] at h; cases h
      | bulkWraps line e n h => rw [hchar] at h; cases h
      | hugeArray m e h _ =>
        have := (arrayHead?_spec h).1
        rw [hchar] at this
        cases this
  | some c =>
    simp only [parseFrom, hchar]
    split
    · exact reads_line hlen hgrants (.inl ‹_›) hchar fun line => .simpleString (popCR line)
    · split
      · exact reads_line hlen hgrants (.inr ‹_›) hchar fun line => .error (popCR line)
      · split
        · exact reads_integer hlen hgrants (by rw [hchar, ‹c = 58›])
        · split
          · exact reads_bulkString hlen hgrants (by rw [hchar, ‹c = 36›])
          · split
            · have hstar : buf[p]? = some 42 := by rw [hchar, ‹c = 42›]
              rcases readArrayCount_cases hlen hgrants hstar with
                ⟨hhead, hnot, msg, h⟩ | ⟨hover, h | h⟩ | ⟨m, e, hhead, hnot, h⟩
              · rw [h]
                refine ⟨fun q hq => ?_, safeFrom_one_iff.mpr ⟨hnot, fun m e hm => ?_⟩⟩
                · rcases spans_one_iff.mp hq with hq | ⟨m, e, hm, -⟩
                  · rw [flatEnd?_of_array hstar] at hq
                    cases hq
                  · rw [hhead] at hm
                    cases hm
                · rw [hhead] at hm
                  cases hm
              · rw [h]
                exact ⟨p, .here, hover⟩
              · rw [h]
                exact ⟨p, .here, hover⟩
              · rw [h]
                have he := arrayHead?_spec hhead
                exact reads_array hhead hnot (hloop m e (by omega))
            · -- an unknown type character
              rename_i h43 h45 h58 h36 h42
              have hne : ∀ b : UInt8, b ≠ c → buf[p]? ≠ some b := by
                intro b hb h
                rw [hchar, Option.some.injEq] at h
                exact hb h.symm
              apply hflat (hne 42 (Ne.symm h42))
              · simp [flatEnd?, hchar, h43, h45, h58, h36]
              · intro hover
                cases hover with
                | emptyLine b hb h _ =>
                  rw [hchar, Option.some.injEq] at h
                  subst h
                  simp [h43, h45, h58, h36, h42] at hb
                | bulkWraps line e n h => exact hne 36 (Ne.symm h36) h
                | hugeArray m e h _ => exact hne 42 (Ne.symm h42) (arrayHead?_spec h).1

/-- The parser does what the grammar says, and the fuel suffices: every value takes a byte. -/
theorem reads_parse (fuel : ℕ) :
    (∀ p, 2 * (buf.length - p) + 1 ≤ fuel →
      Reads grants buf 1 p ((parseFrom grants buf fuel p).map Prod.snd)) ∧
    ∀ n p, 2 * (buf.length - p) + 2 ≤ fuel →
      Reads grants buf n p ((parseElems grants buf fuel n p).map Prod.snd) := by
  induction fuel with
  | zero => exact ⟨fun p h => by omega, fun n p h => by omega⟩
  | succ fuel ih =>
    refine ⟨fun p h => reads_parseFrom_succ hlen hgrants h ih.2, ?_⟩
    intro n p h
    cases n with
    | zero =>
      rw [parseElems]
      exact ⟨.nil p, fun r hr => absurd hr not_reached_zero⟩
    | succ n =>
      rw [parseElems]
      have hone := ih.1 p (by omega)
      refine reads_cons hone ?_
      intro v q hq
      rw [hq] at hone
      have hlt := hone.1.le
      rcases Nat.lt_or_ge p buf.length with hp | hp
      · exact ih.2 n q (by omega)
      · -- nothing to read at the end of the buffer
        cases fuel with
        | zero => omega
        | succ fuel =>
          rw [parseFrom, List.getElem?_eq_none hp] at hq
          cases hq

end Reads

/-! ### Exactly when nothing escapes -/

/-- `parse` returns a value or throws a `std::runtime_error`, the only exception `handle_client`
catches. -/
def ParsesSafely (grants : ℕ) (buf : Bytes) : Prop :=
  (∃ x, parse grants buf = .ok x) ∨ ∃ msg, parse grants buf = .error (.runtimeError msg)

/-- For an allocator that serves requests up to `grants`, at least the size of the buffer: nothing but
a `std::runtime_error` leaves the parser exactly when no value it comes to is oversized. -/
theorem parse_safe_iff (grants : ℕ) (buf : Bytes) (hlen : buf.length < 2 ^ 62)
    (hgrants : buf.length ≤ grants) :
    ParsesSafely grants buf ↔ ∀ p, Reached buf 1 0 p → ¬ Oversized grants buf p := by
  have hreads : Reads grants buf 1 0 ((parse grants buf).map Prod.snd) :=
    (reads_parse hlen hgrants (fuelFor buf)).1 0 (by unfold fuelFor; omega)
  unfold ParsesSafely
  match hparse : parse grants buf with
  | .ok x =>
    rw [hparse] at hreads
    exact ⟨fun _ => hreads.2, fun _ => .inl ⟨x, rfl⟩⟩
  | .error (.runtimeError msg) =>
    rw [hparse] at hreads
    exact ⟨fun _ => hreads.2, fun _ => .inr ⟨msg, rfl⟩⟩
  | .error .outOfFuel =>
    rw [hparse] at hreads
    exact hreads.elim
  | .error .lengthError =>
    rw [hparse] at hreads
    obtain ⟨r, hr, hover⟩ := hreads
    refine ⟨fun hsafe => ?_, fun hsafe => absurd hover (hsafe r hr)⟩
    rcases hsafe with ⟨_, h⟩ | ⟨_, h⟩ <;> cases h
  | .error .badAlloc =>
    rw [hparse] at hreads
    obtain ⟨r, hr, hover⟩ := hreads
    refine ⟨fun hsafe => ?_, fun hsafe => absurd hover (hsafe r hr)⟩
    rcases hsafe with ⟨_, h⟩ | ⟨_, h⟩ <;> cases h

/-- A command array on an allocator that serves no more than the buffer's length. -/
theorem parse_safe_get :
    ParsesSafely 20 (str "*2\r\n$3\r\nGET\r\n$1\r\nk\r\n") ∧
      ∀ p, Reached (str "*2\r\n$3\r\nGET\r\n$1\r\nk\r\n") 1 0 p →
        ¬ Oversized 20 (str "*2\r\n$3\r\nGET\r\n$1\r\nk\r\n") p := by
  have hsafe : ParsesSafely 20 (str "*2\r\n$3\r\nGET\r\n$1\r\nk\r\n") := .inl ⟨_, rfl⟩
  exact ⟨hsafe, (parse_safe_iff 20 _ (by decide) (by decide)).mp hsafe⟩

/-- A bare LF, a negative bulk length and a negative array count escape as `std::length_error`, however
much memory there is. -/
theorem parse_escapes :
    parse (2 ^ 60) (str "+\n") = .error .lengthError ∧
      parse (2 ^ 60) (str "$-5\r\n") = .error .lengthError ∧
      parse (2 ^ 60) (str "*-1\r\n") = .error .lengthError ∧
      ¬ ParsesSafely (2 ^ 60) (str "+\n") := by
  refine ⟨rfl, rfl, rfl, ?_⟩
  intro h
  rcases h with ⟨x, h⟩ | ⟨msg, h⟩
  · cases h
  · cases h

end RespParser

end MinimalRedis
