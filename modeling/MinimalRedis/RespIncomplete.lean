import MinimalRedis.RespGrammar

/-!
# A value cut short is reported as incomplete

The bytes of a value stop somewhere: before its type character, in its first line, or behind that
line, in the payload or in the row of elements.  `CutShort` is the claim about one wire form from any
position of a buffer that ends there.

* `cut_head` — the cases before the end of the first line, the same for the five types;
* `parseFrom_of_cutElement` — in an array the whole elements are read, and the one that is cut makes
  the error;
* `cutShort_of_wire` — so by induction on the wire form every value is `CutShort`;
* `parse_incomplete` — so a beginning of an encoding is **incomplete**, never a value and never
  malformed;
* `parse_incomplete_huge` — but an array that no `std::vector` holds is refused at its count line.
-/

namespace MinimalRedis

open Lib

namespace RespParser

/-- The messages that say that more bytes are needed. -/
def incompleteMessages : List ParseMessage :=
  [.incompleteCommand, .incompleteLine, .incompleteBulkString]

/-- One of the three messages is thrown. -/
def Incomplete {α : Type} (x : Except ParseException α) : Prop :=
  ∃ msg ∈ incompleteMessages, x = .error (.runtimeError msg)

/-- A buffer that ends with a beginning of `bs` at `p`. -/
structure EndsInside (grants : ℕ) (bs buf : Bytes) (p : ℕ) (u w : Bytes) : Prop where
  here : buf.drop p = u
  cut : u ++ w = bs
  short : w ≠ []
  room : p + bs.length < 2 ^ 63
  served : bs.length ≤ grants

/-- Wherever the bytes of `bs` stop, the value that starts with them is incomplete. -/
def CutShort (grants : ℕ) (bs : Bytes) : Prop :=
  ∀ (buf : Bytes) (p : ℕ) (u w : Bytes) (fuel : ℕ), EndsInside grants bs buf p u w →
    u.length < fuel → Incomplete (parseFrom grants buf fuel p)

/-! ### Before the end of the first line -/

section Head

variable {grants : ℕ} {buf : Bytes} {p : ℕ}

theorem parseFrom_at_end (h : buf.drop p = []) (fuel : ℕ) :
    parseFrom grants buf (fuel + 1) p = .error (.runtimeError .incompleteCommand) := by
  rw [parseFrom, List.getElem?_eq_none (List.drop_eq_nil_iff.mp h)]

theorem parseFrom_of_incompleteLine {c : UInt8} (hc : c ∈ [43, 45, 58, 36, 42])
    (hchar : buf[p]? = some c)
    (hline : readLine grants buf (p + 1) = .error (.runtimeError .incompleteLine)) (fuel : ℕ) :
    parseFrom grants buf (fuel + 1) p = .error (.runtimeError .incompleteLine) := by
  simp only [List.mem_cons, List.not_mem_nil, or_false] at hc
  rcases hc with rfl | rfl | rfl | rfl | rfl
  · rw [parseFrom_of_plus hchar, parseSimpleString, hline]
    rfl
  · rw [parseFrom_of_minus hchar, parseError, hline]
    rfl
  · rw [parseFrom_of_colon hchar, parseInteger, hline]
    rfl
  · rw [parseFrom_of_dollar hchar, parseBulkString, hline]
    rfl
  · rw [parseFrom_of_star hchar, readArrayCount, hline]
    rfl

/-- No bytes at all, a first line without its end, or a cut behind that line. -/
theorem cut_head {c : UInt8} {u w line tail : Bytes} (hc : c ∈ [43, 45, 58, 36, 42])
    (hline : (10 : UInt8) ∉ line) (hu : buf.drop p = u)
    (hcut : u ++ w = c :: (line ++ (crlf ++ tail))) (fuel : ℕ) :
    u = [] ∨ parseFrom grants buf (fuel + 1) p = .error (.runtimeError .incompleteLine) ∨
      ∃ t, u = c :: (line ++ (crlf ++ t)) ∧ t ++ w = tail := by
  cases u with
  | nil => exact .inl rfl
  | cons b u =>
    obtain ⟨rfl, hrest⟩ := List.cons.inj hcut
    rcases cut_line hrest hline with hlf | ⟨t, rfl, ht⟩
    · refine .inr (.inl (parseFrom_of_incompleteLine hc (getElem?_of_drop hu) ?_ fuel))
      exact readLine_of_no_lf (by rwa [drop_succ_of_drop hu])
    · exact .inr (.inr ⟨t, rfl, ht⟩)

end Head

/-! ### The wire forms -/

variable {grants : ℕ}

theorem incomplete_at_end {buf : Bytes} {p : ℕ} (h : buf.drop p = []) (fuel : ℕ) :
    Incomplete (parseFrom grants buf (fuel + 1) p) :=
  ⟨.incompleteCommand, by decide, parseFrom_at_end h fuel⟩

/-- A value that is only a line has nothing behind it to be missing. -/
theorem cutShort_of_line {c : UInt8} {line : Bytes} (hc : c ∈ [43, 45, 58, 36, 42])
    (hline : (10 : UInt8) ∉ line) : CutShort grants (c :: (line ++ crlf)) := by
  intro buf p u w fuel h hfuel
  obtain ⟨fuel, rfl⟩ : ∃ k, fuel = k + 1 := ⟨fuel - 1, by omega⟩
  have hcut : u ++ w = c :: (line ++ (crlf ++ [])) := h.cut
  rcases cut_head hc hline h.here hcut fuel with rfl | hparse | ⟨t, -, ht⟩
  · exact incomplete_at_end h.here fuel
  · exact ⟨.incompleteLine, by decide, hparse⟩
  · exact absurd (List.append_eq_nil_iff.mp ht).2 h.short

/-- A bulk string that has begun: its line has no end, or its payload is too short. -/
theorem parseFrom_inside {s ds buf u w : Bytes} {p : ℕ} (hds : PaddedNat s.length ds)
    (h : EndsInside grants (36 :: (ds ++ (crlf ++ (s ++ crlf)))) buf p u w) (hne : u ≠ [])
    (fuel : ℕ) :
    ∃ msg ∈ [ParseMessage.incompleteLine, .incompleteBulkString],
      parseFrom grants buf (fuel + 1) p = .error (.runtimeError msg) := by
  rcases cut_head (by decide) (hds.not_mem rfl) h.here h.cut fuel with rfl | hparse | ⟨t, rfl, ht⟩
  · exact absurd rfl hne
  · exact ⟨.incompleteLine, by decide, hparse⟩
  · have hhere := h.here
    have hroom := h.room
    have hserved := h.served
    have hpos := List.length_pos_iff.mpr h.short
    have hsize := congrArg List.length ht
    have hbuf := length_of_drop hhere (by simp)
    simp only [List.length_append, crlf, List.length_cons, List.length_nil]
      at hsize hbuf hroom hserved
    refine ⟨.incompleteBulkString, by decide, ?_⟩
    rw [parseFrom_of_dollar (getElem?_of_drop hhere), parseBulkString,
      readLine_of_drop (drop_succ_of_drop hhere) (hds.not_mem rfl) (by unfold stringMaxSize; omega)
        (by omega)]
    simp only [Except.bind, if_neg hds.ne_minus_one, readBulkString,
      hds.stoul_eq (show s.length < 2 ^ 64 by omega)]
    rw [Nat.mod_eq_of_lt (by omega), if_pos (by omega)]
    rfl

theorem cutShort_bulkString {s ds : Bytes} (hds : PaddedNat s.length ds) :
    CutShort grants (36 :: (ds ++ (crlf ++ (s ++ crlf)))) := by
  intro buf p u w fuel h hfuel
  obtain ⟨fuel, rfl⟩ : ∃ k, fuel = k + 1 := ⟨fuel - 1, by omega⟩
  by_cases hnil : u = []
  · exact incomplete_at_end (h.here.trans hnil) fuel
  · obtain ⟨msg, hmsg, hparse⟩ := parseFrom_inside hds h hnil fuel
    exact ⟨msg, List.mem_cons_of_mem _ hmsg, hparse⟩

/-- The bytes of an array stop in its element `e`: the whole elements are read, and the error is the
one made at `e`. -/
theorem parseFrom_of_cutElement {done todo : List (RespValue × Bytes)} {e : RespValue × Bytes}
    {ds v buf : Bytes} {p fuel : ℕ} (hds : PaddedNat (done ++ e :: todo).length ds)
    (hcount : (done ++ e :: todo).length ≤ vectorMaxSize)
    (hserved : (done ++ e :: todo).length ≤ grants)
    (hdone : ∀ x ∈ done, x.2 ≠ [] ∧ ReadsAs grants x.1 x.2)
    (hhere : buf.drop p = 42 :: (ds ++ (crlf ++ ((done.map Prod.snd).flatten ++ v))))
    (hroom : buf.length < 2 ^ 63) (hgrants : buf.length ≤ p + grants)
    (hfuel : buf.length < p + fuel) :
    ∃ k q, q = p + 1 + ds.length + 2 + (done.map Prod.snd).flatten.length ∧ buf.drop q = v ∧
      v.length < k ∧ ∀ err, parseFrom grants buf k q = .error err →
        parseFrom grants buf fuel p = .error err := by
  have hline := drop_succ_of_drop hhere
  have hrow : buf.drop (p + 1 + ds.length + 2) = (done.map Prod.snd).flatten ++ v :=
    drop_add_of_drop (x := crlf) (drop_add_of_drop hline)
  have hbuf := length_of_drop hhere (by simp)
  have hdoneLength := length_le_flatten fun x hx => (hdone x hx).1
  simp only [List.length_cons, List.length_append, crlf, List.length_nil] at hbuf
  obtain ⟨fuel, rfl⟩ : ∃ k, fuel = k + 1 := ⟨fuel - 1, by omega⟩
  obtain ⟨k, hk⟩ : ∃ k, fuel - done.length = k + 1 := ⟨fuel - done.length - 1, by omega⟩
  refine ⟨k, _, rfl, drop_add_of_drop hrow, by omega, fun err herr => ?_⟩
  have hsize : (done ++ e :: todo).length = done.length + (todo.length + 1) := by simp
  rw [parseFrom_of_star (getElem?_of_drop hhere), readArrayCount_of_drop hline hds
    (by unfold stringMaxSize; omega) (by omega) hcount hserved]
  simp only [Except.bind]
  rw [hsize, parseElems_append hdone hrow (by omega) (by omega) (by omega), hk, parseElems, herr]
  rfl

/-- In an array the element that is cut short is reported. -/
theorem cutShort_array {elems : List (RespValue × Bytes)} {ds : Bytes}
    (hds : PaddedNat elems.length ds) (hcount : elems.length ≤ vectorMaxSize)
    (helems : ∀ e ∈ elems, e.2 ≠ [] ∧ ReadsAs grants e.1 e.2)
    (hcuts : ∀ e ∈ elems, CutShort grants e.2) :
    CutShort grants (42 :: (ds ++ (crlf ++ (elems.map Prod.snd).flatten))) := by
  intro buf p u w fuel h hfuel
  obtain ⟨fuel, rfl⟩ : ∃ k, fuel = k + 1 := ⟨fuel - 1, by omega⟩
  rcases cut_head (by decide) (hds.not_mem rfl) h.here h.cut fuel with rfl | hparse | ⟨t, hu, ht⟩
  · exact incomplete_at_end h.here fuel
  · exact ⟨.incompleteLine, by decide, hparse⟩
  · rw [← List.flatMap_def] at ht
    obtain ⟨done, e, todo, v, v', rfl, rfl, hv, hv'⟩ := cut_flatMap Prod.snd ht h.short
    rw [List.flatMap_def] at hu
    have hhere := h.here
    rw [hu] at hhere hfuel
    -- the count is served when the bytes are
    have hrowLength := length_le_flatten fun x hx => (helems x hx).1
    have hroom := h.room
    have hserved := h.served
    have hcut := congrArg List.length hv
    have hbuf := length_of_drop hhere (by simp)
    simp only [List.length_cons, List.length_append, List.map_append, List.map_cons,
      List.flatten_append, List.flatten_cons, crlf, List.length_nil]
      at hcut hroom hserved hrowLength hfuel hbuf
    obtain ⟨k, q, rfl, hq, hk, herr⟩ := parseFrom_of_cutElement hds hcount (by simp; omega)
      (fun x hx => helems x (List.mem_append_left _ hx)) hhere (by omega) (by omega)
      (show buf.length < p + (fuel + 1) by omega)
    obtain ⟨msg, hmsg, hparse⟩ := hcuts e (by simp) buf _ v v' k
      ⟨hq, hv, hv', by omega, by omega⟩ hk
    exact ⟨msg, hmsg, herr _ hparse⟩

/-- By induction on the wire form. -/
theorem cutShort_of_wire {v : RespValue} {bs : Bytes} (h : Wire v bs)
    (hwide : v.widest ≤ vectorMaxSize) : CutShort grants bs := by
  induction h with
  | simpleString hlf _ => exact cutShort_of_line (by decide) hlf
  | error hlf _ => exact cutShort_of_line (by decide) hlf
  | @integer n ds hds _ =>
    apply cutShort_of_line (by decide)
    intro hmem
    rcases List.mem_append.mp hmem with hmem | hmem
    · exact lf_not_mem_signBytes n hmem
    · exact hds.not_mem rfl hmem
  | bulkString hds => exact cutShort_bulkString hds
  | nullBulk => exact cutShort_of_line (by decide) (by decide)
  | @array elems ds hds helems ih =>
    rw [RespValue.widest, List.length_map] at hwide
    have hwidest : ∀ e ∈ elems, e.1.widest ≤ vectorMaxSize := by
      intro e he
      exact (RespValue.widest_le_widestOf (List.mem_map_of_mem he)).trans
        ((le_max_right _ _).trans hwide)
    refine cutShort_array hds ((le_max_left _ _).trans hwide) ?_ fun e he => ih e he (hwidest e he)
    intro e he
    exact ⟨(helems e he).ne_nil, readsAs_of_wire (helems e he) (hwidest e he)⟩

/-! ### Encodings -/

/-- A beginning of an encoding that is not the whole is incomplete. -/
theorem parse_incomplete (grants : ℕ) (v : RespValue) (hstd : v.Standard)
    (hwide : v.widest ≤ vectorMaxSize) (hlen : v.enc.length < 2 ^ 62)
    (hgrants : v.enc.length ≤ grants) (u w : Bytes) (hcut : u ++ w = v.enc) (hw : w ≠ []) :
    Incomplete (parse grants u) := by
  apply cutShort_of_wire (RespValue.wire_enc hstd) hwide u 0 u w
  · exact ⟨List.drop_zero, hcut, hw, by omega, hgrants⟩
  · unfold fuelFor
    omega

/-- A cut in the payload of an element, behind bytes that look like a whole line. -/
theorem parse_incomplete_nested :
    let v : RespValue := .array [.integer (-7), .array [.bulkString (str "\r\n+x\r\n"), .error []]]
    let u := str "*2\r\n:-7\r\n*2\r\n$6\r\n\r\n+x\r"
    u ++ str "\n\r\n-\r\n" = v.enc ∧ Incomplete (parse 64 u) := by
  intro v u
  have hcut : u ++ str "\n\r\n-\r\n" = v.enc := by decide
  refine ⟨hcut, parse_incomplete 64 v ?_ (by decide) (by decide) (by decide) u _ hcut (by decide)⟩
  simp [v, RespValue.Standard, RespValue.StandardAll]

/-- The count line of an array of empty simple strings, cut off from its elements. -/
theorem cut_emptyLines (n : ℕ) : 42 :: (natBytes n ++ (crlf ++ [])) ++
    (List.replicate n (43 :: crlf)).flatten = (emptyLines n).enc := by
  rw [enc_emptyLines, List.append_nil, List.cons_append, List.append_assoc]

theorem flatten_replicate_ne_nil {n : ℕ} (hn : 0 < n) :
    (List.replicate n (43 :: crlf)).flatten ≠ [] := by
  obtain ⟨k, rfl⟩ : ∃ k, n = k + 1 := ⟨n - 1, by omega⟩
  rw [List.replicate_succ, List.flatten_cons]
  exact List.cons_ne_nil _ _

/-- The count line of `2 ^ 59` elements alone is refused by `reserve`, not as incomplete. -/
theorem parse_incomplete_huge :
    parse (2 ^ 62) (42 :: (natBytes (2 ^ 59) ++ (crlf ++ []))) = .error .lengthError ∧
      ¬ ∀ (grants : ℕ) (v : RespValue), v.Standard → v.enc.length < 2 ^ 62 →
        v.enc.length ≤ grants → ∀ u w, u ++ w = v.enc → w ≠ [] → Incomplete (parse grants u) := by
  have hnumeral : (natBytes (2 ^ 59)).length = 18 := by decide +kernel
  have hthrows : parse (2 ^ 62) (42 :: (natBytes (2 ^ 59) ++ (crlf ++ []))) = .error .lengthError :=
    parse_of_hugeCount (by decide) (by norm_num) (by omega) (by norm_num) []
  refine ⟨hthrows, fun h => ?_⟩
  have hlen : (emptyLines (2 ^ 59)).enc.length < 2 ^ 62 := by
    rw [length_enc_emptyLines, hnumeral]
    norm_num
  obtain ⟨msg, -, hmsg⟩ := h (2 ^ 62) _ (standard_emptyLines (2 ^ 59)) hlen hlen.le _ _
    (cut_emptyLines (2 ^ 59)) (flatten_replicate_ne_nil (by norm_num))
  rw [hthrows] at hmsg
  cases hmsg

end RespParser

end MinimalRedis
