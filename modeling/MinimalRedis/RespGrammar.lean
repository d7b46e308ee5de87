import MinimalRedis.RespSafety

/-!
# The wire form of a value

`Wire v bs` is the RESP grammar, written without the parser: `bs` is an encoding of `v`, standard up
to leading zeros in its numerals (and with the null bulk string beside the empty one).  The parser
is followed from a position `p` through what stands there (`buf.drop p`):

* `parseFrom_of_wire` — a wire form is read from any position, **whatever follows it**, and the
  position ends up directly behind it; by induction on the derivation, since an element of an array
  starts where the one before it ended;
* `parse_enc` — so parsing undoes the standard encoding `enc`, for values whose arrays a
  `std::vector` can hold;
* `parse_enc_huge` — an array of `2 ^ 59` elements is refused by `reserve` although its bytes are
  fewer than `2 ^ 62`.
-/

namespace MinimalRedis

open Lib

/-! ### The grammar -/

/-- `bs` is an encoding of `v`, up to leading zeros. -/
inductive Wire : RespValue → Bytes → Prop where
  | simpleString {s : Bytes} : 10 ∉ s → s.getLast? ≠ some 13 →
      Wire (.simpleString s) (43 :: (s ++ crlf))
  | error {s : Bytes} : 10 ∉ s → s.getLast? ≠ some 13 → Wire (.error s) (45 :: (s ++ crlf))
  | integer {n : ℤ} {ds : Bytes} : PaddedNat n.natAbs ds → -(2 ^ 63) ≤ n ∧ n < 2 ^ 63 →
      Wire (.integer n) (58 :: (signBytes n ++ ds ++ crlf))
  | bulkString {s ds : Bytes} : PaddedNat s.length ds →
      Wire (.bulkString s) (36 :: (ds ++ (crlf ++ (s ++ crlf))))
  | nullBulk : Wire (.bulkString []) (36 :: (str "-1" ++ crlf))
  | array {elems : List (RespValue × Bytes)} {ds : Bytes} : PaddedNat elems.length ds →
      (∀ e ∈ elems, Wire e.1 e.2) →
      Wire (.array (elems.map Prod.fst)) (42 :: (ds ++ (crlf ++ (elems.map Prod.snd).flatten)))

theorem Wire.ne_nil {v : RespValue} {bs : Bytes} (h : Wire v bs) : bs ≠ [] := by
  cases h <;> simp

mutual

/-- The number of elements of the largest array in a value. -/
def RespValue.widest : RespValue → ℕ
  | .array elems => max elems.length (widestOf elems)
  | _ => 0

def RespValue.widestOf : List RespValue → ℕ
  | [] => 0
  | v :: vs => max v.widest (widestOf vs)

end

theorem RespValue.widest_le_widestOf {v : RespValue} {vs : List RespValue} (h : v ∈ vs) :
    v.widest ≤ widestOf vs := by
  induction vs with
  | nil => cases h
  | cons w vs ih =>
    rw [widestOf]
    rcases List.mem_cons.mp h with rfl | h
    · exact le_max_left _ _
    · exact (ih h).trans (le_max_right _ _)

namespace RespParser

/-! ### Positions -/

section Positions

variable {grants : ℕ} {buf : Bytes} {p : ℕ}

theorem drop_add_of_drop {x y : Bytes} (h : buf.drop p = x ++ y) :
    buf.drop (p + x.length) = y := by
  rw [← List.drop_drop, h, List.drop_left]

theorem length_of_drop {x : Bytes} (h : buf.drop p = x) (hne : x ≠ []) :
    buf.length = p + x.length := by
  have hlen : (buf.drop p).length = x.length := by rw [h]
  have hpos := List.length_pos_iff.mpr hne
  rw [List.length_drop] at hlen
  omega

theorem getElem?_of_drop {b : UInt8} {x : Bytes} (h : buf.drop p = b :: x) : buf[p]? = some b := by
  have := congrArg (·[0]?) h
  simpa using this

theorem drop_succ_of_drop {b : UInt8} {x : Bytes} (h : buf.drop p = b :: x) : buf.drop (p + 1) = x :=
  drop_add_of_drop (x := [b]) h

theorem findLF_of_drop {line rest : Bytes} (h : buf.drop p = line ++ 10 :: rest)
    (hline : (10 : UInt8) ∉ line) : findLF buf p = some (p + line.length) := by
  unfold findLF
  have hfind : (line ++ 10 :: rest).findIdx? (· = 10) = some line.length := by
    rw [List.findIdx?_append, List.findIdx?_eq_none_iff.mpr]
    · simp [List.findIdx?_cons]
    · intro b hb
      simpa using fun heq : b = 10 => hline (heq ▸ hb)
  rw [h, hfind]
  rfl

/-- A request that both the container and the allocator serve. -/
theorem allocate_of_le {maxSize n : ℕ} (hmax : n ≤ maxSize) (hgrants : n ≤ grants) :
    allocate maxSize grants n = .ok () := by
  rw [allocate, if_neg (by omega), if_neg (by omega)]

theorem readLine_of_drop {line rest : Bytes} (h : buf.drop p = line ++ (crlf ++ rest))
    (hline : (10 : UInt8) ∉ line) (hmax : line.length ≤ stringMaxSize)
    (hgrants : line.length ≤ grants) :
    readLine grants buf p = .ok (line, p + line.length + 2) := by
  have hlf : findLF buf p = some (p + (line ++ [13]).length) := by
    have hsplit : buf.drop p = (line ++ [13]) ++ 10 :: rest := by simp [h, crlf]
    exact findLF_of_drop hsplit (by simpa using hline)
  simp only [List.length_append, List.length_cons, List.length_nil] at hlf
  have hlineLen : (p + (line.length + (0 + 1)) + 2 ^ 64 - p - 1) % 2 ^ 64 = line.length := by
    unfold stringMaxSize at hmax
    omega
  simp only [readLine, hlf, hlineLen, makeString, allocate_of_le hmax hgrants]
  rw [h, List.take_left]
  rfl

/-- A payload and the two bytes behind it. -/
theorem readBulkString_of_drop {s rest : Bytes} (h : buf.drop p = s ++ (crlf ++ rest))
    (hp : p + s.length + 2 < 2 ^ 64) (hmax : s.length ≤ stringMaxSize)
    (hgrants : s.length ≤ grants) :
    readBulkString grants buf p s.length = .ok (s, p + s.length + 2) := by
  have hbuf := length_of_drop h (by simp [crlf])
  simp only [List.length_append, crlf, List.length_cons, List.length_nil] at hbuf
  rw [readBulkString, Nat.mod_eq_of_lt hp, if_neg (by omega), makeString,
    allocate_of_le hmax hgrants, h, List.take_left]
  rfl

theorem readLine_of_no_lf (h : (10 : UInt8) ∉ buf.drop p) :
    readLine grants buf p = .error (.runtimeError .incompleteLine) := by
  have hnone : findLF buf p = none := by
    unfold findLF
    rw [List.findIdx?_eq_none_iff.mpr]
    · rfl
    · intro b hb
      simpa using fun heq : b = 10 => h (heq ▸ hb)
  rw [readLine, hnone]

/-- Bytes cut off somewhere in a line and what follows it: the LF is missing, or the line is whole. -/
theorem cut_line {u w line rest : Bytes} (h : u ++ w = line ++ (crlf ++ rest))
    (hline : (10 : UInt8) ∉ line) :
    (10 : UInt8) ∉ u ∨ ∃ t, u = line ++ (crlf ++ t) ∧ t ++ w = rest := by
  rw [← List.append_assoc] at h
  rcases List.append_eq_append_iff.mp h with ⟨a, ha, hw⟩ | ⟨t, hu, ht⟩
  · rcases List.eq_nil_or_concat a with rfl | ⟨a', b, rfl⟩
    · exact .inr ⟨[], by simpa using ha.symm, by simpa using hw⟩
    · -- the LF is the last byte of the line, so it is not in `u`
      left
      have hsplit : (line ++ [13]) ++ [10] = (u ++ a') ++ [b] := by
        simpa [crlf] using ha
      obtain ⟨hpre, -⟩ := List.append_inj' hsplit rfl
      intro hmem
      have : (10 : UInt8) ∈ line ++ [13] := by
        rw [hpre]
        exact List.mem_append_left a' hmem
      simp [hline] at this
  · exact .inr ⟨t, by rw [hu, List.append_assoc], ht.symm⟩

theorem parseFrom_of_plus (h : buf[p]? = some 43) (fuel : ℕ) :
    parseFrom grants buf (fuel + 1) p = parseSimpleString grants buf (p + 1) := by
  simp [parseFrom, h]

theorem parseFrom_of_minus (h : buf[p]? = some 45) (fuel : ℕ) :
    parseFrom grants buf (fuel + 1) p = parseError grants buf (p + 1) := by
  simp [parseFrom, h]

theorem parseFrom_of_colon (h : buf[p]? = some 58) (fuel : ℕ) :
    parseFrom grants buf (fuel + 1) p = parseInteger grants buf (p + 1) := by
  simp [parseFrom, h]

theorem parseFrom_of_dollar (h : buf[p]? = some 36) (fuel : ℕ) :
    parseFrom grants buf (fuel + 1) p = parseBulkString grants buf (p + 1) := by
  simp [parseFrom, h]

theorem parseFrom_of_star (h : buf[p]? = some 42) (fuel : ℕ) :
    parseFrom grants buf (fuel + 1) p =
      (readArrayCount grants buf (p + 1)).bind fun x =>
        (parseElems grants buf fuel x.1 x.2).map fun y => (.array y.1, y.2) := by
  simp [parseFrom, h]

/-- A count line whose vector can be reserved. -/
theorem readArrayCount_of_drop {n : ℕ} {ds rest : Bytes} (h : buf.drop p = ds ++ (crlf ++ rest))
    (hds : PaddedNat n ds) (hmax : ds.length ≤ stringMaxSize) (hgrants : ds.length ≤ grants)
    (hn : n ≤ vectorMaxSize) (hserved : n ≤ grants) :
    readArrayCount grants buf p = .ok (n, p + ds.length + 2) := by
  have hn64 : n < 2 ^ 64 := by
    unfold vectorMaxSize at hn
    omega
  rw [readArrayCount, readLine_of_drop h (hds.not_mem rfl) hmax hgrants]
  simp only [Except.bind, hds.stoul_eq hn64, allocate_of_le hn hserved]
  rfl

end Positions

/-! ### Completeness -/

theorem popCR_eq_self {s : Bytes} (h : s.getLast? ≠ some 13) : popCR s = s := if_neg h

/-- From every position the wire form is read as `v`, and the position moves behind it. -/
def ReadsAs (grants : ℕ) (v : RespValue) (bs : Bytes) : Prop :=
  ∀ (buf : Bytes) (p : ℕ) (rest : Bytes) (fuel : ℕ), buf.drop p = bs ++ rest →
    p + bs.length < 2 ^ 63 → bs.length ≤ grants → bs.length ≤ fuel →
    parseFrom grants buf fuel p = .ok (v, p + bs.length)

/-- A row of wire forms is read element by element, and the loop goes on behind it. -/
theorem parseElems_append {grants : ℕ} {elems : List (RespValue × Bytes)}
    (helems : ∀ e ∈ elems, e.2 ≠ [] ∧ ReadsAs grants e.1 e.2) {buf : Bytes} {p : ℕ} {rest : Bytes}
    {fuel : ℕ} (h : buf.drop p = (elems.map Prod.snd).flatten ++ rest)
    (hp : p + (elems.map Prod.snd).flatten.length < 2 ^ 63)
    (hgrants : (elems.map Prod.snd).flatten.length ≤ grants)
    (hfuel : (elems.map Prod.snd).flatten.length + 1 ≤ fuel) (m : ℕ) :
    parseElems grants buf fuel (elems.length + m) p =
      (parseElems grants buf (fuel - elems.length) m
        (p + (elems.map Prod.snd).flatten.length)).map fun y => (elems.map Prod.fst ++ y.1, y.2) := by
  induction elems generalizing p fuel with
  | nil =>
    simp only [List.length_nil, Nat.zero_add, Nat.sub_zero, List.map_nil, List.flatten_nil,
      Nat.add_zero, List.nil_append]
    cases parseElems grants buf fuel m p <;> rfl
  | cons e elems ih =>
    obtain ⟨hne, hread⟩ := helems e List.mem_cons_self
    have hpos := List.length_pos_iff.mpr hne
    simp only [List.map_cons, List.flatten_cons, List.append_assoc] at h
    simp only [List.map_cons, List.flatten_cons, List.length_append] at hp hgrants hfuel ⊢
    obtain ⟨fuel, rfl⟩ : ∃ k, fuel = k + 1 := ⟨fuel - 1, by omega⟩
    have hhead := hread buf p _ fuel h (by omega) (by omega) (by omega)
    have htail := ih (fun e he => helems e (List.mem_cons_of_mem _ he)) (drop_add_of_drop h)
      (by omega) (by omega) (show _ ≤ fuel by omega)
    rw [List.length_cons, show elems.length + 1 + m = elems.length + m + 1 by omega, parseElems, hhead]
    simp only [Except.bind, htail]
    rw [Nat.add_assoc, Nat.add_sub_add_right]
    cases parseElems grants buf (fuel - elems.length) m _ <;> rfl

/-- Every element takes a byte. -/
theorem length_le_flatten {elems : List (RespValue × Bytes)} (h : ∀ e ∈ elems, e.2 ≠ []) :
    elems.length ≤ (elems.map Prod.snd).flatten.length := by
  rw [List.length_flatten, List.map_map, ← List.length_map (f := List.length ∘ Prod.snd)]
  apply List.length_le_sum_of_one_le
  intro n hn
  obtain ⟨e, he, rfl⟩ := List.mem_map.mp hn
  exact List.length_pos_iff.mpr (h e he)

theorem parseElems_of_row {grants : ℕ} {elems : List (RespValue × Bytes)}
    (helems : ∀ e ∈ elems, e.2 ≠ [] ∧ ReadsAs grants e.1 e.2) {buf : Bytes} {p : ℕ} {rest : Bytes}
    {fuel : ℕ} (h : buf.drop p = (elems.map Prod.snd).flatten ++ rest)
    (hp : p + (elems.map Prod.snd).flatten.length < 2 ^ 63)
    (hgrants : (elems.map Prod.snd).flatten.length ≤ grants)
    (hfuel : (elems.map Prod.snd).flatten.length + 1 ≤ fuel) :
    parseElems grants buf fuel elems.length p =
      .ok (elems.map Prod.fst, p + (elems.map Prod.snd).flatten.length) := by
  have hrow := parseElems_append helems h hp hgrants hfuel 0
  have hcount := length_le_flatten fun e he => (helems e he).1
  obtain ⟨k, hk⟩ : ∃ k, fuel - elems.length = k + 1 := ⟨fuel - elems.length - 1, by omega⟩
  rw [hk, Nat.add_zero, parseElems] at hrow
  rw [hrow]
  simp [Except.map]

/-- A line behind the type character: `parseFrom` is what the type makes of it. -/
theorem readsAs_of_line {grants : ℕ} {v : RespValue} {c : UInt8} {line : Bytes}
    (hlf : (10 : UInt8) ∉ line) (hparse : ∀ (buf : Bytes) (p fuel : ℕ), buf[p]? = some c →
      readLine grants buf (p + 1) = .ok (line, p + 1 + line.length + 2) →
      parseFrom grants buf (fuel + 1) p = .ok (v, p + 1 + line.length + 2)) :
    ReadsAs grants v (c :: (line ++ crlf)) := by
  intro buf p rest fuel h hp hgrants hfuel
  rw [List.cons_append, List.append_assoc] at h
  simp only [List.length_cons, List.length_append, crlf, List.length_nil] at hp hgrants hfuel ⊢
  obtain ⟨fuel, rfl⟩ : ∃ k, fuel = k + 1 := ⟨fuel - 1, by omega⟩
  have hline : readLine grants buf (p + 1) = .ok (line, p + 1 + line.length + 2) :=
    readLine_of_drop (drop_succ_of_drop h) hlf (by unfold stringMaxSize; omega) (by omega)
  rw [hparse buf p fuel (getElem?_of_drop h) hline]
  congr 2
  omega

theorem readsAs_bulkString {grants : ℕ} {s ds : Bytes} (hds : PaddedNat s.length ds) :
    ReadsAs grants (.bulkString s) (36 :: (ds ++ (crlf ++ (s ++ crlf)))) := by
  intro buf p rest fuel h hp hgrants hfuel
  have hhead : buf.drop p = 36 :: (ds ++ (crlf ++ (s ++ (crlf ++ rest)))) := by
    rw [h]
    simp
  have hline := drop_succ_of_drop hhead
  have hpayload : buf.drop (p + 1 + ds.length + 2) = s ++ (crlf ++ rest) :=
    drop_add_of_drop (x := crlf) (drop_add_of_drop hline)
  simp only [List.length_cons, List.length_append, crlf, List.length_nil] at hp hgrants hfuel ⊢
  obtain ⟨fuel, rfl⟩ : ∃ k, fuel = k + 1 := ⟨fuel - 1, by omega⟩
  have hmax : ∀ n ≤ 2 ^ 63 - 1, n ≤ stringMaxSize := fun n hn => hn
  rw [parseFrom_of_dollar (getElem?_of_drop hhead), parseBulkString,
    readLine_of_drop hline (hds.not_mem rfl) (hmax _ (by omega)) (by omega)]
  simp only [Except.bind, if_neg hds.ne_minus_one, hds.stoul_eq (show s.length < 2 ^ 64 by omega)]
  rw [readBulkString_of_drop hpayload (by omega) (hmax _ (by omega)) (by omega)]
  simp only [Except.map]
  congr 2
  omega

theorem readsAs_array {grants : ℕ} {elems : List (RespValue × Bytes)} {ds : Bytes}
    (hds : PaddedNat elems.length ds) (hcount : elems.length ≤ vectorMaxSize)
    (helems : ∀ e ∈ elems, e.2 ≠ [] ∧ ReadsAs grants e.1 e.2) :
    ReadsAs grants (.array (elems.map Prod.fst))
      (42 :: (ds ++ (crlf ++ (elems.map Prod.snd).flatten))) := by
  intro buf p rest fuel h hp hgrants hfuel
  have hhead : buf.drop p = 42 :: (ds ++ (crlf ++ ((elems.map Prod.snd).flatten ++ rest))) := by
    rw [h]
    simp
  have hline := drop_succ_of_drop hhead
  have hrow : buf.drop (p + 1 + ds.length + 2) = (elems.map Prod.snd).flatten ++ rest :=
    drop_add_of_drop (x := crlf) (drop_add_of_drop hline)
  -- the count is served when the bytes are
  have hserved := length_le_flatten fun e he => (helems e he).1
  simp only [List.length_cons, List.length_append, crlf, List.length_nil] at hp hgrants hfuel ⊢
  obtain ⟨fuel, rfl⟩ : ∃ k, fuel = k + 1 := ⟨fuel - 1, by omega⟩
  rw [parseFrom_of_star (getElem?_of_drop hhead),
    readArrayCount_of_drop hline hds (by unfold stringMaxSize; omega) (by omega) hcount (by omega)]
  simp only [Except.bind]
  rw [parseElems_of_row helems hrow (by omega) (by omega) (by omega)]
  simp only [Except.map]
  congr 2
  omega

/-- By induction on the derivation of the wire form. -/
theorem readsAs_of_wire {grants : ℕ} {v : RespValue} {bs : Bytes} (h : Wire v bs)
    (hwide : v.widest ≤ vectorMaxSize) : ReadsAs grants v bs := by
  induction h with
  | simpleString hlf hcr =>
    apply readsAs_of_line hlf
    intro buf p fuel hchar hline
    rw [parseFrom_of_plus hchar, parseSimpleString, hline]
    simp only [Except.map, popCR_eq_self hcr]
  | error hlf hcr =>
    apply readsAs_of_line hlf
    intro buf p fuel hchar hline
    rw [parseFrom_of_minus hchar, parseError, hline]
    simp only [Except.map, popCR_eq_self hcr]
  | @integer n ds hds hrange =>
    apply readsAs_of_line
    · intro hmem
      rcases List.mem_append.mp hmem with hmem | hmem
      · exact lf_not_mem_signBytes n hmem
      · exact hds.not_mem rfl hmem
    · intro buf p fuel hchar hline
      rw [parseFrom_of_colon hchar, parseInteger, hline]
      simp only [Except.bind, hds.stoll_eq hrange]
  | bulkString hds => exact readsAs_bulkString hds
  | nullBulk =>
    apply readsAs_of_line (by decide)
    intro buf p fuel hchar hline
    rw [parseFrom_of_dollar hchar, parseBulkString, hline]
    rfl
  | @array elems ds hds helems ih =>
    rw [RespValue.widest, List.length_map] at hwide
    apply readsAs_array hds ((le_max_left _ _).trans hwide)
    intro e he
    refine ⟨(helems e he).ne_nil, ih e he ?_⟩
    exact (RespValue.widest_le_widestOf (List.mem_map_of_mem he)).trans
      ((le_max_right _ _).trans hwide)

/-- A wire form at the front of the buffer is read whole, whatever follows. -/
theorem parse_of_wire {grants : ℕ} {v : RespValue} {bs : Bytes} (h : Wire v bs)
    (hwide : v.widest ≤ vectorMaxSize) (hlen : bs.length < 2 ^ 63) (hgrants : bs.length ≤ grants)
    (rest : Bytes) : parse grants (bs ++ rest) = .ok (v, bs.length) := by
  have hread : ReadsAs grants v bs := readsAs_of_wire h hwide
  have hfront := hread (bs ++ rest) 0 rest (fuelFor (bs ++ rest)) rfl (by omega) hgrants
    (by rw [fuelFor, List.length_append]; omega)
  rwa [Nat.zero_add] at hfront

end RespParser

/-! ### The standard encoding -/

namespace RespValue

mutual

def enc : RespValue → Bytes
  | .simpleString s => 43 :: (s ++ crlf)
  | .error s => 45 :: (s ++ crlf)
  | .integer n => 58 :: (intBytes n ++ crlf)
  | .bulkString s => 36 :: (natBytes s.length ++ (crlf ++ (s ++ crlf)))
  | .array elems => 42 :: (natBytes elems.length ++ (crlf ++ encAll elems))

def encAll : List RespValue → Bytes
  | [] => []
  | v :: vs => v.enc ++ encAll vs

end

mutual

/-- Lines without CR and LF, integers of 64 bits. -/
def Standard : RespValue → Prop
  | .simpleString s => (13 : UInt8) ∉ s ∧ (10 : UInt8) ∉ s
  | .error s => (13 : UInt8) ∉ s ∧ (10 : UInt8) ∉ s
  | .integer n => -(2 ^ 63) ≤ n ∧ n < 2 ^ 63
  | .bulkString _ => True
  | .array elems => StandardAll elems

def StandardAll : List RespValue → Prop
  | [] => True
  | v :: vs => v.Standard ∧ StandardAll vs

end

theorem encAll_eq (vs : List RespValue) : encAll vs = (vs.map enc).flatten := by
  induction vs with
  | nil => rfl
  | cons v vs ih => rw [encAll, ih, List.map_cons, List.flatten_cons]

mutual

theorem wire_enc : ∀ {v : RespValue}, v.Standard → Wire v v.enc
  | .simpleString s, h => .simpleString h.2 fun hlast => h.1 (List.mem_of_getLast? hlast)
  | .error s, h => .error h.2 fun hlast => h.1 (List.mem_of_getLast? hlast)
  | .integer n, h => by
    rw [enc, intBytes_eq]
    exact .integer (paddedNat_natBytes _) h
  | .bulkString s, _ => .bulkString (paddedNat_natBytes _)
  | .array elems, h => by
    have helems := wire_encAll h
    have hwire := @Wire.array (elems.map fun v => (v, v.enc)) (natBytes elems.length)
      (by rw [List.length_map]; exact paddedNat_natBytes _) (by simpa using helems)
    simpa [enc, encAll_eq, Function.comp_def] using hwire

theorem wire_encAll : ∀ {vs : List RespValue}, StandardAll vs → ∀ v ∈ vs, Wire v v.enc
  | [], _ => by simp
  | _ :: _, h => List.forall_mem_cons.mpr ⟨wire_enc h.1, wire_encAll h.2⟩

end

end RespValue

namespace RespParser

/-- Parsing undoes encoding, with any bytes behind the encoding. -/
theorem parse_enc (grants : ℕ) (v : RespValue) (hstd : v.Standard)
    (hwide : v.widest ≤ vectorMaxSize) (hlen : v.enc.length < 2 ^ 62)
    (hgrants : v.enc.length ≤ grants) (r : Bytes) :
    parse grants (v.enc ++ r) = .ok (v, v.enc.length) :=
  parse_of_wire (RespValue.wire_enc hstd) hwide (by omega) hgrants r

/-- A nested array whose payload looks like the head of another one, with a bare type character
behind it. -/
theorem parse_enc_nested :
    let v : RespValue := .array [.integer (-7), .array [.bulkString (str "\r\n*3\r\n"), .error []]]
    v.Standard ∧ v.widest ≤ vectorMaxSize ∧
      parse 64 (v.enc ++ [36]) = .ok (v, v.enc.length) := by
  intro v
  have hstd : v.Standard := by simp [v, RespValue.Standard, RespValue.StandardAll]
  have hwide : v.widest ≤ vectorMaxSize := by decide
  exact ⟨hstd, hwide, parse_enc 64 v hstd hwide (by decide) (by decide) [36]⟩

/-- An array of `n` empty simple strings. -/
def emptyLines (n : ℕ) : RespValue := .array (List.replicate n (.simpleString []))

theorem enc_emptyLines (n : ℕ) : (emptyLines n).enc =
    42 :: (natBytes n ++ (crlf ++ (List.replicate n (43 :: crlf)).flatten)) := by
  rw [emptyLines, RespValue.enc, List.length_replicate, RespValue.encAll_eq, List.map_replicate]
  rfl

theorem length_enc_emptyLines (n : ℕ) :
    (emptyLines n).enc.length = (natBytes n).length + 3 * n + 3 := by
  rw [enc_emptyLines, List.length_cons, List.length_append, List.length_append, List.length_flatten,
    List.map_replicate, List.sum_replicate_nat]
  simp only [crlf, List.length_cons, List.length_nil]
  omega

theorem standard_emptyLines (n : ℕ) : (emptyLines n).Standard := by
  show RespValue.StandardAll (List.replicate n (.simpleString []))
  induction n with
  | zero => exact trivial
  | succ n ih => exact ⟨by simp [RespValue.Standard], ih⟩

/-- A count of more elements than a `std::vector` holds: `reserve` throws, whatever follows. -/
theorem parse_of_hugeCount {grants n : ℕ} (hn : vectorMaxSize < n) (hn64 : n < 2 ^ 64)
    (hnumeral : (natBytes n).length ≤ 20) (hgrants : 20 ≤ grants) (rest : Bytes) :
    parse grants (42 :: (natBytes n ++ (crlf ++ rest))) = .error .lengthError := by
  have hline : readLine grants (42 :: (natBytes n ++ (crlf ++ rest))) (0 + 1) =
      .ok (natBytes n, 0 + 1 + (natBytes n).length + 2) :=
    readLine_of_drop rfl ((paddedNat_natBytes n).not_mem rfl) (hnumeral.trans (by decide))
      (hnumeral.trans hgrants)
  rw [parse, fuelFor, parseFrom_of_star rfl, readArrayCount, hline]
  simp only [Except.bind, stoul_natBytes hn64]
  rw [allocate, if_pos hn]
  rfl

/-- `2 ^ 59` elements take fewer than `2 ^ 62` bytes, and are one more than a `std::vector` of
shared pointers can hold. -/
theorem parse_enc_huge :
    (emptyLines (2 ^ 59)).enc.length < 2 ^ 62 ∧
      ¬ ∀ (grants : ℕ) (v : RespValue), v.Standard → v.enc.length < 2 ^ 62 →
        v.enc.length ≤ grants → ∀ r, parse grants (v.enc ++ r) = .ok (v, v.enc.length) := by
  have hnumeral : (natBytes (2 ^ 59)).length = 18 := by decide +kernel
  have hlen : (emptyLines (2 ^ 59)).enc.length < 2 ^ 62 := by
    rw [length_enc_emptyLines, hnumeral]
    norm_num
  refine ⟨hlen, fun h => ?_⟩
  have hok := h (2 ^ 62) _ (standard_emptyLines (2 ^ 59)) hlen hlen.le []
  rw [List.append_nil, enc_emptyLines,
    parse_of_hugeCount (by decide) (by norm_num) (by omega) (by norm_num)] at hok
  cases hok

end RespParser

end MinimalRedis
