import MinimalRedis.Rdb

/-!
# The text format (`save_to_file`, `load_from_file`)

`save_to_file` writes one line `string:key=value` for each string and escapes nothing; `load_from_file`
splits at the line ends, then at the first colon and the first equals sign, and leaves out a line whose
value is empty.

* `text_round_trip_iff` — a new server that loads what was saved has exactly the strings, without
  deadlines, **if and only if** no key has a line feed or an equals sign, no value a line feed, and no
  value is empty.
-/

namespace MinimalRedis

open Lib

variable {S : Type} [Score S]

/-! ### Lines -/

theorem not_mem_of_mem_splitOn {α : Type} [BEq α] [LawfulBEq α] {a : α} {xs line : List α}
    (h : line ∈ xs.splitOn a) : a ∉ line := by
  induction xs generalizing line with
  | nil =>
    rw [List.splitOn_nil, List.mem_singleton] at h
    rw [h]
    exact List.not_mem_nil
  | cons x xs ih =>
    rw [List.splitOn_cons_eq_if_modifyHead] at h
    split at h
    · rcases List.mem_cons.mp h with rfl | h
      · exact List.not_mem_nil
      · exact ih h
    · rename_i hx
      obtain ⟨first, rest, hsplit⟩ := List.exists_cons_of_ne_nil (List.splitOn_ne_nil a xs)
      rw [hsplit, List.modifyHead_cons] at h
      rcases List.mem_cons.mp h with rfl | h
      · have hfirst : a ∉ first := ih (by rw [hsplit]; exact List.mem_cons_self)
        rw [List.mem_cons, not_or]
        exact ⟨fun heq => hx (beq_iff_eq.mpr heq.symm), hfirst⟩
      · exact ih (by rw [hsplit]; exact List.mem_cons_of_mem _ h)

theorem splitFirst_append {sep : UInt8} {xs : Bytes} (h : sep ∉ xs) (ys : Bytes) :
    splitFirst sep (xs ++ sep :: ys) = some (xs, ys) := by
  have hall : ∀ x ∈ xs, decide (x ≠ sep) = true := by
    intro x hx
    exact decide_eq_true fun heq => h (heq ▸ hx)
  rw [splitFirst, if_pos (List.mem_append_right _ List.mem_cons_self),
    List.takeWhile_append_of_pos hall, List.dropWhile_append_of_pos hall]
  simp

theorem splitFirst_eq_some {sep : UInt8} {line xs ys : Bytes} (h : splitFirst sep line = some (xs, ys)) :
    sep ∉ xs ∧ ∀ b, b ∉ line → b ∉ xs ∧ b ∉ ys := by
  rw [splitFirst] at h
  split at h
  · cases h
    refine ⟨fun hmem => ?_, fun b hb => ⟨fun hmem => hb ?_, fun hmem => hb ?_⟩⟩
    · simpa using List.mem_takeWhile_imp hmem
    · exact (List.takeWhile_prefix _).subset hmem
    · exact (List.dropWhile_suffix _).subset (List.mem_of_mem_tail hmem)
  · cases h

/-! ### One line -/

/-- A string that the format can carry. -/
structure TextSafe (key value : Bytes) : Prop where
  key_line : 10 ∉ key
  key_sign : 61 ∉ key
  value_line : 10 ∉ value
  value_ne : value ≠ []

def textLine (p : Bytes × Bytes) : Bytes := str "string:" ++ p.1 ++ str "=" ++ p.2

theorem loadLine_textLine {p : Bytes × Bytes} (h : TextSafe p.1 p.2) :
    loadLine (S := S) (textLine p) = [.set p.1 p.2] := by
  have hline : textLine p = str "string" ++ 58 :: (p.1 ++ 61 :: p.2) := by
    rw [textLine, List.append_assoc, List.append_assoc]
    rfl
  rw [loadLine, hline, splitFirst_append (by decide)]
  simp only [splitFirst_append h.key_sign]
  exact if_pos ⟨h.value_ne, trivial⟩

theorem loadLine_safe {line : Bytes} {c : Call S} (hline : 10 ∉ line) (hc : c ∈ loadLine line) :
    ∃ key value, c = .set key value ∧ TextSafe key value := by
  rw [loadLine] at hc
  split at hc
  · cases hc
  · rename_i typeStr rest hfirst
    have hrest := ((splitFirst_eq_some hfirst).2 10 hline).2
    split at hc
    · cases hc
    · rename_i key value hsecond
      obtain ⟨hsign, hparts⟩ := splitFirst_eq_some hsecond
      obtain ⟨hkey, hvalue⟩ := hparts 10 hrest
      split at hc
      · rename_i hguard
        exact ⟨key, value, List.mem_singleton.mp hc, hkey, hsign, hvalue, hguard.1⟩
      · cases hc

/-! ### A file -/

theorem loadTextCalls_line (line rest : Bytes) :
    loadTextCalls (S := S) (line ++ 10 :: rest) = loadTextCalls line ++ loadTextCalls rest := by
  rw [loadTextCalls, List.splitOn_append_cons_self, List.flatMap_append]
  rfl

theorem loadTextCalls_of_not_mem {line : Bytes} (h : 10 ∉ line) :
    loadTextCalls (S := S) line = loadLine line := by
  rw [loadTextCalls, List.splitOn_eq_singleton h, List.flatMap_singleton]

theorem loadTextCalls_safe {file : Bytes} {c : Call S} (hc : c ∈ loadTextCalls file) :
    ∃ key value, c = .set key value ∧ TextSafe key value := by
  obtain ⟨line, hline, hc⟩ := List.mem_flatMap.mp hc
  exact loadLine_safe (not_mem_of_mem_splitOn hline) hc

theorem TextSafe.not_mem_textLine {p : Bytes × Bytes} (h : TextSafe p.1 p.2) : 10 ∉ textLine p := by
  rw [textLine, List.mem_append, List.mem_append, List.mem_append, not_or, not_or, not_or]
  exact ⟨⟨⟨by decide, h.key_line⟩, by decide⟩, h.value_line⟩

/-- What is read of carried lines. -/
theorem loadTextCalls_lines {ps : List (Bytes × Bytes)} (h : ∀ p ∈ ps, TextSafe p.1 p.2) :
    loadTextCalls (S := S) (ps.flatMap fun p => textLine p ++ [10]) = ps.map fun p => .set p.1 p.2 := by
  induction ps with
  | nil => rfl
  | cons p ps ih =>
    obtain ⟨hp, hps⟩ := List.forall_mem_cons.mp h
    rw [List.flatMap_cons, List.append_assoc, List.singleton_append, loadTextCalls_line,
      loadTextCalls_of_not_mem hp.not_mem_textLine, loadLine_textLine hp, ih hps, List.map_cons,
      List.singleton_append]

/-! ### What is saved -/

/-- The strings of a store, in the order of the entries. -/
def textPairs (d : Data S) : List (Bytes × Bytes) :=
  d.entries.filterMap fun e => if e.2.type = .string then some (e.1, e.2.strVal) else none

theorem saveToFile_eq (d : Data S) :
    saveToFile d = (textPairs d).flatMap fun p => textLine p ++ [10] := by
  rw [saveToFile, textPairs]
  induction d.entries with
  | nil => rfl
  | cons e es ih =>
    rw [List.flatMap_cons, List.filterMap_cons, ih]
    by_cases htype : e.2.type = .string
    · rw [if_pos htype, if_pos htype]
      rfl
    · rw [if_neg htype, if_neg htype]
      rfl

theorem mem_textPairs {d : Data S} {key value : Bytes} :
    (key, value) ∈ textPairs d ↔ ∃ v, d.find? key = some v ∧ v.type = .string ∧ v.strVal = value := by
  rw [textPairs, List.mem_filterMap]
  constructor
  · intro ⟨e, he, hpair⟩
    split at hpair
    · rename_i htype
      cases hpair
      exact ⟨e.2, UMap.mem_entries_iff.mp he, htype, rfl⟩
    · cases hpair
  · intro ⟨v, hv, htype, hvalue⟩
    refine ⟨(key, v), UMap.mem_entries_iff.mpr hv, ?_⟩
    rw [if_pos htype, hvalue]

theorem nodup_textPairs (d : Data S) : ((textPairs d).map Prod.fst).Nodup := by
  refine List.Sublist.nodup ?_ d.nodup
  rw [textPairs]
  induction d.entries with
  | nil => exact List.Sublist.refl _
  | cons e es ih =>
    rw [List.filterMap_cons, List.map_cons]
    by_cases htype : e.2.type = .string
    · rw [if_pos htype]
      exact ih.cons_cons e.1
    · rw [if_neg htype]
      exact ih.cons e.1

/-! ### What is loaded -/

/-- A string that `set` has made, with no deadline and no modification counted. -/
def textValue (value : Bytes) : RedisValue S := { type := .string, strVal := value }

/-- What comes back of an entry. -/
def RedisValue.carried (v : RedisValue S) : Option (RedisValue S) :=
  if v.type = .string then some (textValue v.strVal) else none

theorem find?_run_textCalls (ps : List (Bytes × Bytes)) {d : Data S}
    (hd : ∀ key v, d.find? key = some v → ∃ value, v = textValue value) (key : Bytes) :
    (Call.run (ps.map fun p => .set p.1 p.2) d).find? key =
      ((lookupLast key ps).map textValue).or (d.find? key) := by
  induction ps generalizing d with
  | nil => rfl
  | cons p ps ih =>
    have hset : Call.apply d (.set p.1 p.2) = UMap.set d p.1 (textValue p.2) := by
      show UMap.set d p.1 _ = _
      cases hv : d.find? p.1 with
      | none => rfl
      | some v =>
        obtain ⟨value, rfl⟩ := hd p.1 v hv
        rfl
    have hd' : ∀ key v, (UMap.set d p.1 (textValue p.2)).find? key = some v →
        ∃ value, v = textValue (S := S) value := by
      intro key v hv
      rw [UMap.find?_set] at hv
      split at hv
      · cases hv
        exact ⟨p.2, rfl⟩
      · exact hd key v hv
    rw [List.map_cons, Call.run_cons, hset, ih hd', UMap.find?_set, lookupLast]
    cases lookupLast key ps with
    | some value => rfl
    | none =>
      by_cases hkey : key = p.1
      · rw [if_pos hkey, if_pos hkey.symm]
        rfl
      · rw [if_neg hkey, if_neg (Ne.symm hkey)]
        rfl

theorem safe_of_run {calls : List (Call S)}
    (hcalls : ∀ c ∈ calls, ∃ key value, c = .set key value ∧ TextSafe key value) {d : Data S}
    (hd : ∀ key v, d.find? key = some v → TextSafe key v.strVal) :
    ∀ key v, (Call.run calls d).find? key = some v → TextSafe key v.strVal := by
  induction calls generalizing d with
  | nil => exact hd
  | cons c calls ih =>
    obtain ⟨⟨k, value, rfl, hsafe⟩, hrest⟩ := List.forall_mem_cons.mp hcalls
    refine ih hrest fun key v hv => ?_
    replace hv : (UMap.set d k _).find? key = some v := hv
    rw [UMap.find?_set] at hv
    split at hv
    · rename_i hkey
      cases hv
      rw [hkey]
      exact hsafe
    · exact hd key v hv

theorem lookupLast_textPairs (d : Data S) (key : Bytes) :
    (lookupLast key (textPairs d)).map textValue = (d.find? key).bind RedisValue.carried := by
  rw [lookupLast_eq_lookupList (nodup_textPairs d)]
  refine Option.ext fun w => ?_
  rw [Option.map_eq_some_iff, Option.bind_eq_some_iff]
  constructor
  · intro ⟨value, hvalue, hw⟩
    have hmem := (mem_iff_lookupList (nodup_textPairs d)).mpr hvalue
    obtain ⟨v, hv, htype, rfl⟩ := mem_textPairs.mp hmem
    exact ⟨v, hv, by rw [RedisValue.carried, if_pos htype, hw]⟩
  · intro ⟨v, hv, hw⟩
    rw [RedisValue.carried] at hw
    split at hw
    · rename_i htype
      cases hw
      have hmem : (key, v.strVal) ∈ textPairs d := mem_textPairs.mpr ⟨v, hv, htype, rfl⟩
      exact ⟨v.strVal, (mem_iff_lookupList (nodup_textPairs d)).mp hmem, rfl⟩
    · cases hw

/-- **The text format's round trip.**  For every store: what a new server loads of the file it is saved to
is its strings and nothing else, each without a deadline, exactly when each of them can be carried. -/
theorem text_round_trip_iff (d : Data S) :
    (∀ key, (Call.run (loadTextCalls (saveToFile d)) (∅ : Data S)).find? key =
        (d.find? key).bind RedisValue.carried) ↔
      ∀ key v, d.find? key = some v → v.type = .string → TextSafe key v.strVal := by
  constructor
  · intro h key v hv htype
    have hback := h key
    rw [hv, Option.bind_some, RedisValue.carried, if_pos htype] at hback
    have hsafe : ∀ key v, (Call.run (loadTextCalls (saveToFile d)) (∅ : Data S)).find? key = some v →
        TextSafe key v.strVal :=
      safe_of_run (fun c hc => loadTextCalls_safe hc) fun _ _ hnone => by cases hnone
    exact hsafe key (textValue v.strVal) hback
  · intro h key
    have hsafe : ∀ p ∈ textPairs d, TextSafe p.1 p.2 := by
      intro p hp
      obtain ⟨v, hv, htype, hvalue⟩ := mem_textPairs.mp hp
      rw [← hvalue]
      exact h p.1 v hv htype
    have hempty : ∀ key v, (∅ : Data S).find? key = some v → ∃ value, v = textValue (S := S) value := by
      intro key v hnone
      cases hnone
    rw [saveToFile_eq, loadTextCalls_lines hsafe, find?_run_textCalls _ hempty, lookupLast_textPairs]
    exact Option.or_none

end MinimalRedis
