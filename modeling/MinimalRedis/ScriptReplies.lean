import MinimalRedis.Lua
import MinimalRedis.RespStrict

/-!
# Replies of scripts

`eval` writes what a script returns behind a plus sign and what it raises behind `-ERR `, as C strings
and as they are.  The reply is one line when the text is one.

* `readLine_text_iff` — the line read from such a reply is all of it when the text holds no LF;
* `script_reply_framed_iff` — a returned string reads back when it holds neither LF nor NUL and does
  not end with a CR; a raised message leaves a framed reply when no LF comes before its first NUL.
-/

namespace MinimalRedis

open Lib

/-! ### Lines -/

namespace RespParser

/-- A reply of `n` bytes can be built and read: it is below `max_size`, and the allocator serves it. -/
structure Holdable (grants n : ℕ) : Prop where
  maxSize : n < 2 ^ 63 - 1
  served : n ≤ grants

theorem Holdable.mono {grants n m : ℕ} (h : Holdable grants m) (hnm : n ≤ m) : Holdable grants n :=
  ⟨lt_of_le_of_lt hnm h.maxSize, hnm.trans h.served⟩

variable {grants : ℕ} {c : UInt8} {text : Bytes}

theorem length_textLine (c : UInt8) (text : Bytes) :
    (c :: (text ++ crlf)).length = text.length + 3 := by
  rw [List.length_cons, List.length_append]
  rfl

theorem readLine_text_iff (hroom : Holdable grants (text.length + 3)) (line : Bytes) :
    readLine grants (c :: (text ++ crlf)) 1 = .ok (line, (c :: (text ++ crlf)).length) ↔
      (10 : UInt8) ∉ text ∧ line = text := by
  have hmax := hroom.maxSize
  have hserved := hroom.served
  have hlen := length_textLine c text
  constructor
  · intro h
    obtain ⟨x, hdrop, hlf, -, -⟩ := lineAt?_split (lineAt?_of_readLine (by omega) h)
    rw [List.drop_length] at hdrop
    -- the two bytes behind the line are those behind the text
    have htext : text = line :=
      (List.append_inj' (show text ++ crlf = line ++ [x, 10] from hdrop) rfl).1
    exact ⟨htext ▸ hlf, htext.symm⟩
  · intro h
    obtain ⟨hlf, rfl⟩ := h
    have hread := @readLine_of_drop grants (c :: (line ++ crlf)) 1 line []
      (by rw [List.append_nil]; rfl) hlf (by unfold stringMaxSize; omega) (by omega)
    rw [hread, hlen]
    congr 2
    omega

/-- The two line types, by what they make of the line. -/
theorem parse_text_iff (make : Bytes → RespValue)
    (hmake : (c = 43 ∧ make = .simpleString) ∨ (c = 45 ∧ make = .error))
    (hroom : Holdable grants (text.length + 3)) (v : RespValue) :
    parse grants (c :: (text ++ crlf)) = .ok (v, (c :: (text ++ crlf)).length) ↔
      (10 : UInt8) ∉ text ∧ v = make (popCR text) := by
  have hparse : parse grants (c :: (text ++ crlf)) =
      (readLine grants (c :: (text ++ crlf)) 1).map fun x => (make (popCR x.1), x.2) := by
    rcases hmake with ⟨rfl, rfl⟩ | ⟨rfl, rfl⟩
    · exact parseFrom_of_plus rfl _
    · exact parseFrom_of_minus rfl _
  rw [hparse]
  constructor
  · intro h
    obtain ⟨⟨line, e⟩, hline, hv⟩ := map_eq_ok h
    obtain ⟨rfl, rfl⟩ := Prod.mk.inj hv
    obtain ⟨hlf, rfl⟩ := (readLine_text_iff hroom line).mp hline
    exact ⟨hlf, rfl⟩
  · intro h
    obtain ⟨hlf, rfl⟩ := h
    rw [(readLine_text_iff hroom text).mpr ⟨hlf, rfl⟩]
    rfl

end RespParser

/-! ### Script results -/

open LuaScriptingEngine RespParser

variable {S : Type} [Score S] {Λ : Type}

section Outcomes

variable (vm : LuaVM Λ) (now : ℤ) (script : Bytes) (keys args : List Bytes)
  (e : LuaScriptingEngine Λ) (d : Data S)

/-- The script passes the filter, compiles, and its run returns `result`. -/
structure ScriptReturns (result : LuaValue) (state : Λ) (d' : Data S) : Prop where
  valid : validateScript script = true
  loads : vm.load e.state (cstr script) = none
  returns : runLua now (vm.run e.state (cstr script) (keys.map cstr) (args.map cstr)) d =
    some (.ok result, state, d')

/-- The script passes the filter, and compiling or running it raises `err`. -/
structure ScriptRaises (err : LuaValue) (state : Λ) (d' : Data S) : Prop where
  valid : validateScript script = true
  raises : (vm.load e.state (cstr script) = some err ∧ state = e.state ∧ d' = d) ∨
    (vm.load e.state (cstr script) = none ∧
      runLua now (vm.run e.state (cstr script) (keys.map cstr) (args.map cstr)) d =
        some (.error err, state, d'))

variable {vm now script keys args e d}

theorem eval_of_returns {result : LuaValue} {state : Λ} {d' : Data S}
    (h : ScriptReturns vm now script keys args e d result state d') :
    eval vm now script keys args e d =
      some (43 :: (resultText result ++ crlf), { e with state := state }, d') := by
  rw [eval, h.valid, h.loads]
  simp only [h.returns, Bool.not_true, Bool.false_eq_true, if_false]

theorem eval_of_raises {m : Bytes} {state : Λ} {d' : Data S}
    (h : ScriptRaises vm now script keys args e d (.string m) state d') :
    eval vm now script keys args e d =
      some (str "-ERR " ++ cstr m ++ crlf, { e with state := state }, d') := by
  rw [eval, h.valid]
  rcases h.raises with ⟨hload, rfl, rfl⟩ | ⟨hload, hrun⟩
  · rw [hload]
    rfl
  · rw [hload]
    simp only [hrun, Bool.not_true, Bool.false_eq_true, if_false]
    rfl

end Outcomes

/-- What a client reads behind the plus sign is the string itself. -/
theorem popCR_cstr_iff (s : Bytes) :
    ((10 : UInt8) ∉ cstr s ∧ popCR (cstr s) = s) ↔
      (0 : UInt8) ∉ s ∧ (10 : UInt8) ∉ s ∧ s.getLast? ≠ some 13 := by
  by_cases hnul : (0 : UInt8) ∈ s
  · -- the C string is shorter, and a CR dropped from it makes it no longer
    have hshort := length_cstr_lt hnul
    refine iff_of_false (fun h => ?_) fun h => h.1 hnul
    rcases popCR_spec (cstr s) with ⟨-, hlt⟩ | ⟨-, heq⟩
    · rw [h.2] at hlt
      omega
    · rw [heq] at h
      rw [h.2] at hshort
      exact lt_irrefl _ hshort
  · rw [cstr_eq_self hnul]
    rcases popCR_spec s with ⟨hlast, hlt⟩ | ⟨hlast, heq⟩
    · refine iff_of_false (fun h => ?_) fun h => h.2.2 hlast
      rw [h.2] at hlt
      exact lt_irrefl _ hlt
    · rw [heq]
      exact ⟨fun h => ⟨hnul, h.1, hlast⟩, fun h => ⟨h.2.1, rfl⟩⟩

/-- The reply of `eval` is one value, with nothing behind it, and reads back as the string returned,
exactly for strings without NUL and LF that do not end with a CR; after a raised message it is one
value exactly when no LF comes before the first NUL of the message. -/
theorem script_reply_framed_iff (grants : ℕ) (vm : LuaVM Λ) (now : ℤ) (script : Bytes)
    (keys args : List Bytes) (e : LuaScriptingEngine Λ) (d : Data S) :
    (∀ s state d', ScriptReturns vm now script keys args e d (.string s) state d' →
      Holdable grants (s.length + 3) →
      ((∃ reply e', eval vm now script keys args e d = some (reply, e', d') ∧
          ∃ v, parse grants reply = .ok (v, reply.length) ∧ v.strVal = s) ↔
        (0 : UInt8) ∉ s ∧ (10 : UInt8) ∉ s ∧ s.getLast? ≠ some 13)) ∧
    ∀ m state d', ScriptRaises vm now script keys args e d (.string m) state d' →
      Holdable grants (m.length + 7) →
      ((∃ reply e', eval vm now script keys args e d = some (reply, e', d') ∧
          ∃ v, parse grants reply = .ok (v, reply.length)) ↔
        (10 : UInt8) ∉ cstr m) := by
  refine ⟨fun s state d' hreturns hroom => ?_, fun m state d' hraises hroom => ?_⟩
  · have hroom : Holdable grants ((cstr s).length + 3) :=
      hroom.mono (Nat.add_le_add_right (length_cstr_le s) 3)
    have hparse := parse_text_iff .simpleString (.inl ⟨rfl, rfl⟩) hroom
    rw [eval_of_returns hreturns, ← popCR_cstr_iff]
    constructor
    · intro h
      obtain ⟨reply, e', heval, v, hv, hstr⟩ := h
      obtain ⟨rfl, -⟩ := Prod.mk.inj (Option.some.inj heval)
      obtain ⟨hlf, rfl⟩ := (hparse v).mp hv
      exact ⟨hlf, hstr⟩
    · intro h
      obtain ⟨hlf, hstr⟩ := h
      exact ⟨_, _, rfl, _, (hparse _).mpr ⟨hlf, rfl⟩, hstr⟩
  · have hlen : (str "ERR " ++ cstr m).length + 3 = (cstr m).length + 7 := by
      rw [List.length_append, show (str "ERR ").length = 4 from rfl]
      omega
    have hroom : Holdable grants ((str "ERR " ++ cstr m).length + 3) := by
      rw [hlen]
      exact hroom.mono (Nat.add_le_add_right (length_cstr_le m) 7)
    have hparse := parse_text_iff .error (.inr ⟨rfl, rfl⟩) hroom
    have hlf : (10 : UInt8) ∉ cstr m ↔ (10 : UInt8) ∉ str "ERR " ++ cstr m := by
      rw [List.mem_append, show ((10 : UInt8) ∈ str "ERR ") = False from eq_false (by decide),
        false_or]
    rw [eval_of_raises hraises, hlf]
    constructor
    · intro h
      obtain ⟨reply, e', heval, v, hv⟩ := h
      obtain ⟨rfl, -⟩ := Prod.mk.inj (Option.some.inj heval)
      exact ((hparse v).mp hv).1
    · intro hlf
      exact ⟨_, _, rfl, _, (hparse _).mpr ⟨hlf, rfl⟩⟩

/-- An interpreter on which every script ends in the same way. -/
def LuaVM.ending (outcome : Except LuaValue LuaValue) : LuaVM Unit where
  load _ _ := none
  run state _ _ _ :=
    match outcome with
    | .ok result => .done state result
    | .error err => .raised state err

/-- The two outcomes of `return 'a b'` and `error('a b')`: one line each. -/
theorem script_reply_framed_words :
    (∃ reply e', eval (LuaVM.ending (.ok (.string (str "a b")))) 0 (str "return 'a b'") [] []
        { state := () } (∅ : Data NatScore) = some (reply, e', ∅) ∧
      ∃ v, parse 64 reply = .ok (v, reply.length) ∧ v.strVal = str "a b") ∧
    ∃ reply e', eval (LuaVM.ending (.error (.string (str "a b")))) 0 (str "error('a b')") [] []
        { state := () } (∅ : Data NatScore) = some (reply, e', ∅) ∧
      ∃ v, parse 64 reply = .ok (v, reply.length) :=
  ⟨((script_reply_framed_iff 64 _ 0 _ [] [] _ _).1 (str "a b") () ∅ ⟨by decide, rfl, rfl⟩
      ⟨by decide, by decide⟩).mpr (by decide),
    ((script_reply_framed_iff 64 _ 0 _ [] [] _ _).2 (str "a b") () ∅
      ⟨by decide, .inr ⟨rfl, rfl⟩⟩ ⟨by decide, by decide⟩).mpr (by decide)⟩

/-- `return 'a\n+b'` answers with what looks like two simple strings. -/
theorem script_reply_splits :
    (eval (LuaVM.ending (.ok (.string (str "a\n+b")))) 0 (str "return 'a\\n+b'") [] []
        { state := () } (∅ : Data NatScore)).map (fun x => x.1) = some (str "+a\n+b\r\n") ∧
      parse 64 (str "+a\n+b\r\n") = .ok (.simpleString [], 3) ∧
      ¬ ∀ (vm : LuaVM Unit) (script : Bytes) (e : LuaScriptingEngine Unit) (d : Data NatScore)
        (s : Bytes) state d', ScriptReturns vm 0 script [] [] e d (.string s) state d' →
        ∃ reply e', eval vm 0 script [] [] e d = some (reply, e', d') ∧
          ∃ v, parse 64 reply = .ok (v, reply.length) ∧ v.strVal = s := by
  refine ⟨by decide, rfl, fun h => ?_⟩
  obtain ⟨reply, e', heval, v, hparse, -⟩ := h (LuaVM.ending (.ok (.string (str "a\n+b"))))
    (str "return 'a\\n+b'") { state := () } ∅ (str "a\n+b") () ∅ ⟨by decide, rfl, rfl⟩
  obtain ⟨rfl, -⟩ := Prod.mk.inj (Option.some.inj heval)
  have hshort : parse 64 (str "+a\n+b\r\n") = .ok (.simpleString [], 3) := rfl
  have hend := (Prod.mk.inj (Except.ok.inj (hshort.symm.trans hparse))).2
  exact absurd hend (by decide)

end MinimalRedis
