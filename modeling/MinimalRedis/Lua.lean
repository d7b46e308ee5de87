import Mathlib.Data.List.TakeWhile
import MinimalRedis.Database

/-!
# The scripting engine (`lua_scripting.cpp`)

The Lua interpreter is not part of the repository: `LuaVM` is a parameter that compiles a chunk and
runs it on the key and argument tables.  A run is an interaction tree (`LuaRun`): it ends with a
value or a raised error, or it calls back into `redis.call` / `redis.pcall` / `redis.log`, which are
the C++ functions modelled here.

C strings stop at the first NUL (`cstr`).  `lua_tostring` is `none` for values that are neither
strings nor numbers; building a `std::string` from that null pointer aborts the process, which is
the outer `none` of `redisPcall`, `runLua` and `eval`.
-/

namespace MinimalRedis

open Lib

/-- A Lua value as the C API shows it; numbers by their text. -/
inductive LuaValue where
  | nil
  | boolean (b : Bool)
  | number (text : Bytes)
  | string (s : Bytes)
  | other
deriving DecidableEq

/-- A C string: the bytes before the first NUL. -/
def cstr (s : Bytes) : Bytes := s.takeWhile (· ≠ 0)

theorem cstr_eq_self {bs : Bytes} (h : (0 : UInt8) ∉ bs) : cstr bs = bs := by
  rw [cstr, List.takeWhile_eq_self_iff]
  intro b hb
  exact decide_eq_true fun heq => h (heq ▸ hb)

theorem length_cstr_le (bs : Bytes) : (cstr bs).length ≤ bs.length :=
  (List.takeWhile_prefix _).length_le

theorem length_cstr_lt {bs : Bytes} (h : (0 : UInt8) ∈ bs) :
    (cstr bs).length < bs.length := by
  refine lt_of_le_of_ne (length_cstr_le bs) fun heq => ?_
  have hall : cstr bs = bs := (List.takeWhile_prefix _).eq_of_length heq
  have hzero := List.takeWhile_eq_self_iff.mp hall 0 h
  exact absurd rfl (of_decide_eq_true hzero)

def LuaValue.toString? : LuaValue → Option Bytes
  | .number text => some (cstr text)
  | .string s => some (cstr s)
  | _ => none

/-- A chunk's run under `lua_pcall`: `Λ` is the interpreter state it leaves. -/
inductive LuaRun (Λ : Type) where
  | done (state : Λ) (result : LuaValue)
  | raised (state : Λ) (err : LuaValue)
  | call (args : List LuaValue) (k : Except LuaValue LuaValue → LuaRun Λ)
  | log (arg : LuaValue) (k : LuaRun Λ)

structure LuaVM (Λ : Type) where
  /-- `luaL_loadstring`: the error value, `none` for `LUA_OK`. -/
  load : Λ → Bytes → Option LuaValue
  /-- `lua_pcall` of the loaded chunk on the tables of keys and arguments. -/
  run : Λ → Bytes → List Bytes → List Bytes → LuaRun Λ

structure LuaScriptingEngine (Λ : Type) where
  state : Λ
  scriptCache : UMap Bytes Bytes := ∅

namespace LuaScriptingEngine

variable {S : Type} [Score S] {Λ : Type}

/-- `redis.call` and `redis.pcall`: a raised Lua error or a result, and the data after. -/
def redisPcall (now : ℤ) (args : List LuaValue) (d : Data S) :
    Option (Except LuaValue LuaValue × Data S) :=
  match args with
  | [] => some (.error (.string (str "redis.call requires at least 1 argument")), d)
  | cmd :: rest =>
      match cmd.toString? with
      | none => some (.error (.string (str "First argument to redis.call must be a string")), d)
      | some cmd =>
          match decide (cmd = str "GET"), decide (cmd = str "SET"), rest with
          | true, _, key :: _ =>
              key.toString?.map fun key =>
                let x := Database.get now key d
                (.ok (if x.1 = [] then .nil else .string (cstr x.1)), x.2)
          | false, true, key :: value :: _ =>
              key.toString?.bind fun key => value.toString?.map fun value =>
                (.ok (.string (str "OK")), Database.set key value d)
          | _, _, _ => some (.error (.string (str "Command not implemented in Lua scripting")), d)

/-- Run a chunk against the data, call by call. -/
def runLua (now : ℤ) : LuaRun Λ → Data S → Option (Except LuaValue LuaValue × Λ × Data S)
  | .done state result, d => some (.ok result, state, d)
  | .raised state err, d => some (.error err, state, d)
  | .call args k, d =>
      match redisPcall now args d with
      | none => none
      | some x => runLua now (k x.1) x.2
  | .log arg k, d =>
      match arg.toString? with
      | none => none
      | some _ => runLua now k d

/-- A size_t from a signed `char`. -/
def charToSize (c : UInt8) : UInt64 :=
  if c < 128 then c.toUInt64 else c.toUInt64 + 0xFFFFFFFFFFFFFF00

def hexDigit (n : ℕ) : UInt8 := if n < 10 then UInt8.ofNat (48 + n) else UInt8.ofNat (87 + n)

def hexBytes (n : ℕ) : Bytes := if n = 0 then [48] else ((Nat.digits 16 n).map hexDigit).reverse

def calculateSha1 (script : Bytes) : Bytes :=
  hexBytes (script.foldl (fun hash c => hash * 31 + charToSize c) (0 : UInt64)).toNat

/-- `find(needle) != npos`. -/
def containsBytes (needle s : Bytes) : Bool := s.tails.any needle.isPrefixOf

def validateScript (script : Bytes) : Bool :=
  !(containsBytes (str "os.") script || containsBytes (str "io.") script ||
    containsBytes (str "package.") script)

def dangerousReply : Bytes := str "-ERR Script contains dangerous functions\r\n"

/-- The reply text of a returned value. -/
def resultText : LuaValue → Bytes
  | .string s => cstr s
  | .number text => cstr text
  | .boolean b => if b then str "true" else str "false"
  | .nil => str "(nil)"
  | .other => str "(unknown type)"

def errorText (err : LuaValue) : Option Bytes :=
  err.toString?.map fun text => str "-ERR " ++ text ++ crlf

def eval (vm : LuaVM Λ) (now : ℤ) (script : Bytes) (keys args : List Bytes)
    (e : LuaScriptingEngine Λ) (d : Data S) : Option (Bytes × LuaScriptingEngine Λ × Data S) :=
  if !validateScript script then some (dangerousReply, e, d)
  else
    match vm.load e.state (cstr script) with
    | some err => (errorText err).map fun text => (text, e, d)
    | none =>
        match runLua now (vm.run e.state (cstr script) (keys.map cstr) (args.map cstr)) d with
        | none => none
        | some (.error err, state, d) =>
            (errorText err).map fun text => (text, { e with state := state }, d)
        | some (.ok result, state, d) =>
            some (43 :: (resultText result ++ crlf), { e with state := state }, d)

def evalsha (vm : LuaVM Λ) (now : ℤ) (sha1 : Bytes) (keys args : List Bytes)
    (e : LuaScriptingEngine Λ) (d : Data S) : Option (Bytes × LuaScriptingEngine Λ × Data S) :=
  match e.scriptCache.find? sha1 with
  | none => some (str "-NOSCRIPT No matching script. Please use EVAL.\r\n", e, d)
  | some script => eval vm now script keys args e d

def scriptExists (sha1 : Bytes) (e : LuaScriptingEngine Λ) : Bool := e.scriptCache.contains sha1

def scriptLoad (script : Bytes) (e : LuaScriptingEngine Λ) : Bytes × LuaScriptingEngine Λ :=
  if !validateScript script then (dangerousReply, e)
  else
    let sha1 := calculateSha1 script
    (43 :: (sha1 ++ crlf), { e with scriptCache := e.scriptCache.set sha1 script })

def scriptFlush (e : LuaScriptingEngine Λ) : LuaScriptingEngine Λ := { e with scriptCache := ∅ }

/-- Evaluating a script leaves the cache alone. -/
theorem scriptCache_eval {vm : LuaVM Λ} {now : ℤ} {script : Bytes} {keys args : List Bytes}
    {e : LuaScriptingEngine Λ} {d : Data S} {x : Bytes × LuaScriptingEngine Λ × Data S}
    (h : eval vm now script keys args e d = some x) : x.2.1.scriptCache = e.scriptCache := by
  unfold eval at h
  split at h
  · rw [← Option.some.inj h]
  · split at h
    · obtain ⟨text, -, rfl⟩ := Option.map_eq_some_iff.mp h
      rfl
    · split at h
      · cases h
      · obtain ⟨text, -, rfl⟩ := Option.map_eq_some_iff.mp h
        rfl
      · rw [← Option.some.inj h]

end LuaScriptingEngine

end MinimalRedis
