import MinimalRedis.Processor

/-!
# What reaches the scripting engine

Two things decide what `EVAL` does before any Lua runs and after: how the argument array is cut into
keys and script arguments, and whether a Lua value that is neither a string nor a number gets to a place
that wants a C string (`lua_tostring` gives a null pointer there, and the process dies).

* `script_args_split_iff` — the cut is right **except for** `numkeys` -1, -2 and -3, for which the
  script runs with some of the leading arguments among its own;
* `isSome_redisPcall_iff`, `isSome_runLua_iff` — one call, and a run, survive exactly when every value
  they convert is a text;
* `script_survives_iff` — so does `EVAL`.
-/

namespace MinimalRedis

open Lib Session

variable {S : Type} [Score S] {Λ : Type}

/-! ### Cutting the arguments -/

/-- The handler hands the engine the keys `args[3..3+n)` and the arguments `args[3+n..)` when there
are so many, and otherwise replies an error and runs nothing.  The engine call is any function. -/
structure SplitsExactly (cmd what : String) (args : List Bytes) (n : ℤ) (s : Session S Λ) : Prop where
  split : 0 ≤ n ∧ n ≤ (args.length : ℤ) - 3 →
    ∀ engine : Bytes → List Bytes → List Bytes → Session S Λ → Bytes × Session S Λ,
      withScript cmd what engine (args.map .bulkString) s =
        engine (args.getD 1 []) ((args.drop 3).take n.toNat) (args.drop (3 + n.toNat)) s
  refused : ¬ (0 ≤ n ∧ n ≤ (args.length : ℤ) - 3) →
    ∀ engine : Bytes → List Bytes → List Bytes → Session S Λ → Bytes × Session S Λ,
      ∃ msg, withScript cmd what engine (args.map .bulkString) s = (errReply msg, s)

theorem allBulk_map (args : List Bytes) : allBulk (args.map .bulkString) = some args :=
  allBulk_eq_some_iff.mpr rfl

section Split

variable {name script text : Bytes} {more : List Bytes} {n : ℤ} (cmd what : String)
  (engine : Bytes → List Bytes → List Bytes → Session S Λ → Bytes × Session S Λ) (s : Session S Λ)
  (hn : stoi text = some n)

include hn

/-- `std::stoi` gives an `int`. -/
theorem stoi_range : -(2 ^ 31) ≤ n ∧ n < 2 ^ 31 := by
  obtain ⟨x, -, h⟩ := Option.bind_eq_some_iff.mp hn
  rw [Option.ite_none_right_eq_some] at h
  obtain ⟨hrange, hx⟩ := h
  rwa [Option.some.inj hx] at hrange

/-- Bulk strings pass every type test: what is left is the bound. -/
theorem withScript_bulk :
    withScript cmd what engine ((name :: script :: text :: more).map .bulkString) s =
      if more.length + 3 < (wrap32 (3 + n) % 2 ^ 64).toNat then
        (errReply ("ERR " ++ cmd ++ " insufficient arguments for numkeys"), s)
      else engine script (more.take n.toNat)
        ((name :: script :: text :: more).drop (wrap32 (3 + n)).toNat) s := by
  have hkeys : allBulk (((name :: script :: text :: more).map .bulkString |>.drop 3).take n.toNat) =
      some (more.take n.toNat) := by
    rw [← List.map_drop, ← List.map_take]
    exact allBulk_map _
  have hargs : allBulk (((name :: script :: text :: more).map .bulkString).drop
      (wrap32 (3 + n)).toNat) = some ((name :: script :: text :: more).drop (wrap32 (3 + n)).toNat) := by
    rw [← List.map_drop]
    exact allBulk_map _
  rw [List.map_cons, List.map_cons, List.map_cons] at hkeys hargs ⊢
  simp only [withScript, RespValue.bulk?, hn, hkeys, hargs, List.length_cons, List.length_map]

variable (hlen : more.length < 2 ^ 63)

include hlen

/-- Where the bound test lets a `numkeys` pass: an overflowing sum is negative, a huge `size_t`. -/
theorem bound_passes_iff :
    ¬ more.length + 3 < (wrap32 (3 + n) % 2 ^ 64).toNat ↔
      -3 ≤ n ∧ n ≤ more.length ∧ n < 2 ^ 31 - 3 := by
  obtain ⟨hlow, hhigh⟩ := stoi_range hn
  by_cases hsum : 3 + n < 2 ^ 31
  · have hwrap : wrap32 (3 + n) = 3 + n := Int.bmod_eq_of_le (by omega) (by omega)
    rw [hwrap]
    omega
  · have hwrap : wrap32 (3 + n) = 3 + n - 2 ^ 32 := by
      show Int.bmod _ _ = _
      rw [Int.bmod_def]
      omega
    rw [hwrap]
    omega

theorem splitsExactly_iff :
    SplitsExactly cmd what (name :: script :: text :: more) n s ↔
      ¬ (-3 ≤ n ∧ n < 0) ∧ ¬ (2 ^ 31 - 3 ≤ n ∧ n ≤ more.length) := by
  have hpasses := bound_passes_iff hn hlen
  have hlength : ((name :: script :: text :: more).length : ℤ) - 3 = more.length := by
    simp only [List.length_cons]
    omega
  constructor
  · intro h
    -- an engine whose reply is no error tells whether it was called
    have hcall := fun h' => h.split h' fun _ _ _ s => ([], s)
    have herror := fun h' => h.refused h' fun _ _ _ s => ([], s)
    rw [withScript_bulk cmd what _ s hn, hlength] at hcall herror
    refine ⟨fun hneg => ?_, fun hlarge => ?_⟩
    · obtain ⟨msg, hmsg⟩ := herror (by omega)
      rw [if_neg (hpasses.mpr (by omega))] at hmsg
      cases congrArg Prod.fst hmsg
    · have hrefused : more.length + 3 < (wrap32 (3 + n) % 2 ^ 64).toNat := by
        by_contra hpass
        have := hpasses.mp hpass
        omega
      specialize hcall (by omega)
      rw [if_pos hrefused] at hcall
      cases congrArg Prod.fst hcall
  · intro ⟨hneg, hlarge⟩
    refine ⟨fun hfits engine => ?_, fun hfits engine => ?_⟩
    · rw [hlength] at hfits
      have hwrap : wrap32 (3 + n) = 3 + n := Int.bmod_eq_of_le (by omega) (by omega)
      rw [withScript_bulk cmd what engine s hn, if_neg (hpasses.mpr (by omega)), hwrap,
        show (3 + n).toNat = 3 + n.toNat by omega]
      rfl
    · rw [hlength] at hfits
      rw [withScript_bulk cmd what engine s hn, if_pos]
      · exact ⟨_, rfl⟩
      · by_contra hpass
        have := hpasses.mp hpass
        omega

end Split

/-- `EVAL` and `EVALSHA` cut every array of bulk strings right **exactly when** `numkeys` is not -1, -2
or -3, and the `int` sum of a `numkeys` that is small enough for the array does not overflow. -/
theorem script_args_split_iff (args : List Bytes) (text : Bytes) (n : ℤ) (s : Session S Λ)
    (htext : args[2]? = some text) (hn : stoi text = some n)
    (hlen : args.length ≤ RespParser.vectorMaxSize) :
    SplitsExactly "EVAL" "script" args n s ∧ SplitsExactly "EVALSHA" "sha1" args n s ↔
      ¬ (-3 ≤ n ∧ n < 0) ∧ ¬ (2 ^ 31 - 3 ≤ n ∧ n ≤ (args.length : ℤ) - 3) := by
  obtain ⟨name, script, more, rfl⟩ : ∃ name script more, args = name :: script :: text :: more := by
    rcases args with _ | ⟨name, _ | ⟨script, _ | ⟨text', more⟩⟩⟩
    · cases htext
    · cases htext
    · cases htext
    · cases htext
      exact ⟨name, script, more, rfl⟩
  have hmore : more.length < 2 ^ 63 := by
    rw [RespParser.vectorMaxSize, List.length_cons, List.length_cons, List.length_cons] at hlen
    omega
  rw [splitsExactly_iff "EVAL" "script" s hn hmore, splitsExactly_iff "EVALSHA" "sha1" s hn hmore,
    and_self]
  simp only [List.length_cons]
  omega

/-- One key and two arguments. -/
theorem script_args_split_one_key :
    SplitsExactly "EVAL" "script" [str "EVAL", str "return 1", str "1", [107], [97], [98]] 1
      (Session.fresh (∅ : Data NatScore)) :=
  ((script_args_split_iff [str "EVAL", str "return 1", str "1", [107], [97], [98]] (str "1") 1
    (Session.fresh (∅ : Data NatScore)) rfl (by decide) (by decide)).mpr (by decide)).1

/-- `EVAL "return 1" -1 a`: the script runs, and its first argument is the `-1`. -/
theorem script_args_negative_numkeys :
    stoi (str "-1") = some (-1) ∧
    (∀ engine : Bytes → List Bytes → List Bytes → Session NatScore Unit →
        Bytes × Session NatScore Unit,
      withScript "EVAL" "script" engine
          [.bulkString (str "EVAL"), .bulkString (str "return 1"), .bulkString (str "-1"),
            .bulkString [97]] (Session.fresh ∅) =
        engine (str "return 1") [] [str "-1", [97]] (Session.fresh ∅)) ∧
    ¬ SplitsExactly "EVAL" "script" [str "EVAL", str "return 1", str "-1", [97]] (-1)
      (Session.fresh (∅ : Data NatScore)) := by
  have hn : stoi (str "-1") = some (-1) := by decide
  refine ⟨hn, fun engine => ?_, ?_⟩
  · show withScript "EVAL" "script" engine
      ((str "EVAL" :: str "return 1" :: str "-1" :: [[97]]).map .bulkString) (Session.fresh ∅) = _
    rw [withScript_bulk _ _ _ _ hn]
    rfl
  · rw [splitsExactly_iff "EVAL" "script" _ hn (by decide)]
    decide

/-! ### Values that are no text -/

/-- `lua_tostring` gives a string: a string or a number. -/
def LuaValue.isText : LuaValue → Bool
  | .number _ => true
  | .string _ => true
  | _ => false

theorem LuaValue.isSome_toString? (v : LuaValue) : v.toString?.isSome = v.isText := by
  cases v <;> rfl

/-- The values that `redis.call` converts are texts: the key of a `GET`, the key and the value of a
`SET`. -/
def passesTexts : List LuaValue → Bool
  | cmd :: key :: rest =>
      if cmd.toString? = some (str "GET") then key.isText
      else if cmd.toString? = some (str "SET") then
        match rest with
        | [] => true
        | value :: _ => key.isText && value.isText
      else true
  | _ => true

namespace LuaScriptingEngine

theorem isSome_redisPcall_iff (now : ℤ) (args : List LuaValue) (d : Data S) :
    (redisPcall now args d).isSome = true ↔ passesTexts args = true := by
  rcases args with _ | ⟨cmd, rest⟩
  · exact iff_of_true rfl rfl
  · cases hcmd : cmd.toString? with
    | none =>
      have hpass : passesTexts (cmd :: rest) = true := by
        cases rest with
        | nil => rfl
        | cons key rest => simp [passesTexts, hcmd]
      simp only [redisPcall, hcmd, hpass, Option.isSome_some]
    | some c =>
      cases rest with
      | nil => simp [redisPcall, hcmd, passesTexts]
      | cons key rest =>
        simp only [redisPcall, hcmd, passesTexts, Option.some.injEq]
        by_cases hget : c = str "GET"
        · simp only [hget, decide_true, if_true, Option.isSome_map, LuaValue.isSome_toString?]
        · by_cases hset : c = str "SET"
          · have hne : str "SET" ≠ str "GET" := by decide
            cases rest with
            | nil => simp [hset, hne]
            | cons value rest =>
              cases key <;> cases value <;> simp [hset, hne, LuaValue.toString?, LuaValue.isText]
          · simp [hget, hset]

/-- Every value that the run converts, call by call, is a text, and so is an error it ends with. -/
def SafeRun (now : ℤ) : LuaRun Λ → Data S → Prop
  | .done _ _, _ => True
  | .raised _ err, _ => err.isText = true
  | .call args k, d => passesTexts args = true ∧
      ∀ x, redisPcall now args d = some x → SafeRun now (k x.1) x.2
  | .log arg k, d => arg.isText = true ∧ SafeRun now k d

theorem isSome_errorText (err : LuaValue) : (errorText err).isSome = err.isText := by
  rw [errorText, Option.isSome_map, LuaValue.isSome_toString?]

/-- A run that survives and whose error, if it ends with one, has a text. -/
theorem isSome_runLua_iff (now : ℤ) (r : LuaRun Λ) (d : Data S) :
    (∃ x, runLua now r d = some x ∧ ∀ err, x.1 = .error err → err.isText = true) ↔
      SafeRun now r d := by
  induction r generalizing d with
  | done state result =>
    refine iff_of_true ⟨_, rfl, fun err herr => ?_⟩ trivial
    cases herr
  | raised state err =>
    constructor
    · rintro ⟨x, hx, herr⟩
      cases hx
      exact herr err rfl
    · intro herr
      refine ⟨_, rfl, fun err' herr' => ?_⟩
      cases herr'
      exact herr
  | call args k ih =>
    rw [runLua, SafeRun, ← isSome_redisPcall_iff now args d]
    cases hcall : redisPcall now args d with
    | none => simp
    | some x => simpa using ih x.1 x.2
  | log arg k ih =>
    rw [runLua, SafeRun, ← LuaValue.isSome_toString?]
    cases harg : arg.toString? with
    | none => simp
    | some text => simpa using ih d

/-- What `eval` does with a script that passes the check, before and after the run. -/
theorem isSome_eval_iff (vm : LuaVM Λ) (now : ℤ) {script : Bytes} (keys args : List Bytes)
    (e : LuaScriptingEngine Λ) (d : Data S) (hvalid : validateScript script = true) :
    (eval vm now script keys args e d).isSome = true ↔
      (∀ err, vm.load e.state (cstr script) = some err → err.isText = true) ∧
      (vm.load e.state (cstr script) = none →
        SafeRun now (vm.run e.state (cstr script) (keys.map cstr) (args.map cstr)) d) := by
  simp only [eval, hvalid, Bool.not_true, Bool.false_eq_true, if_false]
  cases hload : vm.load e.state (cstr script) with
  | some err => simp [isSome_errorText]
  | none =>
    rw [← isSome_runLua_iff]
    cases hrun : runLua now (vm.run e.state (cstr script) (keys.map cstr) (args.map cstr)) d with
    | none => simp
    | some x =>
      obtain ⟨outcome, state, d'⟩ := x
      cases outcome with
      | error err => simp [isSome_errorText]
      | ok result => simp

/-- Whatever the script does on this engine and data, the values that are converted are texts: the
message of a chunk that does not load, the values of its run, and the error it raises. -/
def TextsOnly (vm : LuaVM Λ) (now : ℤ) (script : Bytes) (keys args : List Bytes)
    (e : LuaScriptingEngine Λ) (d : Data S) : Prop :=
  validateScript script = true →
    (∀ err, vm.load e.state (cstr script) = some err → err.isText = true) ∧
    (vm.load e.state (cstr script) = none →
      SafeRun now (vm.run e.state (cstr script) (keys.map cstr) (args.map cstr)) d)

/-- One call and a whole `EVAL` end with a result, a Lua error or a reply **exactly when** every value
they convert is a string or a number. -/
theorem script_survives_iff (vm : LuaVM Λ) (now : ℤ) (script : Bytes) (keys args : List Bytes)
    (e : LuaScriptingEngine Λ) (d : Data S) :
    (∀ values, (redisPcall now values d).isSome = true ↔ passesTexts values = true) ∧
    ((eval vm now script keys args e d).isSome = true ↔ TextsOnly vm now script keys args e d) := by
  refine ⟨fun values => isSome_redisPcall_iff now values d, ?_⟩
  cases hvalid : validateScript script with
  | true =>
    rw [isSome_eval_iff vm now keys args e d hvalid]
    exact ⟨fun h _ => h, fun h => h hvalid⟩
  | false =>
    -- refused before anything is loaded
    refine iff_of_true ?_ fun h => ?_
    · simp only [eval, hvalid, Bool.not_false, if_true, Option.isSome_some]
    · rw [hvalid] at h
      cases h

/-- An interpreter for `error(1 == 1)`. -/
def raisingVM : LuaVM Unit where
  load _ _ := none
  run _ _ _ _ := .raised () (.boolean true)

/-- `redis.call('GET', nil)`, `redis.call('SET', 'k', true)` and `error(1 == 1)`. -/
theorem script_values_crash :
    redisPcall 0 [.string (str "GET"), .nil] (∅ : Data NatScore) = none ∧
    redisPcall 0 [.string (str "SET"), .string [107], .boolean true] (∅ : Data NatScore) = none ∧
    eval raisingVM 0 (str "error(1 == 1)") [] [] ⟨(), ∅⟩ (∅ : Data NatScore) = none := by
  refine ⟨rfl, rfl, ?_⟩
  decide

end LuaScriptingEngine

end MinimalRedis
