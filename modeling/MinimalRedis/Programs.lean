import MinimalRedis.DataProgramRuns

/-!
# Commands as programs of `Database` calls

`commandProg` is `process_command` with each call of a `Database` method as a step of its own
(`DataPrograms` has the commands on the data).

* `run_execProg` — run by itself the program of `EXEC`, its check loop and its execution loop, is the
  handler;
* `run_evalProg`, `run_evalshaProg` — the same for a script and its calls of `redis.call`;
* `agrees_commandProg` — run by itself the program of a command is `process_command`: the same data,
  the same processor and the same reply.
-/

namespace MinimalRedis

open Lib

variable {S : Type} [Score S] {Λ : Type}

/-! ### Transactions -/

/-- The closure of a queued command. -/
def executeProg (writable : Bool) (tx : TransactionCommand) : DataProg S Bytes :=
  match queuedCommand tx with
  | some cmd => dataProg writable cmd tx.args
  | none => .ret (errReply "ERR Unknown command")

def execLoopProg (writable : Bool) : List TransactionCommand → DataProg S (List Bytes)
  | [] => .ret []
  | tx :: queue =>
      (executeProg writable tx).bind fun result =>
        (execLoopProg writable queue).bind fun results => .ret (result :: results)

/-- The check loop of `EXEC`, which stops at the first counter that differs. -/
def checkProg : List (Bytes × UInt64) → DataProg S Bool
  | [] => .ret true
  | e :: watched =>
      (callRead (Database.getModCount e.1)).bind fun count =>
        if count == e.2 then checkProg watched else .ret false

def Processor.endTransaction (p : Processor Λ) : Processor Λ :=
  { p with inTransaction := false, transactionQueue := [], watchedKeys := ∅ }

def execProg (writable : Bool) (args : Args) (p : Processor Λ) : DataProg S (Bytes × Processor Λ) :=
  if args.length ≠ 1 then .ret (errReply "ERR EXEC requires no arguments", p)
  else if !p.inTransaction then .ret (errReply "ERR EXEC without MULTI", p)
  else
    (checkProg p.watchedKeys.entries).bind fun holds =>
      if holds then
        (execLoopProg writable p.transactionQueue).bind fun results =>
          .ret (execReply results, p.endTransaction)
      else .ret (execAbortReply, p.endTransaction)

theorem onData_of_queuedCommand {tx : TransactionCommand} {cmd : Command}
    (h : queuedCommand tx = some cmd) : cmd.onData = true := by
  have hkeep := (Option.filter_eq_some_iff.mp h).2
  cases cmd <;> first | rfl | cases hkeep

theorem run_executeProg (env : Env Λ) (now : ℤ) (tx : TransactionCommand) (s : Session S Λ) :
    (executeProg s.world.fileWritable tx).run now s.world.data =
      ((executeFunc now tx s).1, (executeFunc now tx s).2.world.data) := by
  rw [executeFunc_eq_dispatch env, executeProg]
  cases hcmd : queuedCommand tx with
  | none => rfl
  | some cmd => exact run_dataProg env now (onData_of_queuedCommand hcmd) tx.args s

theorem run_checkProg (now : ℤ) (watched : List (Bytes × UInt64)) (d : Data S) :
    (checkProg watched).run now d =
      (watched.all fun e => Database.getModCount e.1 d == e.2, d) := by
  induction watched with
  | nil => rfl
  | cons e watched ih =>
    show Prog.run now (if Database.getModCount e.1 d == e.2 then checkProg watched else .ret false) d = _
    rw [Prog.run_ite, ih, List.all_cons]
    cases Database.getModCount e.1 d == e.2 <;> rfl

/-- The commands on the data leave the processor and the file's permissions alone. -/
theorem dispatch_onData (env : Env Λ) (now : ℤ) {cmd : Command} (hcmd : cmd.onData = true)
    (args : Args) (s : Session S Λ) :
    (dispatch env now (some cmd) args s).2.self = s.self ∧
      (dispatch env now (some cmd) args s).2.world.fileWritable = s.world.fileWritable := by
  cases cmd with
  | save =>
    show (handleSave args s).2.self = _ ∧ (handleSave args s).2.world.fileWritable = _
    unfold handleSave
    split
    · exact ⟨rfl, rfl⟩
    · split <;> exact ⟨rfl, rfl⟩
  | _ => first | exact ⟨rfl, rfl⟩ | cases hcmd

theorem executeFunc_onData (now : ℤ) (tx : TransactionCommand) (s : Session S Λ) (env : Env Λ) :
    (executeFunc now tx s).2.self = s.self ∧
      (executeFunc now tx s).2.world.fileWritable = s.world.fileWritable := by
  rw [executeFunc_eq_dispatch env]
  cases hcmd : queuedCommand tx with
  | none => exact ⟨rfl, rfl⟩
  | some cmd => exact dispatch_onData env now (onData_of_queuedCommand hcmd) tx.args s

/-- Run by itself, the program of the queue is the loop of `EXEC`. -/
theorem run_execLoopProg (env : Env Λ) (now : ℤ) (queue : List TransactionCommand)
    (s : Session S Λ) :
    (execLoopProg s.world.fileWritable queue).run now s.world.data =
        ((execLoop now queue s).1, (execLoop now queue s).2.world.data) ∧
      (execLoop now queue s).2.self = s.self := by
  induction queue generalizing s with
  | nil => exact ⟨rfl, rfl⟩
  | cons tx queue ih =>
    obtain ⟨hself, hwritable⟩ := executeFunc_onData now tx s env
    obtain ⟨hrest, hrest'⟩ := ih (executeFunc now tx s).2
    refine ⟨?_, hrest'.trans hself⟩
    rw [execLoopProg, Prog.run_bind, run_executeProg env, Prog.run_bind]
    rw [hwritable] at hrest
    rw [hrest]
    rfl

theorem run_execProg (env : Env Λ) (now : ℤ) (args : Args) (s : Session S Λ) :
    (execProg s.world.fileWritable args s.self).run now s.world.data =
      (((handleExec now args s).1, (handleExec now args s).2.self),
        (handleExec now args s).2.world.data) := by
  unfold execProg handleExec
  by_cases hargs : args.length = 1
  · by_cases hopen : s.self.inTransaction = true
    · rw [if_neg (not_not.mpr hargs), if_neg (by simp [hopen]), if_neg (not_not.mpr hargs),
        if_neg (by simp [hopen]), Prog.run_bind, run_checkProg, Prog.run_ite]
      obtain ⟨hloop, hself⟩ := run_execLoopProg env now s.self.transactionQueue s
      cases hholds : watchesHold s.self.watchedKeys s.world.data with
      | false =>
        have hall : (s.self.watchedKeys.entries.all fun e =>
            Database.getModCount e.1 s.world.data == e.2) = false := hholds
        rw [if_neg (by simp [hall])]
        rfl
      | true =>
        have hall : (s.self.watchedKeys.entries.all fun e =>
            Database.getModCount e.1 s.world.data == e.2) = true := hholds
        rw [if_pos hall, Prog.run_bind, hloop]
        show ((execReply (execLoop now s.self.transactionQueue s).1, s.self.endTransaction), _) =
          ((_, (execLoop now s.self.transactionQueue s).2.self.endTransaction), _)
        rw [hself]
        rfl
    · rw [if_neg (not_not.mpr hargs), if_pos (by simp [hopen]), if_neg (not_not.mpr hargs),
        if_pos (by simp [hopen])]
      rfl
  · rw [if_pos hargs, if_pos hargs]
    rfl

/-! ### Watched keys and scripts -/

def watchLoopProg : List RespValue → UMap Bytes UInt64 → DataProg S (Bool × UMap Bytes UInt64)
  | [], watched => .ret (true, watched)
  | v :: vs, watched =>
      match v.bulk? with
      | none => .ret (false, watched)
      | some key =>
          (callRead (Database.getModCount key)).bind fun count =>
            watchLoopProg vs (watched.set key count)

def watchProg (args : Args) (p : Processor Λ) : DataProg S (Bytes × Processor Λ) :=
  if args.length < 2 then .ret (errReply "ERR WATCH requires at least 1 argument", p)
  else if p.inTransaction then .ret (errReply "ERR WATCH cannot be used inside MULTI", p)
  else
    (watchLoopProg args.tail p.watchedKeys).bind fun x =>
      .ret (if x.1 then okReply else errReply "ERR WATCH keys must be bulk strings",
        { p with watchedKeys := x.2 })

theorem run_watchLoopProg (now : ℤ) (vs : List RespValue) (watched : UMap Bytes UInt64)
    (d : Data S) : (watchLoopProg vs watched).run now d = (watchLoop d vs watched, d) := by
  induction vs generalizing watched with
  | nil => rfl
  | cons v vs ih =>
    rw [watchLoopProg, watchLoop]
    cases v.bulk? with
    | none => rfl
    | some key => exact ih _

theorem run_watchProg (now : ℤ) (args : Args) (s : Session S Λ) :
    (watchProg args s.self).run now s.world.data =
      (((handleWatch args s).1, (handleWatch args s).2.self), (handleWatch args s).2.world.data) := by
  unfold watchProg handleWatch
  split
  · rfl
  · split
    · rfl
    · rw [Prog.run_bind, run_watchLoopProg]
      rfl

/-- `redis.call` and `redis.pcall`: at most one call of the store. -/
def redisPcallProg (args : List LuaValue) : DataProg S (Option (Except LuaValue LuaValue)) :=
  match args with
  | [] => .ret (some (.error (.string (str "redis.call requires at least 1 argument"))))
  | cmd :: rest =>
      match cmd.toString? with
      | none => .ret (some (.error (.string (str "First argument to redis.call must be a string"))))
      | some cmd =>
          match decide (cmd = str "GET"), decide (cmd = str "SET"), rest with
          | true, _, key :: _ =>
              match key.toString? with
              | none => .ret none
              | some key => (callAt fun now => Database.get now key).bind fun value =>
                  .ret (some (.ok (if value = [] then .nil else .string (cstr value))))
          | false, true, key :: value :: _ =>
              match key.toString?, value.toString? with
              | some key, some value => (callWrite (Database.set key value)).bind fun _ =>
                  .ret (some (.ok (.string (str "OK"))))
              | _, _ => .ret none
          | _, _, _ =>
              .ret (some (.error (.string (str "Command not implemented in Lua scripting"))))

def runLuaProg : LuaRun Λ → DataProg S (Option (Except LuaValue LuaValue × Λ))
  | .done state result => .ret (some (.ok result, state))
  | .raised state err => .ret (some (.error err, state))
  | .call args k =>
      (redisPcallProg args).bind fun x =>
        match x with
        | none => .ret none
        | some result => runLuaProg (k result)
  | .log arg k =>
      match arg.toString? with
      | none => .ret none
      | some _ => runLuaProg k

theorem run_redisPcallProg (now : ℤ) (args : List LuaValue) (d : Data S) :
    LuaScriptingEngine.redisPcall now args d =
      ((redisPcallProg args).run now d).1.map fun x => (x, ((redisPcallProg args).run now d).2) := by
  cases args with
  | nil => rfl
  | cons cmd rest =>
    simp only [LuaScriptingEngine.redisPcall, redisPcallProg]
    cases cmd.toString? with
    | none => rfl
    | some name =>
      simp only
      cases decide (name = str "GET") with
      | true =>
        cases rest with
        | nil => rfl
        | cons key rest =>
          simp only
          cases key.toString? <;> rfl
      | false =>
        cases decide (name = str "SET") with
        | false => rfl
        | true =>
          cases rest with
          | nil => rfl
          | cons key rest =>
            cases rest with
            | nil => rfl
            | cons value rest =>
              simp only
              cases key.toString? with
              | none => rfl
              | some key => cases value.toString? <;> rfl

theorem run_runLuaProg (now : ℤ) (r : LuaRun Λ) (d : Data S) :
    LuaScriptingEngine.runLua now r d =
      ((runLuaProg r).run now d).1.map fun x => (x.1, x.2, ((runLuaProg r).run now d).2) := by
  induction r generalizing d with
  | done state result => rfl
  | raised state err => rfl
  | call args k ih =>
    rw [LuaScriptingEngine.runLua, runLuaProg, run_redisPcallProg, Prog.run_bind]
    cases hx : ((redisPcallProg args).run now d).1 with
    | none => rfl
    | some result => exact ih result _
  | log arg k ih =>
    rw [LuaScriptingEngine.runLua, runLuaProg]
    cases arg.toString? with
    | none => rfl
    | some text => exact ih d

/-- `none` where a null pointer reaches `std::string`. -/
def evalProg (vm : LuaVM Λ) (script : Bytes) (keys args : List Bytes) (e : LuaScriptingEngine Λ) :
    DataProg S (Option (Bytes × LuaScriptingEngine Λ)) :=
  if !LuaScriptingEngine.validateScript script then .ret (some (LuaScriptingEngine.dangerousReply, e))
  else
    match vm.load e.state (cstr script) with
    | some err => .ret ((LuaScriptingEngine.errorText err).map fun text => (text, e))
    | none =>
        (runLuaProg (vm.run e.state (cstr script) (keys.map cstr) (args.map cstr))).bind fun x =>
          match x with
          | none => .ret none
          | some (.error err, state) => .ret ((LuaScriptingEngine.errorText err).map fun text =>
              (text, { e with state := state }))
          | some (.ok result, state) =>
              .ret (some (43 :: (LuaScriptingEngine.resultText result ++ crlf), { e with state := state }))

def evalshaProg (vm : LuaVM Λ) (sha1 : Bytes) (keys args : List Bytes) (e : LuaScriptingEngine Λ) :
    DataProg S (Option (Bytes × LuaScriptingEngine Λ)) :=
  match e.scriptCache.find? sha1 with
  | none => .ret (some (str "-NOSCRIPT No matching script. Please use EVAL.\r\n", e))
  | some script => evalProg vm script keys args e

theorem run_evalProg (vm : LuaVM Λ) (now : ℤ) (script : Bytes) (keys args : List Bytes)
    (e : LuaScriptingEngine Λ) (d : Data S) :
    LuaScriptingEngine.eval vm now script keys args e d =
      ((evalProg vm script keys args e).run now d).1.map fun x =>
        (x.1, x.2, ((evalProg vm script keys args e).run now d).2) := by
  unfold LuaScriptingEngine.eval evalProg
  split
  · rfl
  · cases vm.load e.state (cstr script) with
    | some err =>
      show (LuaScriptingEngine.errorText err).map _ =
        ((LuaScriptingEngine.errorText err).map fun text => (text, e)).map fun x => (x.1, x.2, d)
      rw [Option.map_map]
      rfl
    | none =>
      simp only
      rw [run_runLuaProg, Prog.run_bind]
      cases hx : ((runLuaProg (vm.run e.state (cstr script) (keys.map cstr)
          (args.map cstr))).run now d).1 with
      | none => rfl
      | some x =>
        obtain ⟨result, state⟩ := x
        cases result with
        | error err =>
          show (LuaScriptingEngine.errorText err).map _ =
            ((LuaScriptingEngine.errorText err).map fun text => (text, { e with state := state })).map _
          rw [Option.map_map]
          rfl
        | ok result => rfl

theorem run_evalshaProg (vm : LuaVM Λ) (now : ℤ) (sha1 : Bytes) (keys args : List Bytes)
    (e : LuaScriptingEngine Λ) (d : Data S) :
    LuaScriptingEngine.evalsha vm now sha1 keys args e d =
      ((evalshaProg vm sha1 keys args e).run now d).1.map fun x =>
        (x.1, x.2, ((evalshaProg vm sha1 keys args e).run now d).2) := by
  unfold LuaScriptingEngine.evalsha evalshaProg
  cases e.scriptCache.find? sha1 with
  | none => rfl
  | some script => exact run_evalProg vm now script keys args e d

/-- The script, the keys and the arguments of `EVAL` and `EVALSHA`. -/
def scriptArgs? : Args → Option (Bytes × List Bytes × List Bytes)
  | name :: script :: numKeys :: rest =>
      script.bulk?.bind fun script => numKeys.bulk?.bind fun numKeys => (stoi numKeys).bind fun n =>
        let args := name :: .bulkString script :: .bulkString numKeys :: rest
        if args.length < (wrap32 (3 + n) % 2 ^ 64).toNat then none
        else
          (allBulk ((args.drop 3).take n.toNat)).bind fun keys =>
            (allBulk (args.drop (wrap32 (3 + n)).toNat)).map fun scriptArgs =>
              (script, keys, scriptArgs)
  | _ => none

theorem withScript_of_some {cmd what : String} {run : Bytes → List Bytes → List Bytes →
    Session S Λ → Bytes × Session S Λ} {args : Args} {x : Bytes × List Bytes × List Bytes}
    (h : scriptArgs? args = some x) (s : Session S Λ) :
    withScript cmd what run args s = run x.1 x.2.1 x.2.2 s := by
  unfold scriptArgs? at h
  split at h
  · obtain ⟨script, hscript, h₁⟩ := Option.bind_eq_some_iff.mp h
    obtain ⟨numKeys, hnumKeys, h₂⟩ := Option.bind_eq_some_iff.mp h₁
    obtain ⟨n, hn, h₃⟩ := Option.bind_eq_some_iff.mp h₂
    clear h h₁ h₂
    obtain rfl := bulk?_eq_some hscript
    obtain rfl := bulk?_eq_some hnumKeys
    simp only at h₃
    split at h₃
    · cases h₃
    · rename_i hbound
      obtain ⟨keys, hkeys, h₄⟩ := Option.bind_eq_some_iff.mp h₃
      obtain ⟨scriptArgs, hargs, rfl⟩ := Option.map_eq_some_iff.mp h₄
      simp only [withScript, RespValue.bulk?, hn]
      rw [if_neg hbound]
      simp only [hkeys, hargs]
  · cases h

theorem withScript_of_none {cmd what : String} {run run' : Bytes → List Bytes → List Bytes →
    Session S Λ → Bytes × Session S Λ} {args : Args} (h : scriptArgs? args = none)
    (s s' : Session S Λ) :
    withScript cmd what run args s = ((withScript cmd what run' args s').1, s) := by
  unfold withScript
  split
  · rename_i name script numKeys rest
    cases hscript : script.bulk? with
    | none => rfl
    | some text =>
      cases hnumKeys : numKeys.bulk? with
      | none => rfl
      | some digits =>
        obtain rfl := bulk?_eq_some hscript
        obtain rfl := bulk?_eq_some hnumKeys
        cases hn : stoi digits with
        | none => simp only [hn]
        | some n =>
          simp only [scriptArgs?, RespValue.bulk?, Option.bind_some, hn] at h
          simp only [hn]
          split
          · rfl
          · rename_i hbound
            rw [if_neg hbound] at h
            split
            · rfl
            · rename_i keys hkeys
              rw [hkeys, Option.bind_some] at h
              split
              · rfl
              · rename_i scriptArgs hargs
                rw [hargs] at h
                cases h
  · rfl

/-! ### Whole commands -/

/-- What comes back from a command: its reply, a reply that depends on more than the data (registry,
configuration), or the end of the process. -/
inductive Answer where
  | reply (bytes : Bytes)
  | beyond
  | crash

/-- The engine call of `EVAL` and `EVALSHA`. -/
def scriptProg (parsed : Option (Bytes × List Bytes × List Bytes)) (refusal : Bytes)
    (body : Bytes → List Bytes → List Bytes → LuaScriptingEngine Λ →
      DataProg S (Option (Bytes × LuaScriptingEngine Λ)))
    (p : Processor Λ) : DataProg S (Answer × Processor Λ) :=
  match parsed with
  | none => .ret (.reply refusal, p)
  | some x =>
      (body x.1 x.2.1 x.2.2 p.engine).bind fun y =>
        match y with
        | none => .ret (.crash, p)
        | some y => .ret (.reply y.1, { p with engine := y.2 })

/-- The direct path.  Commands that make no call of the store only change their processor, in the same
way whatever the world is. -/
def dispatchProg (env : Env Λ) (writable : Bool) (cmd : Option Command) (args : Args)
    (p : Processor Λ) : DataProg S (Answer × Processor Λ) :=
  match cmd with
  | some .exec => (execProg writable args p).bind fun x => .ret (.reply x.1, x.2)
  | some .watch => (watchProg args p).bind fun x => .ret (.reply x.1, x.2)
  | some .eval =>
      scriptProg (scriptArgs? args) (handleEval env.vm 0 args (⟨{}, p⟩ : Session S Λ)).1
        (evalProg env.vm) p
  | some .evalsha =>
      scriptProg (scriptArgs? args) (handleEvalsha env.vm 0 args (⟨{}, p⟩ : Session S Λ)).1
        (evalshaProg env.vm) p
  | some cmd =>
      if cmd.onData then (dataProg writable cmd args).bind fun reply => .ret (.reply reply, p)
      else .ret (.beyond, (dispatch env 0 (some cmd) args (⟨{}, p⟩ : Session S Λ)).2.self)
  | none => .ret (.reply (errReply "ERR Unknown command"), p)

def commandProg (env : Env Λ) (writable : Bool) (command : RespValue) (p : Processor Λ) :
    DataProg S (Answer × Processor Λ) :=
  match command with
  | .array (.bulkString name :: rest) =>
      let args := .bulkString name :: rest
      let cmd := Command.ofName name
      if p.inTransaction ∧ cmd ≠ some .exec ∧ cmd ≠ some .discard then
        let tx : TransactionCommand := { commandName := name.map toupper, args := args }
        .ret (.reply queuedReply, { p with transactionQueue := p.transactionQueue ++ [tx] })
      else
        match redirect env cmd args with
        | some x => .ret (.reply (movedReply env x.1 x.2), p)
        | none => dispatchProg env writable cmd args p
  | .array (_ :: _) => .ret (.reply (errReply "ERR Command name must be a bulk string"), p)
  | _ => .ret (.reply (errReply "ERR Invalid command format"), p)

/-- A run of a command's program against what `process_command` does: the same processor and data,
and the same reply where the program has one. -/
def Agrees (x : (Answer × Processor Λ) × Data S) (y : Bytes × Session S Λ) : Prop :=
  match x.1.1 with
  | .reply bytes => y.1 = bytes ∧ y.2.self = x.1.2 ∧ y.2.world.data = x.2
  | .beyond => y.2.self = x.1.2 ∧ y.2.world.data = x.2
  | .crash => y.2.world.aborted = true

theorem agrees_script {now : ℤ} {cmd what : String} {args : Args} {s : Session S Λ}
    {body : Bytes → List Bytes → List Bytes → LuaScriptingEngine Λ →
      DataProg S (Option (Bytes × LuaScriptingEngine Λ))}
    {engine engine' : Bytes → List Bytes → List Bytes → LuaScriptingEngine Λ → Data S →
      Option (Bytes × LuaScriptingEngine Λ × Data S)}
    (hengine : ∀ script keys rest e d, engine script keys rest e d =
      ((body script keys rest e).run now d).1.map fun x =>
        (x.1, x.2, ((body script keys rest e).run now d).2)) :
    Agrees ((scriptProg (scriptArgs? args) (withScript cmd what (fun script keys rest s =>
        scriptOutcome s (engine' script keys rest s.self.engine s.world.data)) args
        (⟨{}, s.self⟩ : Session S Λ)).1 body s.self).run now s.world.data)
      (withScript cmd what (fun script keys rest s =>
        scriptOutcome s (engine script keys rest s.self.engine s.world.data)) args s) := by
  cases hargs : scriptArgs? args with
  | none =>
    rw [withScript_of_none hargs s ⟨{}, s.self⟩]
    exact ⟨rfl, rfl, rfl⟩
  | some x =>
    rw [withScript_of_some hargs s, hengine]
    simp only [scriptProg]
    rw [Prog.run_bind]
    cases ((body x.1 x.2.1 x.2.2 s.self.engine).run now s.world.data).1 with
    | none => exact rfl
    | some y => exact ⟨rfl, rfl, rfl⟩

/-- The commands that make no call of the store. -/
theorem dispatch_beyond (env : Env Λ) (now : ℤ) {cmd : Command} (hdata : cmd.onData = false)
    (hcmd : cmd ≠ .exec ∧ cmd ≠ .watch ∧ cmd ≠ .eval ∧ cmd ≠ .evalsha) (args : Args)
    (s : Session S Λ) :
    (dispatch env now (some cmd) args s).2.self =
        (dispatch env 0 (some cmd) args (⟨{}, s.self⟩ : Session S Λ)).2.self ∧
      (dispatch env now (some cmd) args s).2.world.data = s.world.data := by
  refine ⟨?_, data_dispatch env now hdata hcmd.1 hcmd.2.2.1 hcmd.2.2.2 args s⟩
  cases cmd with
  | multi =>
    simp only [dispatch, handleMulti]
    split
    · rfl
    · split <;> rfl
  | discard =>
    simp only [dispatch, handleDiscard]
    split
    · rfl
    · split <;> rfl
  | unwatch =>
    simp only [dispatch, handleUnwatch]
    split <;> rfl
  | subscribe =>
    simp only [dispatch, handleSubscribe]
    split <;> rfl
  | unsubscribe =>
    simp only [dispatch, handleUnsubscribe]
    split <;> rfl
  | publish =>
    simp only [dispatch, handlePublish]
    split
    · split <;> rfl
    · rfl
  | script =>
    simp only [dispatch, handleScript]
    split
    · split
      · rfl
      · split
        · split <;> rfl
        · split
          · split <;> rfl
          · split <;> rfl
    · rfl
  | cluster => rfl
  | info => rfl
  | exec => exact absurd rfl hcmd.1
  | watch => exact absurd rfl hcmd.2.1
  | eval => exact absurd rfl hcmd.2.2.1
  | evalsha => exact absurd rfl hcmd.2.2.2
  | _ => cases hdata

theorem agrees_dispatch (env : Env Λ) (now : ℤ) (cmd : Option Command) (args : Args)
    (s : Session S Λ) :
    Agrees ((dispatchProg env s.world.fileWritable cmd args s.self).run now s.world.data)
      (dispatch env now cmd args s) := by
  cases cmd with
  | none => exact ⟨rfl, rfl, rfl⟩
  | some c =>
    by_cases hdata : c.onData = true
    · have hprog : dispatchProg (S := S) env s.world.fileWritable (some c) args s.self =
          (dataProg s.world.fileWritable c args).bind fun reply => .ret (.reply reply, s.self) := by
        cases c <;> first | rfl | cases hdata
      rw [hprog, Prog.run_bind, run_dataProg env now hdata args s]
      exact ⟨rfl, (dispatch_onData env now hdata args s).1, rfl⟩
    · by_cases hcall : c ≠ .exec ∧ c ≠ .watch ∧ c ≠ .eval ∧ c ≠ .evalsha
      · have hprog : dispatchProg (S := S) env s.world.fileWritable (some c) args s.self =
            .ret (.beyond, (dispatch env 0 (some c) args (⟨{}, s.self⟩ : Session S Λ)).2.self) := by
          cases c <;> simp_all [dispatchProg, Command.onData]
        rw [hprog]
        exact dispatch_beyond env now (by simpa using hdata) hcall args s
      · cases c with
        | exec =>
          show Agrees (((execProg s.world.fileWritable args s.self).bind _).run now s.world.data)
            (handleExec now args s)
          rw [Prog.run_bind, run_execProg env]
          exact ⟨rfl, rfl, rfl⟩
        | watch =>
          show Agrees (((watchProg args s.self).bind _).run now s.world.data) (handleWatch args s)
          rw [Prog.run_bind, run_watchProg]
          exact ⟨rfl, rfl, rfl⟩
        | eval => exact agrees_script (run_evalProg env.vm now)
        | evalsha => exact agrees_script (run_evalshaProg env.vm now)
        | _ => simp at hcall

/-- Run by itself, the program of a command is `process_command`. -/
theorem agrees_commandProg (env : Env Λ) (now : ℤ) (command : RespValue) (s : Session S Λ) :
    Agrees ((commandProg env s.world.fileWritable command s.self).run now s.world.data)
      (processCommand env now command s) := by
  cases command with
  | array elems =>
    cases elems with
    | nil => exact ⟨rfl, rfl, rfl⟩
    | cons v rest =>
      cases v with
      | bulkString name =>
        simp only [commandProg, processCommand]
        split
        · exact ⟨rfl, rfl, rfl⟩
        · unfold routeAndDispatch
          cases redirect env (Command.ofName name) (.bulkString name :: rest) with
          | some x => exact ⟨rfl, rfl, rfl⟩
          | none => exact agrees_dispatch env now _ _ s
      | _ => exact ⟨rfl, rfl, rfl⟩
  | _ => exact ⟨rfl, rfl, rfl⟩

end MinimalRedis
