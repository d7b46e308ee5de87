import MinimalRedis.Outcomes
import MinimalRedis.Transactions

/-!
# Watched keys

`WATCH k` records the counter of whatever entry lives at `k`, and `EXEC` compares it with the counter
of whatever entry lives there by then; an absent key counts as zero.  A `System` is the shared world
with any number of clients, and a run is any interleaving of whole commands, each at its own time.

* `Tracked k d₀ w d` — at most `w` changes of `k` were counted since `d₀`, or the entry is lost;
* `tracked_processCommand` — a safe command keeps track of `k`;
* `watch_sound_run` — over every run of safe commands, a changed key aborts the `EXEC`.

The unsafe commands: a write that **re-creates** a lost entry (the counter restarts), the loss of an
entry whose counter is zero, the uncounted changes of `SADD` and `HSET`, a script's `SET`, and a second
`WATCH` of a key that has changed.
-/

namespace MinimalRedis

open Lib Session

variable {S : Type} [Score S] {Λ : Type}

/-! ### Keeping track of an entry -/

/-- The entry at `k` is as in `d₀`, or it is there with a counter `j` higher. -/
def Counted (k : Bytes) (j : ℕ) (d₀ d : Data S) : Prop :=
  (j = 0 ∧ d.find? k = d₀.find? k) ∨
    (0 < j ∧ ∃ v, d.find? k = some v ∧ v.modCount = Database.getModCount k d₀ + UInt64.ofNat j)

/-- At most `w` changes of `k` were counted since `d₀`, or the entry is lost and had been counted. -/
def Tracked (k : Bytes) (d₀ : Data S) (w : ℕ) (d : Data S) : Prop :=
  (∃ j ≤ w, Counted k j d₀ d) ∨
    (d.find? k = none ∧ ∃ v, d₀.find? k = some v ∧ v.modCount ≠ 0)

theorem getModCount_congr {k : Bytes} {d d' : Data S} (h : d'.find? k = d.find? k) :
    Database.getModCount k d' = Database.getModCount k d := by
  unfold Database.getModCount
  rw [h]

namespace Tracked

variable {k : Bytes} {d₀ d d' : Data S} {w : ℕ}

theorem refl (k : Bytes) (d : Data S) : Tracked k d 0 d := .inl ⟨0, le_rfl, .inl ⟨rfl, rfl⟩⟩

theorem mono {w' : ℕ} (h : Tracked k d₀ w d) (hw : w ≤ w') : Tracked k d₀ w' d := by
  rcases h with ⟨j, hj, hcount⟩ | hlost
  · exact .inl ⟨j, by omega, hcount⟩
  · exact .inr hlost

theorem same (h : Tracked k d₀ w d) (heq : d'.find? k = d.find? k) : Tracked k d₀ w d' := by
  unfold Tracked Counted at h ⊢
  rw [heq]
  exact h

theorem lost (hnone : d.find? k = none) (hbase : ∀ v, d₀.find? k = some v → v.modCount ≠ 0) :
    Tracked k d₀ w d := by
  cases hv : d₀.find? k with
  | none => exact .inl ⟨0, by omega, .inl ⟨rfl, by rw [hnone, hv]⟩⟩
  | some v => exact .inr ⟨hnone, v, hv, hbase v hv⟩

theorem bumped (h : Tracked k d₀ w d) {v : RedisValue S} (hv : d'.find? k = some v)
    (hcount : v.modCount = Database.getModCount k d + 1)
    (hnew : d.find? k = none → d₀.find? k = none) : Tracked k d₀ (w + 1) d' := by
  rcases h with ⟨j, hj, ⟨rfl, hsame⟩ | ⟨hpos, u, hu, hcount'⟩⟩ | ⟨hnone, u, hu, -⟩
  · refine .inl ⟨1, by omega, .inr ⟨one_pos, v, hv, ?_⟩⟩
    rw [hcount, getModCount_congr hsame]
    rfl
  · refine .inl ⟨j + 1, by omega, .inr ⟨by omega, v, hv, ?_⟩⟩
    rw [hcount, getModCount_of_find? hu, hcount', UInt64.ofNat_add, UInt64.add_assoc]
    rfl
  · rw [hnew hnone] at hu
    cases hu

/-- With fewer than `2 ^ 64` changes, the recorded counter says that nothing changed. -/
theorem find?_of_getModCount (h : Tracked k d₀ w d) (hw : w < 2 ^ 64)
    (heq : Database.getModCount k d = Database.getModCount k d₀) : d.find? k = d₀.find? k := by
  rcases h with ⟨j, hj, ⟨-, hsame⟩ | ⟨hpos, v, hv, hcount⟩⟩ | ⟨hnone, v, hv, hne⟩
  · exact hsame
  · rw [getModCount_of_find? hv, hcount] at heq
    have hzero : UInt64.ofNat j = 0 := by simpa using heq
    have hmod : j % 2 ^ 64 = 0 := by simpa using congrArg UInt64.toNat hzero
    omega
  · rw [getModCount_of_find? hv] at heq
    simp [Database.getModCount, hnone] at heq
    exact absurd heq.symm hne

end Tracked

/-! ### Safe commands -/

/-- A data command that does not mislead the counter of `k` recorded in `d₀`. -/
structure SafeCommand (now : ℤ) (k : Bytes) (d₀ : Data S) (cmd : Option Command) (args : Args)
    (d : Data S) : Prop where
  /-- An entry with counter zero looks like an absent one, so it may not be lost. -/
  erases : Erases now k cmd args d → ∀ v, d₀.find? k = some v → v.modCount ≠ 0
  /-- A lost entry is not created again. -/
  creates : Creates S k cmd args → d.find? k = none → d₀.find? k = none
  counted : ¬ Uncounted k cmd args d

theorem SafeCommand.tracked {env : Env Λ} {now : ℤ} {k : Bytes} {d₀ : Data S}
    {cmd : Option Command} {args : Args} {s : Session S Λ} {w : ℕ}
    (hsafe : SafeCommand now k d₀ cmd args s.world.data) (h : Tracked k d₀ w s.world.data)
    (hexec : cmd ≠ some .exec) (heval : cmd ≠ some .eval) (hsha : cmd ≠ some .evalsha) :
    Tracked k d₀ (w + 1) (dispatch env now cmd args s).2.world.data := by
  rcases outcome_dispatch env now hexec heval hsha hsafe.counted with
    hsame | ⟨herases, hnone⟩ | ⟨v, hv, hcount, hnew⟩
  · exact (h.same hsame).mono (by omega)
  · exact .lost hnone (hsafe.erases herases)
  · exact h.bumped hv hcount fun hnone => hsafe.creates (hnew hnone) hnone

/-- The command a queued closure runs, `none` for the names its table lacks. -/
def queuedCommand (tx : TransactionCommand) : Option Command :=
  (commandTable.lookup tx.commandName).filter fun cmd => !cmd.lacksClosure && !cmd.isControl

theorem executeFunc_eq_dispatch (env : Env Λ) (now : ℤ) (tx : TransactionCommand)
    (s : Session S Λ) : executeFunc now tx s = dispatch env now (queuedCommand tx) tx.args s := by
  unfold executeFunc queuedCommand
  cases commandTable.lookup tx.commandName with
  | none => rfl
  | some cmd => cases cmd <;> rfl

/-- The names that the table of closures lacks. -/
theorem queuedCommand_ne {tx : TransactionCommand} {cmd : Command}
    (hcmd : (cmd.lacksClosure || cmd.isControl) = true) : queuedCommand tx ≠ some cmd := by
  intro heq
  have hkept := (Option.filter_eq_some_iff.mp heq).2
  cases hlacks : cmd.lacksClosure <;> cases hcontrol : cmd.isControl <;> simp_all

/-- Every command of the queue is safe when its turn comes. -/
def SafeQueue (now : ℤ) (k : Bytes) (d₀ : Data S) :
    List TransactionCommand → Session S Λ → Prop
  | [], _ => True
  | tx :: queue, s =>
      SafeCommand now k d₀ (queuedCommand tx) tx.args s.world.data ∧
        SafeQueue now k d₀ queue (executeFunc now tx s).2

theorem SafeQueue.tracked (env : Env Λ) {now : ℤ} {k : Bytes} {d₀ : Data S}
    {queue : List TransactionCommand} {s : Session S Λ} {w : ℕ}
    (hsafe : SafeQueue now k d₀ queue s) (h : Tracked k d₀ w s.world.data) :
    Tracked k d₀ (w + queue.length) (execLoop now queue s).2.world.data := by
  induction queue generalizing s w with
  | nil => exact h
  | cons tx queue ih =>
    obtain ⟨hcommand, hqueue⟩ := hsafe
    have hstep : Tracked k d₀ (w + 1) (executeFunc now tx s).2.world.data := by
      rw [executeFunc_eq_dispatch env]
      exact hcommand.tracked h (queuedCommand_ne rfl) (queuedCommand_ne rfl) (queuedCommand_ne rfl)
    have hrest := ih hqueue hstep
    rw [List.length_cons, show w + (queue.length + 1) = w + 1 + queue.length by omega]
    exact hrest

/-! ### Scripts -/

/-- The script's call neither sets `k` nor loses an entry with counter zero. -/
def SafeCall (now : ℤ) (k : Bytes) (d₀ : Data S) (args : List LuaValue) (d : Data S) : Prop :=
  ∀ cmd key rest, args = cmd :: key :: rest → key.toString? = some k →
    (cmd.toString? = some (str "SET") → rest = []) ∧
      (Expired now k d → ∀ v, d₀.find? k = some v → v.modCount ≠ 0)

/-- Every call of the run is safe when it is made. -/
def SafeScript (now : ℤ) (k : Bytes) (d₀ : Data S) : LuaRun Λ → Data S → Prop
  | .done _ _, _ => True
  | .raised _ _, _ => True
  | .call args c, d => SafeCall now k d₀ args d ∧
      ∀ x, LuaScriptingEngine.redisPcall now args d = some x → SafeScript now k d₀ (c x.1) x.2
  | .log _ r, d => SafeScript now k d₀ r d

/-- What a script's call does to the data. -/
theorem redisPcall_cases {now : ℤ} {args : List LuaValue} {d : Data S}
    {x : Except LuaValue LuaValue × Data S}
    (hx : LuaScriptingEngine.redisPcall now args d = some x) :
    x.2 = d ∨
      (∃ cmd key rest name, args = cmd :: key :: rest ∧ key.toString? = some name ∧
        x.2 = (Database.get now name d).2) ∨
      ∃ cmd key value rest name text, args = cmd :: key :: value :: rest ∧
        cmd.toString? = some (str "SET") ∧ key.toString? = some name ∧
        value.toString? = some text ∧ x.2 = Database.set name text d := by
  unfold LuaScriptingEngine.redisPcall at hx
  split at hx
  · obtain rfl := Option.some.inj hx
    exact .inl rfl
  · rename_i cmd rest
    split at hx
    · obtain rfl := Option.some.inj hx
      exact .inl rfl
    · rename_i name hname
      split at hx
      · obtain ⟨key', hkey, rfl⟩ := Option.map_eq_some_iff.mp hx
        exact .inr (.inl ⟨cmd, _, _, key', rfl, hkey, rfl⟩)
      · rename_i hset
        obtain ⟨key', hkey, hx⟩ := Option.bind_eq_some_iff.mp hx
        obtain ⟨text, htext, rfl⟩ := Option.map_eq_some_iff.mp hx
        rw [of_decide_eq_true hset] at hname
        exact .inr (.inr ⟨cmd, _, _, _, key', text, rfl, hname, hkey, htext, rfl⟩)
      · obtain rfl := Option.some.inj hx
        exact .inl rfl

theorem SafeCall.tracked {now : ℤ} {k : Bytes} {d₀ d : Data S} {args : List LuaValue} {w : ℕ}
    {x : Except LuaValue LuaValue × Data S} (hsafe : SafeCall now k d₀ args d)
    (h : Tracked k d₀ w d) (hx : LuaScriptingEngine.redisPcall now args d = some x) :
    Tracked k d₀ w x.2 := by
  rcases redisPcall_cases hx with
    hdata | ⟨cmd, key, rest, name, rfl, hkey, hdata⟩ |
      ⟨cmd, key, value, rest, name, text, rfl, hcmd, hkey, -, hdata⟩
  · rw [hdata]
    exact h
  · -- `GET` may erase an expired entry
    rw [hdata]
    have hpurged : Purged now name d (Database.get now name d).2 :=
      purged_ifTypedLive now .string [] _ name d
    by_cases hk : name = k
    · subst hk
      rcases hpurged with heq | ⟨hexp, heq⟩
      · exact h.same (by rw [heq])
      · refine .lost ?_ ((hsafe cmd key rest rfl hkey).2 hexp)
        rw [heq, UMap.find?_erase_self]
    · exact h.same (OnlyAt.of_purged hpurged k (Ne.symm hk))
  · -- `SET` of another key
    rw [hdata]
    have hk : k ≠ name := by
      intro hk
      subst hk
      have hrest := (hsafe cmd key (value :: rest) rfl hkey).1 hcmd
      cases hrest
    exact h.same (UMap.find?_set_ne d _ hk)

theorem SafeScript.tracked {now : ℤ} {k : Bytes} {d₀ d : Data S} {r : LuaRun Λ} {w : ℕ}
    {x : Except LuaValue LuaValue × Λ × Data S} (hsafe : SafeScript now k d₀ r d)
    (h : Tracked k d₀ w d) (hx : LuaScriptingEngine.runLua now r d = some x) :
    Tracked k d₀ w x.2.2 := by
  induction r generalizing d with
  | done state result =>
    obtain rfl := Option.some.inj hx
    exact h
  | raised state err =>
    obtain rfl := Option.some.inj hx
    exact h
  | call args c ih =>
    obtain ⟨hcall, hrest⟩ := hsafe
    rw [LuaScriptingEngine.runLua] at hx
    split at hx
    · cases hx
    · rename_i y hy
      exact ih y.1 (hrest y hy) (hcall.tracked h hy) hx
  | log arg r ih =>
    rw [LuaScriptingEngine.runLua] at hx
    split at hx
    · cases hx
    · exact ih hsafe h hx

/-- What `EVAL` and `EVALSHA` read from arguments they accept. -/
def ScriptArgs (args : Args) (script : Bytes) (keys scriptArgs : List Bytes) : Prop :=
  ∃ name text more n, args = name :: .bulkString script :: .bulkString text :: more ∧
    stoi text = some n ∧ ¬ args.length < (wrap32 (3 + n) % 2 ^ 64).toNat ∧
    allBulk ((args.drop 3).take n.toNat) = some keys ∧
    allBulk (args.drop (wrap32 (3 + n)).toNat) = some scriptArgs

theorem withScript_cases (cmd what : String) (run : Bytes → List Bytes → List Bytes →
    Session S Λ → Bytes × Session S Λ) (args : Args) (s : Session S Λ) :
    (withScript cmd what run args s).2 = s ∨
      ∃ script keys scriptArgs, ScriptArgs args script keys scriptArgs ∧
        withScript cmd what run args s = run script keys scriptArgs s := by
  unfold withScript
  split
  · rename_i name script numKeys more
    split
    · rename_i script' text hscript htext
      obtain rfl := bulk?_eq_some hscript
      obtain rfl := bulk?_eq_some htext
      split
      · exact .inl rfl
      · rename_i n hn
        dsimp only
        split
        · exact .inl rfl
        · rename_i hbound
          split
          · exact .inl rfl
          · rename_i keys hkeys
            split
            · exact .inl rfl
            · rename_i scriptArgs hargs
              exact .inr ⟨script', keys, scriptArgs,
                ⟨name, text, more, n, rfl, hn, hbound, hkeys, hargs⟩, rfl⟩
    · exact .inl rfl
  · exact .inl rfl

/-- `EVAL` refuses its arguments or runs the script. -/
theorem handleEval_cases (vm : LuaVM Λ) (now : ℤ) (args : Args) (s : Session S Λ) :
    (handleEval vm now args s).2 = s ∨
      ∃ script keys scriptArgs, ScriptArgs args script keys scriptArgs ∧
        handleEval vm now args s = scriptOutcome s
          (LuaScriptingEngine.eval vm now script keys scriptArgs s.self.engine s.world.data) :=
  withScript_cases "EVAL" "script" _ args s

/-- `EVALSHA` refuses its arguments, misses the cache, or runs the cached script. -/
theorem handleEvalsha_cases (vm : LuaVM Λ) (now : ℤ) (args : Args) (s : Session S Λ) :
    (handleEvalsha vm now args s).2 = s ∨
      ∃ sha keys scriptArgs script, ScriptArgs args sha keys scriptArgs ∧
        s.self.engine.scriptCache.find? sha = some script ∧
        handleEvalsha vm now args s = scriptOutcome s
          (LuaScriptingEngine.eval vm now script keys scriptArgs s.self.engine s.world.data) := by
  rcases withScript_cases "EVALSHA" "sha1" (fun sha1 keys args s => scriptOutcome s
      (LuaScriptingEngine.evalsha vm now sha1 keys args s.self.engine s.world.data)) args s with
    hs | ⟨sha, keys, scriptArgs, hargs, hs⟩
  · exact .inl hs
  · rw [handleEvalsha, hs]
    unfold LuaScriptingEngine.evalsha
    split
    · exact .inl rfl
    · rename_i script hscript
      exact .inr ⟨sha, keys, scriptArgs, script, hargs, hscript, rfl⟩

/-- A script call leaves the data, or leaves what the run of its script left. -/
theorem data_eval_cases (vm : LuaVM Λ) (now : ℤ) (script : Bytes) (keys args : List Bytes)
    (s : Session S Λ) :
    (scriptOutcome s (LuaScriptingEngine.eval vm now script keys args s.self.engine
        s.world.data)).2.world.data = s.world.data ∨
      ∃ x, LuaScriptingEngine.runLua now
          (vm.run s.self.engine.state (cstr script) (keys.map cstr) (args.map cstr)) s.world.data =
            some x ∧
        (scriptOutcome s (LuaScriptingEngine.eval vm now script keys args s.self.engine
          s.world.data)).2.world.data = x.2.2 := by
  unfold LuaScriptingEngine.eval
  split
  · exact .inl rfl
  · split
    · rename_i err _
      cases LuaScriptingEngine.errorText err <;> exact .inl rfl
    · split
      · exact .inl rfl
      · rename_i err state d hrun
        -- an error value without a text ends the process, before the session takes the data
        cases LuaScriptingEngine.errorText err with
        | none => exact .inl rfl
        | some text => exact .inr ⟨_, hrun, rfl⟩
      · rename_i result state d hrun
        exact .inr ⟨_, hrun, rfl⟩

section ScriptCalls

variable {vm : LuaVM Λ} {now : ℤ} {k : Bytes} {d₀ : Data S} {w : ℕ}

/-- The run of a script on a session's engine and data is safe. -/
def SafeEval (vm : LuaVM Λ) (now : ℤ) (k : Bytes) (d₀ : Data S) (script : Bytes)
    (keys args : List Bytes) (s : Session S Λ) : Prop :=
  SafeScript now k d₀
    (vm.run s.self.engine.state (cstr script) (keys.map cstr) (args.map cstr)) s.world.data

theorem SafeEval.tracked {script : Bytes} {keys args : List Bytes} {s : Session S Λ}
    (hsafe : SafeEval vm now k d₀ script keys args s) (h : Tracked k d₀ w s.world.data) :
    Tracked k d₀ w (scriptOutcome s
      (LuaScriptingEngine.eval vm now script keys args s.self.engine s.world.data)).2.world.data := by
  rcases data_eval_cases vm now script keys args s with hsame | ⟨x, hrun, hdata⟩
  · exact h.same (by rw [hsame])
  · rw [hdata]
    exact SafeScript.tracked hsafe h hrun

end ScriptCalls

/-! ### One step -/

/-- A command on the direct path is safe: the queue an `EXEC` runs, the script a script call runs, or
the data command itself. -/
def SafeDispatch (env : Env Λ) (now : ℤ) (k : Bytes) (d₀ : Data S) (cmd : Option Command)
    (args : Args) (s : Session S Λ) : Prop :=
  match cmd with
  | some .exec => args.length = 1 → s.self.inTransaction = true →
      watchesHold s.self.watchedKeys s.world.data = true →
        SafeQueue now k d₀ s.self.transactionQueue s
  | some .eval => ∀ script keys scriptArgs, ScriptArgs args script keys scriptArgs →
      SafeEval env.vm now k d₀ script keys scriptArgs s
  | some .evalsha => ∀ sha keys scriptArgs script, ScriptArgs args sha keys scriptArgs →
      s.self.engine.scriptCache.find? sha = some script →
        SafeEval env.vm now k d₀ script keys scriptArgs s
  | cmd => SafeCommand now k d₀ cmd args s.world.data

/-- The step is safe: a command that is queued, redirected or malformed changes no data. -/
def SafeStep (env : Env Λ) (now : ℤ) (k : Bytes) (d₀ : Data S) (command : RespValue)
    (s : Session S Λ) : Prop :=
  ∀ name rest, command = .array (.bulkString name :: rest) →
    ¬ (s.self.inTransaction ∧ Command.ofName name ≠ some .exec ∧
      Command.ofName name ≠ some .discard) →
    redirect env (Command.ofName name) (.bulkString name :: rest) = none →
      SafeDispatch env now k d₀ (Command.ofName name) (.bulkString name :: rest) s

section Steps

variable {env : Env Λ} {now : ℤ} {k : Bytes} {d₀ : Data S} {s : Session S Λ} {w : ℕ}

theorem SafeDispatch.tracked {cmd : Option Command} {args : Args}
    (hsafe : SafeDispatch env now k d₀ cmd args s) (h : Tracked k d₀ w s.world.data) :
    Tracked k d₀ (w + (s.self.transactionQueue.length + 1))
      (dispatch env now cmd args s).2.world.data := by
  by_cases hexec : cmd = some .exec
  · subst hexec
    show Tracked k d₀ _ (handleExec now args s).2.world.data
    unfold handleExec
    split
    · exact h.mono (by omega)
    · rename_i hargs
      split
      · exact h.mono (by omega)
      · rename_i hin
        split
        · exact h.mono (by omega)
        · rename_i hwatch
          have hqueue := hsafe (by simpa using hargs) (by simpa using hin) (by simpa using hwatch)
          exact (hqueue.tracked env h).mono (by omega)
  · by_cases heval : cmd = some .eval
    · subst heval
      rcases handleEval_cases env.vm now args s with hs | ⟨script, keys, scriptArgs, hargs, hs⟩
      · exact (h.same (by rw [dispatch, hs])).mono (by omega)
      · rw [dispatch, hs]
        exact ((hsafe script keys scriptArgs hargs).tracked h).mono (by omega)
    · by_cases hsha : cmd = some .evalsha
      · subst hsha
        rcases handleEvalsha_cases env.vm now args s with
          hs | ⟨sha, keys, scriptArgs, script, hargs, hscript, hs⟩
        · exact (h.same (by rw [dispatch, hs])).mono (by omega)
        · rw [dispatch, hs]
          exact ((hsafe sha keys scriptArgs script hargs hscript).tracked h).mono (by omega)
      · have hcommand : SafeCommand now k d₀ cmd args s.world.data := by
          unfold SafeDispatch at hsafe
          split at hsafe
          · exact absurd rfl hexec
          · exact absurd rfl heval
          · exact absurd rfl hsha
          · exact hsafe
        exact (hcommand.tracked h hexec heval hsha).mono (by omega)

theorem tracked_processCommand {command : RespValue} (hsafe : SafeStep env now k d₀ command s)
    (h : Tracked k d₀ w s.world.data) :
    Tracked k d₀ (w + (s.self.transactionQueue.length + 1))
      (processCommand env now command s).2.world.data := by
  unfold processCommand
  split
  · rename_i name rest
    dsimp only
    split
    · exact h.mono (by omega)
    · rename_i hdirect
      unfold routeAndDispatch
      split
      · exact h.mono (by omega)
      · rename_i hroute
        exact (hsafe name rest rfl hdirect hroute).tracked h
  · exact h.mono (by omega)
  · exact h.mono (by omega)

end Steps

/-! ### The recorded counter -/

section Records

variable {env : Env Λ} {now : ℤ} {k : Bytes} {s : Session S Λ}

/-- A `WATCH` of `k` outside a transaction finds the counter `n`. -/
def KeepsRecord (k : Bytes) (n : UInt64) (command : RespValue) (s : Session S Λ) : Prop :=
  ∀ name rest, command = .array (.bulkString name :: rest) → Command.ofName name = some .watch →
    s.self.inTransaction = false → k ∈ leadingBulk rest → Database.getModCount k s.world.data = n

/-- `WATCH` records the keys before its first bad argument. -/
theorem find?_handleWatch (hout : s.self.inTransaction = false) (name : RespValue)
    {rest : List RespValue} (k : Bytes) :
    (handleWatch (name :: rest) s).2.self.watchedKeys.find? k =
      if k ∈ leadingBulk rest then some (Database.getModCount k s.world.data)
      else s.self.watchedKeys.find? k := by
  cases rest with
  | nil => rfl
  | cons v vs =>
    have hlen : ¬ (name :: v :: vs).length < 2 := by simp
    simp only [handleWatch, if_neg hlen, hout, Bool.false_eq_true, if_false, List.tail_cons,
      watchLoop_eq, UMap.find?_setMany, lookupLast_map_key]
    split <;> rfl

/-- Apart from the commands of transactions, the handlers change nothing of their processor but its
engine, and of that only `SCRIPT` the cache. -/
theorem self_dispatch (env : Env Λ) (now : ℤ) {cmd : Option Command}
    (hcmd : ∀ c, cmd = some c → c.isControl = false) (args : Args) (s : Session S Λ) :
    ∃ engine, (dispatch env now cmd args s).2.self = { s.self with engine := engine } ∧
      (cmd ≠ some .script → engine.scriptCache = s.self.engine.scriptCache) := by
  have hkept : ∀ {s' : Session S Λ}, s'.self = s.self →
      ∃ engine, s'.self = { s.self with engine := engine } ∧
        (cmd ≠ some .script → engine.scriptCache = s.self.engine.scriptCache) :=
    fun h => ⟨_, h, fun _ => rfl⟩
  have houtcome : ∀ x : Option (Bytes × LuaScriptingEngine Λ × Data S),
      (∀ y, x = some y → y.2.1.scriptCache = s.self.engine.scriptCache) →
      ∃ engine, (scriptOutcome s x).2.self = { s.self with engine := engine } ∧
        (cmd ≠ some .script → engine.scriptCache = s.self.engine.scriptCache) := by
    intro x hx
    cases x with
    | none => exact hkept rfl
    | some y => exact ⟨_, rfl, fun _ => hx y rfl⟩
  cases cmd with
  | none => exact hkept rfl
  | some cmd =>
    cases cmd with
    | multi | exec | discard | watch | unwatch => cases hcmd _ rfl
    | save =>
      apply hkept
      show (handleSave args s).2.self = _
      unfold handleSave
      split
      · rfl
      · split <;> rfl
    | subscribe =>
      apply hkept
      show (handleSubscribe args s).2.self = _
      unfold handleSubscribe
      split <;> rfl
    | unsubscribe =>
      apply hkept
      show (handleUnsubscribe args s).2.self = _
      unfold handleUnsubscribe
      split <;> rfl
    | publish =>
      apply hkept
      show (handlePublish args s).2.self = _
      unfold handlePublish
      split
      · split <;> rfl
      · rfl
    | script =>
      obtain ⟨engine, hself⟩ :
          ∃ engine, (handleScript args s).2.self = { s.self with engine := engine } := by
        unfold handleScript
        split
        · split
          · exact ⟨_, rfl⟩
          · split
            · split <;> exact ⟨_, rfl⟩
            · split
              · split <;> exact ⟨_, rfl⟩
              · split <;> exact ⟨_, rfl⟩
        · exact ⟨_, rfl⟩
      exact ⟨engine, hself, fun h => absurd rfl h⟩
    | eval =>
      show ∃ engine, (handleEval env.vm now args s).2.self = _ ∧ _
      rcases handleEval_cases env.vm now args s with hs | ⟨script, keys, scriptArgs, -, hs⟩
      · exact hkept (by rw [hs])
      · rw [hs]
        exact houtcome _ fun y hy => LuaScriptingEngine.scriptCache_eval hy
    | evalsha =>
      show ∃ engine, (handleEvalsha env.vm now args s).2.self = _ ∧ _
      rcases handleEvalsha_cases env.vm now args s with
        hs | ⟨sha, keys, scriptArgs, script, -, -, hs⟩
      · exact hkept (by rw [hs])
      · rw [hs]
        exact houtcome _ fun y hy => LuaScriptingEngine.scriptCache_eval hy
    | _ => exact hkept rfl

/-- Only `EXEC`, `WATCH` and `UNWATCH` touch the watched keys; `DISCARD` does not. -/
theorem watchedKeys_dispatch {cmd : Option Command} (hexec : cmd ≠ some .exec)
    (hwatch : cmd ≠ some .watch) (hunwatch : cmd ≠ some .unwatch) (args : Args) :
    (dispatch env now cmd args s).2.self.watchedKeys = s.self.watchedKeys := by
  by_cases hmulti : cmd = some .multi
  · subst hmulti
    show (handleMulti args s).2.self.watchedKeys = _
    unfold handleMulti
    split
    · rfl
    · split <;> rfl
  · by_cases hdiscard : cmd = some .discard
    · subst hdiscard
      show (handleDiscard args s).2.self.watchedKeys = _
      unfold handleDiscard
      split
      · rfl
      · split <;> rfl
    · have hcontrol : ∀ c, cmd = some c → c.isControl = false := by
        intro c hc
        subst hc
        cases c <;> first | rfl | contradiction
      obtain ⟨engine, hself, -⟩ := self_dispatch env now hcontrol args s
      rw [hself]

theorem find?_watchedKeys_processCommand {n : UInt64} {command : RespValue}
    (hrecord : s.self.watchedKeys.find? k = some n) (hkeep : KeepsRecord k n command s)
    (hexec : command.command? ≠ some .exec) (hunwatch : command.command? ≠ some .unwatch) :
    (processCommand env now command s).2.self.watchedKeys.find? k = some n := by
  unfold processCommand
  split
  · rename_i name rest
    dsimp only
    split
    · exact hrecord
    · rename_i hdirect
      unfold routeAndDispatch
      split
      · exact hrecord
      · by_cases hwatch : Command.ofName name = some .watch
        · have hout : s.self.inTransaction = false := by
            by_contra hin
            exact hdirect ⟨by simpa using hin, by rw [hwatch]; decide, by rw [hwatch]; decide⟩
          rw [hwatch]
          show (handleWatch _ s).2.self.watchedKeys.find? k = some n
          rw [find?_handleWatch hout]
          split
          · rename_i hmem
            rw [hkeep name rest rfl hwatch hout hmem]
          · exact hrecord
        · have hexec' : Command.ofName name ≠ some .exec := hexec
          rw [watchedKeys_dispatch hexec' hwatch hunwatch]
          exact hrecord
  · exact hrecord
  · exact hrecord

end Records

/-! ### Systems of clients -/

/-- The shared world and the processors of all clients. -/
structure System (S Λ : Type) [Score S] where
  world : World S
  clients : ℕ → Processor Λ

/-- A command of a client, with the time at which it is processed. -/
structure Request where
  client : ℕ
  now : ℤ
  command : RespValue

namespace System

def session (sys : System S Λ) (client : ℕ) : Session S Λ := ⟨sys.world, sys.clients client⟩

/-- One whole command of one client: its reply and the system after it. -/
def step (env : Env Λ) (sys : System S Λ) (r : Request) : Bytes × System S Λ :=
  let x := processCommand env r.now r.command (sys.session r.client)
  (x.1, ⟨x.2.world, Function.update sys.clients r.client x.2.self⟩)

def run (env : Env Λ) (rs : List Request) (sys : System S Λ) : System S Λ :=
  rs.foldl (fun sys r => (sys.step env r).2) sys

/-- An upper bound on the number of commands a run executes, queued ones included. -/
def work (env : Env Λ) : List Request → System S Λ → ℕ
  | [], _ => 0
  | r :: rs, sys =>
      (sys.clients r.client).transactionQueue.length + 1 + work env rs (sys.step env r).2

end System

/-- Every step of the run is safe, and client `A` watches `k` again only at its recorded counter. -/
def SafeRun (env : Env Λ) (A : ℕ) (k : Bytes) (d₀ : Data S) : List Request → System S Λ → Prop
  | [], _ => True
  | r :: rs, sys =>
      SafeStep env r.now k d₀ r.command (sys.session r.client) ∧
        (r.client = A → KeepsRecord k (Database.getModCount k d₀) r.command (sys.session A)) ∧
        SafeRun env A k d₀ rs (sys.step env r).2

theorem tracked_run {env : Env Λ} {A : ℕ} {k : Bytes} {d₀ : Data S} {rs : List Request}
    {sys : System S Λ} {w : ℕ} (hsafe : SafeRun env A k d₀ rs sys)
    (hown : ∀ r ∈ rs, r.client = A →
      r.command.command? ≠ some .exec ∧ r.command.command? ≠ some .unwatch)
    (h : Tracked k d₀ w sys.world.data)
    (hrecord : (sys.clients A).watchedKeys.find? k = some (Database.getModCount k d₀)) :
    Tracked k d₀ (w + sys.work env rs) (sys.run env rs).world.data ∧
      ((sys.run env rs).clients A).watchedKeys.find? k = some (Database.getModCount k d₀) := by
  induction rs generalizing sys w with
  | nil => exact ⟨h, hrecord⟩
  | cons r rs ih =>
    obtain ⟨hstep, hkeep, hrest⟩ := hsafe
    have hstep' := tracked_processCommand hstep h
    have hrecord' : ((sys.step env r).2.clients A).watchedKeys.find? k =
        some (Database.getModCount k d₀) := by
      by_cases hA : r.client = A
      · obtain ⟨hexec, hunwatch⟩ := hown r (by simp) hA
        subst hA
        show (Function.update sys.clients r.client _ r.client).watchedKeys.find? k = _
        rw [Function.update_self]
        exact find?_watchedKeys_processCommand hrecord (hkeep rfl) hexec hunwatch
      · show (Function.update sys.clients r.client _ A).watchedKeys.find? k = _
        rw [Function.update_of_ne (Ne.symm hA)]
        exact hrecord
    have := ih hrest (fun r' hr' => hown r' (by simp [hr'])) hstep' hrecord'
    rw [System.work, ← Nat.add_assoc]
    exact this

/-! ### Soundness -/

theorem getModCount_of_watchesHold {watched : UMap Bytes UInt64} {d : Data S} {k : Bytes}
    {n : UInt64} (h : watchesHold watched d = true) (hk : watched.find? k = some n) :
    Database.getModCount k d = n := by
  have := List.all_eq_true.mp h (k, n) (UMap.mem_entries_iff.mpr hk)
  simpa using this

/-- A `WATCH` outside a transaction leaves the data alone. -/
theorem data_step_watch {env : Env Λ} {sys : System S Λ} {r : Request}
    (hcommand : r.command.command? = some .watch)
    (hidle : (sys.clients r.client).inTransaction = false) :
    (sys.step env r).2.world.data = sys.world.data := by
  show (processCommand env r.now r.command (sys.session r.client)).2.world.data = _
  rw [processCommand_direct env r.now hcommand rfl (.inl hidle)]
  apply data_dispatch
  · rfl
  · nofun
  · nofun
  · nofun

/-- `EXEC` with a watched counter that differs. -/
theorem processCommand_exec_abort (env : Env Λ) (now : ℤ) {name : Bytes} {s : Session S Λ}
    (hname : Command.ofName name = some .exec) (hin : s.self.inTransaction = true)
    (hwatch : watchesHold s.self.watchedKeys s.world.data = false) :
    processCommand env now (.array [.bulkString name]) s = (execAbortReply, s.endTransaction) := by
  simp [processCommand, hname, routeAndDispatch, redirect, dispatch, handleExec, hin, hwatch]

/-- Client `A` watches `k`, then any clients run any safe commands, `A` neither `EXEC` nor `UNWATCH`,
and fewer than `2 ^ 64` of them are executed.  If `k` is not what it was, `A`'s `EXEC` aborts and runs
nothing. -/
theorem watch_sound_run (env : Env Λ) (sys : System S Λ) (A : ℕ) (k : Bytes) (watch exec : Request)
    (mid : List Request)
    (hwatch : watch.client = A ∧ ∃ name rest, watch.command = .array (.bulkString name :: rest) ∧
      Command.ofName name = some .watch ∧ k ∈ leadingBulk rest)
    (hout : (sys.clients A).inTransaction = false)
    (hown : ∀ r ∈ mid, r.client = A →
      r.command.command? ≠ some .exec ∧ r.command.command? ≠ some .unwatch)
    (hsafe : SafeRun env A k sys.world.data mid (sys.step env watch).2)
    (hwork : (sys.step env watch).2.work env mid < 2 ^ 64)
    (hexec : exec.client = A ∧ ∃ name, exec.command = .array [.bulkString name] ∧
      Command.ofName name = some .exec)
    (hin : (((sys.step env watch).2.run env mid).clients A).inTransaction = true)
    (hchanged : ¬ SameView k sys.world.data ((sys.step env watch).2.run env mid).world.data) :
    (((sys.step env watch).2.run env mid).step env exec).1 = execAbortReply ∧
      (((sys.step env watch).2.run env mid).step env exec).2.world =
        ((sys.step env watch).2.run env mid).world := by
  obtain ⟨rfl, name, rest, hcommand, hname, hmem⟩ := hwatch
  obtain ⟨hclient, ename, hecommand, hename⟩ := hexec
  have hcmd : watch.command.command? = some .watch := by
    rw [hcommand]
    exact hname
  -- the `WATCH` leaves the data alone and records the counter
  have hdata : (sys.step env watch).2.world.data = sys.world.data := data_step_watch hcmd hout
  have hrecord : ((sys.step env watch).2.clients watch.client).watchedKeys.find? k =
      some (Database.getModCount k sys.world.data) := by
    show (Function.update sys.clients watch.client _ watch.client).watchedKeys.find? k = _
    rw [Function.update_self, processCommand_direct env watch.now hcmd rfl (.inl hout)]
    rw [hcommand]
    exact (find?_handleWatch (s := sys.session watch.client) hout _ k).trans (if_pos hmem)
  obtain ⟨htracked, hkept⟩ := tracked_run hsafe hown
    ((Tracked.refl k sys.world.data).same (by rw [hdata])) hrecord
  generalize (sys.step env watch).2.run env mid = sys' at *
  -- equal counters would mean an equal entry
  have habort : watchesHold (sys'.clients watch.client).watchedKeys sys'.world.data = false := by
    by_contra hhold
    have hcount := getModCount_of_watchesHold (by simpa using hhold) hkept
    exact hchanged (sameView_of_find? (htracked.find?_of_getModCount (by omega) hcount))
  have hstep : processCommand env exec.now exec.command (sys'.session exec.client) =
      (execAbortReply, (sys'.session exec.client).endTransaction) := by
    rw [hecommand]
    apply processCommand_exec_abort env exec.now hename
    · rw [hclient]
      exact hin
    · rw [hclient]
      exact habort
  unfold System.step
  rw [hstep]
  exact ⟨rfl, rfl⟩

/-- A server that holds `d`, with new clients only. -/
def System.fresh (d : Data S) : System S Unit where
  world := { data := d }
  clients _ := { engine := { state := () } }

def request (client : ℕ) (words : List String) : Request where
  client := client
  now := 0
  command := .array (words.map fun w => .bulkString (str w))

/-- Client 1 sets the key that client 0 watches. -/
theorem watch_detects_set :
    let sys : System NatScore Unit := .fresh ∅
    let mid := [request 1 ["SET", "k", "v"], request 0 ["MULTI"]]
    let sys' := (sys.step .standalone (request 0 ["WATCH", "k"])).2.run .standalone mid
    ¬ SameView (str "k") sys.world.data sys'.world.data ∧
      (sys'.step .standalone (request 0 ["EXEC"])).1 = execAbortReply ∧
      (sys'.step .standalone (request 0 ["EXEC"])).2.world = sys'.world := by
  intro sys mid sys'
  have hchanged : ¬ SameView (str "k") sys.world.data sys'.world.data := id
  refine ⟨hchanged, watch_sound_run .standalone sys 0 (str "k") (request 0 ["WATCH", "k"])
    (request 0 ["EXEC"]) mid ⟨rfl, str "WATCH", [.bulkString (str "k")], rfl, by decide, by decide⟩
    rfl ?_ ?_ (by decide) ⟨rfl, str "EXEC", rfl, by decide⟩ (by decide) hchanged⟩
  · decide
  · refine ⟨?_, fun h => absurd h (by decide), ?_, ?_, trivial⟩
    · intro name rest hcommand _ _
      obtain ⟨rfl, rfl⟩ : name = str "SET" ∧ rest = [.bulkString (str "k"), .bulkString (str "v")] := by
        simpa [request, eq_comm] using hcommand
      refine ⟨fun _ v hv => ?_, fun _ _ => rfl, ?_⟩
      · cases hv
      · rintro ⟨_, _, _, h⟩
        exact h
    · intro name rest hcommand _ _
      obtain ⟨rfl, rfl⟩ : name = str "MULTI" ∧ rest = [] := by
        simpa [request, eq_comm] using hcommand
      refine ⟨fun _ v hv => ?_, fun _ _ => rfl, ?_⟩
      · cases hv
      · rintro ⟨_, _, _, h⟩
        exact h
    · intro _ name rest hcommand hname
      obtain ⟨rfl, rfl⟩ : name = str "MULTI" ∧ rest = [] := by
        simpa [request, eq_comm] using hcommand
      exact absurd hname (by decide)

/-- A key with counter one is watched, deleted and set again: its counter is one again, and `EXEC`
goes through although the value has changed. -/
theorem watch_misses_recreated_key :
    let sys : System NatScore Unit := (System.fresh ∅).run .standalone [request 1 ["SET", "k", "v"]]
    let mid := [request 1 ["DEL", "k"], request 1 ["SET", "k", "w"], request 0 ["MULTI"]]
    let sys' := (sys.step .standalone (request 0 ["WATCH", "k"])).2.run .standalone mid
    (sys'.clients 0).inTransaction = true ∧
      ¬ SameView (str "k") sys.world.data sys'.world.data ∧
      (sys'.step .standalone (request 0 ["EXEC"])).1 = str "*0\r\n" ∧
      (sys'.step .standalone (request 0 ["EXEC"])).1 ≠ execAbortReply := by
  refine ⟨by decide, ?_, by decide, by decide⟩
  intro h
  have : str "v" = str "w" := h.2
  exact absurd this (by decide)

end MinimalRedis
