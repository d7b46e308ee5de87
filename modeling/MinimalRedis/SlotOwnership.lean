import MinimalRedis.Footprints
import MinimalRedis.Routing
import MinimalRedis.TransactionRuns

/-!
# Slot ownership over whole runs

Routing looks at `SET`, `GET`, `DEL` and `EXISTS` on the direct path.  Every other command, every
queued one and every call of a script **goes to the store whoever owns the key**.

* `foreignKept_processCommand` — a command that respects the slots leaves the entries of other nodes'
  keys alone;
* `moved_of_foreign` — if it names such a key, it is answered with `MOVED` and nothing happens;
* `slots_enforced_run` — so over every run of such commands from the empty store: the node holds its own
  keys only, and all of them can be read and removed.
-/

namespace MinimalRedis

open Lib Session

variable {S : Type} [Score S] {Λ : Type}

/-! ### The keys of a command -/

/-- No other node is responsible for the key. -/
def Env.owns (env : Env Λ) (key : Bytes) : Bool :=
  (env.cluster.getNodeForKey env.hash key).all fun node => node.nodeId = env.cluster.myNodeId

/-- The keys a command looks at: its key arguments, or what `WATCH` records. -/
def namedKeys (cmd : Option Command) (args : Args) : List Bytes :=
  match cmd with
  | some .watch => leadingBulk args.tail
  | some cmd => keyArguments cmd args
  | none => []

/-- The command goes to the queue. -/
def Processor.queues (command : RespValue) (p : Processor Λ) : Bool :=
  p.inTransaction && command.command? ≠ some .exec && command.command? ≠ some .discard

theorem Processor.queues_iff {command : RespValue} {p : Processor Λ} :
    p.queues command = true ↔ p.inTransaction = true ∧ command.command? ≠ some .exec ∧
      command.command? ≠ some .discard := by
  rw [Processor.queues, Bool.and_eq_true, Bool.and_eq_true, decide_eq_true_iff, decide_eq_true_iff,
    and_assoc]

/-- The keys a request names: what its closure would look at for a queued one. -/
def Processor.requestKeys (command : RespValue) (p : Processor Λ) : List Bytes :=
  match queueOf command with
  | none => []
  | some tx => namedKeys (if p.queues command then queuedCommand tx else command.command?) tx.args

/-- The key that a call of a script reads or writes. -/
def callKey? (args : List LuaValue) : Option Bytes :=
  match args with
  | cmd :: key :: rest =>
      if cmd.toString? = some (str "GET") ∨ cmd.toString? = some (str "SET") ∧ rest ≠ [] then
        key.toString?
      else none
  | _ => none

/-! ### Foreign entries stay -/

/-- Nothing happens to the entries of other nodes' keys. -/
def ForeignKept (env : Env Λ) (d d' : Data S) : Prop :=
  ∀ k, env.owns k = false → d'.find? k = d.find? k

section Kept

variable {env : Env Λ} {now : ℤ} {d d' d'' : Data S}

theorem foreignKept_of_eq (h : d' = d) : ForeignKept env d d' := fun k _ => by rw [h]

theorem ForeignKept.trans (h : ForeignKept env d d') (h' : ForeignKept env d' d'') :
    ForeignKept env d d'' := fun k hk => (h' k hk).trans (h k hk)

theorem foreignKept_of_onlyAt {key : Bytes} (honly : OnlyAt key d d') (hkey : env.owns key = true) :
    ForeignKept env d d' := by
  intro k hk
  apply honly
  rintro rfl
  rw [hkey] at hk
  cases hk

/-- A data command touches the keys it names only. -/
theorem foreignKept_onData {cmd : Command} (hcmd : cmd.onData = true) {args : Args}
    {s : Session S Λ} (hkeys : ∀ k ∈ keyArguments cmd args, env.owns k = true) :
    ForeignKept env s.world.data (dispatch env now (some cmd) args s).2.world.data := by
  by_cases hkeyed : cmd.keyed = true
  · intro k hk
    refine (within_dispatch env now hkeyed args s).frame s.world.data k ?_
    intro hmem
    rw [hkeys k hmem] at hk
    cases hk
  · have hinspects : cmd.inspects = true := by
      cases cmd <;> first | rfl | exact absurd rfl hkeyed | cases hcmd
    exact foreignKept_of_eq (data_dispatch_of_inspects env now hinspects args s)

theorem namedKeys_onData {cmd : Command} (hcmd : cmd.onData = true) (args : Args) :
    namedKeys (some cmd) args = keyArguments cmd args := by
  cases cmd <;> first | rfl | cases hcmd

/-- The closure of a queued command. -/
theorem foreignKept_executeFunc {tx : TransactionCommand} {s : Session S Λ}
    (hkeys : ∀ k ∈ namedKeys (queuedCommand tx) tx.args, env.owns k = true) :
    ForeignKept env s.world.data (executeFunc now tx s).2.world.data := by
  rw [executeFunc_eq_dispatch env]
  cases hcmd : queuedCommand tx with
  | none => exact foreignKept_of_eq rfl
  | some cmd =>
    have hdata := onData_of_queuedCommand hcmd
    rw [hcmd, namedKeys_onData hdata] at hkeys
    exact foreignKept_onData hdata hkeys

theorem foreignKept_execLoop {queue : List TransactionCommand} {s : Session S Λ}
    (hqueue : ∀ tx ∈ queue, ∀ k ∈ namedKeys (queuedCommand tx) tx.args, env.owns k = true) :
    ForeignKept env s.world.data (execLoop now queue s).2.world.data := by
  induction queue generalizing s with
  | nil => exact foreignKept_of_eq rfl
  | cons tx queue ih =>
    have hstep : ForeignKept env s.world.data (executeFunc now tx s).2.world.data :=
      foreignKept_executeFunc (hqueue tx (by simp))
    exact hstep.trans (ih fun tx' htx' => hqueue tx' (by simp [htx']))

end Kept

/-! ### Scripts -/

/-- Every call that the run makes is of an own key. -/
def OwnScript (env : Env Λ) (now : ℤ) : LuaRun Λ → Data S → Prop
  | .done _ _, _ => True
  | .raised _ _, _ => True
  | .call args c, d => (∀ key, callKey? args = some key → env.owns key = true) ∧
      ∀ x, LuaScriptingEngine.redisPcall now args d = some x → OwnScript env now (c x.1) x.2
  | .log _ r, d => OwnScript env now r d

section Scripts

variable {env : Env Λ} {now : ℤ} {d : Data S}

theorem redisPcall_onlyAt {args : List LuaValue} {x : Except LuaValue LuaValue × Data S}
    (hx : LuaScriptingEngine.redisPcall now args d = some x) :
    x.2 = d ∨ ∃ key, callKey? args = some key ∧ OnlyAt key d x.2 := by
  unfold LuaScriptingEngine.redisPcall at hx
  split at hx
  · obtain rfl := Option.some.inj hx
    exact .inl rfl
  · rename_i cmd rest
    split at hx
    · obtain rfl := Option.some.inj hx
      exact .inl rfl
    · rename_i name hname
      split at hx
      · rename_i hget
        obtain ⟨key, hkey, rfl⟩ := Option.map_eq_some_iff.mp hx
        refine .inr ⟨key, ?_, .of_purged (purged_ifTypedLive now .string [] _ key d)⟩
        rw [of_decide_eq_true hget] at hname
        rw [callKey?, if_pos (.inl hname), hkey]
      · rename_i hset
        obtain ⟨key, hkey, hx⟩ := Option.bind_eq_some_iff.mp hx
        obtain ⟨text, -, rfl⟩ := Option.map_eq_some_iff.mp hx
        refine .inr ⟨key, ?_, .set key _ d⟩
        rw [of_decide_eq_true hset] at hname
        rw [callKey?, if_pos (.inr ⟨hname, by simp⟩), hkey]
      · obtain rfl := Option.some.inj hx
        exact .inl rfl

theorem foreignKept_runLua {r : LuaRun Λ} {x : Except LuaValue LuaValue × Λ × Data S}
    (hown : OwnScript env now r d) (hx : LuaScriptingEngine.runLua now r d = some x) :
    ForeignKept env d x.2.2 := by
  induction r generalizing d with
  | done state result =>
    obtain rfl := Option.some.inj hx
    exact foreignKept_of_eq rfl
  | raised state err =>
    obtain rfl := Option.some.inj hx
    exact foreignKept_of_eq rfl
  | call args c ih =>
    obtain ⟨hcall, hrest⟩ := hown
    rw [LuaScriptingEngine.runLua] at hx
    split at hx
    · cases hx
    · rename_i y hy
      have hfirst : ForeignKept env d y.2 := by
        rcases redisPcall_onlyAt hy with hsame | ⟨key, hkey, honly⟩
        · exact foreignKept_of_eq hsame
        · exact foreignKept_of_onlyAt honly (hcall key hkey)
      exact hfirst.trans (ih y.1 (hrest y hy) hx)
  | log arg r ih =>
    rw [LuaScriptingEngine.runLua] at hx
    split at hx
    · cases hx
    · exact ih hown hx

/-- The run of a script on a session's engine and data calls own keys only. -/
def OwnEval (env : Env Λ) (now : ℤ) (script : Bytes) (keys args : List Bytes) (s : Session S Λ) :
    Prop :=
  OwnScript env now
    (env.vm.run s.self.engine.state (cstr script) (keys.map cstr) (args.map cstr)) s.world.data

theorem foreignKept_eval {script : Bytes} {keys args : List Bytes} {s : Session S Λ}
    (hown : OwnEval env now script keys args s) :
    ForeignKept env s.world.data (scriptOutcome s (LuaScriptingEngine.eval env.vm now script keys args
      s.self.engine s.world.data)).2.world.data := by
  rcases data_eval_cases env.vm now script keys args s with hsame | ⟨x, hrun, hdata⟩
  · exact foreignKept_of_eq hsame
  · rw [hdata]
    exact foreignKept_runLua hown hrun

end Scripts

/-! ### One step -/

/-- The queued commands name own keys. -/
def OwnQueue (env : Env Λ) (p : Processor Λ) : Prop :=
  ∀ tx ∈ p.transactionQueue, ∀ k ∈ namedKeys (queuedCommand tx) tx.args, env.owns k = true

/-- The command names another node's key only where routing looks: on the direct path, as the key of
`SET`, `GET`, `DEL` or `EXISTS`. -/
structure RespectsSlots (env : Env Λ) (now : ℤ) (command : RespValue) (s : Session S Λ) : Prop where
  keys : s.self.queues command = true ∨ command.command?.any Command.routed = false →
    ∀ k ∈ s.self.requestKeys command, env.owns k = true
  eval : s.self.queues command = false → command.command? = some .eval →
    ∀ script keys args, ScriptArgs command.args script keys args → OwnEval env now script keys args s
  evalsha : s.self.queues command = false → command.command? = some .evalsha →
    ∀ sha keys args script, ScriptArgs command.args sha keys args →
      s.self.engine.scriptCache.find? sha = some script → OwnEval env now script keys args s

section Steps

variable {env : Env Λ} {now : ℤ} {command : RespValue} {s : Session S Λ}

/-- The direct path of a well-formed command that is not redirected. -/
theorem foreignKept_dispatch (hrespects : RespectsSlots env now command s) (hqueue : OwnQueue env s.self)
    (hdirect : s.self.queues command = false) {tx : TransactionCommand}
    (htx : queueOf command = some tx) (hargs : tx.args = command.args)
    (hrouted : command.command?.any Command.routed = true →
      ∀ k ∈ namedKeys command.command? command.args, env.owns k = true) :
    ForeignKept env s.world.data
      (dispatch env now command.command? command.args s).2.world.data := by
  have hkeys : ∀ k ∈ namedKeys command.command? command.args, env.owns k = true := by
    cases hany : command.command?.any Command.routed with
    | true => exact hrouted hany
    | false =>
      have hkeys := hrespects.keys (.inr hany)
      rw [Processor.requestKeys, htx] at hkeys
      simp only [hdirect, Bool.false_eq_true, if_false, hargs] at hkeys
      exact hkeys
  cases hcmd : command.command? with
  | none => exact foreignKept_of_eq rfl
  | some cmd =>
    rw [hcmd] at hkeys
    by_cases hdata : cmd.onData = true
    · rw [namedKeys_onData hdata] at hkeys
      exact foreignKept_onData hdata hkeys
    · by_cases hexec : cmd = .exec
      · subst hexec
        rcases handleExec_cases now command.args s with ⟨-, -, hsame⟩ | ⟨-, hsame⟩ | hloop
        · exact foreignKept_of_eq (by rw [dispatch, hsame])
        · exact foreignKept_of_eq (by rw [dispatch, hsame]; rfl)
        · rw [dispatch, hloop]
          exact foreignKept_execLoop hqueue
      · by_cases heval : cmd = .eval
        · subst heval
          rcases handleEval_cases env.vm now command.args s with
            hs | ⟨script, keys, args, hscript, hs⟩
          · exact foreignKept_of_eq (by rw [dispatch, hs])
          · rw [dispatch, hs]
            exact foreignKept_eval (hrespects.eval hdirect hcmd script keys args hscript)
        · by_cases hsha : cmd = .evalsha
          · subst hsha
            rcases handleEvalsha_cases env.vm now command.args s with
              hs | ⟨sha, keys, args, script, hscript, hfound, hs⟩
            · exact foreignKept_of_eq (by rw [dispatch, hs])
            · rw [dispatch, hs]
              exact foreignKept_eval
                (hrespects.evalsha hdirect hcmd sha keys args script hscript hfound)
          · exact foreignKept_of_eq
              (data_dispatch env now (by simpa using hdata) hexec heval hsha command.args s)

/-- A routed command that names `k` has it as its first argument. -/
theorem firstKey?_of_routed {cmd : Command} (hrouted : cmd.routed = true) {args : Args} {k : Bytes}
    (hk : k ∈ namedKeys (some cmd) args) : ∃ name rest, args = name :: .bulkString k :: rest := by
  have hfirst : firstKey? args = some k := by
    cases cmd <;> first | exact Option.mem_toList.mp hk | cases hrouted
  rcases args with _ | ⟨name, _ | ⟨v, rest⟩⟩
  · cases hfirst
  · cases hfirst
  · exact ⟨name, rest, by rw [bulk?_eq_some hfirst]⟩

theorem exists_node_of_foreign {k : Bytes} (hk : env.owns k = false) :
    ∃ node, env.cluster.getNodeForKey env.hash k = some node ∧
      node.nodeId ≠ env.cluster.myNodeId ∧ env.cluster.enabled = true := by
  unfold Env.owns at hk
  cases hnode : env.cluster.getNodeForKey env.hash k with
  | none =>
    rw [hnode] at hk
    cases hk
  | some node =>
    rw [hnode] at hk
    refine ⟨node, rfl, by simpa using hk, ?_⟩
    by_contra hdisabled
    rw [ClusterConfig.getNodeForKey, if_neg hdisabled] at hnode
    cases hnode

/-- A command that respects the slots and names another node's key is answered with that node, and
nothing happens. -/
theorem moved_of_foreign (hrespects : RespectsSlots env now command s) {k : Bytes}
    (hk : k ∈ s.self.requestKeys command) (hforeign : env.owns k = false) :
    ∃ node, env.cluster.getNodeForKey env.hash k = some node ∧
      node.nodeId ≠ env.cluster.myNodeId ∧
      processCommand env now command s = (movedReply env k node, s) := by
  have hdirect : s.self.queues command = false := by
    by_contra hqueues
    have hown := hrespects.keys (.inl (by simpa using hqueues)) k hk
    rw [hown] at hforeign
    cases hforeign
  have hany : command.command?.any Command.routed = true := by
    by_contra hany
    have hown := hrespects.keys (.inr (by simpa using hany)) k hk
    rw [hown] at hforeign
    cases hforeign
  obtain ⟨cmd, hcmd, hrouted⟩ := (Option.any_eq_true _ _).mp hany
  obtain ⟨node, hnode, hother, henabled⟩ := exists_node_of_foreign hforeign
  obtain ⟨name, rest, rfl⟩ := exists_name_of_command? hcmd
  have hidle : s.self.inTransaction = false := by
    by_contra hin
    have hqueues : s.self.queues (.array (.bulkString name :: rest)) = true := by
      rw [Processor.queues_iff, hcmd]
      refine ⟨by simpa using hin, ?_, ?_⟩
      · rintro ⟨rfl⟩
        cases hrouted
      · rintro ⟨rfl⟩
        cases hrouted
    rw [hqueues] at hdirect
    cases hdirect
  have hkeys : k ∈ namedKeys (some cmd) (.bulkString name :: rest) := by
    unfold Processor.requestKeys at hk
    simp only [queueOf, hdirect, Bool.false_eq_true, if_false, hcmd] at hk
    exact hk
  obtain ⟨name', rest', hargs⟩ := firstKey?_of_routed hrouted hkeys
  obtain ⟨rfl, rfl⟩ := List.cons.inj hargs
  exact ⟨node, hnode, hother, processCommand_foreign now rest' henabled hidle hcmd hrouted hnode hother⟩

/-- A routed command that is let through names an own key. -/
theorem owns_of_redirect {cmd : Command} (hrouted : cmd.routed = true) {args : Args}
    (hroute : redirect env (some cmd) args = none) :
    ∀ k ∈ namedKeys (some cmd) args, env.owns k = true := by
  intro k hk
  by_contra hforeign
  obtain ⟨name, rest, rfl⟩ := firstKey?_of_routed hrouted hk
  obtain ⟨node, hnode, hother, henabled⟩ := exists_node_of_foreign (by simpa using hforeign)
  simp [redirect, henabled, hrouted, RespValue.bulk?, hnode, hother] at hroute

theorem foreignKept_processCommand (hrespects : RespectsSlots env now command s)
    (hqueue : OwnQueue env s.self) :
    ForeignKept env s.world.data (processCommand env now command s).2.world.data := by
  unfold processCommand
  split
  · rename_i name rest
    dsimp only
    split
    · exact foreignKept_of_eq rfl
    · rename_i hdirect
      unfold routeAndDispatch
      split
      · exact foreignKept_of_eq rfl
      · rename_i hroute
        have hqueues : s.self.queues (.array (.bulkString name :: rest)) = false := by
          by_contra hqueues
          exact hdirect (Processor.queues_iff.mp (by simpa using hqueues))
        refine foreignKept_dispatch hrespects hqueue hqueues rfl rfl fun hrouted => ?_
        obtain ⟨cmd, hcmd, hrouted⟩ := (Option.any_eq_true _ _).mp hrouted
        have hname : Command.ofName name = some cmd := hcmd
        rw [hname] at hroute
        rw [hcmd]
        exact owns_of_redirect hrouted hroute
  · exact foreignKept_of_eq rfl
  · exact foreignKept_of_eq rfl

/-! The queue after a command: what was there, nothing, or one command more. -/

theorem transactionQueue_dispatch (env : Env Λ) (now : ℤ) (cmd : Option Command) (args : Args)
    (s : Session S Λ) :
    (dispatch env now cmd args s).2.self.transactionQueue = s.self.transactionQueue ∨
      (dispatch env now cmd args s).2.self.transactionQueue = [] := by
  by_cases hcontrol : ∀ c, cmd = some c → c.isControl = false
  · obtain ⟨engine, hself, -⟩ := self_dispatch env now hcontrol args s
    exact .inl (by rw [hself])
  · obtain ⟨c, hc⟩ := not_forall.mp hcontrol
    obtain ⟨rfl, hkind⟩ := Classical.not_imp.mp hc
    cases c with
    | multi =>
      simp only [dispatch, handleMulti]
      split
      · exact .inl rfl
      · split
        · exact .inl rfl
        · exact .inr rfl
    | exec =>
      rcases handleExec_cases now args s with ⟨-, -, hsame⟩ | ⟨-, hdone⟩ | hdone
      · exact .inl (by rw [dispatch, hsame])
      · exact .inr (by rw [dispatch, hdone]; rfl)
      · exact .inr (by rw [dispatch, hdone]; rfl)
    | discard =>
      simp only [dispatch, handleDiscard]
      split
      · exact .inl rfl
      · split
        · exact .inl rfl
        · exact .inr rfl
    | watch =>
      simp only [dispatch, handleWatch]
      split
      · exact .inl rfl
      · split <;> exact .inl rfl
    | unwatch =>
      simp only [dispatch, handleUnwatch]
      split <;> exact .inl rfl
    | _ => exact absurd rfl hkind

theorem ownQueue_processCommand (hrespects : RespectsSlots env now command s)
    (hqueue : OwnQueue env s.self) : OwnQueue env (processCommand env now command s).2.self := by
  unfold processCommand
  split
  · rename_i name rest
    dsimp only
    split
    · rename_i hqueued
      have hqueues : s.self.queues (.array (.bulkString name :: rest)) = true :=
        Processor.queues_iff.mpr hqueued
      intro tx htx
      rcases List.mem_append.mp htx with hold | hnew
      · exact hqueue tx hold
      · obtain rfl := List.mem_singleton.mp hnew
        have hkeys := hrespects.keys (.inl hqueues)
        simp only [Processor.requestKeys, queueOf, hqueues, if_true] at hkeys
        exact hkeys
    · unfold routeAndDispatch
      split
      · exact hqueue
      · intro tx htx
        rcases transactionQueue_dispatch env now (Command.ofName name) (.bulkString name :: rest) s with
          hsame | hempty
        · rw [hsame] at htx
          exact hqueue tx htx
        · rw [hempty] at htx
          cases htx
  · exact hqueue
  · exact hqueue

end Steps

/-! ### Runs -/

/-- Every command of the run respects the slots when it is processed. -/
def RespectsRun (env : Env Λ) : List Request → System S Λ → Prop
  | [], _ => True
  | r :: rs, sys => RespectsSlots env r.now r.command (sys.session r.client) ∧
      RespectsRun env rs (sys.step env r).2

/-- The node holds its own keys only, and so it will after every waiting transaction. -/
structure HoldsOwn (env : Env Λ) (sys : System S Λ) : Prop where
  data : ∀ k, env.owns k = false → sys.world.data.find? k = none
  queues : ∀ client, OwnQueue env (sys.clients client)

section Runs

variable {env : Env Λ} {sys : System S Λ}

theorem HoldsOwn.step {r : Request} (h : HoldsOwn env sys)
    (hrespects : RespectsSlots env r.now r.command (sys.session r.client)) :
    HoldsOwn env (sys.step env r).2 where
  data k hk := by
    have hkept : ForeignKept env sys.world.data (sys.step env r).2.world.data :=
      foreignKept_processCommand hrespects (h.queues r.client)
    rw [hkept k hk]
    exact h.data k hk
  queues client := by
    by_cases hclient : r.client = client
    · subst hclient
      rw [clients_step_self]
      exact ownQueue_processCommand hrespects (h.queues r.client)
    · rw [clients_step_of_ne hclient]
      exact h.queues client

theorem HoldsOwn.run {rs : List Request} (h : HoldsOwn env sys) (hrun : RespectsRun env rs sys) :
    HoldsOwn env (sys.run env rs) := by
  induction rs generalizing sys with
  | nil => exact h
  | cons r rs ih => exact ih (h.step hrun.1) hrun.2

theorem respectsRun_append {rs rs' : List Request} (h : RespectsRun env (rs ++ rs') sys) :
    RespectsRun env rs sys ∧ RespectsRun env rs' (sys.run env rs) := by
  induction rs generalizing sys with
  | nil => exact ⟨trivial, h⟩
  | cons r rs ih =>
    obtain ⟨hfirst, hrest⟩ := ih h.2
    exact ⟨⟨h.1, hfirst⟩, hrest⟩

/-! ### Access to the own keys -/

/-- A routed command with one argument, by its name. -/
def keyRequest (client : ℕ) (now : ℤ) (name : String) (k : Bytes) : Request :=
  ⟨client, now, .array [.bulkString (str name), .bulkString k]⟩

/-- The entry `v` at `k` can be read with `EXISTS` and `GET` and removed with `DEL` by every client
outside a transaction. -/
def Accessible (env : Env Λ) (sys : System S Λ) (k : Bytes) (v : RedisValue S) : Prop :=
  ∀ client now, (sys.clients client).inTransaction = false →
    (sys.step env (keyRequest client now "EXISTS" k)).1 = boolReply (!v.isExpired now) ∧
    (sys.step env (keyRequest client now "GET" k)).1 =
      (if v.type = .string ∧ v.isExpired now = false then bulkReply v.strVal else nullBulk) ∧
    (sys.step env (keyRequest client now "DEL" k)).2.world.data.find? k = none

/-- An own key is not redirected. -/
theorem processCommand_own {now : ℤ} {s : Session S Λ} {name k : Bytes} {cmd : Command}
    (hcmd : Command.ofName name = some cmd) (hown : env.owns k = true)
    (hidle : s.self.inTransaction = false) :
    processCommand env now (.array [.bulkString name, .bulkString k]) s =
      dispatch env now (some cmd) [.bulkString name, .bulkString k] s := by
  have hroute : redirect env (some cmd) [.bulkString name, .bulkString k] = none := by
    unfold Env.owns at hown
    cases hnode : env.cluster.getNodeForKey env.hash k with
    | none => simp [redirect, RespValue.bulk?, hnode]
    | some node =>
      rw [hnode] at hown
      have hmine : node.nodeId = env.cluster.myNodeId := by simpa using hown
      simp [redirect, RespValue.bulk?, hnode, hmine]
  simp only [processCommand, hidle, Bool.false_eq_true, false_and, if_false, hcmd, routeAndDispatch,
    hroute]

theorem accessible_of_owns {k : Bytes} {v : RedisValue S} (hv : sys.world.data.find? k = some v)
    (hown : env.owns k = true) : Accessible env sys k v := by
  intro client now hidle
  have hstep : ∀ {name : String} {cmd : Command}, Command.ofName (str name) = some cmd →
      sys.step env (keyRequest client now name k) =
        ((dispatch env now (some cmd) [.bulkString (str name), .bulkString k] (sys.session client)).1,
          ⟨(dispatch env now (some cmd) [.bulkString (str name), .bulkString k]
              (sys.session client)).2.world,
            Function.update sys.clients client (dispatch env now (some cmd)
              [.bulkString (str name), .bulkString k] (sys.session client)).2.self⟩) := by
    intro name cmd hname
    have hidle' : (sys.session client).self.inTransaction = false := hidle
    rw [← processCommand_own hname hown hidle']
    rfl
  have hexists : Command.ofName (str "EXISTS") = some .existsKey := by decide
  have hget : Command.ofName (str "GET") = some .get := by decide
  have hdel : Command.ofName (str "DEL") = some .del := by decide
  refine ⟨?_, ?_, ?_⟩
  · rw [hstep hexists]
    show boolReply (Database.keyExists now k sys.world.data).1 = _
    unfold Database.keyExists Database.ifLive
    rw [hv]
    cases hexp : v.isExpired now <;> simp [hexp]
  · rw [hstep hget]
    show (handleGet now [.bulkString (str "GET"), .bulkString k] sys.world.data).1 = _
    rw [handleGet_eq_stringAt, stringAt, hv]
    by_cases hlive : v.type = .string ∧ v.isExpired now = false
    · simp only [hlive, and_self, if_true]
    · simp only [hlive, if_false]
  · rw [hstep hdel]
    exact UMap.find?_erase_self _ _

end Runs

/-- Over every run of commands that respect the slots, from the empty store: in every state reached
the node holds its own keys only, and each can be read and removed; in every step no entry of another
node's key is touched, and a command that names one is answered with `MOVED`. -/
theorem slots_enforced_run (env : Env Λ) (sys : System S Λ) (hdata : sys.world.data = ∅)
    (hqueues : ∀ client, (sys.clients client).transactionQueue = []) (rs : List Request)
    (hrun : RespectsRun env rs sys) :
    (∀ rs₁ rs₂, rs = rs₁ ++ rs₂ → ∀ k v, (sys.run env rs₁).world.data.find? k = some v →
      env.owns k = true ∧ Accessible env (sys.run env rs₁) k v) ∧
    ∀ rs₁ r rs₂, rs = rs₁ ++ r :: rs₂ →
      ForeignKept env (sys.run env rs₁).world.data ((sys.run env rs₁).step env r).2.world.data ∧
      ∀ k ∈ ((sys.run env rs₁).clients r.client).requestKeys r.command, env.owns k = false →
        ∃ node, env.cluster.getNodeForKey env.hash k = some node ∧
          node.nodeId ≠ env.cluster.myNodeId ∧
          (sys.run env rs₁).step env r = (movedReply env k node, sys.run env rs₁) := by
  have hstart : HoldsOwn env sys := by
    refine ⟨fun k _ => by rw [hdata]; rfl, fun client tx htx => ?_⟩
    rw [hqueues client] at htx
    cases htx
  constructor
  · intro rs₁ rs₂ hrs k v hv
    subst hrs
    have hholds := hstart.run (respectsRun_append hrun).1
    have hown : env.owns k = true := by
      by_contra hforeign
      rw [hholds.data k (by simpa using hforeign)] at hv
      cases hv
    exact ⟨hown, accessible_of_owns hv hown⟩
  · intro rs₁ r rs₂ hrs
    subst hrs
    obtain ⟨hbefore, hrespects, -⟩ := respectsRun_append hrun
    have hholds := hstart.run hbefore
    refine ⟨foreignKept_processCommand hrespects (hholds.queues r.client), fun k hk hforeign => ?_⟩
    obtain ⟨node, hnode, hother, hmoved⟩ := moved_of_foreign hrespects hk hforeign
    have hreply : ((sys.run env rs₁).step env r).1 = movedReply env k node := congrArg Prod.fst hmoved
    have hsame : ((sys.run env rs₁).step env r).2 = sys.run env rs₁ := by
      apply step_of_session_eq
      rw [hmoved]
    exact ⟨node, hnode, hother, Prod.ext hreply hsame⟩

/-- In the demo cluster, where `k` is `node2`'s and `d` is its own: a `SET` of `k`, then a push to `d`. -/
theorem slots_enforced_set_push :
    (∀ k v, ((System.fresh (∅ : Data NatScore)).run demoEnv
        [request 0 ["SET", "k", "v"], request 0 ["LPUSH", "d", "v"]]).world.data.find? k = some v →
      demoEnv.owns k = true ∧ Accessible demoEnv ((System.fresh (∅ : Data NatScore)).run demoEnv
        [request 0 ["SET", "k", "v"], request 0 ["LPUSH", "d", "v"]]) k v) ∧
    ((System.fresh (∅ : Data NatScore)).step demoEnv (request 0 ["SET", "k", "v"])).1 =
      str "-MOVED 3 127.0.0.1:6380\r\n" := by
  have hset : RespectsSlots demoEnv 0 (request 0 ["SET", "k", "v"]).command
      ((System.fresh (∅ : Data NatScore)).session 0) :=
    ⟨by decide, fun _ h => absurd h (by decide), fun _ h => absurd h (by decide)⟩
  have hpush : RespectsSlots demoEnv 0 (request 0 ["LPUSH", "d", "v"]).command
      (((System.fresh (∅ : Data NatScore)).step demoEnv (request 0 ["SET", "k", "v"])).2.session 0) :=
    ⟨by decide, fun _ h => absurd h (by decide), fun _ h => absurd h (by decide)⟩
  have h := slots_enforced_run demoEnv (System.fresh (∅ : Data NatScore)) rfl (fun _ => rfl)
    [request 0 ["SET", "k", "v"], request 0 ["LPUSH", "d", "v"]] ⟨hset, hpush, trivial⟩
  exact ⟨h.1 _ [] rfl, by decide⟩

/-- `k` is `node2`'s.  An `LPUSH` stores it here all the same, and so does a queued `SET`; the node then
redirects `GET` and `DEL`. -/
theorem slots_not_enforced :
    let sys := System.fresh (∅ : Data NatScore)
    let pushed := sys.step demoEnv (request 0 ["LPUSH", "k", "v"])
    let queued := (sys.run demoEnv [request 0 ["MULTI"]]).step demoEnv (request 0 ["SET", "k", "v"])
    let executed := queued.2.step demoEnv (request 0 ["EXEC"])
    demoEnv.owns (str "k") = false ∧
    pushed.1 = str ":1\r\n" ∧ (pushed.2.world.data.find? (str "k")).isSome = true ∧
    (pushed.2.step demoEnv (request 0 ["GET", "k"])).1 = str "-MOVED 3 127.0.0.1:6380\r\n" ∧
    (pushed.2.step demoEnv (request 0 ["DEL", "k"])).1 = str "-MOVED 3 127.0.0.1:6380\r\n" ∧
    queued.1 = str "+QUEUED\r\n" ∧ executed.1 = str "*1\r\n+OK\r\n" ∧
    (executed.2.world.data.find? (str "k")).isSome = true := by
  decide

end MinimalRedis
