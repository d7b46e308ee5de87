import MinimalRedis.Interleaving
import MinimalRedis.PlainCommands

/-!
# Commands that look atomic

The clients of `main` interleave call by call.  Whoever sends plain commands cannot tell:

* `plain_commands_linearizable` — clients that send plain commands are served, whatever the schedule, as
  if `process_command` took their commands one at a time;
* `set_del_ghost` — `DEL` is not plain: it can come between the two calls of a `SET`, which then puts the
  key back as an empty string that neither order of the two commands leaves;
* `exec_misses_unfinished_set` — nor is `EXEC`: its check can come between the two calls of a `SET`.

Each `Database` call is taken as one step, as in all results about `commandProg`; the code does nothing to
make it one.
-/

namespace MinimalRedis

open Lib Config

variable {S : Type} [Score S] {Λ : Type} {Γ : Bytes → RedisType} {key : Bytes}

/-! ### Clients with plain commands -/

/-- The command is plain, and writes its key with the type that `Γ` gives it. -/
structure KeepsTo (Γ : Bytes → RedisType) (command : RespValue) : Prop where
  plain : ∀ cmd, command.command? = some cmd → cmd.plain command.args = true
  typed : ∀ cmd type key, command.command? = some cmd → cmd.writesType = some type →
    firstKey? command.args = some key → Γ key = type

/-- A server that takes one command at a time; the processors of its clients wait in between. -/
def serveOne (env : Env Λ) (writable : Bool) (x : Done ℕ ℤ RespValue Answer)
    (s : Data S × (ℕ → Processor Λ)) : Answer × (Data S × (ℕ → Processor Λ)) :=
  let y := processCommand env x.time x.command
    (⟨{ data := s.1, fileWritable := writable }, s.2 x.thread⟩ : Session S Λ)
  (.reply y.1, y.2.world.data, Function.update s.2 x.thread y.2.self)

theorem onData_of_plain {cmd : Command} {args : Args} (h : cmd.plain args = true) :
    cmd.onData = true := by
  cases cmd with
  | hset => rfl
  | _ => first | exact h | cases h

/-- Outside a transaction a plain command is answered at once, or it is the program of its handler. -/
theorem commandProg_plain (env : Env Λ) (writable : Bool) {command : RespValue} {p : Processor Λ}
    (hplain : ∀ cmd, command.command? = some cmd → cmd.plain command.args = true)
    (hp : p.inTransaction = false) :
    (∃ reply, commandProg (S := S) env writable command p = .ret (.reply reply, p)) ∨
      ∃ cmd, command.command? = some cmd ∧ commandProg (S := S) env writable command p =
        (dataProg writable cmd command.args).bind fun reply => .ret (.reply reply, p) := by
  cases command with
  | array elems =>
    cases elems with
    | nil => exact .inl ⟨_, rfl⟩
    | cons v rest =>
      cases v with
      | bulkString name =>
        simp only [commandProg]
        rw [if_neg (by simp [hp])]
        cases redirect env (Command.ofName name) (.bulkString name :: rest) with
        | some x => exact .inl ⟨_, rfl⟩
        | none =>
          cases hname : Command.ofName name with
          | none => exact .inl ⟨_, rfl⟩
          | some cmd =>
            have hdata := onData_of_plain (hplain cmd hname)
            refine .inr ⟨cmd, hname, ?_⟩
            cases cmd <;> first | rfl | cases hdata
      | _ => exact .inl ⟨_, rfl⟩
  | _ => exact .inl ⟨_, rfl⟩

theorem disciplined_plain (env : Env Λ) (writable : Bool) :
    Disciplined (observer S Γ) (commandProg env writable) (KeepsTo Γ)
      fun p : Processor Λ => p.inTransaction = false where
  linear hkeeps hp _ := by
    rcases commandProg_plain (S := S) env writable hkeeps.plain hp with ⟨reply, hprog⟩ | ⟨cmd, hcmd, hprog⟩
    · rw [hprog]
      trivial
    · rw [hprog]
      exact (linear_dataProg writable (hkeeps.plain cmd hcmd) fun type key htype hkey =>
        hkeeps.typed cmd type key hcmd htype hkey).bind_ret _
  good t hkeeps hp _ := by
    rcases commandProg_plain (S := S) env writable hkeeps.plain hp with ⟨reply, hprog⟩ | ⟨cmd, hcmd, hprog⟩
    · rw [hprog]
      exact hp
    · rw [hprog, Prog.run_bind_ret]
      exact hp
  blind hkeeps hp := by
    rcases commandProg_plain (S := S) env writable hkeeps.plain hp with ⟨reply, hprog⟩ | ⟨cmd, hcmd, hprog⟩
    · rw [hprog]
      exact .ret _
    · rw [hprog]
      exact (blind_dataProg writable (hkeeps.plain cmd hcmd)).bind fun _ => .ret _

/-- One plain command by itself, as its program and as `process_command`. -/
theorem run_commandProg_plain (env : Env Λ) (writable : Bool) (now : ℤ) (d : Data S)
    {command : RespValue} {p : Processor Λ}
    (hplain : ∀ cmd, command.command? = some cmd → cmd.plain command.args = true)
    (hp : p.inTransaction = false) :
    (commandProg env writable command p).run now d =
        ((.reply (processCommand env now command ⟨{ data := d, fileWritable := writable }, p⟩).1, p),
          (processCommand env now command ⟨{ data := d, fileWritable := writable }, p⟩).2.world.data) ∧
      (processCommand env now command ⟨{ data := d, fileWritable := writable }, p⟩).2.self = p := by
  have hagrees := agrees_commandProg env now command
    (⟨{ data := d, fileWritable := writable }, p⟩ : Session S Λ)
  rcases commandProg_plain (S := S) env writable hplain hp with
    ⟨reply, hprog⟩ | ⟨cmd, hcmd, hprog⟩
  · rw [hprog] at hagrees ⊢
    obtain ⟨hreply, hself, hdata⟩ := hagrees
    refine ⟨?_, hself⟩
    rw [hreply, hdata]
    rfl
  · rw [hprog, Prog.run_bind_ret] at hagrees ⊢
    obtain ⟨hreply, hself, hdata⟩ := hagrees
    refine ⟨?_, hself⟩
    rw [hreply, hdata]

theorem seqStep_eq_serveOne (env : Env Λ) (writable : Bool) {x : Done ℕ ℤ RespValue Answer}
    {s : Data S × (ℕ → Processor Λ)} (hkeeps : KeepsTo Γ x.command)
    (hs : ∀ i, (s.2 i).inTransaction = false) :
    seqStep (commandProg env writable) x s = serveOne env writable x s ∧
      ∀ i, ((serveOne env writable x s).2.2 i).inTransaction = false := by
  obtain ⟨hrun, hself⟩ :=
    run_commandProg_plain env writable x.time s.1 hkeeps.plain (hs x.thread)
  constructor
  · unfold seqStep serveOne
    rw [hrun]
    simp only [hself]
  · intro i
    show (Function.update s.2 x.thread (processCommand env x.time x.command _).2.self i).inTransaction =
      false
    rw [hself, Function.update_eq_self]
    exact hs i

/-- Idle clients that send plain commands, each key with one type, to data that do not expire: under
every schedule their replies and the data are those of a server that takes one command at a time, each
between its receipt and its reply. -/
theorem plain_commands_linearizable (env : Env Λ) (writable : Bool) {c c' : Clients S Λ}
    {schedule : List (ℕ × ℤ)} {log : List (Entry ℕ (Data S) RespValue Answer)}
    (hdata : Settled Γ c.shared)
    (hclients : ∀ i, (c.threads i).running = none ∧ (c.threads i).own.inTransaction = false ∧
      ∀ command ∈ (c.threads i).input, KeepsTo Γ command)
    (hrun : c.run? (commandProg env writable) schedule = some (log, c')) :
    ∃ h, Explains (observer S Γ) (serveOne env writable) c log c' h := by
  obtain ⟨h, hexplains, hkeeps⟩ := linearizable (disciplined_plain env writable) hdata hclients hrun
  exact ⟨h, hexplains.congr (I := fun s => ∀ i, (s.2 i).inTransaction = false)
    (fun i => (hclients i).2.1) fun x hx s hs => seqStep_eq_serveOne env writable (hkeeps x hx) hs⟩

/-- Two clients that push to one list, call by call in turn. -/
def pushingClients : Clients NatScore Unit where
  shared := ∅
  threads i := { own := { engine := { state := () } }, input := if i < 2 then [rpushCommand] else [] }

theorem pushing_clients_linearizable :
    ∃ log c', pushingClients.run? (commandProg Env.standalone true)
        [(0, 0), (1, 0), (0, 0), (1, 0), (1, 0), (0, 0), (1, 0), (0, 0)] = some (log, c') ∧
      ∃ h, Explains (observer NatScore fun _ => .list) (serveOne Env.standalone true) pushingClients
        log c' h := by
  obtain ⟨x, hx⟩ := Option.isSome_iff_exists.mp (show (pushingClients.run?
    (commandProg Env.standalone true)
    [(0, 0), (1, 0), (0, 0), (1, 0), (1, 0), (0, 0), (1, 0), (0, 0)]).isSome = true from rfl)
  refine ⟨x.1, x.2, hx, plain_commands_linearizable Env.standalone true nofun (fun i => ?_) hx⟩
  refine ⟨rfl, rfl, fun command hmem => ?_⟩
  have hcommand : command = rpushCommand := by
    replace hmem : command ∈ if i < 2 then [rpushCommand] else [] := hmem
    split at hmem
    · exact List.mem_singleton.mp hmem
    · cases hmem
  have hname : rpushCommand.command? = some .rpush := by decide
  rw [hcommand]
  constructor
  · intro cmd hcmd
    rw [← Option.some.inj (hname.symm.trans hcmd)]
    rfl
  · intro cmd type key hcmd htype _
    rw [← Option.some.inj (hname.symm.trans hcmd)] at htype
    exact Option.some.inj htype

/-! ### A command that is not plain -/

section Ghost

def setCommand (key value : Bytes) : RespValue :=
  .array [.bulkString (str "SET"), .bulkString key, .bulkString value]

def delCommand (key : Bytes) : RespValue := .array [.bulkString (str "DEL"), .bulkString key]

/-- One client sets `key`, another deletes it. -/
def setBesideDel (engine : LuaScriptingEngine Λ) (d : Data S) (key value : Bytes) : Clients S Λ where
  shared := d
  threads i := { own := { engine := engine }, input :=
    if i = 0 then [setCommand key value] else if i = 1 then [delCommand key] else [] }

variable {value : Bytes} {env : Env Λ} {writable : Bool} {p : Processor Λ}

theorem redirect_of_disabled (hcluster : env.cluster.enabled = false) (cmd : Option Command)
    (args : Args) : redirect env cmd args = none := by
  unfold redirect
  split
  · rw [if_neg (by simp [hcluster])]
  · rfl

theorem commandProg_set (hcluster : env.cluster.enabled = false) (hp : p.inTransaction = false) :
    commandProg (S := S) env writable (setCommand key value) p =
      (callWrite (Database.set key value)).bind fun _ =>
        (callWrite (Database.incrementModCount key)).bind fun _ => .ret (.reply okReply, p) := by
  simp only [commandProg, setCommand, show Command.ofName (str "SET") = some .set by decide]
  rw [if_neg (by simp [hp]), redirect_of_disabled hcluster]
  rfl

theorem commandProg_del (hcluster : env.cluster.enabled = false) (hp : p.inTransaction = false) :
    commandProg (S := S) env writable (delCommand key) p =
      (dataProg writable .del [.bulkString (str "DEL"), .bulkString key]).bind fun reply =>
        .ret (.reply reply, p) := by
  simp only [commandProg, delCommand, show Command.ofName (str "DEL") = some .del by decide]
  rw [if_neg (by simp [hp]), redirect_of_disabled hcluster]
  rfl

theorem processCommand_set (hcluster : env.cluster.enabled = false) {now : ℤ} {s : Session S Λ}
    (hs : s.self.inTransaction = false) :
    processCommand env now (setCommand key value) s = Session.liftData (handleSet
      [.bulkString (str "SET"), .bulkString key, .bulkString value]) s := by
  simp only [processCommand, setCommand, show Command.ofName (str "SET") = some .set by decide]
  rw [if_neg (by simp [hs]), routeAndDispatch, redirect_of_disabled hcluster]
  rfl

theorem processCommand_del (hcluster : env.cluster.enabled = false) {now : ℤ} {s : Session S Λ}
    (hs : s.self.inTransaction = false) :
    processCommand env now (delCommand key) s = Session.liftData (handleDel now
      [.bulkString (str "DEL"), .bulkString key]) s := by
  simp only [processCommand, delCommand, show Command.ofName (str "DEL") = some .del by decide]
  rw [if_neg (by simp [hs]), routeAndDispatch, redirect_of_disabled hcluster]
  rfl

/-- In whichever order the two commands come, what is left under the key is the value that was set. -/
theorem serveOne_set_or_del (writable : Bool) (hcluster : env.cluster.enabled = false)
    {x : Done ℕ ℤ RespValue Answer} {s : Data S × (ℕ → Processor Λ)}
    (hx : x.command = setCommand key value ∨ x.command = delCommand key)
    (hs : ∀ i, (s.2 i).inTransaction = false) :
    (∀ v, (serveOne env writable x s).2.1.find? key = some v → v.strVal = value) ∧
      ∀ i, ((serveOne env writable x s).2.2 i).inTransaction = false := by
  have hkept : ∀ i, (Function.update s.2 x.thread (s.2 x.thread) i).inTransaction = false := by
    rw [Function.update_eq_self]
    exact hs
  unfold serveOne
  rcases hx with hx | hx
  · rw [hx, processCommand_set hcluster (hs x.thread)]
    refine ⟨fun v hv => ?_, hkept⟩
    replace hv : (handleSet [.bulkString (str "SET"), .bulkString key, .bulkString value] s.1).2.find? key =
      some v := hv
    rw [find?_handleSet, if_pos rfl] at hv
    cases hv
    rfl
  · rw [hx, processCommand_del hcluster (hs x.thread)]
    refine ⟨fun v hv => ?_, hkept⟩
    replace hv : (handleDel x.time [.bulkString (str "DEL"), .bulkString key] s.1).2.find? key =
      some v := hv
    rw [show (handleDel x.time [.bulkString (str "DEL"), .bulkString key] s.1).2.find? key = none from
      UMap.find?_erase_self _ _] at hv
    cases hv

/-- A history of the two commands leaves under the key the value that was set, or nothing. -/
theorem find?_of_legal (hcluster : env.cluster.enabled = false) {h : List (Done ℕ ℤ RespValue Answer)}
    {s s' : Data S × (ℕ → Processor Λ)} (hne : h ≠ [])
    (hcommands : ∀ x ∈ h, x.command = setCommand key value ∨ x.command = delCommand key)
    (hs : ∀ i, (s.2 i).inTransaction = false) (hlegal : Legal (serveOne env writable) h s s') :
    ∀ v, s'.1.find? key = some v → v.strVal = value := by
  induction h generalizing s with
  | nil => exact absurd rfl hne
  | cons x h ih =>
    have hstate := congrArg Prod.snd hlegal
    obtain ⟨hfound, hkept⟩ := serveOne_set_or_del writable hcluster
      (hcommands x List.mem_cons_self) hs
    by_cases hrest : h = []
    · subst hrest
      intro v hv
      rw [← show (serveOne env writable x s).2 = s' from hstate] at hv
      exact hfound v hv
    · have hreplies := congrArg Prod.fst hlegal
      refine ih hrest (fun y hy => hcommands y (List.mem_cons_of_mem _ hy)) hkept (Prod.ext ?_ hstate)
      exact (List.cons.inj hreplies).2

/-- Scheduled alone, an idle client is served. -/
theorem exists_served (env : Env Λ) (writable : Bool) (t : ℤ) {c : Clients S Λ} {i : ℕ}
    {command : RespValue} {rest : List RespValue} (hidle : (c.threads i).running = none)
    (hinput : (c.threads i).input = command :: rest) :
    ∃ schedule log c' s, c.run? (commandProg env writable) schedule =
        some (log ++ [⟨i, .reply ((commandProg env writable command (c.threads i).own).run t
          c.shared).1.1, s, s⟩], c') ∧
      (∀ e ∈ log, e.action = .receive command ∨ e.action = .call) ∧
      c'.shared = ((commandProg env writable command (c.threads i).own).run t c.shared).2 ∧
      ∀ j, j ≠ i → c'.threads j = c.threads j := by
  have hreceive := step?_receive (commandProg env writable) t hidle hinput
  obtain ⟨schedule, log, c₁, hrun, hlog, -, hrunning, hshared, hothers⟩ :=
    exists_advance (commandProg env writable) t (commandProg env writable command (c.threads i).own)
      .ret (c.put i { c.threads i with
        running := some (commandProg env writable command (c.threads i).own), input := rest } c.shared)
      (by rw [Prog.bind_ret, put_self])
  refine ⟨(i, t) :: (schedule ++ [(i, t)]), _ :: log, _, _,
    run?_cons_of_step hreceive (run?_append hrun (run?_cons_of_step (step?_ret _ t hrunning) rfl)),
    fun e he => ?_, hshared, fun j hj => ?_⟩
  · rcases List.mem_cons.mp he with rfl | he
    · exact .inl rfl
    · exact .inr (hlog e he).2
  · rw [put_of_ne _ _ hj, hothers j hj, put_of_ne _ _ hj]

/-- What a log says was received, some client sent. -/
theorem mem_commandsOf {C ρ σ : Type} {i : ℕ} {log : List (Entry ℕ σ C ρ)} {x : C}
    (h : x ∈ commandsOf i log) : ∃ e ∈ log, e.action = .receive x := by
  obtain ⟨e, he, haction⟩ := List.mem_filterMap.mp h
  refine ⟨e, he, ?_⟩
  split at haction
  · rename_i command hcommand
    rw [hcommand]
    split at haction
    · cases haction
      rfl
    · cases haction
  · cases haction

/-- A `DEL` of a key that was just set finds and deletes it. -/
theorem run_del_after_set (value : Bytes) (writable : Bool) (now : ℤ) {d : Data S}
    (hlasting : ∀ v, d.find? key = some v → v.expiryTime = 0) :
    ∃ d', (dataProg writable .del [.bulkString (str "DEL"), .bulkString key]).run now
        (Database.set key value d) = (boolReply true, d') ∧ d'.find? key = none := by
  have hrun : (dataProg writable .del [.bulkString (str "DEL"), .bulkString key]).run now
      (Database.set key value d) = handleDel now [.bulkString (str "DEL"), .bulkString key]
        (Database.set key value d) := run_delProg now _ _
  have hset : (Database.set key value d).find? key = some (written value (d.find? key)) := by
    rw [find?_store_set, if_pos rfl]
  have hlive : (written value (d.find? key)).isExpired now = false := by
    apply RedisValue.isExpired_of_expiryTime_zero
    cases hv : d.find? key with
    | none => rfl
    | some v => exact hlasting v hv
  have hfound : Database.keyExists now key (Database.set key value d) =
      (true, Database.set key value d) := by
    unfold Database.keyExists Database.ifLive
    rw [hset]
    simp only [hlive]
    rfl
  have hdeleted : (Database.del key
      (Database.incrementModCount key (Database.set key value d))).1 = true := by
    rw [Database.del, Database.incrementModCount, hset]
    simp only [UMap.find?_set_self]
    rfl
  refine ⟨(Database.incrementModCount key (Database.set key value d)).erase key, ?_,
    UMap.find?_erase_self _ _⟩
  rw [hrun]
  show (boolReply (Database.del key (if (Database.keyExists now key (Database.set key value d)).1 then
    Database.incrementModCount key (Database.keyExists now key (Database.set key value d)).2 else _)).1,
    (Database.del key (if (Database.keyExists now key (Database.set key value d)).1 then _ else _)).2) = _
  rw [hfound, if_pos rfl, hdeleted]
  rfl

/-- Another client is served between the two calls of a `SET`. -/
theorem exists_served_inside_set (env : Env Λ) (writable : Bool) (hcluster : env.cluster.enabled = false)
    {c : Clients S Λ} {i j : ℕ} (hij : i ≠ j) (hp : p.inTransaction = false)
    (hi : c.threads i = { own := p, input := [setCommand key value] })
    (hidle : (c.threads j).running = none) {command : RespValue} {rest : List RespValue}
    (hinput : (c.threads j).input = command :: rest) {x : (Answer × Processor Λ) × Data S}
    (hx : (commandProg env writable command (c.threads j).own).run 0
      (Database.set key value c.shared) = x) :
    ∃ schedule log c', c.run? (commandProg env writable) schedule = some (log, c') ∧
      (∀ e ∈ log, ∀ y, e.action = .receive y → y = setCommand key value ∨ y = command) ∧
      repliesOf i log = [.reply okReply] ∧ repliesOf j log = [x.1.1] ∧
      c'.shared = Database.incrementModCount key x.2 := by
  -- The `SET` makes its first call.
  let k : DataProg S (Answer × Processor Λ) :=
    (callWrite (Database.incrementModCount key)).bind fun _ => .ret (.reply okReply, p)
  have hset : commandProg env writable (setCommand key value) p =
      .call (fun _ d => ((), Database.set key value d)) fun _ => k := commandProg_set hcluster hp
  let c₁ := c.put i { c.threads i with
    running := some (commandProg env writable (setCommand key value) (c.threads i).own), input := [] }
    c.shared
  have hreceive : c.step? (commandProg env writable) i 0 =
      some (⟨i, .receive (setCommand key value), c.shared, c.shared⟩, c₁) :=
    step?_receive (commandProg env writable) 0 (by rw [hi]) (by rw [hi])
  have hrunning₁ : (c₁.threads i).running =
      some (.call (fun _ d => ((), Database.set key value d)) fun _ => k) := by
    rw [put_self, hi]
    exact congrArg some hset
  let c₂ := c₁.put i { c₁.threads i with running := some k } (Database.set key value c.shared)
  have hcall : c₁.step? (commandProg env writable) i 0 =
      some (⟨i, .call, c.shared, Database.set key value c.shared⟩, c₂) := step?_call _ 0 hrunning₁
  -- The other client is served as a whole.
  have hother : c₂.threads j = c.threads j := by rw [put_of_ne _ _ hij.symm, put_of_ne _ _ hij.symm]
  obtain ⟨schedule, log, c₃, s, hrun, hlog, hshared, hothers⟩ := exists_served env writable 0 (c := c₂)
    (i := j) (by rw [hother, hidle]) (by rw [hother, hinput])
  rw [hother, show c₂.shared = Database.set key value c.shared from rfl, hx] at hrun hshared
  -- The `SET` counts and replies.
  have hrunning₃ : (c₃.threads i).running = some (.call
      (fun _ d => ((), Database.incrementModCount key d)) fun _ => .ret (.reply okReply, p)) := by
    rw [hothers i hij, put_self]
    rfl
  let c₄ := c₃.put i { c₃.threads i with running := some (.ret (.reply okReply, p)) }
    (Database.incrementModCount key c₃.shared)
  have hcount : c₃.step? (commandProg env writable) i 0 =
      some (⟨i, .call, c₃.shared, c₄.shared⟩, c₄) := step?_call _ 0 hrunning₃
  have hreply := step?_ret (commandProg env writable) 0
    (show (c₄.threads i).running = some (.ret (.reply okReply, p)) by rw [put_self])
  have hquiet : ∀ i, repliesOf i log = [] := by
    intro i
    apply List.filterMap_eq_nil_iff.mpr
    intro e he
    rcases hlog e he with haction | haction
    all_goals
      rw [haction]
  refine ⟨(i, 0) :: (i, 0) :: (schedule ++ [(i, 0), (i, 0)]), _, _,
    run?_cons_of_step hreceive (run?_cons_of_step hcall (run?_append hrun
      (run?_cons_of_step hcount (run?_cons_of_step hreply rfl)))), fun e he y hy => ?_, ?_, ?_, ?_⟩
  · simp only [List.mem_cons, List.mem_append, List.not_mem_nil, or_false] at he
    rcases he with rfl | rfl | (he | rfl) | rfl | rfl
    · cases hy
      exact .inl rfl
    · cases hy
    · rcases hlog e he with haction | haction
      · rw [haction] at hy
        cases hy
        exact .inr rfl
      · rw [haction] at hy
        cases hy
    · cases hy
    · cases hy
    · cases hy
  · have h := hquiet i
    simp only [repliesOf] at h ⊢
    simp [h, hij.symm]
  · have h := hquiet j
    simp only [repliesOf] at h ⊢
    simp [h, hij]
  · show Database.incrementModCount key c₃.shared = _
    rw [hshared]

/-- The `DEL` comes between the two calls of the `SET`. -/
theorem exists_ghost_run (env : Env Λ) (writable : Bool) (hcluster : env.cluster.enabled = false)
    (engine : LuaScriptingEngine Λ) {d : Data S} (key value : Bytes)
    (hlasting : ∀ v, d.find? key = some v → v.expiryTime = 0) :
    ∃ schedule log c', (setBesideDel engine d key value).run? (commandProg env writable) schedule =
        some (log, c') ∧
      (∀ e ∈ log, ∀ x, e.action = .receive x → x = setCommand key value ∨ x = delCommand key) ∧
      repliesOf 0 log = [.reply okReply] ∧ repliesOf 1 log = [.reply (boolReply true)] ∧
      c'.shared.find? key = some { type := .string, modCount := 1 } := by
  let p : Processor Λ := { engine := engine }
  obtain ⟨d', hdel, habsent⟩ := run_del_after_set value writable 0 hlasting
  have hserved : (commandProg env writable (delCommand key) p).run 0 (Database.set key value d) =
      ((.reply (boolReply true), p), d') := by
    rw [commandProg_del hcluster rfl, Prog.run_bind_ret]
    show ((Answer.reply ((dataProg writable .del _).run 0 (Database.set key value d)).1, p),
      ((dataProg writable .del _).run 0 (Database.set key value d)).2) = _
    rw [hdel]
  obtain ⟨schedule, log, c', hrun, hreceived, hset, hdeleted, hshared⟩ :=
    exists_served_inside_set (c := setBesideDel engine d key value) (i := 0) (j := 1) env writable
      hcluster (by decide) rfl rfl rfl rfl hserved
  refine ⟨schedule, log, c', hrun, hreceived, hset, hdeleted, ?_⟩
  rw [hshared, Database.incrementModCount, habsent]
  exact UMap.find?_set_self _ _ _

/-- A `DEL` between the two calls of a `SET`: both commands succeed, and the key they leave is an empty
string, which no sequential history of the two can explain. -/
theorem set_del_ghost (env : Env Λ) (writable : Bool) (hcluster : env.cluster.enabled = false)
    (engine : LuaScriptingEngine Λ) {d : Data S} {key value : Bytes} (hvalue : value ≠ [])
    (hlasting : ∀ v, d.find? key = some v → v.expiryTime = 0) :
    ∃ schedule log c', (setBesideDel engine d key value).run? (commandProg env writable) schedule =
        some (log, c') ∧ repliesOf 0 log = [.reply okReply] ∧
      repliesOf 1 log = [.reply (boolReply true)] ∧
      c'.shared.find? key = some { type := .string, modCount := 1 } ∧
      ∀ h, ¬ Explains (observer S Γ) (serveOne env writable) (setBesideDel engine d key value) log c'
        h := by
  obtain ⟨schedule, log, c', hrun, hreceived, hset, hdel, hghost⟩ :=
    exists_ghost_run env writable hcluster engine key value hlasting
  refine ⟨schedule, log, c', hrun, hset, hdel, hghost, fun h hexplains => ?_⟩
  have hne : h ≠ [] := by
    intro hempty
    subst hempty
    have hprefix := hexplains.replies 0
    rw [hset] at hprefix
    exact List.cons_ne_nil _ _ (List.prefix_nil.mp hprefix)
  have hcommands : ∀ x ∈ h, x.command = setCommand key value ∨ x.command = delCommand key := by
    intro x hx
    have hmem : x.command ∈ (doneOf x.thread h).map Done.command :=
      List.mem_map_of_mem (List.mem_filter.mpr ⟨hx, decide_eq_true rfl⟩)
    obtain ⟨e, he, haction⟩ := mem_commandsOf ((hexplains.commands x.thread).subset hmem)
    exact hreceived e he _ haction
  obtain ⟨s, own, hlegal, hsame⟩ := hexplains.legal
  have hleft := find?_of_legal hcluster hne hcommands (fun _ => rfl) hlegal
  have hseen := congrArg (fun m => (m.find? key).map RedisValue.strVal) hsame
  simp only [find?_uncounted, hghost] at hseen
  cases hv : s.find? key with
  | none =>
    rw [hv] at hseen
    cases hseen
  | some v =>
    rw [hv] at hseen
    have hvalue' : v.strVal = [] := (Option.some.inj hseen).symm
    exact hvalue ((hleft v hv).symm.trans hvalue')

/-- `SET k v` beside `DEL k` on an empty store. -/
theorem set_del_ghost_empty_store :
    ∃ schedule log c', (setBesideDel { state := () } (∅ : Data NatScore) [107] [118]).run?
        (commandProg Env.standalone true) schedule = some (log, c') ∧
      repliesOf 0 log = [.reply okReply] ∧ repliesOf 1 log = [.reply (boolReply true)] ∧
      c'.shared.find? [107] = some { type := .string, modCount := 1 } ∧
      ∀ h, ¬ Explains (observer NatScore fun _ => .string) (serveOne Env.standalone true)
        (setBesideDel { state := () } (∅ : Data NatScore) [107] [118]) log c' h :=
  set_del_ghost Env.standalone true rfl { state := () } (by decide) nofun

end Ghost

/-! ### A write that `WATCH` does not see -/

section Unseen

variable {env : Env Λ} {writable : Bool} {p : Processor Λ} {d : Data S} {value : Bytes}

/-- The client with processor `p` at a store that holds `d`. -/
def sessionAt (writable : Bool) (d : Data S) (p : Processor Λ) : Session S Λ :=
  ⟨{ data := d, fileWritable := writable }, p⟩

/-- One client is at the `EXEC` of its transaction, another sets `key`. -/
def execBesideSet (engine : LuaScriptingEngine Λ) (p : Processor Λ) (d : Data S) (key value : Bytes) :
    Clients S Λ where
  shared := d
  threads i := if i = 0 then { own := p, input := [execCommand] }
    else { own := { engine := engine }, input := if i = 1 then [setCommand key value] else [] }

/-- `EXEC` where the recorded counters hold. -/
theorem processCommand_exec_of_hold (env : Env Λ) (now : ℤ) {s : Session S Λ}
    (hin : s.self.inTransaction = true)
    (hhold : watchesHold s.self.watchedKeys s.world.data = true) :
    (processCommand env now execCommand s).1 = execReply (execLoop now s.self.transactionQueue s).1 := by
  have hexec : execCommand.command? = some .exec := by decide
  rw [processCommand_direct env now hexec rfl (.inr (.inl rfl))]
  show (handleExec now [.bulkString (str "EXEC")] s).1 = _
  simp [handleExec, hin, hhold]

theorem run_commandProg_exec (env : Env Λ) (writable : Bool) (now : ℤ)
    (hin : p.inTransaction = true) (hhold : watchesHold p.watchedKeys d = true) :
    ((commandProg env writable execCommand p).run now d).1.1 =
      .reply (execReply (execLoop now p.transactionQueue (sessionAt writable d p)).1) := by
  have hloop := (run_execLoopProg env now p.transactionQueue (sessionAt writable d p)).1
  rw [commandProg_exec env writable ⟨by decide, rfl⟩ hin, Prog.run_bind, run_checkProg]
  show ((afterCheck writable p (watchesHold p.watchedKeys d)).run now d).1.1 = _
  rw [hhold, run_afterCheck_true]
  exact congrArg (fun x => Answer.reply (execReply x.1)) hloop

/-- The unfinished `SET` has counted nothing. -/
theorem watchesHold_set (hhold : watchesHold p.watchedKeys d = true) (key value : Bytes) :
    watchesHold p.watchedKeys (Database.set key value d) = true := by
  unfold watchesHold at hhold ⊢
  simp only [getModCount_store_set]
  exact hhold

/-- The whole `SET` has. -/
theorem not_watchesHold_handleSet (hhold : watchesHold p.watchedKeys d = true)
    (hkey : p.watchedKeys.find? key ≠ none) (name : RespValue) :
    watchesHold p.watchedKeys (handleSet [name, .bulkString key, .bulkString value] d).2 = false := by
  obtain ⟨n, hn⟩ := Option.ne_none_iff_exists'.mp hkey
  by_contra hhold'
  have hbefore := getModCount_of_watchesHold hhold hn
  have hafter := getModCount_of_watchesHold (by simpa using hhold') hn
  have hfound := find?_handleSet name key value key d
  rw [if_pos rfl] at hfound
  rw [getModCount_of_find? hfound] at hafter
  replace hafter : (written value (d.find? key)).modCount + 1 = n := hafter
  rw [modCount_written, hbefore] at hafter
  cases UInt64.add_eq_left.mp hafter

/-- **The check of `EXEC` misses an unfinished write.**  For every store and every client at the `EXEC` of
a transaction whose recorded counters all hold, a `SET` of a watched key can take effect before the check
and count behind it: the queue runs on the changed data.  In neither order of the two whole commands does
it: the `EXEC` runs on the old data, or is refused. -/
theorem exec_misses_unfinished_set (env : Env Λ) (writable : Bool) (hcluster : env.cluster.enabled = false)
    (engine : LuaScriptingEngine Λ) {d : Data S} {p : Processor Λ} {key : Bytes} (value : Bytes)
    (hin : p.inTransaction = true) (hhold : watchesHold p.watchedKeys d = true)
    (hkey : p.watchedKeys.find? key ≠ none) :
    (∃ schedule log c', (execBesideSet engine p d key value).run? (commandProg env writable) schedule =
        some (log, c') ∧ repliesOf 1 log = [.reply okReply] ∧
      repliesOf 0 log = [.reply (execReply (execLoop 0 p.transactionQueue
        (sessionAt writable (Database.set key value d) p)).1)]) ∧
    (processCommand env 0 execCommand (sessionAt writable d p)).1 =
      execReply (execLoop 0 p.transactionQueue (sessionAt writable d p)).1 ∧
    ∀ q : Processor Λ, q.inTransaction = false →
      (processCommand env 0 execCommand (sessionAt writable (processCommand env 0 (setCommand key value)
        (sessionAt writable d q)).2.world.data p)).1 = execAbortReply := by
  refine ⟨?_, processCommand_exec_of_hold env 0 hin hhold, fun q hq => ?_⟩
  · obtain ⟨schedule, log, c', hrun, -, hset, hexec, -⟩ :=
      exists_served_inside_set (c := execBesideSet engine p d key value) (i := 1) (j := 0) env writable
        hcluster (by decide) rfl rfl rfl rfl rfl
    replace hexec : repliesOf 0 log = [((commandProg env writable execCommand p).run 0
      (Database.set key value d)).1.1] := hexec
    rw [run_commandProg_exec env writable 0 hin (watchesHold_set hhold key value)] at hexec
    exact ⟨schedule, log, c', hrun, hset, hexec⟩
  · rw [processCommand_set hcluster hq]
    exact congrArg Prod.fst (processCommand_exec_abort env 0 (by decide) hin
      (not_watchesHold_handleSet hhold hkey (.bulkString (str "SET"))))

/-- A client watches `k`, which is missing, and has queued `GET k`: it reads the value it should not. -/
theorem exec_misses_unfinished_set_get :
    let p := watchingClient [.bulkString [107]]
    let before : Data NatScore := ∅
    (∃ schedule log c', (execBesideSet p.engine p before [107] [118]).run?
        (commandProg Env.standalone true) schedule = some (log, c') ∧
      repliesOf 1 log = [.reply okReply] ∧
      repliesOf 0 log = [.reply (execReply (execLoop 0 p.transactionQueue
        (sessionAt true (Database.set [107] [118] before) p)).1)]) ∧
    (processCommand Env.standalone 0 execCommand (sessionAt true before p)).1 =
      execReply (execLoop 0 p.transactionQueue (sessionAt true before p)).1 ∧
    ∀ q : Processor Unit, q.inTransaction = false →
      (processCommand Env.standalone 0 execCommand (sessionAt true (processCommand Env.standalone 0
        (setCommand [107] [118]) (sessionAt true before q)).2.world.data p)).1 = execAbortReply :=
  exec_misses_unfinished_set Env.standalone true rfl (watchingClient [.bulkString [107]]).engine [118] rfl
    (by decide) (by decide)

end Unseen

end MinimalRedis
