import MinimalRedis.Programs

/-!
# Interleaved clients

`main` starts a thread for each client, and all threads share one `Database`.  Here every client is a
thread of the library's interleaving model: it takes a command from its input, makes the `Database`
calls of `commandProg` one by one, each of them one step, and replies; the schedule is arbitrary.

* `ExecRun` — what all clients do from the receipt of a successful `EXEC` to its reply;
* `exec_atomic_iff` — no other client writes between the check of the watched keys and the last call
  of the queue, under every schedule, exactly when the queue makes no call at all;
* `exec_interleaved` — a client writes between two queued commands of another one.
-/

namespace MinimalRedis

open Lib Config

variable {S : Type} [Score S] {Λ : Type}

/-- The clients of a server, numbered, with the commands that wait. -/
abbrev Clients (S Λ : Type) [Score S] := Config ℕ ℤ (Data S) (Processor Λ) RespValue Answer

/-- An `EXEC` without arguments. -/
def RespValue.IsExec (command : RespValue) : Prop :=
  command.command? = some .exec ∧ command.args.length = 1

/-- From a configuration that some run of idle clients has come to, client `A`, whose processor is `p`,
takes an `EXEC`; `log` is what all clients do until `A` replies, and `A` replies with results. -/
structure ExecRun (env : Env Λ) (writable : Bool) (A : ℕ) (p : Processor Λ)
    (log : List (Entry ℕ (Data S) RespValue Answer)) : Prop where
  intro ::
  exists_run : ∃ (c c₁ c₂ : Clients S Λ) (command : RespValue) (rest : List RespValue) (t : ℤ)
    (e : Entry ℕ (Data S) RespValue Answer) (schedule : List (ℕ × ℤ)) (results : List Bytes)
    (d : Data S),
    Reachable (commandProg env writable) c ∧ (c.threads A).running = none ∧
      (c.threads A).own = p ∧ (c.threads A).input = command :: rest ∧ command.IsExec ∧
      c.step? (commandProg env writable) A t = some (e, c₁) ∧
      c₁.run? (commandProg env writable) schedule =
        some (log ++ [⟨A, .reply (.reply (execReply results)), d, d⟩], c₂) ∧
      ∀ e ∈ log, e.thread = A → ∀ r, e.action ≠ .reply r

/-- Under no schedule does another client change the data between the check of the watched keys, which
takes a call for each of them, and the last call of the queue. -/
def ExecAtomic (S : Type) [Score S] (env : Env Λ) (writable : Bool) (A : ℕ) (p : Processor Λ) :
    Prop :=
  ∀ log : List (Entry ℕ (Data S) RespValue Answer), ExecRun env writable A p log →
    ¬ Intruded A p.watchedKeys.size log

/-! ### Refused commands -/

/-- The arguments pass the checks that the handler makes before its first call.  `HSET` sets its pairs
one by one, so only the first of them counts. -/
def Command.accepts (S : Type) [Score S] (cmd : Command) (args : Args) : Bool :=
  match cmd with
  | .set | .sismember | .hget | .zscore | .zrank => (twoArgs? args).isSome
  | .get | .del | .existsKey | .type | .lpop | .rpop | .llen | .scard | .smembers | .hlen | .hkeys
  | .hvals | .hgetall | .zcard | .ttl | .pttl | .persist => (keyArg? args).isSome
  | .lpush | .rpush | .sadd | .srem | .hdel | .zrem => (keyAndRest? args).isSome
  | .sinter | .sunion | .sdiff => (keyArgs? args).isSome
  | .keys | .save => args.length == 1
  | .lrange => (rangeArgs? (· == 4) args).isSome
  | .zrange | .zrevrange => (rangeArgs? (fun _ => true) args).isSome
  | .lindex => (indexArgs? args).isSome
  | .hset =>
      (pairsKey? args).isSome && (args.getD 2 default).bulk?.isSome && (args.getD 3 default).bulk?.isSome
  | .zadd => (zaddArgs? (S := S) args).isSome
  | .expire | .pexpire => (durationArgs? args).isSome
  | _ => false

theorem isCall_hsetProg {writable : Bool} (args : Args) :
    (dataProg (S := S) writable .hset args).isCall = Command.accepts S .hset args := by
  show (guarded _ _ _).isCall = ((pairsKey? args).isSome && _ && _)
  cases hkey : pairsKey? args with
  | none => rfl
  | some key =>
    unfold pairsKey? at hkey
    split at hkey
    · cases hkey
    · rename_i hlength
      rcases args with _ | ⟨name, _ | ⟨arg, _ | ⟨field, _ | ⟨value, rest⟩⟩⟩⟩
      iterate 4 simp at hlength
      show Prog.isCall ((hsetLoopProg key (field :: value :: rest) 0).bind _) =
        (true && field.bulk?.isSome && value.bulk?.isSome)
      rw [hsetLoopProg]
      cases field.bulk? <;> cases value.bulk? <;> rfl

/-- A handler that works on the data makes a call unless it refuses its arguments. -/
theorem isCall_dataProg (writable : Bool) (cmd : Command) (args : Args) :
    (dataProg (S := S) writable cmd args).isCall = cmd.accepts S args := by
  have hone : ∀ {refusal : Bytes} {body : Unit → DataProg S Bytes}, (body ()).isCall = true →
      (guarded (if args.length = 1 then some () else none) refusal body).isCall =
        (args.length == 1) := by
    intro refusal body hbody
    rw [isCall_guarded fun _ => hbody]
    by_cases h : args.length = 1
    · simp [h]
    · simp [h]
  cases cmd with
  | hset => exact isCall_hsetProg args
  | keys => exact hone rfl
  | save => exact hone rfl
  | _ => first | rfl | exact isCall_guarded fun _ => rfl

/-! ### The program of `EXEC` -/

/-- What follows the check. -/
def afterCheck (writable : Bool) (p : Processor Λ) (holds : Bool) : DataProg S (Answer × Processor Λ) :=
  if holds then
    (execLoopProg writable p.transactionQueue).bind fun results =>
      .ret (.reply (execReply results), p.endTransaction)
  else .ret (.reply execAbortReply, p.endTransaction)

theorem commandProg_exec (env : Env Λ) (writable : Bool) {command : RespValue} {p : Processor Λ}
    (hexec : command.IsExec) (hin : p.inTransaction = true) :
    commandProg (S := S) env writable command p =
      (checkProg p.watchedKeys.entries).bind (afterCheck writable p) := by
  obtain ⟨hcommand, hargs⟩ := hexec
  obtain ⟨name, rest, rfl⟩ := exists_name_of_command? hcommand
  replace hcommand : Command.ofName name = some .exec := hcommand
  have hroute : redirect env (some .exec) (.bulkString name :: rest) = none := by
    apply redirect_of_not_routed
    intro c hc
    rw [← Option.some.inj hc]
    rfl
  have hrest : rest = [] := by
    replace hargs : (RespValue.bulkString name :: rest).length = 1 := hargs
    rw [List.length_cons] at hargs
    exact List.length_eq_zero_iff.mp (by omega)
  subst hrest
  simp only [commandProg, hcommand]
  rw [if_neg (by simp), hroute]
  show (execProg writable [.bulkString name] p).bind _ = _
  unfold execProg
  rw [if_neg (by simp), if_neg (by simp [hin]), Prog.bind_assoc]
  congr 1
  funext holds
  cases holds with
  | false => rfl
  | true =>
    show ((execLoopProg writable p.transactionQueue).bind _).bind _ = _
    rw [Prog.bind_assoc]
    rfl

theorem atMost_checkProg {α : Type} {f : Bool → DataProg S α} (hf : ∀ b, ∃ a, f b = .ret a)
    (watched : List (Bytes × UInt64)) : ((checkProg watched).bind f).AtMost watched.length := by
  induction watched with
  | nil =>
    obtain ⟨a, ha⟩ := hf true
    show (f true).AtMost _
    rw [ha]
    exact .ret _ a
  | cons e watched ih =>
    refine .call _ fun count => ?_
    show ((if count == e.2 then checkProg watched else Prog.ret false).bind f).AtMost _
    split
    · exact ih
    · obtain ⟨a, ha⟩ := hf false
      show (f false).AtMost _
      rw [ha]
      exact .ret _ a

theorem calls_checkProg (now : ℤ) {watched : List (Bytes × UInt64)} {d : Data S}
    (h : ∀ e ∈ watched, Database.getModCount e.1 d = e.2) :
    (checkProg watched).calls now d = watched.length := by
  induction watched with
  | nil => rfl
  | cons e watched ih =>
    have hcount : (Database.getModCount e.1 d == e.2) = true := beq_iff_eq.mpr (h e List.mem_cons_self)
    show Prog.calls now (if Database.getModCount e.1 d == e.2 then checkProg watched else .ret false) d +
      1 = _
    rw [if_pos hcount, ih fun e' he' => h e' (List.mem_cons_of_mem _ he'), List.length_cons]

theorem execLoopProg_eq_ret {writable : Bool} {queue : List TransactionCommand}
    (h : ∀ tx ∈ queue, (executeProg (S := S) writable tx).isCall = false) :
    ∃ results, execLoopProg (S := S) writable queue = .ret results := by
  induction queue with
  | nil => exact ⟨[], rfl⟩
  | cons tx queue ih =>
    obtain ⟨reply, hreply⟩ := Prog.eq_ret_of_not_isCall (h tx List.mem_cons_self)
    obtain ⟨results, hresults⟩ := ih fun tx' htx' => h tx' (List.mem_cons_of_mem _ htx')
    refine ⟨reply :: results, ?_⟩
    rw [execLoopProg, hreply, hresults]
    rfl

theorem isCall_execLoopProg {writable : Bool} {queue : List TransactionCommand}
    {tx : TransactionCommand} (htx : tx ∈ queue)
    (h : (executeProg (S := S) writable tx).isCall = true) :
    (execLoopProg (S := S) writable queue).isCall = true := by
  induction queue with
  | nil => cases htx
  | cons tx' queue ih =>
    rw [execLoopProg]
    cases hfirst : (executeProg (S := S) writable tx').isCall with
    | true => exact Prog.isCall_bind hfirst _
    | false =>
      obtain ⟨reply, hreply⟩ := Prog.eq_ret_of_not_isCall hfirst
      rw [hreply]
      show ((execLoopProg writable queue).bind _).isCall = true
      apply Prog.isCall_bind
      rcases List.mem_cons.mp htx with rfl | htx
      · rw [h] at hfirst
        cases hfirst
      · exact ih htx

/-! ### A writer between the check and the queue -/

/-- A push always changes the data. -/
theorem rpush_ne (key value : Bytes) (d : Data S) : (Database.rpush key [value] d).2 ≠ d := by
  intro heq
  have hfind : (Database.rpush key [value] d).2.find? key = d.find? key := by rw [heq]
  rw [show (Database.rpush key [value] d).2 = d.set key _ from rfl, UMap.find?_set_self] at hfind
  rw [← hfind, Option.getD_some, Option.some.injEq] at hfind
  have hlength := congrArg (fun v => v.listVal.length) hfind
  simp at hlength

def rpushCommand : RespValue :=
  .array [.bulkString (str "RPUSH"), .bulkString [], .bulkString []]

theorem commandProg_rpush (env : Env Λ) (writable : Bool) {p : Processor Λ}
    (hp : p.inTransaction = false) :
    ∃ k, commandProg (S := S) env writable rpushCommand p =
      .call (fun _ => Database.rpush [] [[]]) k := by
  have hroute : redirect env (some .rpush)
      [.bulkString (str "RPUSH"), .bulkString [], .bulkString []] = none := by
    apply redirect_of_not_routed
    intro c hc
    rw [← Option.some.inj hc]
    rfl
  unfold commandProg rpushCommand
  simp only [show Command.ofName (str "RPUSH") = some .rpush by decide]
  rw [if_neg (by simp [hp]), hroute]
  exact ⟨_, rfl⟩

/-- Data in which every watched key has the counter it was watched with. -/
def watchedData (S : Type) [Score S] (watched : UMap Bytes UInt64) : Data S where
  entries := watched.entries.map fun e => (e.1, { type := .string, modCount := e.2 })
  nodup := by
    rw [List.map_map]
    exact watched.nodup

theorem getModCount_watchedData {watched : UMap Bytes UInt64} {e : Bytes × UInt64}
    (he : e ∈ watched.entries) : Database.getModCount e.1 (watchedData S watched) = e.2 := by
  have hfind : (watchedData S watched).find? e.1 = some { type := .string, modCount := e.2 } := by
    apply UMap.mem_entries_iff.mp
    exact List.mem_map.mpr ⟨e, he, rfl⟩
  unfold Database.getModCount
  rw [hfind]

/-- `A` has an `EXEC` before it, every other client a push. -/
def writersBeside (S : Type) [Score S] (A : ℕ) (p : Processor Λ) : Clients S Λ where
  shared := watchedData S p.watchedKeys
  threads i := if i = A then { own := p, input := [execCommand] }
    else { own := { engine := p.engine }, input := [rpushCommand] }

/-- An idle client that is scheduled twice takes the push that waits and changes the data. -/
theorem exists_push (env : Env Λ) (writable : Bool) {B : ℕ} {c : Clients S Λ} {q : Processor Λ}
    (hB : c.threads B = { own := q, input := [rpushCommand] }) (hq : q.inTransaction = false) :
    ∃ schedule received pushed c',
      c.run? (commandProg env writable) schedule = some ([received, pushed], c') ∧
        received.thread = B ∧ pushed.thread = B ∧ (∀ r, received.action ≠ .reply r) ∧
        (∀ r, pushed.action ≠ .reply r) ∧ pushed.after ≠ pushed.before ∧
        ∀ j, j ≠ B → c'.threads j = c.threads j := by
  obtain ⟨k, hk⟩ := commandProg_rpush (S := S) env writable hq
  have hidle : (c.threads B).running = none := by rw [hB]
  have hinput : (c.threads B).input = [rpushCommand] := by rw [hB]
  have hreceive := step?_receive (commandProg env writable) 0 hidle hinput
  have hrunning : ((c.put B { c.threads B with
      running := some (commandProg env writable rpushCommand (c.threads B).own), input := [] }
      c.shared).threads B).running = some (.call (fun _ => Database.rpush [] [[]]) k) := by
    rw [put_self, hB]
    exact congrArg some hk
  have hcall := step?_call (commandProg env writable) 0 hrunning
  refine ⟨[(B, 0), (B, 0)], _, _, _,
    run?_cons_of_step hreceive (run?_cons_of_step hcall rfl), rfl, rfl, nofun, nofun, rpush_ne _ _ _, ?_⟩
  intro j hj
  rw [put_of_ne _ _ hj, put_of_ne _ _ hj]

/-- `A` takes its `EXEC` and makes the check by itself. -/
theorem exists_checked (env : Env Λ) (writable : Bool) (A : ℕ) {p : Processor Λ}
    (hin : p.inTransaction = true) :
    ∃ e c₀ schedule log c₁,
      (writersBeside S A p).step? (commandProg env writable) A 0 = some (e, c₀) ∧
        c₀.run? (commandProg env writable) schedule = some (log, c₁) ∧
        (∀ e ∈ log, e.thread = A ∧ e.action = .call) ∧ log.length = p.watchedKeys.size ∧
        (c₁.threads A).running = some (afterCheck writable p true) ∧
        ∀ j, j ≠ A → c₁.threads j = (writersBeside S A p).threads j := by
  let c := writersBeside S A p
  have hA : c.threads A = { own := p, input := [execCommand] } := if_pos rfl
  have hexec : execCommand.IsExec := ⟨by decide, rfl⟩
  have hidle : (c.threads A).running = none := by rw [hA]
  have hinput : (c.threads A).input = [execCommand] := by rw [hA]
  have hreceive := step?_receive (commandProg env writable) 0 hidle hinput
  obtain ⟨schedule, log, c₁, hrun, hlog, hlength, hrunning, -, hothers⟩ :=
    exists_advance (commandProg env writable) 0 (checkProg p.watchedKeys.entries)
      (afterCheck writable p) _
      (show ((c.put A { c.threads A with
        running := some (commandProg env writable execCommand (c.threads A).own), input := [] }
          c.shared).threads A).running = _ by
        rw [put_self, hA]
        exact congrArg some (commandProg_exec env writable hexec hin))
  have hcounts : ∀ e ∈ p.watchedKeys.entries, Database.getModCount e.1 c.shared = e.2 :=
    fun e he => getModCount_watchedData he
  have hholds : ((checkProg p.watchedKeys.entries).run 0 c.shared).1 = true := by
    rw [run_checkProg]
    exact List.all_eq_true.mpr fun e he => beq_iff_eq.mpr (hcounts e he)
  refine ⟨_, _, schedule, log, c₁, hreceive, hrun, hlog, ?_, ?_, ?_⟩
  · rw [hlength]
    exact calls_checkProg 0 hcounts
  · rw [hrunning]
    exact congrArg (fun b => some (afterCheck writable p b)) hholds
  · intro j hj
    rw [hothers j hj, put_of_ne _ _ hj]

theorem run_afterCheck_true (writable : Bool) (p : Processor Λ) (now : ℤ) (d : Data S) :
    ((afterCheck writable p true).run now d).1.1 =
      .reply (execReply ((execLoopProg writable p.transactionQueue).run now d).1) := by
  unfold afterCheck
  rw [if_pos rfl, Prog.run_bind]
  rfl

/-- When the queue makes a call, a client can push after the check and before that call. -/
theorem exists_intruded (env : Env Λ) (writable : Bool) (A : ℕ) {p : Processor Λ}
    (hin : p.inTransaction = true)
    (hcall : (execLoopProg (S := S) writable p.transactionQueue).isCall = true) :
    ∃ log : List (Entry ℕ (Data S) RespValue Answer), ExecRun env writable A p log ∧
      Intruded A p.watchedKeys.size log := by
  let c := writersBeside S A p
  have hA : c.threads A = { own := p, input := [execCommand] } := if_pos rfl
  have hB : c.threads (A + 1) = { own := { engine := p.engine }, input := [rpushCommand] } :=
    if_neg (by omega)
  obtain ⟨e, c₀, s₁, l₁, c₁, hreceive, hrun₁, hl₁, hlength₁, hrunning₁, hothers₁⟩ :=
    exists_checked (S := S) env writable A hin
  -- Between the check and the queue the neighbour of `A` pushes.
  obtain ⟨s₂, received, pushed, c₂, hrun₂, hreceived, hpushed, hquiet, hquiet', hne, hothers₂⟩ :=
    exists_push env writable (B := A + 1) (c := c₁) ((hothers₁ _ (by omega)).trans hB) rfl
  obtain ⟨s₃, l₃, d, c₃, hrun₃, hl₃, hlength₃⟩ :=
    exists_finish (commandProg env writable) 0 (afterCheck writable p true) c₂
      ((congrArg Thread.running (hothers₂ A (by omega))).trans hrunning₁)
  rw [run_afterCheck_true] at hrun₃
  have hcalls : 0 < l₃.length := by
    rw [hlength₃]
    exact Prog.calls_pos (Prog.isCall_bind hcall _) _ _
  have hrun := run?_append (run?_append hrun₁ hrun₂) hrun₃
  rw [← List.append_assoc] at hrun
  refine ⟨(l₁ ++ [received, pushed]) ++ l₃, ⟨⟨c, c₀, c₃, execCommand, [], 0, e, _, _, d,
    .idle ?_, by rw [hA], by rw [hA], by rw [hA], ⟨by decide, rfl⟩, hreceive, hrun, ?_⟩⟩,
    l₁ ++ [received], pushed, l₃, by simp, ?_, ?_, hne, ?_⟩
  · intro i
    show Thread.running (if i = A then _ else _) = none
    split <;> rfl
  · intro e he hthread r
    rcases List.mem_append.mp he with he | he
    · rcases List.mem_append.mp he with he | he
      · rw [(hl₁ e he).2]
        exact nofun
      · rcases List.mem_cons.mp he with rfl | he
        · exact hquiet r
        · rw [List.mem_singleton.mp he]
          exact hquiet' r
    · rw [(hl₃ e he).2]
      exact nofun
  · rw [List.filter_append, List.length_append,
      List.filter_eq_self.mpr fun e he => isCallOf_eq_true (hl₁ e he), hlength₁]
    omega
  · rw [hpushed]
    omega
  · obtain ⟨e, he⟩ := List.exists_mem_of_length_pos hcalls
    exact ⟨e, he, isCallOf_eq_true (hl₃ e he)⟩

/-! ### Atomicity -/

theorem isCall_executeProg (writable : Bool) (tx : TransactionCommand) :
    (executeProg (S := S) writable tx).isCall =
      (queuedCommand tx).any fun cmd => cmd.accepts S tx.args := by
  unfold executeProg
  cases queuedCommand tx with
  | none => rfl
  | some cmd => exact isCall_dataProg writable cmd tx.args

/-- A transaction is atomic exactly when all its commands are refused before they touch the data. -/
theorem exec_atomic_iff (env : Env Λ) (writable : Bool) (A : ℕ) (p : Processor Λ)
    (hin : p.inTransaction = true) :
    ExecAtomic S env writable A p ↔
      ∀ tx ∈ p.transactionQueue, ∀ cmd, queuedCommand tx = some cmd →
        cmd.accepts S tx.args = false := by
  constructor
  · intro hatomic tx htx cmd hcmd
    by_contra haccepts
    have hcall : (executeProg (S := S) writable tx).isCall = true := by
      rw [isCall_executeProg, hcmd]
      exact Bool.not_eq_false _ ▸ haccepts
    obtain ⟨log, hrun, hintruded⟩ :=
      exists_intruded env writable A hin (isCall_execLoopProg htx hcall)
    exact hatomic log hrun hintruded
  · intro hrefused log hrun
    obtain ⟨c, c₁, c₂, command, rest, t, e, schedule, results, d, -, hidle, hown, hinput, hexec, hstep,
      hrun, hquiet⟩ := hrun.exists_run
    have hret : ∃ results, execLoopProg (S := S) writable p.transactionQueue = .ret results := by
      apply execLoopProg_eq_ret
      intro tx htx
      rw [isCall_executeProg]
      cases hcmd : queuedCommand tx with
      | none => rfl
      | some cmd => exact hrefused tx htx cmd hcmd
    have hbound : (commandProg (S := S) env writable command p).AtMost p.watchedKeys.size := by
      rw [commandProg_exec env writable hexec hin]
      apply atMost_checkProg
      intro b
      cases b with
      | false => exact ⟨_, rfl⟩
      | true =>
        obtain ⟨results, hresults⟩ := hret
        refine ⟨(.reply (execReply results), p.endTransaction), ?_⟩
        show (execLoopProg writable p.transactionQueue).bind _ = _
        rw [hresults]
        rfl
    rw [step?_receive _ _ hidle hinput, hown] at hstep
    cases hstep
    obtain ⟨schedule', c', hrun⟩ := exists_run?_of_append hrun
    exact not_intruded_of_length_le
      (length_calls_le hbound (congrArg Thread.running (put_self _ _)) hrun hquiet)

/-- A client that watches `k` and has queued one command on it. -/
def watchingClient (args : Args) : Processor Unit where
  inTransaction := true
  transactionQueue := [{ commandName := str "GET", args := .bulkString (str "GET") :: args }]
  watchedKeys := (∅ : UMap Bytes UInt64).set [107] 0
  engine := { state := () }

/-- A `GET` without a key is refused, and then the transaction is atomic. -/
theorem exec_atomic_refused :
    (watchingClient []).inTransaction = true ∧
      ExecAtomic NatScore Env.standalone true 0 (watchingClient []) := by
  refine ⟨rfl, (exec_atomic_iff Env.standalone true 0 (watchingClient []) rfl).mpr ?_⟩
  intro tx htx cmd hcmd
  rw [List.mem_singleton.mp htx] at hcmd ⊢
  obtain rfl : Command.get = cmd := Option.some.inj hcmd
  rfl

/-- With a key, another client writes after the check of `k` and before the `GET`. -/
theorem exec_interleaved :
    ¬ ExecAtomic NatScore Env.standalone true 0 (watchingClient [.bulkString [107]]) := by
  intro hatomic
  obtain ⟨log, hrun, hintruded⟩ := exists_intruded (S := NatScore) Env.standalone true 0
    (p := watchingClient [.bulkString [107]]) rfl rfl
  exact hatomic log hrun hintruded

end MinimalRedis
