import MinimalRedis.Watch

/-!
# Transactions over whole runs

The mode of a client and its queue, over every run of whole commands in which any other clients take
part.  Three exits lead back to the idle mode: `DISCARD`, an `EXEC` that runs the queue and one that
aborts; a refused `EXEC` or `DISCARD` is no exit and is not queued either.

* `processCommand_idle`, `processCommand_queue` — one command of an idle client and of one in a
  transaction;
* `queueInvariant_run` — an idle client has an empty queue, and an open transaction holds what came
  since its `MULTI`;
* `transactions_all_or_nothing` — between `MULTI` and the exit nothing happens, and at the exit
  everything or nothing.
-/

namespace MinimalRedis

open Lib Session

variable {S : Type} [Score S] {Λ : Type}

/-! ### What a transaction is to do -/

/-- What an open transaction queues: every non-empty array that starts with a bulk string, `EXEC` and
`DISCARD` apart. -/
def RespValue.queued? (command : RespValue) : Option TransactionCommand :=
  if command.command? = some .exec ∨ command.command? = some .discard then none else queueOf command

def queuedBy (A : ℕ) (rs : List Request) : List TransactionCommand :=
  (rs.filter fun r => r.client = A).filterMap fun r => r.command.queued?

/-- After the requests `before`, the `MULTI` opens a transaction of `A`, and it is open ever since. -/
structure OpenSince (env : Env Λ) (A : ℕ) (sys : System S Λ) (before : List Request)
    (multi : Request) (since : List Request) : Prop where
  client : multi.client = A
  command : multi.command.command? = some .multi
  idle : ((sys.run env before).clients A).inTransaction = false
  stays : ∀ part, part <+: since →
    ((sys.run env (before ++ multi :: part)).clients A).inTransaction = true

/-- The queued commands are executed, each once and in their order. -/
inductive Executes (now : ℤ) :
    List TransactionCommand → Session S Λ → List Bytes → Session S Λ → Prop where
  | nil (s : Session S Λ) : Executes now [] s [] s
  | cons {tx : TransactionCommand} {queue : List TransactionCommand} {s s₁ s₂ : Session S Λ}
      {reply : Bytes} {replies : List Bytes} :
      executeFunc now tx s = (reply, s₁) → Executes now queue s₁ replies s₂ →
        Executes now (tx :: queue) s (reply :: replies) s₂

/-- The client is idle with an empty queue, and neither the world nor its scripts have changed. -/
structure Dropped (A : ℕ) (sys sys' : System S Λ) : Prop where
  world : sys'.world = sys.world
  engine : (sys'.clients A).engine = (sys.clients A).engine
  queue : (sys'.clients A).transactionQueue = []
  idle : (sys'.clients A).inTransaction = false

/-- What holds of client `A` after the requests `rs`, and of the next command it sends. -/
structure AllOrNothing (env : Env Λ) (A : ℕ) (sys : System S Λ) (rs : List Request) : Prop where
  idle : ((sys.run env rs).clients A).inTransaction = false →
    ((sys.run env rs).clients A).transactionQueue = []
  queued : ((sys.run env rs).clients A).inTransaction = true →
    ∃ before multi since, rs = before ++ multi :: since ∧ OpenSince env A sys before multi since ∧
      ((sys.run env rs).clients A).transactionQueue = queuedBy A since
  held : ∀ r, r.client = A → ((sys.run env rs).clients A).inTransaction = true →
    r.command.command? ≠ some .exec → r.command.command? ≠ some .discard →
      ((sys.run env rs).step env r).2.world = (sys.run env rs).world ∧
        (((sys.run env rs).step env r).2.clients A).engine = ((sys.run env rs).clients A).engine
  discarded : ∀ r, r.client = A → r.command.command? = some .discard → r.command.args.length = 1 →
    Dropped A (sys.run env rs) ((sys.run env rs).step env r).2
  aborted : ∀ r, r.client = A → r.command.command? = some .exec →
    ((sys.run env rs).step env r).1 = execAbortReply →
      Dropped A (sys.run env rs) ((sys.run env rs).step env r).2
  executed : ∀ r, r.client = A → r.command.command? = some .exec →
    ¬ IsError ((sys.run env rs).step env r).1 →
      ∃ replies s, Executes r.now ((sys.run env rs).clients A).transactionQueue
          ((sys.run env rs).session A) replies s ∧
        ((sys.run env rs).step env r).1 = execReply replies ∧
        replies.length = ((sys.run env rs).clients A).transactionQueue.length ∧
        ((sys.run env rs).step env r).2.session A = s.endTransaction
  refused : ∀ r, r.client = A →
    r.command.command? = some .exec ∨ r.command.command? = some .discard →
      r.command.args.length ≠ 1 → ((sys.run env rs).step env r).2 = sys.run env rs

/-! ### One command -/

section Commands

variable {env : Env Λ} {now : ℤ} {command : RespValue} {s : Session S Λ}

/-- Outside a transaction the queue stays empty, and only `MULTI` opens one. -/
theorem dispatch_idle {cmd : Option Command} (args : Args) (hout : s.self.inTransaction = false)
    (hqueue : s.self.transactionQueue = []) :
    (dispatch env now cmd args s).2.self.transactionQueue = [] ∧
      ((dispatch env now cmd args s).2.self.inTransaction = true → cmd = some .multi) := by
  have hkept : s.self.transactionQueue = [] ∧ (s.self.inTransaction = true → cmd = some .multi) :=
    ⟨hqueue, fun hin => absurd (hout.symm.trans hin) (by decide)⟩
  by_cases hcontrol : ∀ c, cmd = some c → c.isControl = false
  · obtain ⟨engine, hself, -⟩ := self_dispatch env now hcontrol args s
    rw [hself]
    exact hkept
  · obtain ⟨c, hc⟩ := not_forall.mp hcontrol
    obtain ⟨rfl, hkind⟩ := Classical.not_imp.mp hc
    cases c with
    | multi =>
      refine ⟨?_, fun _ => rfl⟩
      show (handleMulti args s).2.self.transactionQueue = []
      unfold handleMulti
      split
      · exact hqueue
      · split
        · exact hqueue
        · rfl
    | exec =>
      have hself : (handleExec now args s).2 = s := by
        unfold handleExec
        rw [hout]
        split <;> rfl
      rw [dispatch, hself]
      exact hkept
    | discard =>
      have hself : (handleDiscard args s).2 = s := by
        unfold handleDiscard
        rw [hout]
        split <;> rfl
      rw [dispatch, hself]
      exact hkept
    | watch =>
      show (handleWatch args s).2.self.transactionQueue = [] ∧
        ((handleWatch args s).2.self.inTransaction = true → _)
      unfold handleWatch
      split
      · exact hkept
      · split <;> exact hkept
    | unwatch =>
      show (handleUnwatch args s).2.self.transactionQueue = [] ∧
        ((handleUnwatch args s).2.self.inTransaction = true → _)
      unfold handleUnwatch
      split <;> exact hkept
    | _ => exact absurd rfl hkind

/-- A command of an idle client. -/
theorem processCommand_idle (env : Env Λ) (now : ℤ) (command : RespValue)
    (hout : s.self.inTransaction = false) (hqueue : s.self.transactionQueue = []) :
    (processCommand env now command s).2.self.transactionQueue = [] ∧
      ((processCommand env now command s).2.self.inTransaction = true →
        command.command? = some .multi) := by
  have hkept : s.self.transactionQueue = [] ∧
      (s.self.inTransaction = true → command.command? = some .multi) :=
    ⟨hqueue, fun hin => absurd (hout.symm.trans hin) (by decide)⟩
  unfold processCommand
  split
  · rename_i name rest
    dsimp only
    split
    · rename_i hin
      rw [hout] at hin
      exact absurd hin.1 (by decide)
    · unfold routeAndDispatch
      split
      · exact hkept
      · exact dispatch_idle _ hout hqueue
  · exact hkept
  · exact hkept

theorem processCommand_exec_eq (env : Env Λ) (hcommand : command.command? = some .exec) :
    processCommand env now command s = handleExec now command.args s :=
  processCommand_direct env now hcommand rfl (.inr (.inl rfl))

theorem processCommand_discard_eq (env : Env Λ) (hcommand : command.command? = some .discard) :
    processCommand env now command s = handleDiscard command.args s :=
  processCommand_direct env now hcommand rfl (.inr (.inr rfl))

theorem executes_execLoop (now : ℤ) (queue : List TransactionCommand) (s : Session S Λ) :
    Executes now queue s (execLoop now queue s).1 (execLoop now queue s).2 := by
  induction queue generalizing s with
  | nil => exact .nil s
  | cons tx queue ih => exact .cons rfl (ih _)

/-- The exits of a transaction: an `EXEC` either stays where it is, drops the queue or runs it. -/
theorem handleExec_cases (now : ℤ) (args : Args) (s : Session S Λ) :
    (IsError (handleExec now args s).1 ∧ (handleExec now args s).1 ≠ execAbortReply ∧
        (handleExec now args s).2 = s) ∨
      (watchesHold s.self.watchedKeys s.world.data = false ∧
        handleExec now args s = (execAbortReply, s.endTransaction)) ∨
      handleExec now args s =
        (execReply (execLoop now s.self.transactionQueue s).1,
          (execLoop now s.self.transactionQueue s).2.endTransaction) := by
  have harity : errReply "ERR EXEC requires no arguments" ≠ execAbortReply := by decide
  have hidle : errReply "ERR EXEC without MULTI" ≠ execAbortReply := by decide
  unfold handleExec
  split
  · exact .inl ⟨rfl, harity, rfl⟩
  · split
    · exact .inl ⟨rfl, hidle, rfl⟩
    · split
      · rename_i hwatch
        exact .inr (.inl ⟨by simpa using hwatch, rfl⟩)
      · exact .inr (.inr rfl)

end Commands

/-! ### Runs -/

section Runs

variable {env : Env Λ} {A : ℕ} {sys : System S Λ}

theorem run_append_singleton (rs : List Request) (r : Request) :
    sys.run env (rs ++ [r]) = ((sys.run env rs).step env r).2 := by
  show List.foldl _ sys (rs ++ [r]) = _
  rw [List.foldl_append]
  rfl

theorem clients_step_self (r : Request) : (sys.step env r).2.clients r.client =
    (processCommand env r.now r.command (sys.session r.client)).2.self := by
  show Function.update sys.clients r.client _ r.client = _
  rw [Function.update_self]

theorem clients_step_of_ne {r : Request} (h : r.client ≠ A) :
    (sys.step env r).2.clients A = sys.clients A := by
  show Function.update sys.clients r.client _ A = _
  rw [Function.update_of_ne (Ne.symm h)]

theorem session_step_self (env : Env Λ) (sys : System S Λ) (r : Request) :
    (sys.step env r).2.session r.client =
      (processCommand env r.now r.command (sys.session r.client)).2 := by
  unfold System.session
  rw [clients_step_self]
  rfl

/-- A command that changes nothing of its session changes nothing at all. -/
theorem step_of_session_eq {r : Request}
    (h : (processCommand env r.now r.command (sys.session r.client)).2 = sys.session r.client) :
    (sys.step env r).2 = sys := by
  show (⟨(processCommand env r.now r.command (sys.session r.client)).2.world, Function.update
    sys.clients r.client (processCommand env r.now r.command (sys.session r.client)).2.self⟩ :
      System S Λ) = sys
  rw [h]
  show (⟨sys.world, Function.update sys.clients r.client (sys.clients r.client)⟩ : System S Λ) = sys
  rw [Function.update_eq_self]

theorem queuedBy_append (A : ℕ) (rs : List Request) (r : Request) :
    queuedBy A (rs ++ [r]) =
      queuedBy A rs ++ if r.client = A then r.command.queued?.toList else [] := by
  unfold queuedBy
  rw [List.filter_append, List.filterMap_append]
  congr 1
  by_cases hA : r.client = A
  · rw [if_pos hA, List.filter_cons_of_pos (by simpa using hA), List.filter_nil]
    cases hq : r.command.queued? <;> simp [hq]
  · rw [if_neg hA, List.filter_cons_of_neg (by simpa using hA)]
    rfl

/-- The mode and the queue of client `A` after the requests `rs`. -/
def QueueInvariant (env : Env Λ) (A : ℕ) (sys : System S Λ) (rs : List Request) : Prop :=
  (((sys.run env rs).clients A).inTransaction = false →
      ((sys.run env rs).clients A).transactionQueue = []) ∧
    (((sys.run env rs).clients A).inTransaction = true →
      ∃ before multi since, rs = before ++ multi :: since ∧ OpenSince env A sys before multi since ∧
        ((sys.run env rs).clients A).transactionQueue = queuedBy A since)

theorem OpenSince.snoc {before since : List Request} {multi r : Request}
    (h : OpenSince env A sys before multi since)
    (hin : ((sys.run env (before ++ multi :: (since ++ [r]))).clients A).inTransaction = true) :
    OpenSince env A sys before multi (since ++ [r]) where
  client := h.client
  command := h.command
  idle := h.idle
  stays part hpart := by
    rcases List.prefix_concat_iff.mp hpart with rfl | hpart
    · exact hin
    · exact h.stays part hpart

/-- An open transaction goes on with the queue that the request leaves. -/
theorem queueInvariant_snoc_open {rs : List Request} {r : Request}
    (h : QueueInvariant env A sys rs) (hin : ((sys.run env rs).clients A).inTransaction = true)
    (hin' : ((sys.run env (rs ++ [r])).clients A).inTransaction = true)
    (hqueue : ((sys.run env (rs ++ [r])).clients A).transactionQueue =
      ((sys.run env rs).clients A).transactionQueue ++
        if r.client = A then r.command.queued?.toList else []) :
    QueueInvariant env A sys (rs ++ [r]) := by
  refine ⟨fun hout => absurd (hout.symm.trans hin') (by decide), fun _ => ?_⟩
  obtain ⟨before, multi, since, rfl, hopen, hheld⟩ := h.2 hin
  rw [List.append_assoc, List.cons_append] at hin' hqueue
  refine ⟨before, multi, since ++ [r], by simp, hopen.snoc hin', ?_⟩
  rw [List.append_assoc, List.cons_append, hqueue, hheld, queuedBy_append]

theorem queueInvariant_of_idle {rs : List Request}
    (hout : ((sys.run env rs).clients A).inTransaction = false)
    (hqueue : ((sys.run env rs).clients A).transactionQueue = []) : QueueInvariant env A sys rs :=
  ⟨fun _ => hqueue, fun hin => absurd (hout.symm.trans hin) (by decide)⟩

/-- A request that changes nothing and is not queued. -/
theorem queueInvariant_snoc_same {rs : List Request} {r : Request}
    (h : QueueInvariant env A sys rs)
    (hsame : (sys.run env (rs ++ [r])).clients A = (sys.run env rs).clients A)
    (hqueued : r.client = A → r.command.queued? = none) : QueueInvariant env A sys (rs ++ [r]) := by
  cases hmode : ((sys.run env rs).clients A).inTransaction with
  | false =>
    apply queueInvariant_of_idle
    · rw [hsame, hmode]
    · rw [hsame, h.1 hmode]
  | true =>
    apply queueInvariant_snoc_open h hmode
    · rw [hsame, hmode]
    · rw [hsame]
      split
      · rename_i hA
        rw [hqueued hA, Option.toList_none, List.append_nil]
      · rw [List.append_nil]

/-- The run lemma of the queue: by induction from the last request, by the mode and the command. -/
theorem queueInvariant_run (env : Env Λ) (hout : (sys.clients A).inTransaction = false)
    (hqueue : (sys.clients A).transactionQueue = []) (rs : List Request) :
    QueueInvariant env A sys rs := by
  induction rs using List.reverseRecOn with
  | nil => exact queueInvariant_of_idle hout hqueue
  | append_singleton rs r ih =>
    by_cases hA : r.client = A
    · subst hA
      have hself : (sys.run env (rs ++ [r])).clients r.client =
          (processCommand env r.now r.command ((sys.run env rs).session r.client)).2.self := by
        rw [run_append_singleton, clients_step_self]
      by_cases hexec : r.command.command? = some .exec
      · have hqueued : r.command.queued? = none := if_pos (.inl hexec)
        rw [processCommand_exec_eq env hexec] at hself
        rcases handleExec_cases r.now r.command.args ((sys.run env rs).session r.client) with
          ⟨-, -, hsame⟩ | ⟨-, hdone⟩ | hdone
        · rw [hsame] at hself
          exact queueInvariant_snoc_same ih hself fun _ => hqueued
        · rw [hdone] at hself
          apply queueInvariant_of_idle <;> rw [hself] <;> rfl
        · rw [hdone] at hself
          apply queueInvariant_of_idle <;> rw [hself] <;> rfl
      · by_cases hdiscard : r.command.command? = some .discard
        · have hqueued : r.command.queued? = none := if_pos (.inr hdiscard)
          rw [processCommand_discard_eq env hdiscard] at hself
          unfold handleDiscard at hself
          split at hself
          · exact queueInvariant_snoc_same ih hself fun _ => hqueued
          · split at hself
            · exact queueInvariant_snoc_same ih hself fun _ => hqueued
            · apply queueInvariant_of_idle <;> rw [hself]
        · cases hmode : ((sys.run env rs).clients r.client).inTransaction with
          | false =>
            obtain ⟨hempty, hmulti⟩ := processCommand_idle env r.now r.command
              (s := (sys.run env rs).session r.client) hmode (ih.1 hmode)
            rw [← hself] at hempty hmulti
            refine ⟨fun _ => hempty, fun hin =>
              ⟨rs, r, [], rfl, ⟨rfl, hmulti hin, hmode, ?_⟩, hempty⟩⟩
            intro part hpart
            rw [List.prefix_nil.mp hpart]
            exact hin
          | true =>
            have hqueued : r.command.queued? = queueOf r.command := by
              unfold RespValue.queued?
              rw [if_neg (by rintro (h | h) <;> contradiction)]
            have hmode' : ((sys.run env rs).session r.client).self.inTransaction = true := hmode
            rw [processCommand_queue hmode' hexec hdiscard] at hself
            apply queueInvariant_snoc_open ih hmode
            · rw [hself]
              exact hmode
            · rw [hself, if_pos rfl, hqueued]
              rfl
    · apply queueInvariant_snoc_same ih
      · rw [run_append_singleton, clients_step_of_ne hA]
      · exact fun h => absurd h hA

end Runs

/-! ### All or nothing -/

section Exits

variable {env : Env Λ} {sys : System S Λ} {r : Request}

theorem dropped_of_session {s : Session S Λ} (hsession : (sys.step env r).2.session r.client = s)
    (hworld : s.world = sys.world) (hengine : s.self.engine = (sys.clients r.client).engine)
    (hqueue : s.self.transactionQueue = []) (hidle : s.self.inTransaction = false) :
    Dropped r.client sys (sys.step env r).2 := by
  have hself : (sys.step env r).2.clients r.client = s.self := congrArg Session.self hsession
  refine ⟨(congrArg Session.world hsession).trans hworld, ?_, ?_, ?_⟩
  · rw [hself, hengine]
  · rw [hself, hqueue]
  · rw [hself, hidle]

theorem dropped_discard (hcommand : r.command.command? = some .discard)
    (hargs : r.command.args.length = 1)
    (hidle : (sys.clients r.client).inTransaction = false →
      (sys.clients r.client).transactionQueue = []) : Dropped r.client sys (sys.step env r).2 := by
  have hsession := session_step_self env sys r
  rw [processCommand_discard_eq env hcommand, handleDiscard, if_neg (not_not.mpr hargs)] at hsession
  cases hmode : (sys.session r.client).self.inTransaction with
  | false =>
    rw [hmode] at hsession
    exact dropped_of_session hsession rfl rfl (hidle hmode) hmode
  | true =>
    rw [hmode] at hsession
    exact dropped_of_session hsession rfl rfl rfl rfl

theorem dropped_exec (hcommand : r.command.command? = some .exec)
    (hreply : (sys.step env r).1 = execAbortReply) : Dropped r.client sys (sys.step env r).2 := by
  have hsession := session_step_self env sys r
  replace hreply : (processCommand env r.now r.command (sys.session r.client)).1 = _ := hreply
  rw [processCommand_exec_eq env hcommand] at hsession hreply
  rcases handleExec_cases r.now r.command.args (sys.session r.client) with
    ⟨-, hne, -⟩ | ⟨-, hdone⟩ | hdone
  · exact absurd hreply hne
  · rw [hdone] at hsession
    exact dropped_of_session hsession rfl rfl rfl rfl
  · rw [hdone] at hreply
    cases hreply

theorem executed_exec (hcommand : r.command.command? = some .exec)
    (hreply : ¬ IsError (sys.step env r).1) :
    ∃ replies s, Executes r.now (sys.clients r.client).transactionQueue (sys.session r.client)
        replies s ∧
      (sys.step env r).1 = execReply replies ∧
      replies.length = (sys.clients r.client).transactionQueue.length ∧
      (sys.step env r).2.session r.client = s.endTransaction := by
  have hsession := session_step_self env sys r
  have hfirst : (sys.step env r).1 = (handleExec r.now r.command.args (sys.session r.client)).1 := by
    rw [← processCommand_exec_eq env hcommand]
    rfl
  rw [processCommand_exec_eq env hcommand] at hsession
  rcases handleExec_cases r.now r.command.args (sys.session r.client) with
    ⟨herr, -, -⟩ | ⟨-, hdone⟩ | hdone
  · rw [hfirst] at hreply
    exact absurd herr hreply
  · rw [hfirst, hdone] at hreply
    exact absurd rfl hreply
  · rw [hdone] at hsession hfirst
    exact ⟨_, _, executes_execLoop r.now _ _, hfirst, length_execLoop r.now _ _, hsession⟩

theorem refused_exit
    (hcommand : r.command.command? = some .exec ∨ r.command.command? = some .discard)
    (hargs : r.command.args.length ≠ 1) : (sys.step env r).2 = sys := by
  apply step_of_session_eq
  rcases hcommand with hcommand | hcommand
  · rw [processCommand_exec_eq env hcommand, handleExec, if_pos hargs]
  · rw [processCommand_discard_eq env hcommand, handleDiscard, if_pos hargs]

end Exits

/-- Over every run from an idle client with an empty queue. -/
theorem transactions_all_or_nothing (env : Env Λ) (sys : System S Λ) (A : ℕ)
    (hout : (sys.clients A).inTransaction = false) (hqueue : (sys.clients A).transactionQueue = [])
    (rs : List Request) : AllOrNothing env A sys rs := by
  obtain ⟨hidle, hopen⟩ := queueInvariant_run env hout hqueue rs
  refine ⟨hidle, hopen, ?_, ?_, ?_, ?_, ?_⟩
  · intro r hr hin hexec hdiscard
    subst hr
    have hin' : ((sys.run env rs).session r.client).self.inTransaction = true := hin
    have hsession := session_step_self env (sys.run env rs) r
    rw [processCommand_queue hin' hexec hdiscard] at hsession
    exact ⟨congrArg Session.world hsession, congrArg (fun s => s.self.engine) hsession⟩
  · intro r hr hcommand hargs
    subst hr
    exact dropped_discard hcommand hargs hidle
  · intro r hr hcommand hreply
    subst hr
    exact dropped_exec hcommand hreply
  · intro r hr hcommand hreply
    subst hr
    exact executed_exec hcommand hreply
  · intro r hr hcommand hargs
    exact refused_exit hcommand hargs

/-- `MULTI` and a `SET`, with another client in between. -/
theorem transactions_all_or_nothing_set :
    ((System.fresh (∅ : Data NatScore)).clients 0).inTransaction = false ∧
      ((System.fresh (∅ : Data NatScore)).clients 0).transactionQueue = [] ∧
      AllOrNothing .standalone 0 (System.fresh (∅ : Data NatScore))
        [request 0 ["MULTI"], request 1 ["SET", "k", "w"], request 0 ["SET", "k", "v"]] :=
  ⟨rfl, rfl, transactions_all_or_nothing .standalone (System.fresh ∅) 0 rfl rfl _⟩

end MinimalRedis
