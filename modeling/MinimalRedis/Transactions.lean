import MinimalRedis.Processor

/-!
# `MULTI … EXEC` against running the commands one by one

A queued command runs through `executeFunc`, a direct one through routing and `dispatch`.  The two
tables differ: `executeFunc` has no row for thirteen commands, which it answers with an unknown
command error, and it never redirects.

* `execLoop_runnable` — commands that both tables have and that are not redirected do the same;
* `runnable_of_flatten_eq` — any other command gives itself away in the reply of `EXEC`.

The replies of `EXEC` are concatenated, so two different reply lists could in principle read the same;
`apart` replies differ at a byte that both have, which rules that out.
-/

namespace MinimalRedis

open Lib Session

variable {S : Type} [Score S] {Λ : Type}

/-! ### The two runs -/

/-- Run commands one after another; the replies in order. -/
def processAll (env : Env Λ) (now : ℤ) :
    List RespValue → Session S Λ → List Bytes × Session S Λ
  | [], s => ([], s)
  | command :: cs, s =>
      let x := processCommand env now command s
      let rest := processAll env now cs x.2
      (x.1 :: rest.1, rest.2)

def multiCommand : RespValue := .array [.bulkString (str "MULTI")]

def execCommand : RespValue := .array [.bulkString (str "EXEC")]

/-- `MULTI`, the commands, `EXEC`: the reply of the `EXEC` and the session after it. -/
def runTransaction (env : Env Λ) (now : ℤ) (cs : List RespValue) (s : Session S Λ) :
    Bytes × Session S Λ :=
  processCommand env now execCommand
    (processAll env now cs (processCommand env now multiCommand s).2).2

/-- The transaction does what the commands do one by one. -/
structure MeansSequence (env : Env Λ) (now : ℤ) (cs : List RespValue) (s : Session S Λ) : Prop where
  data : (runTransaction env now cs s).2.world.data = (processAll env now cs s).2.world.data
  pubsub : (runTransaction env now cs s).2.world.pubsub = (processAll env now cs s).2.world.pubsub
  scriptCache : (runTransaction env now cs s).2.self.engine.scriptCache =
    (processAll env now cs s).2.self.engine.scriptCache
  reply : (runTransaction env now cs s).1 = execReply (processAll env now cs s).1

/-! ### Kinds of commands -/

def Command.isControl : Command → Bool
  | .multi | .exec | .discard | .watch | .unwatch => true
  | _ => false

/-- The commands that the table of `executeFunc` lacks, control commands apart. -/
def Command.lacksClosure : Command → Bool
  | .expire | .pexpire | .ttl | .pttl | .persist => true
  | .subscribe | .publish | .unsubscribe => true
  | .eval | .evalsha | .script | .cluster | .info => true
  | _ => false

/-- The command a value denotes, if it is an array that starts with a known name. -/
def RespValue.command? : RespValue → Option Command
  | .array (.bulkString name :: _) => Command.ofName name
  | _ => none

theorem exists_name_of_command? {command : RespValue} {cmd : Command}
    (h : command.command? = some cmd) : ∃ name rest, command = .array (.bulkString name :: rest) := by
  rw [RespValue.command?.eq_def] at h
  split at h
  · exact ⟨_, _, rfl⟩
  · cases h

/-- The arguments of a command, its name first. -/
def RespValue.args : RespValue → Args
  | .array (.bulkString name :: rest) => .bulkString name :: rest
  | _ => []

/-- What `processCommand` queues for a value, nothing for a malformed one. -/
def queueOf : RespValue → Option TransactionCommand
  | .array (.bulkString name :: rest) =>
      some { commandName := name.map toupper, args := .bulkString name :: rest }
  | _ => none

/-- A well-formed command that both tables have and that is not redirected. -/
def Runnable (env : Env Λ) (command : RespValue) : Prop :=
  ∃ name rest, command = .array (.bulkString name :: rest) ∧
    (∀ cmd, Command.ofName name = some cmd → cmd.lacksClosure = false) ∧
    redirect env (Command.ofName name) (.bulkString name :: rest) = none

/-! ### Queueing -/

def Session.enqueue (s : Session S Λ) (txs : List TransactionCommand) : Session S Λ :=
  { s with self := { s.self with transactionQueue := s.self.transactionQueue ++ txs } }

theorem Session.enqueue_nil (s : Session S Λ) : s.enqueue [] = s := by simp [enqueue]

theorem Session.enqueue_append (s : Session S Λ) (txs txs' : List TransactionCommand) :
    s.enqueue (txs ++ txs') = (s.enqueue txs).enqueue txs' := by
  simp [enqueue, List.append_assoc]

theorem processCommand_queue {env : Env Λ} {now : ℤ} {command : RespValue} {s : Session S Λ}
    (hin : s.self.inTransaction = true) (hexec : command.command? ≠ some .exec)
    (hdiscard : command.command? ≠ some .discard) :
    (processCommand env now command s).2 = s.enqueue (queueOf command).toList := by
  unfold processCommand
  split
  · rename_i name rest
    rw [if_pos ⟨hin, hexec, hdiscard⟩]
    rfl
  · rename_i hshape
    rw [show queueOf (.array (_ :: _)) = none by unfold queueOf; split <;> simp_all]
    exact s.enqueue_nil.symm
  · rename_i hshape hshape'
    rw [show queueOf command = none by unfold queueOf; split <;> simp_all]
    exact s.enqueue_nil.symm

theorem processAll_queue {env : Env Λ} {now : ℤ} {cs : List RespValue} {s : Session S Λ}
    (hin : s.self.inTransaction = true)
    (hcs : ∀ c ∈ cs, ∀ cmd, c.command? = some cmd → cmd.isControl = false) :
    (processAll env now cs s).2 = s.enqueue (cs.filterMap queueOf) := by
  induction cs generalizing s with
  | nil => exact s.enqueue_nil.symm
  | cons c cs ih =>
    have hfilter : (c :: cs).filterMap queueOf =
        (queueOf c).toList ++ cs.filterMap queueOf := by
      cases hq : queueOf c <;> simp [hq]
    have hcontrol := hcs c List.mem_cons_self
    have hexec : c.command? ≠ some .exec := fun h => absurd (hcontrol _ h) (by decide)
    have hdiscard : c.command? ≠ some .discard := fun h => absurd (hcontrol _ h) (by decide)
    show (processAll env now cs (processCommand env now c s).2).2 = _
    rw [processCommand_queue hin hexec hdiscard, hfilter, Session.enqueue_append]
    exact ih hin fun c' hc' => hcs c' (by simp [hc'])

/-- The direct path of a command that is not routed: outside a transaction, or one of the two commands
that end it. -/
theorem processCommand_direct (env : Env Λ) (now : ℤ) {command : RespValue} {s : Session S Λ}
    {cmd : Command} (hcommand : command.command? = some cmd) (hrouted : cmd.routed = false)
    (hopen : s.self.inTransaction = false ∨ cmd = .exec ∨ cmd = .discard) :
    processCommand env now command s = dispatch env now (some cmd) command.args s := by
  obtain ⟨name, rest, rfl⟩ := exists_name_of_command? hcommand
  replace hcommand : Command.ofName name = some cmd := hcommand
  have hroute : redirect env (some cmd) (.bulkString name :: rest) = none := by
    apply redirect_of_not_routed
    intro c hc
    rw [← Option.some.inj hc]
    exact hrouted
  have hqueued : ¬ (s.self.inTransaction = true ∧ some cmd ≠ some .exec ∧
      some cmd ≠ some .discard) := by
    intro h
    rcases hopen with hopen | rfl | rfl
    · rw [hopen] at h
      exact absurd h.1 (by decide)
    · exact h.2.1 rfl
    · exact h.2.2 rfl
  simp only [processCommand, hcommand]
  rw [if_neg hqueued, routeAndDispatch, hroute]
  rfl

theorem processCommand_multi (env : Env Λ) (now : ℤ) {s : Session S Λ}
    (hout : s.self.inTransaction = false) :
    (processCommand env now multiCommand s).2 = { s with self :=
      { s.self with inTransaction := true, transactionQueue := [] } } := by
  have hmulti : multiCommand.command? = some .multi := by decide
  rw [processCommand_direct env now hmulti rfl (.inl hout)]
  show (handleMulti [.bulkString (str "MULTI")] s).2 = _
  simp [handleMulti, hout]

/-- `EXEC` without watched keys runs the queue. -/
theorem processCommand_exec (env : Env Λ) (now : ℤ) {s : Session S Λ}
    (hin : s.self.inTransaction = true) (hwatch : s.self.watchedKeys = ∅) :
    processCommand env now execCommand s =
      (execReply (execLoop now s.self.transactionQueue s).1,
        (execLoop now s.self.transactionQueue s).2.endTransaction) := by
  have hexec : execCommand.command? = some .exec := by decide
  have hempty : (∅ : UMap Bytes UInt64).entries = [] := rfl
  rw [processCommand_direct env now hexec rfl (.inr (.inl rfl))]
  show handleExec now [.bulkString (str "EXEC")] s = _
  simp [handleExec, hin, watchesHold, hwatch, hempty]

/-- The reply of the `EXEC` and the session after it, from the queue. -/
theorem runTransaction_eq (env : Env Λ) (now : ℤ) {cs : List RespValue} {s : Session S Λ}
    (hout : s.self.inTransaction = false) (hwatch : s.self.watchedKeys = ∅)
    (hcs : ∀ c ∈ cs, ∀ cmd, c.command? = some cmd → cmd.isControl = false) :
    ∃ p : Processor Λ, p.engine = s.self.engine ∧ runTransaction env now cs s =
      (execReply (execLoop now (cs.filterMap queueOf) ⟨s.world, p⟩).1,
        (execLoop now (cs.filterMap queueOf) ⟨s.world, p⟩).2.endTransaction) := by
  let p : Processor Λ :=
    { s.self with inTransaction := true, transactionQueue := cs.filterMap queueOf }
  refine ⟨p, rfl, ?_⟩
  unfold runTransaction
  rw [processCommand_multi env now hout, processAll_queue rfl hcs]
  exact processCommand_exec env now (s := ⟨s.world, p⟩) rfl hwatch

/-! ### Runnable commands -/

/-- A runnable command has the same reply and the same effect on the world in both tables, and
leaves the processor alone. -/
theorem executeFunc_of_runnable {env : Env Λ} (now : ℤ) {name : Bytes} {rest : List RespValue}
    (hclosure : ∀ cmd, Command.ofName name = some cmd → cmd.lacksClosure = false)
    (hroute : redirect env (Command.ofName name) (.bulkString name :: rest) = none)
    (hcontrol : ∀ cmd, Command.ofName name = some cmd → cmd.isControl = false)
    (w : World S) (p p' : Processor Λ) (hout : p.inTransaction = false) :
    ∃ r w', processCommand env now (.array (.bulkString name :: rest)) ⟨w, p⟩ = (r, ⟨w', p⟩) ∧
      executeFunc now ⟨name.map toupper, .bulkString name :: rest⟩ ⟨w, p'⟩ = (r, ⟨w', p'⟩) := by
  simp only [processCommand, hout, Bool.false_eq_true, false_and, if_false, routeAndDispatch, hroute,
    executeFunc]
  rw [show commandTable.lookup (name.map toupper) = Command.ofName name from rfl]
  cases hcmd : Command.ofName name with
  | none => exact ⟨_, _, rfl, rfl⟩
  | some cmd =>
    have hc := hclosure cmd hcmd
    have hc' := hcontrol cmd hcmd
    cases cmd with
    | multi | exec | discard | watch | unwatch => simp [Command.isControl] at hc'
    | expire | pexpire | ttl | pttl | persist | subscribe | publish | unsubscribe | eval | evalsha
    | script | cluster | info => simp [Command.lacksClosure] at hc
    | save =>
      simp only [dispatch, handleSave]
      split
      · exact ⟨_, _, rfl, rfl⟩
      · split
        · exact ⟨_, _, rfl, rfl⟩
        · exact ⟨_, _, rfl, rfl⟩
    | _ => exact ⟨_, _, rfl, rfl⟩

theorem execLoop_runnable {env : Env Λ} (now : ℤ) {cs : List RespValue}
    (hcs : ∀ c ∈ cs, ∀ cmd, c.command? = some cmd → cmd.isControl = false)
    (hrun : ∀ c ∈ cs, Runnable env c) (w : World S) (p p' : Processor Λ)
    (hout : p.inTransaction = false) :
    ∃ rs w', processAll env now cs ⟨w, p⟩ = (rs, ⟨w', p⟩) ∧
      execLoop now (cs.filterMap queueOf) ⟨w, p'⟩ = (rs, ⟨w', p'⟩) := by
  induction cs generalizing w with
  | nil => exact ⟨[], w, rfl, rfl⟩
  | cons c cs ih =>
    obtain ⟨name, rest, rfl, hclosure, hroute⟩ := hrun c (by simp)
    have hcontrol := hcs (.array (.bulkString name :: rest)) (by simp)
    obtain ⟨r, w₁, hdirect, hqueued⟩ :=
      executeFunc_of_runnable now hclosure hroute hcontrol w p p' hout
    obtain ⟨rs, w₂, hdirect', hqueued'⟩ := ih (fun c' hc' => hcs c' (by simp [hc']))
      (fun c' hc' => hrun c' (by simp [hc'])) w₁
    refine ⟨r :: rs, w₂, ?_, ?_⟩
    · simp only [processAll, hdirect, hdirect']
    · rw [List.filterMap_cons]
      simp only [queueOf, execLoop, hqueued, hqueued']

/-! ### Other commands give themselves away -/

/-- The two byte strings differ at a position that both have. -/
def apart : Bytes → Bytes → Bool
  | x :: xs, y :: ys => x ≠ y || apart xs ys
  | _, _ => false

theorem append_ne_of_apart {r r' : Bytes} (h : apart r r' = true) (a b : Bytes) :
    r ++ a ≠ r' ++ b := by
  induction r generalizing r' with
  | nil => simp [apart] at h
  | cons x xs ih =>
    cases r' with
    | nil => simp [apart] at h
    | cons y ys =>
      intro heq
      simp only [List.cons_append, List.cons.injEq] at heq
      simp only [apart, heq.1, ne_eq, not_true_eq_false, decide_false, Bool.false_or] at h
      exact ih h heq.2

theorem apart_cons {x y : UInt8} (h : x ≠ y) (xs ys : Bytes) :
    apart (x :: xs) (y :: ys) = true := by simp [apart, h]

/-- The reply of a missing row of `executeFunc`. -/
def unknownReply : Bytes := errReply "ERR Unknown command"

theorem apart_unknown_of_head {x : UInt8} (hx : x ≠ 45) (xs : Bytes) :
    apart (x :: xs) unknownReply = true := apart_cons hx xs _

theorem apart_withKey {arity notBulk : String} {run : Bytes → Data S → Bytes × Data S}
    {other : Bytes} (harity : apart (errReply arity) other = true)
    (hbulk : apart (errReply notBulk) other = true)
    (h : ∀ key d, apart (run key d).1 other = true) (args : Args) (d : Data S) :
    apart (withKey arity notBulk run args d).1 other = true := by
  unfold withKey
  split
  · split
    · exact hbulk
    · exact h _ d
  · exact harity

theorem apart_withTwo {arity notBulk : String} {run : Bytes → Bytes → Data S → Bytes × Data S}
    {other : Bytes} (harity : apart (errReply arity) other = true)
    (hbulk : apart (errReply notBulk) other = true)
    (h : ∀ key arg d, apart (run key arg d).1 other = true) (args : Args) (d : Data S) :
    apart (withTwo arity notBulk run args d).1 other = true := by
  unfold withTwo
  split
  · split
    · exact h _ _ d
    · exact hbulk
  · exact harity

theorem apart_withDuration {arity notBulk notInt : String}
    {run : Bytes → ℤ → Data S → Bytes × Data S} {other : Bytes}
    (harity : apart (errReply arity) other = true) (hbulk : apart (errReply notBulk) other = true)
    (hint : apart (errReply notInt) other = true)
    (h : ∀ key n d, apart (run key n d).1 other = true) (args : Args) (d : Data S) :
    apart (withDuration arity notBulk notInt run args d).1 other = true := by
  refine apart_withTwo harity hbulk (fun key arg d => ?_) args d
  split
  · exact hint
  · exact h _ _ d

theorem apart_handlePublish (args : Args) (s : Session S Λ) :
    apart (handlePublish args s).1 unknownReply = true := by
  unfold handlePublish
  split
  · split
    · exact apart_unknown_of_head (by decide) _
    · rfl
  · rfl

/-- The lines of a channel loop start with an asterisk. -/
theorem apart_channelLoop {enter : Bytes → PubSubManager → PubSubManager} {line : Bytes → Bytes}
    (hline : ∀ c, ∃ bs, line c = 42 :: bs) {bad : Bytes} (hbad : apart bad unknownReply = true)
    (v : RespValue) (vs : List RespValue) (r : PubSubManager) :
    apart ((channelLoop enter line (v :: vs) r).1.getD bad) unknownReply = true := by
  simp only [channelLoop]
  cases hv : v.bulk? with
  | none => exact hbad
  | some channel =>
    obtain ⟨bs, hbs⟩ := hline channel
    cases hloop : (channelLoop enter line vs (enter channel r)).1 with
    | none => simpa [hloop] using hbad
    | some lines =>
      simp only [hloop, Option.map_some, Option.getD_some, hbs]
      exact apart_unknown_of_head (by decide) _

theorem apart_handleSubscribe (name : RespValue) (rest : List RespValue) (s : Session S Λ) :
    apart (handleSubscribe (name :: rest) s).1 unknownReply = true := by
  unfold handleSubscribe
  split
  · rfl
  · cases rest with
    | nil => simp at *
    | cons v vs => exact apart_channelLoop (fun c => ⟨_, rfl⟩) (by decide) v vs _

theorem apart_handleUnsubscribe (name : RespValue) (rest : List RespValue) (s : Session S Λ) :
    apart (handleUnsubscribe (name :: rest) s).1 unknownReply = true := by
  unfold handleUnsubscribe
  split
  · rfl
  · cases rest with
    | nil => simp at *
    | cons v vs => exact apart_channelLoop (fun c => ⟨_, rfl⟩) (by decide) v vs _

theorem apart_handleScript (args : Args) (s : Session S Λ) :
    apart (handleScript args s).1 unknownReply = true := by
  unfold handleScript
  split
  · split
    · rfl
    · split
      · split
        · dsimp only [LuaScriptingEngine.scriptLoad]
          split
          · rfl
          · exact apart_unknown_of_head (by decide) _
        · rfl
      · split
        · split
          · rfl
          · exact apart_unknown_of_head (by decide) _
        · split <;> rfl
  · rfl

theorem apart_handleCluster (cfg : ClusterConfig) (args : Args) :
    apart (handleCluster cfg args) unknownReply = true := by
  unfold handleCluster
  split
  · split
    · rfl
    · split
      · exact apart_unknown_of_head (by decide) _
      · split
        · exact apart_unknown_of_head (by decide) _
        · split
          · exact apart_unknown_of_head (by decide) _
          · rfl
  · rfl

/-- On the direct path, a command that `executeFunc` lacks never replies like an unknown one, script
calls apart. -/
theorem apart_dispatch {env : Env Λ} {now : ℤ} {cmd : Command} (hlacks : cmd.lacksClosure = true)
    (hscript : cmd ≠ .eval ∧ cmd ≠ .evalsha) (name : RespValue) (rest : List RespValue)
    (s : Session S Λ) :
    apart (dispatch env now (some cmd) (name :: rest) s).1 unknownReply = true := by
  cases cmd with
  | expire | pexpire =>
    exact apart_withDuration (by decide) (by decide) (by decide)
      (fun _ _ _ => apart_unknown_of_head (by decide) _) _ _
  | ttl | pttl | persist =>
    exact apart_withKey (by decide) (by decide) (fun _ _ => apart_unknown_of_head (by decide) _) _ _
  | subscribe => exact apart_handleSubscribe name rest s
  | publish => exact apart_handlePublish _ s
  | unsubscribe => exact apart_handleUnsubscribe name rest s
  | script => exact apart_handleScript _ s
  | cluster => exact apart_handleCluster _ _
  | info => exact apart_unknown_of_head (by decide) _
  | eval => exact absurd rfl hscript.1
  | evalsha => exact absurd rfl hscript.2
  | _ => simp [Command.lacksClosure] at hlacks

theorem executeFunc_of_lacksClosure {now : ℤ} {name : Bytes} {cmd : Command}
    (hname : Command.ofName name = some cmd) (hlacks : cmd.lacksClosure = true) (args : Args)
    (s : Session S Λ) : executeFunc now ⟨name.map toupper, args⟩ s = (unknownReply, s) := by
  unfold executeFunc
  rw [show commandTable.lookup (name.map toupper) = some cmd from hname]
  cases cmd <;> first | rfl | simp [Command.lacksClosure] at hlacks

/-- A routed command that is executed never replies like a redirected one. -/
theorem apart_executeFunc_moved {env : Env Λ} {now : ℤ} {name : Bytes} {cmd : Command}
    (hname : Command.ofName name = some cmd) (hrouted : cmd.routed = true) (args : Args)
    (s : Session S Λ) (key : Bytes) (node : ClusterNode) :
    apart (executeFunc now ⟨name.map toupper, args⟩ s).1 (movedReply env key node) = true := by
  unfold executeFunc
  rw [show commandTable.lookup (name.map toupper) = some cmd from hname]
  cases cmd with
  | set => exact apart_withTwo rfl rfl (fun _ _ _ => rfl) _ _
  | get =>
    refine apart_withKey rfl rfl (fun key d => ?_) _ _
    dsimp only
    split
    · rfl
    · split
      · rfl
      · exact apart_cons (by decide) _ _
  | del | existsKey => exact apart_withKey rfl rfl (fun _ _ => apart_cons (by decide) _ _) _ _
  | _ => simp [Command.routed] at hrouted

theorem routed_of_redirect {env : Env Λ} {cmd : Option Command} {args : Args}
    {x : Bytes × ClusterNode} (h : redirect env cmd args = some x) :
    ∃ c, cmd = some c ∧ c.routed = true := by
  unfold redirect at h
  split at h
  · rename_i c _ _ _
    split at h
    · rename_i hc
      exact ⟨c, rfl, hc.2⟩
    · simp at h
  · simp at h

/-- A well-formed command that is not runnable has visibly different replies on the two paths. -/
theorem replies_apart {env : Env Λ} {now : ℤ} {name : Bytes} {rest : List RespValue}
    (hrun : ¬ Runnable env (.array (.bulkString name :: rest)))
    (hscript : ∀ cmd, Command.ofName name = some cmd → cmd ≠ .eval ∧ cmd ≠ .evalsha)
    (w : World S) (p p' : Processor Λ) (hout : p.inTransaction = false) (a b : Bytes) :
    (executeFunc now ⟨name.map toupper, .bulkString name :: rest⟩ ⟨w, p'⟩).1 ++ a ≠
      (processCommand env now (.array (.bulkString name :: rest)) ⟨w, p⟩).1 ++ b := by
  simp only [processCommand, hout, Bool.false_eq_true, false_and, if_false, routeAndDispatch]
  cases hroute : redirect env (Command.ofName name) (.bulkString name :: rest) with
  | some x =>
    obtain ⟨cmd, hcmd, hrouted⟩ := routed_of_redirect hroute
    exact append_ne_of_apart (apart_executeFunc_moved hcmd hrouted _ _ _ _) a b
  | none =>
    have hlacks : ∃ cmd, Command.ofName name = some cmd ∧ cmd.lacksClosure = true := by
      by_contra hno
      refine hrun ⟨name, rest, rfl, fun cmd hcmd => ?_, hroute⟩
      by_contra h
      exact hno ⟨cmd, hcmd, by simpa using h⟩
    obtain ⟨cmd, hcmd, hlacks⟩ := hlacks
    rw [executeFunc_of_lacksClosure hcmd hlacks, hcmd]
    exact (append_ne_of_apart (apart_dispatch hlacks (hscript cmd hcmd) _ rest _) b a).symm

theorem runnable_of_flatten_eq {env : Env Λ} {now : ℤ} {cs : List RespValue}
    (hcs : ∀ c ∈ cs, ∀ cmd, c.command? = some cmd → cmd.isControl = false)
    (hscript : ∀ c ∈ cs, ∀ cmd, c.command? = some cmd → cmd ≠ .eval ∧ cmd ≠ .evalsha)
    (hform : ∀ c ∈ cs, ∃ name rest, c = .array (.bulkString name :: rest))
    (w : World S) (p p' : Processor Λ) (hout : p.inTransaction = false)
    (heq : (execLoop now (cs.filterMap queueOf) ⟨w, p'⟩).1.flatten =
      (processAll env now cs ⟨w, p⟩).1.flatten) :
    ∀ c ∈ cs, Runnable env c := by
  induction cs generalizing w with
  | nil => simp
  | cons c cs ih =>
    obtain ⟨name, rest, rfl⟩ := hform c (by simp)
    have hcontrol := hcs (.array (.bulkString name :: rest)) (by simp)
    rw [List.filterMap_cons] at heq
    simp only [queueOf, execLoop, processAll, List.flatten_cons] at heq
    by_cases hrun : Runnable env (.array (.bulkString name :: rest))
    · obtain ⟨name', rest', hshape, hclosure, hroute⟩ := id hrun
      simp only [RespValue.array.injEq, List.cons.injEq, RespValue.bulkString.injEq] at hshape
      obtain ⟨rfl, rfl⟩ := hshape
      obtain ⟨r, w₁, hdirect, hqueued⟩ :=
        executeFunc_of_runnable now hclosure hroute hcontrol w p p' hout
      rw [hdirect, hqueued] at heq
      have hrest := ih (fun c' hc' => hcs c' (by simp [hc']))
        (fun c' hc' => hscript c' (by simp [hc'])) (fun c' hc' => hform c' (by simp [hc'])) w₁
        (List.append_cancel_left heq)
      intro c' hc'
      rcases List.mem_cons.mp hc' with rfl | hc'
      · exact hrun
      · exact hrest c' hc'
    · have hs := hscript (.array (.bulkString name :: rest)) (by simp)
      exact absurd heq (replies_apart hrun hs w p p' hout _ _)

/-! ### The law -/

theorem length_execLoop (now : ℤ) (queue : List TransactionCommand) (s : Session S Λ) :
    (execLoop now queue s).1.length = queue.length := by
  induction queue generalizing s with
  | nil => rfl
  | cons tx queue ih => simp [execLoop, ih]

theorem length_processAll (env : Env Λ) (now : ℤ) (cs : List RespValue) (s : Session S Λ) :
    (processAll env now cs s).1.length = cs.length := by
  induction cs generalizing s with
  | nil => rfl
  | cons c cs ih => simp [processAll, ih]

theorem wellFormed_of_queueOf {c : RespValue} (h : (queueOf c).isSome = true) :
    ∃ name rest, c = .array (.bulkString name :: rest) := by
  unfold queueOf at h
  split at h
  · exact ⟨_, _, rfl⟩
  · simp at h

/-- The reply of `EXEC` shows the number of queued commands and their replies in a row. -/
theorem execReply_inj {rs rs' : List Bytes} (h : execReply rs = execReply rs') :
    rs.length = rs'.length ∧ rs.flatten = rs'.flatten :=
  natBytes_crlf_inj (List.cons.inj h).2

/-- Outside a transaction and without watched keys: a list of runnable commands means the same in a
transaction, and among the lists without script calls only these do. -/
theorem transaction_means_sequence (env : Env Λ) (now : ℤ) (cs : List RespValue) (s : Session S Λ)
    (hout : s.self.inTransaction = false) (hwatch : s.self.watchedKeys = ∅)
    (hcs : ∀ c ∈ cs, ∀ cmd, c.command? = some cmd → cmd.isControl = false) :
    ((∀ c ∈ cs, Runnable env c) → MeansSequence env now cs s) ∧
      ((∀ c ∈ cs, ∀ cmd, c.command? = some cmd → cmd ≠ .eval ∧ cmd ≠ .evalsha) →
        MeansSequence env now cs s → ∀ c ∈ cs, Runnable env c) := by
  obtain ⟨p, hengine, htx⟩ := runTransaction_eq env now hout hwatch hcs
  constructor
  · intro hrun
    obtain ⟨rs, w, hdirect, hqueued⟩ :=
      execLoop_runnable now hcs hrun s.world s.self p hout
    have hdirect' : processAll env now cs s = (rs, ⟨w, s.self⟩) := hdirect
    rw [hqueued] at htx
    refine ⟨?_, ?_, ?_, ?_⟩ <;> rw [htx, hdirect']
    · rfl
    · rfl
    · exact congrArg LuaScriptingEngine.scriptCache hengine
  · intro hscript hmeans
    have hreply := hmeans.reply
    rw [htx] at hreply
    obtain ⟨hlen, hflat⟩ := execReply_inj hreply
    -- equal counts: every command was queued
    rw [length_execLoop, length_processAll, List.filterMap_length_eq_length] at hlen
    exact runnable_of_flatten_eq hcs hscript (fun c hc => wellFormed_of_queueOf (hlen c hc))
      s.world s.self p hout hflat

/-- `MULTI`, `SET k v`, `GET k`, `EXEC`. -/
theorem transaction_set_get :
    MeansSequence Env.standalone 0
      [.array [.bulkString (str "SET"), .bulkString [107], .bulkString [118]],
        .array [.bulkString (str "GET"), .bulkString [107]]] (Session.fresh (S := NatScore) ∅) := by
  refine (transaction_means_sequence Env.standalone 0 _ (Session.fresh ∅) rfl rfl ?_).1 ?_
  · simp only [List.forall_mem_cons, RespValue.command?]
    decide
  · intro c hc
    simp only [List.mem_cons, List.not_mem_nil, or_false] at hc
    rcases hc with rfl | rfl
    · exact ⟨_, _, rfl, by decide, rfl⟩
    · exact ⟨_, _, rfl, by decide, rfl⟩

/-- `MULTI`, `TTL k`, `EXEC`: the queued `TTL` is an unknown command, the direct one is not. -/
theorem transaction_ttl_unknown :
    ¬ ∀ (env : Env Unit) (now : ℤ) (cs : List RespValue) (s : Session NatScore Unit),
      s.self.inTransaction = false → s.self.watchedKeys = ∅ →
      (∀ c ∈ cs, ∀ cmd, c.command? = some cmd → cmd.isControl = false) →
      MeansSequence env now cs s := by
  intro h
  have hmeans := h Env.standalone 0 [.array [.bulkString (str "TTL"), .bulkString [107]]]
    (Session.fresh ∅) rfl rfl (by simp only [List.forall_mem_cons, RespValue.command?]; decide)
  exact absurd hmeans.reply (by decide)

end MinimalRedis
