import MinimalRedis.Subscriptions

/-!
# What commands do to the mailboxes

`client_processors` is the way from one client to another.  Nothing but a `PUBLISH` goes it: every other
command answers and changes the rest of the session alike whatever the mailboxes hold.

* `Blind` — a handler that neither reads nor changes the mailboxes; one lemma for each kind of handler;
* `processCommand_withMailboxes` — a command on other mailboxes: the same reply, the same session, and the
  mailboxes `mailboxesAfter` it;
* `find?_mailboxesAfter` — each mailbox has received what the command `sends` to its client.
-/

namespace MinimalRedis

open Lib Session

variable {S : Type} [Score S] {Λ : Type}

/-- The same session, with other mailboxes. -/
def Session.withMailboxes (m : UMap ℤ Mailbox) (s : Session S Λ) : Session S Λ :=
  { s with world := { s.world with clientProcessors := m } }

/-- The channel and the message that a `PUBLISH` names. -/
def publicationOf : Args → Option (Bytes × Bytes)
  | [_, channel, message] =>
      channel.bulk?.bind fun channel => message.bulk?.map fun message => (channel, message)
  | _ => none

/-- What a command publishes: only a `PUBLISH` that is executed at once does. -/
def publication? (p : Processor Λ) (command : RespValue) : Option (Bytes × Bytes) :=
  if command.command? = some .publish ∧ p.inTransaction = false ∧ p.hasClientProcessors = true then
    publicationOf command.args
  else none

/-- The mailboxes behind a publication. -/
def announce (r : PubSubManager) (m : UMap ℤ Mailbox) : Option (Bytes × Bytes) → UMap ℤ Mailbox
  | none => m
  | some x => deliver (pubsubMessage x.1 x.2) (r.getSubscribers x.1) m

/-- The mailboxes behind a command. -/
def mailboxesAfter (command : RespValue) (s : Session S Λ) (m : UMap ℤ Mailbox) : UMap ℤ Mailbox :=
  announce s.world.pubsub m (publication? s.self command)

/-- The handler neither reads nor changes the mailboxes. -/
def Blind (handler : Session S Λ → Bytes × Session S Λ) : Prop :=
  ∀ s m, handler (s.withMailboxes m) = ((handler s).1, (handler s).2.withMailboxes m)

/-! ### The kinds of handlers -/

theorem blind_reply (reply : Bytes) : Blind (S := S) (Λ := Λ) fun s => (reply, s) := fun _ _ => rfl

theorem blind_ite {p : Prop} [Decidable p] {f g : Session S Λ → Bytes × Session S Λ} (hf : Blind f)
    (hg : Blind g) : Blind fun s => if p then f s else g s := by
  intro s m
  by_cases hp : p
  · simp only [if_pos hp]
    exact hf s m
  · simp only [if_neg hp]
    exact hg s m

theorem blind_handleSave (args : Args) : Blind (S := S) (Λ := Λ) (handleSave args) := by
  intro s m
  have hwritable : (s.withMailboxes m).world.fileWritable = s.world.fileWritable := rfl
  rw [handleSave, handleSave, hwritable]
  split
  · rfl
  · split
    · rfl
    · rfl

theorem blind_executeFunc (now : ℤ) (tx : TransactionCommand) :
    Blind (S := S) (Λ := Λ) (executeFunc now tx) := by
  intro s m
  rw [executeFunc, executeFunc]
  cases commandTable.lookup tx.commandName with
  | none => rfl
  | some c =>
    cases c with
    | save => exact blind_handleSave tx.args s m
    | _ => rfl

theorem execLoop_withMailboxes (now : ℤ) (queue : List TransactionCommand) (s : Session S Λ)
    (m : UMap ℤ Mailbox) :
    execLoop now queue (s.withMailboxes m) =
      ((execLoop now queue s).1, (execLoop now queue s).2.withMailboxes m) := by
  induction queue generalizing s with
  | nil => rfl
  | cons tx queue ih =>
    rw [execLoop, blind_executeFunc now tx s m]
    simp only [ih]
    rfl

theorem blind_handleExec (now : ℤ) (args : Args) : Blind (S := S) (Λ := Λ) (handleExec now args) := by
  intro s m
  have hself : (s.withMailboxes m).self = s.self := rfl
  have hdata : (s.withMailboxes m).world.data = s.world.data := rfl
  rw [handleExec, handleExec, hself, hdata]
  split
  · rfl
  · split
    · rfl
    · split
      · rfl
      · simp only [execLoop_withMailboxes]
        rfl

theorem blind_handleMulti (args : Args) : Blind (S := S) (Λ := Λ) (handleMulti args) := by
  intro s m
  have hself : (s.withMailboxes m).self = s.self := rfl
  rw [handleMulti, handleMulti, hself]
  split
  · rfl
  · split
    · rfl
    · rfl

theorem blind_handleDiscard (args : Args) : Blind (S := S) (Λ := Λ) (handleDiscard args) := by
  intro s m
  have hself : (s.withMailboxes m).self = s.self := rfl
  rw [handleDiscard, handleDiscard, hself]
  split
  · rfl
  · split
    · rfl
    · rfl

theorem blind_handleWatch (args : Args) : Blind (S := S) (Λ := Λ) (handleWatch args) := by
  intro s m
  have hself : (s.withMailboxes m).self = s.self := rfl
  rw [handleWatch, handleWatch, hself]
  split
  · rfl
  · split
    · rfl
    · rfl

theorem blind_withScript (cmd what : String)
    {run : Bytes → List Bytes → List Bytes → Session S Λ → Bytes × Session S Λ}
    (hrun : ∀ script keys args, Blind (run script keys args)) (args : Args) :
    Blind (withScript cmd what run args) := by
  intro s m
  unfold withScript
  split
  · split
    · split
      · rfl
      · simp only
        split
        · rfl
        · split
          · rfl
          · split
            · rfl
            · exact hrun _ _ _ s m
    · rfl
  · rfl

theorem blind_scriptOutcome (f : LuaScriptingEngine Λ → Data S →
      Option (Bytes × LuaScriptingEngine Λ × Data S)) :
    Blind fun s : Session S Λ => scriptOutcome s (f s.self.engine s.world.data) := by
  intro s m
  show scriptOutcome (s.withMailboxes m) (f s.self.engine s.world.data) = _
  cases hf : f s.self.engine s.world.data with
  | none => simp only [hf]; rfl
  | some x => simp only [hf]; rfl

theorem blind_handleScript (args : Args) : Blind (S := S) (Λ := Λ) (handleScript args) := by
  intro s m
  have hself : (s.withMailboxes m).self = s.self := rfl
  unfold handleScript
  rw [hself]
  split
  · split
    · rfl
    · split
      · split
        · rfl
        · rfl
      · split
        · split
          · rfl
          · rfl
        · split
          · rfl
          · rfl
  · rfl

theorem blind_dispatch (env : Env Λ) (now : ℤ) {cmd : Option Command} (hcmd : cmd ≠ some .publish)
    (args : Args) : Blind (S := S) (dispatch env now cmd args) := by
  cases cmd with
  | none => exact blind_reply _
  | some c =>
    cases c with
    | save => exact blind_handleSave args
    | multi => exact blind_handleMulti args
    | exec => exact blind_handleExec now args
    | discard => exact blind_handleDiscard args
    | watch => exact blind_handleWatch args
    | unwatch => exact blind_ite (blind_reply _) fun _ _ => rfl
    | subscribe => exact blind_ite (blind_reply _) fun _ _ => rfl
    | unsubscribe => exact blind_ite (blind_reply _) fun _ _ => rfl
    | publish => exact absurd rfl hcmd
    | eval => exact blind_withScript _ _ (fun script keys args => blind_scriptOutcome _) args
    | evalsha => exact blind_withScript _ _ (fun script keys args => blind_scriptOutcome _) args
    | script => exact blind_handleScript args
    | _ => exact fun _ _ => rfl

/-! ### Commands -/

theorem handlePublish_withMailboxes (args : Args) (s : Session S Λ) (m : UMap ℤ Mailbox) :
    handlePublish args (s.withMailboxes m) = ((handlePublish args s).1, (handlePublish args s).2.withMailboxes
      (announce s.world.pubsub m
        (if s.self.hasClientProcessors = true then publicationOf args else none))) := by
  have hself : (s.withMailboxes m).self = s.self := rfl
  unfold handlePublish publicationOf
  rw [hself]
  split
  · rename_i name c msg
    dsimp only
    cases c.bulk? with
    | none =>
      simp only [Option.bind_none, ite_self]
      rfl
    | some channel =>
      cases msg.bulk? with
      | none =>
        simp only [Option.map_none, Option.bind_some, ite_self]
        rfl
      | some message =>
        simp only [Option.map_some, Option.bind_some]
        split
        · rfl
        · rfl
  · simp only [ite_self]
    rfl

/-- A command on other mailboxes. -/
theorem processCommand_withMailboxes (env : Env Λ) (now : ℤ) (command : RespValue) (s : Session S Λ)
    (m : UMap ℤ Mailbox) :
    processCommand env now command (s.withMailboxes m) =
      ((processCommand env now command s).1,
        (processCommand env now command s).2.withMailboxes (mailboxesAfter command s m)) := by
  have hopen : (s.withMailboxes m).self = s.self := rfl
  by_cases hpublish : command.command? = some .publish ∧ s.self.inTransaction = false
  · have hother : (s.withMailboxes m).self.inTransaction = false := hpublish.2
    rw [processCommand_direct env now hpublish.1 rfl (.inl hother),
      processCommand_direct env now hpublish.1 rfl (.inl hpublish.2)]
    have hpublication : (if s.self.hasClientProcessors = true then publicationOf command.args else none) =
        publication? s.self command := by
      simp [publication?, hpublish]
    rw [mailboxesAfter, ← hpublication]
    exact handlePublish_withMailboxes command.args s m
  · have hnone : mailboxesAfter command s m = m := by
      rw [mailboxesAfter, publication?, if_neg fun h => hpublish ⟨h.1, h.2.1⟩]
      rfl
    rw [hnone]
    unfold processCommand
    split
    · rename_i name rest
      simp only [hopen]
      split
      · rfl
      · rename_i hdirect
        unfold routeAndDispatch
        split
        · rfl
        · refine blind_dispatch env now (fun hname => hpublish ⟨hname, ?_⟩) _ s m
          by_contra hin
          replace hname : Command.ofName name = some .publish := hname
          refine hdirect ⟨by simpa using hin, ?_⟩
          rw [hname]
          exact ⟨by decide, by decide⟩
    · rfl
    · rfl

theorem withMailboxes_self (s : Session S Λ) : s.withMailboxes s.world.clientProcessors = s := rfl

/-- What a command does to the mailboxes. -/
theorem clientProcessors_processCommand (env : Env Λ) (now : ℤ) (command : RespValue) (s : Session S Λ) :
    (processCommand env now command s).2.world.clientProcessors =
      mailboxesAfter command s s.world.clientProcessors := by
  have h := processCommand_withMailboxes env now command s s.world.clientProcessors
  rw [withMailboxes_self] at h
  exact congrArg (fun x => x.2.world.clientProcessors) h

/-- The messages that a command puts into the mailbox of `fd`, one for each entry of the registry. -/
def sends (command : RespValue) (s : Session S Λ) (fd : ℤ) : List Bytes :=
  ((publication? s.self command).map fun x =>
    List.replicate ((s.world.pubsub.getSubscribers x.1).count fd) (pubsubMessage x.1 x.2)).getD []

/-- Messages come in behind the others, with a byte for each. -/
def Mailbox.receive (messages : List Bytes) (m : Mailbox) : Mailbox :=
  messages.foldl (fun m message => m.queuePubsubMessage message) m

theorem Mailbox.iterate_queuePubsubMessage (message : Bytes) (n : ℕ) (m : Mailbox) :
    (Mailbox.queuePubsubMessage message)^[n] m = m.receive (List.replicate n message) := by
  induction n generalizing m with
  | zero => rfl
  | succ n ih => exact ih _

theorem find?_mailboxesAfter (command : RespValue) (s : Session S Λ) (m : UMap ℤ Mailbox) (fd : ℤ) :
    (mailboxesAfter command s m).find? fd = (m.find? fd).map (Mailbox.receive (sends command s fd)) := by
  unfold mailboxesAfter sends
  cases publication? s.self command with
  | none =>
    show m.find? fd = (m.find? fd).map fun mailbox => mailbox
    rw [Option.map_id']
  | some x =>
    show (deliver _ _ m).find? fd = _
    rw [find?_deliver]
    congr 1
    funext mailbox
    exact Mailbox.iterate_queuePubsubMessage _ _ mailbox

theorem Mailbox.pubsubMessages_receive (messages : List Bytes) (m : Mailbox) :
    (m.receive messages).pubsubMessages = m.pubsubMessages ++ messages := by
  induction messages generalizing m with
  | nil => exact (List.append_nil _).symm
  | cons message messages ih =>
    refine (ih _).trans ?_
    simp [queuePubsubMessage]

theorem Mailbox.notifyWriteFd_receive (messages : List Bytes) (m : Mailbox) :
    (m.receive messages).notifyWriteFd = m.notifyWriteFd := by
  induction messages generalizing m with
  | nil => rfl
  | cons message messages ih => exact ih _

/-- A client that can be woken up gets a byte for each message. -/
theorem Mailbox.notifyBytes_receive (messages : List Bytes) {m : Mailbox} (h : m.notifyWriteFd ≠ -1) :
    (m.receive messages).notifyBytes = m.notifyBytes + messages.length := by
  induction messages generalizing m with
  | nil => rfl
  | cons message messages ih =>
    refine (ih (m := m.queuePubsubMessage message) h).trans ?_
    simp only [queuePubsubMessage, if_pos h, List.length_cons]
    omega

end MinimalRedis
