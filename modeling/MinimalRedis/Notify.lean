import MinimalRedis.Connection

/-!
# The notify pipe (`main.cpp`, `commands.cpp`)

A publisher pushes its message on the subscriber's queue and **then** writes one byte to its pipe.  The
subscriber takes **one** byte when `select` reports the pipe and then pops and sends **until the queue is
empty**, so bytes and messages do not match up one to one.  Here every queue and pipe operation is a step
of its own, and the steps of the subscriber and of any number of publishers come in any order.

* `queuePubsubMessage_eq`, `run?_wakeUp` — undisturbed, the steps do what `queue_pubsub_message` and the
  notify branch of the connection loop do in one go;
* `inv_run?` — what holds in every reachable state;
* `notify_never_strands` — a subscriber in `select` with messages in its queue has a byte in its pipe as
  soon as no publisher is between its two steps, and it has sent a prefix of what was pushed.

A publisher whose `write` blocks on a full pipe stays between its steps.  A subscriber that publishes to
itself while it serves its client is one of the publishers.
-/

namespace MinimalRedis

open Lib

namespace Mailbox

/-- The first step of `queue_pubsub_message`. -/
def push (message : Bytes) (m : Mailbox) : Mailbox :=
  { m with pubsubMessages := m.pubsubMessages ++ [message] }

/-- The second one. -/
def writeByte (m : Mailbox) : Mailbox :=
  { m with notifyBytes := if m.notifyWriteFd ≠ -1 then m.notifyBytes + 1 else m.notifyBytes }

def readByte (m : Mailbox) : Mailbox := { m with notifyBytes := m.notifyBytes - 1 }

def hasPubsubMessages (m : Mailbox) : Bool := !m.pubsubMessages.isEmpty

def getNextPubsubMessage (m : Mailbox) : Bytes × Mailbox :=
  match m.pubsubMessages with
  | [] => ([], m)
  | msg :: rest => (msg, { m with pubsubMessages := rest })

theorem queuePubsubMessage_eq (message : Bytes) (m : Mailbox) :
    m.queuePubsubMessage message = (m.push message).writeByte := rfl

theorem hasPubsubMessages_iff {m : Mailbox} :
    m.hasPubsubMessages = true ↔ m.pubsubMessages ≠ [] := by
  simp [hasPubsubMessages]

end Mailbox

namespace Notify

/-! ### Steps -/

inductive PublisherAt where
  | idle
  /-- Behind the push, before the write. -/
  | pushed
deriving DecidableEq, Repr

/-- Where the loop of `handle_client` stands; `client` says whether `select` reported the client too. -/
inductive SubscriberAt where
  | waiting
  /-- `select` reported the pipe; the read is next. -/
  | woken (client : Bool)
  /-- Before `has_pubsub_messages`. -/
  | checking (client : Bool)
  /-- It said yes. -/
  | popping (client : Bool)
  /-- The message is popped and not yet written. -/
  | sending (client : Bool) (msg : Bytes)
  /-- In the client branch. -/
  | serving
  /-- Behind the cleanup, with the message whose write failed, if one did. -/
  | gone (unsent : List Bytes)
deriving DecidableEq, Repr

/-- One subscriber and its publishers; `sent` is what was written to the client from the queue. -/
structure State (P : Type) where
  mailbox : Mailbox
  publishers : P → PublisherAt := fun _ => .idle
  subscriber : SubscriberAt := .waiting
  sent : List Bytes := []

inductive Action (P : Type) where
  | push (p : P) (message : Bytes)
  | writeByte (p : P)
  /-- `select` returns with these descriptors ready. -/
  | select (pipe client : Bool)
  | selectFails
  | readByte
  | check
  | pop
  /-- `write` to the client; `ok` is false for a negative result. -/
  | send (ok : Bool)
  /-- The client branch; `ok` is false when it leaves the loop. -/
  | serve (ok : Bool)

variable {P : Type} [DecidableEq P]

/-- The state after an action, `none` where it is not the actor's turn to do it. -/
def step? : Action P → State P → Option (State P)
  | .push p message, s =>
      match s.publishers p with
      | .idle => some { s with
          mailbox := s.mailbox.push message
          publishers := Function.update s.publishers p .pushed }
      | .pushed => none
  | .writeByte p, s =>
      match s.publishers p with
      | .idle => none
      | .pushed => some { s with
          mailbox := s.mailbox.writeByte
          publishers := Function.update s.publishers p .idle }
  | .select pipe client, s =>
      match s.subscriber with
      | .waiting =>
          if pipe then
            if 0 < s.mailbox.notifyBytes then some { s with subscriber := .woken client } else none
          else if client then some { s with subscriber := .serving }
          else none
      | _ => none
  | .selectFails, s =>
      match s.subscriber with
      | .waiting => some { s with subscriber := .gone [] }
      | _ => none
  | .readByte, s =>
      match s.subscriber with
      | .woken client =>
          some { s with mailbox := s.mailbox.readByte, subscriber := .checking client }
      | _ => none
  | .check, s =>
      match s.subscriber with
      | .checking client =>
          if s.mailbox.hasPubsubMessages then some { s with subscriber := .popping client }
          else some { s with subscriber := if client then .serving else .waiting }
      | _ => none
  | .pop, s =>
      match s.subscriber with
      | .popping client =>
          let x := s.mailbox.getNextPubsubMessage
          some { s with mailbox := x.2, subscriber := .sending client x.1 }
      | _ => none
  | .send ok, s =>
      match s.subscriber with
      | .sending client msg =>
          if ok then some { s with subscriber := .checking client, sent := s.sent ++ [msg] }
          else some { s with subscriber := .gone [msg] }
      | _ => none
  | .serve ok, s =>
      match s.subscriber with
      | .serving => some { s with subscriber := if ok then .waiting else .gone [] }
      | _ => none

/-- The state after the actions, `none` where one of them is out of turn. -/
def run? : List (Action P) → State P → Option (State P)
  | [], s => some s
  | a :: as, s => (step? a s).bind (run? as)

/-- The messages pushed by the actions, in order. -/
def pushes (as : List (Action P)) : List Bytes :=
  as.filterMap fun a =>
    match a with
    | .push _ message => some message
    | _ => none

theorem run?_append {as as' : List (Action P)} {s s₁ : State P} (h : run? as s = some s₁) :
    run? (as ++ as') s = run? as' s₁ := by
  induction as generalizing s with
  | nil =>
    obtain rfl := Option.some.inj h
    rfl
  | cons a as ih =>
    obtain ⟨s₂, hstep, hrest⟩ := Option.bind_eq_some_iff.mp h
    rw [List.cons_append, run?, hstep, Option.bind_some]
    exact ih hrest

section Undisturbed

variable (msgs : List Bytes) (fd : ℤ) (n : ℕ) (publishers : P → PublisherAt) (client : Bool)
  (sent : List Bytes)

/-- The pop loop, undisturbed. -/
theorem run?_drain :
    run? (msgs.flatMap fun _ => [.check, .pop, .send true])
        ⟨⟨msgs, fd, n⟩, publishers, .checking client, sent⟩ =
      some ⟨⟨[], fd, n⟩, publishers, .checking client, sent ++ msgs⟩ := by
  induction msgs generalizing sent with
  | nil =>
    rw [List.append_nil]
    rfl
  | cons msg msgs ih =>
    have hround : run? [.check, .pop, .send true]
        (⟨⟨msg :: msgs, fd, n⟩, publishers, .checking client, sent⟩ : State P) =
        some ⟨⟨msgs, fd, n⟩, publishers, .checking client, sent ++ [msg]⟩ := rfl
    rw [List.flatMap_cons, run?_append hround, ih, List.append_assoc, List.singleton_append]

/-- One wake-up, undisturbed: a byte fewer, and the whole queue written, as in `onNotified`. -/
theorem run?_wakeUp :
    run? (.select true client :: .readByte ::
        ((msgs.flatMap fun _ => [.check, .pop, .send true]) ++ [.check]))
        ⟨⟨msgs, fd, n + 1⟩, publishers, .waiting, sent⟩ =
      some ⟨⟨[], fd, n⟩, publishers, if client then .serving else .waiting, sent ++ msgs⟩ := by
  have hread : run? [.select true client, .readByte]
      (⟨⟨msgs, fd, n + 1⟩, publishers, .waiting, sent⟩ : State P) =
      some ⟨⟨msgs, fd, n⟩, publishers, .checking client, sent⟩ := by
    simp [run?, step?, Mailbox.readByte]
  show run? ([.select true client, .readByte] ++
    ((msgs.flatMap fun _ => [.check, .pop, .send true]) ++ [.check])) _ = _
  rw [run?_append hread, run?_append (run?_drain msgs fd n publishers client sent)]
  rfl

end Undisturbed

/-! ### The invariant -/

/-- Popped and not written. -/
def SubscriberAt.inFlight : SubscriberAt → List Bytes
  | .sending _ msg => [msg]
  | .gone unsent => unsent
  | _ => []

/-- The subscriber reaches `select` without looking at its queue again. -/
def SubscriberAt.unaware : SubscriberAt → Bool
  | .waiting => true
  | .serving => true
  | _ => false

/-- A byte is there for it, or on its way. -/
def State.Noted (s : State P) : Prop :=
  0 < s.mailbox.notifyBytes ∨ ∃ p, s.publishers p = .pushed

/-- What holds in a state reached with the messages `pushed`. -/
structure Inv (pushed : List Bytes) (s : State P) : Prop where
  pipe : s.mailbox.notifyWriteFd ≠ -1
  noted : s.subscriber.unaware = true → s.mailbox.pubsubMessages ≠ [] → s.Noted
  popping : ∀ client, s.subscriber = .popping client → s.mailbox.pubsubMessages ≠ []
  order : s.sent ++ (s.subscriber.inFlight ++ s.mailbox.pubsubMessages) = pushed

omit [DecidableEq P] in
theorem inv_init {fd : ℤ} (hfd : fd ≠ -1) :
    Inv [] ({ mailbox := { notifyWriteFd := fd } } : State P) where
  pipe := hfd
  noted := fun _ hne => absurd rfl hne
  popping := fun _ hat => by cases hat
  order := rfl

section Steps

variable {pushed : List Bytes} {s s' : State P}

/-- The message is there before its byte is. -/
theorem Inv.push (h : Inv pushed s) {p : P} {message : Bytes}
    (hstep : step? (.push p message) s = some s') : Inv (pushed ++ [message]) s' := by
  simp only [step?] at hstep
  split at hstep
  · obtain rfl := Option.some.inj hstep
    exact
      { pipe := h.pipe
        noted := fun _ _ => .inr ⟨p, Function.update_self _ _ _⟩
        popping := fun _ _ => List.append_ne_nil_of_right_ne_nil _ (List.cons_ne_nil _ _)
        order := by
          rw [← h.order]
          simp only [Mailbox.push, List.append_assoc] }
  · cases hstep

theorem Inv.writeByte (h : Inv pushed s) {p : P} (hstep : step? (.writeByte p) s = some s') :
    Inv pushed s' := by
  simp only [step?] at hstep
  split at hstep
  · cases hstep
  · obtain rfl := Option.some.inj hstep
    have hbyte : 0 < s.mailbox.writeByte.notifyBytes := by
      rw [Mailbox.writeByte, if_pos h.pipe]
      exact Nat.succ_pos _
    exact
      { pipe := h.pipe
        noted := fun _ _ => .inl hbyte
        popping := h.popping
        order := h.order }

omit [DecidableEq P] in
/-- The subscriber moves and touches neither queue nor pipe. -/
theorem Inv.move (h : Inv pushed s) {at' : SubscriberAt}
    (hnoted : at'.unaware = true → s.mailbox.pubsubMessages ≠ [] → s.Noted)
    (hpopping : ∀ client, at' = .popping client → s.mailbox.pubsubMessages ≠ [])
    (hflight : at'.inFlight = s.subscriber.inFlight) : Inv pushed { s with subscriber := at' } where
  pipe := h.pipe
  noted := hnoted
  popping := hpopping
  order := by
    show s.sent ++ (at'.inFlight ++ s.mailbox.pubsubMessages) = pushed
    rw [hflight]
    exact h.order

theorem Inv.select (h : Inv pushed s) {pipe client : Bool}
    (hstep : step? (.select pipe client) s = some s') : Inv pushed s' := by
  simp only [step?] at hstep
  split at hstep
  · rename_i hat
    split_ifs at hstep
    · obtain rfl := Option.some.inj hstep
      exact h.move (fun hat' => by cases hat') (fun _ hat' => by cases hat') (by rw [hat]; rfl)
    · obtain rfl := Option.some.inj hstep
      exact h.move (fun _ => h.noted (by rw [hat]; rfl)) (fun _ hat' => by cases hat') (by rw [hat]; rfl)
  · cases hstep

theorem Inv.selectFails (h : Inv pushed s) (hstep : step? .selectFails s = some s') :
    Inv pushed s' := by
  simp only [step?] at hstep
  split at hstep
  · rename_i hat
    obtain rfl := Option.some.inj hstep
    exact h.move (fun hat' => by cases hat') (fun _ hat' => by cases hat') (by rw [hat]; rfl)
  · cases hstep

/-- The byte goes, but the queue is looked at before the subscriber waits again. -/
theorem Inv.readByte (h : Inv pushed s) (hstep : step? .readByte s = some s') : Inv pushed s' := by
  simp only [step?] at hstep
  split at hstep
  · rename_i client hat
    obtain rfl := Option.some.inj hstep
    exact
      { pipe := h.pipe
        noted := fun hat' => by cases hat'
        popping := fun _ hat' => by cases hat'
        order := by
          have horder := h.order
          rw [hat] at horder
          exact horder }
  · cases hstep

/-- Only an empty queue lets the subscriber go. -/
theorem Inv.check (h : Inv pushed s) (hstep : step? .check s = some s') : Inv pushed s' := by
  simp only [step?] at hstep
  split at hstep
  · rename_i client hat
    split at hstep
    · rename_i hmessages
      obtain rfl := Option.some.inj hstep
      exact h.move (fun hat' => by cases hat')
        (fun _ _ => Mailbox.hasPubsubMessages_iff.mp hmessages) (by rw [hat]; rfl)
    · rename_i hmessages
      obtain rfl := Option.some.inj hstep
      refine h.move ?_ ?_ ?_
      · intro _ hne
        exact absurd (Mailbox.hasPubsubMessages_iff.mpr hne) hmessages
      · intro client' hpop
        cases client <;> cases hpop
      · rw [hat]
        cases client <;> rfl
  · cases hstep

theorem Inv.pop (h : Inv pushed s) (hstep : step? .pop s = some s') : Inv pushed s' := by
  simp only [step?] at hstep
  split at hstep
  · rename_i client hat
    obtain rfl := Option.some.inj hstep
    -- the check has just said that there is a message, and nobody else pops
    obtain ⟨msg, rest, hqueue⟩ := List.exists_cons_of_ne_nil (h.popping client hat)
    have hnext : s.mailbox.getNextPubsubMessage = (msg, { s.mailbox with pubsubMessages := rest }) := by
      rw [Mailbox.getNextPubsubMessage, hqueue]
    have horder := h.order
    rw [hat, hqueue] at horder
    rw [hnext]
    exact
      { pipe := h.pipe
        noted := fun hat' => by cases hat'
        popping := fun _ hat' => by cases hat'
        order := horder }
  · cases hstep

theorem Inv.send (h : Inv pushed s) {ok : Bool} (hstep : step? (.send ok) s = some s') :
    Inv pushed s' := by
  simp only [step?] at hstep
  split at hstep
  · rename_i client msg hat
    split at hstep
    · obtain rfl := Option.some.inj hstep
      have horder := h.order
      rw [hat] at horder
      exact
        { pipe := h.pipe
          noted := fun hat' => by cases hat'
          popping := fun _ hat' => by cases hat'
          order := by
            rw [← horder]
            simp [SubscriberAt.inFlight] }
    · obtain rfl := Option.some.inj hstep
      exact h.move (fun hat' => by cases hat') (fun _ hat' => by cases hat') (by rw [hat]; rfl)
  · cases hstep

theorem Inv.serve (h : Inv pushed s) {ok : Bool} (hstep : step? (.serve ok) s = some s') :
    Inv pushed s' := by
  simp only [step?] at hstep
  split at hstep
  · rename_i hat
    obtain rfl := Option.some.inj hstep
    refine h.move ?_ ?_ ?_
    · exact fun _ => h.noted (by rw [hat]; rfl)
    · intro client hpop
      cases ok <;> cases hpop
    · rw [hat]
      cases ok <;> rfl
  · cases hstep

end Steps

theorem inv_step {pushed : List Bytes} {s s' : State P} (h : Inv pushed s) {a : Action P}
    (hstep : step? a s = some s') : Inv (pushed ++ pushes [a]) s' := by
  cases a with
  | push p message => exact h.push hstep
  | writeByte p => simpa [pushes] using h.writeByte hstep
  | select pipe client => simpa [pushes] using h.select hstep
  | selectFails => simpa [pushes] using h.selectFails hstep
  | readByte => simpa [pushes] using h.readByte hstep
  | check => simpa [pushes] using h.check hstep
  | pop => simpa [pushes] using h.pop hstep
  | send ok => simpa [pushes] using h.send hstep
  | serve ok => simpa [pushes] using h.serve hstep

theorem inv_run? {pushed : List Bytes} {as : List (Action P)} {s s' : State P} (h : Inv pushed s)
    (hrun : run? as s = some s') : Inv (pushed ++ pushes as) s' := by
  induction as generalizing pushed s with
  | nil =>
    obtain rfl := Option.some.inj hrun
    rw [pushes, List.filterMap_nil, List.append_nil]
    exact h
  | cons a as ih =>
    obtain ⟨s₁, hstep, hrest⟩ := Option.bind_eq_some_iff.mp hrun
    have hsplit : pushes (a :: as) = pushes [a] ++ pushes as := by
      rw [pushes, pushes, pushes, ← List.filterMap_append, List.singleton_append]
    rw [hsplit, ← List.append_assoc]
    exact ih (inv_step h hstep) hrest

/-- **No message is stranded.**  In every state that any interleaving reaches: with no publisher between
its two steps and the subscriber in `select`, messages in the queue mean that a byte is in the pipe; and
what was sent so far is, message by message, the beginning of what was pushed. -/
theorem notify_never_strands {fd : ℤ} (hfd : fd ≠ -1) {as : List (Action P)} {s : State P}
    (hrun : run? as { mailbox := { notifyWriteFd := fd } } = some s) :
    ((∀ p, s.publishers p = .idle) → s.subscriber = .waiting → s.mailbox.pubsubMessages ≠ [] →
      0 < s.mailbox.notifyBytes) ∧
    s.sent <+: pushes as := by
  have h := inv_run? (inv_init hfd) hrun
  rw [List.nil_append] at h
  refine ⟨fun hidle hwaiting hne => ?_, ⟨_, h.order⟩⟩
  rcases h.noted (by rw [hwaiting]; rfl) hne with hbyte | ⟨p, hp⟩
  · exact hbyte
  · rw [hidle p] at hp
    cases hp

/-- Two publishers.  The message of the second one is sent before its byte is written; then a third
message comes. -/
def earlyDrain : List (Action Bool) :=
  [.push false [97], .push true [98], .writeByte false, .select true false, .readByte,
    .check, .pop, .send true, .check, .pop, .send true, .check,
    .writeByte true, .push false [99], .writeByte false]

/-- The publishers behind it. -/
def earlyDrainPublishers : Bool → PublisherAt :=
  let atWrites := Function.update (Function.update (fun _ => .idle) false .pushed) true .pushed
  let atPush := Function.update (Function.update atWrites false .idle) true .idle
  Function.update (Function.update atPush false .pushed) false .idle

theorem notify_after_early_drain :
    run? earlyDrain { mailbox := { notifyWriteFd := 7 } } =
        some ⟨⟨[[99]], 7, 2⟩, earlyDrainPublishers, .waiting, [[97], [98]]⟩ ∧
      0 < 2 ∧ [[97], [98]] <+: pushes earlyDrain := by
  have hrun : run? earlyDrain { mailbox := { notifyWriteFd := 7 } } =
      some ⟨⟨[[99]], 7, 2⟩, earlyDrainPublishers, .waiting, [[97], [98]]⟩ := rfl
  obtain ⟨hbyte, hsent⟩ := notify_never_strands (by decide) hrun
  refine ⟨hrun, hbyte ?_ rfl (List.cons_ne_nil _ _), hsent⟩
  intro p
  cases p <;> rfl

end Notify

end MinimalRedis
