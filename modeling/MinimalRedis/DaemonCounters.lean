import MinimalRedis.DaemonLifecycle

/-!
# The save daemon: counters and messages

* `announcements` — the messages for a list of outcomes, each numbered by the outcomes of its kind;
* `Ledger` — the counters and the messages against what `save_function` returned, in the three phases of
  an outcome;
* `counters_and_messages` — over every run the counters count the outcomes, and the published messages
  announce them.

The numbers in the messages are the counters', so they are the true ones only modulo `2 ^ 32`; the
message of an exception has the exception's text and no number.
-/

namespace MinimalRedis

namespace SaveDaemon

open Lib

/-- What the calls of `save_function` came to, in order. -/
def returned (trace : List Event) : List Outcome :=
  trace.filterMap fun e =>
    match e with
    | .saveReturned _ outcome => some outcome
    | _ => none

def messages (trace : List Event) : List (Bytes × Bytes) :=
  trace.filterMap fun e =>
    match e with
    | .published channel message => some (channel, message)
    | _ => none

def successes (outcomes : List Outcome) : ℕ := outcomes.countP (· = .success)

/-- Exceptions count as failures. -/
def failures (outcomes : List Outcome) : ℕ := outcomes.countP (· ≠ .success)

/-- The message that follows the outcomes `done`. -/
def announcement (done : List Outcome) : Outcome → Bytes
  | .success => str "success:" ++ intBytes (wrap32 (successes done + 1))
  | .failure => str "failure:" ++ intBytes (wrap32 (failures done + 1))
  | .exception what => str "exception:" ++ what

def announcementsFrom (done : List Outcome) : List Outcome → List Bytes
  | [] => []
  | outcome :: outcomes =>
      announcement done outcome :: announcementsFrom (done ++ [outcome]) outcomes

/-- One message for each outcome, numbered by its kind. -/
def announcements (publishes : Bool) (outcomes : List Outcome) : List (Bytes × Bytes) :=
  if publishes then (announcementsFrom [] outcomes).map fun text => (saveChannel, text) else []

/-- The counters, which are 32 bits wide. -/
structure Tally (outcomes : List Outcome) (s : State) : Prop where
  successful : s.successfulSaves = wrap32 (successes outcomes)
  failed : s.failedSaves = wrap32 (failures outcomes)

/-- Where the worker stands with an outcome: not counted yet, or counted and not published yet. -/
def phase : Option WorkerAt → Option (Bool × Outcome)
  | some (.counting outcome) => some (false, outcome)
  | some (.publishing outcome) => some (true, outcome)
  | _ => none

/-- The books, while the worker stands so. -/
def Books (publishes : Bool) (trace : List Event) (s : State) : Option (Bool × Outcome) → Prop
  | none => Tally (returned trace) s ∧ messages trace = announcements publishes (returned trace)
  | some (counted, outcome) => ∃ done, returned trace = done ++ [outcome] ∧
      Tally (if counted then returned trace else done) s ∧
      messages trace = announcements publishes done

def Ledger (publishes : Bool) (trace : List Event) (s : State) : Prop :=
  Books publishes trace s (phase s.worker)

theorem announcementsFrom_append_singleton (done outcomes : List Outcome) (outcome : Outcome) :
    announcementsFrom done (outcomes ++ [outcome]) =
      announcementsFrom done outcomes ++ [announcement (done ++ outcomes) outcome] := by
  induction outcomes generalizing done with
  | nil => rw [List.nil_append, List.append_nil]; rfl
  | cons o outcomes ih =>
    rw [List.cons_append, announcementsFrom, ih, announcementsFrom, List.cons_append,
      List.append_assoc, List.singleton_append]

theorem announcements_append_singleton (publishes : Bool) (outcomes : List Outcome)
    (outcome : Outcome) : announcements publishes (outcomes ++ [outcome]) =
      announcements publishes outcomes ++
        if publishes then [(saveChannel, announcement outcomes outcome)] else [] := by
  cases publishes
  · rfl
  · simp [announcements, announcementsFrom_append_singleton]

theorem wrap32_succ (n : ℤ) : wrap32 (wrap32 n + 1) = wrap32 (n + 1) :=
  Int.bmod_add_bmod

section Ledger

variable {publishes : Bool} {past : List Event} {a : Action} {s s' : State} {e : Option Event}

theorem Tally.count {outcomes : List Outcome} (h : Tally outcomes s) (outcome : Outcome) :
    Tally (outcomes ++ [outcome]) (s.count outcome) := by
  cases outcome with
  | success =>
    refine ⟨?_, ?_⟩
    · show wrap32 (s.successfulSaves + 1) = _
      rw [h.successful, wrap32_succ]
      simp [successes, List.countP_append]
    · show s.failedSaves = _
      rw [h.failed]
      simp [failures, List.countP_append]
  | failure | exception what =>
    refine ⟨?_, ?_⟩
    · show s.successfulSaves = _
      rw [h.successful]
      simp [successes, List.countP_append]
    · show wrap32 (s.failedSaves + 1) = _
      rw [h.failed, wrap32_succ]
      simp [failures, List.countP_append]

theorem message_count {outcomes : List Outcome} {outcome : Outcome}
    (h : Tally (outcomes ++ [outcome]) s) : s.message outcome = announcement outcomes outcome := by
  cases outcome with
  | success =>
    rw [State.message, h.successful]
    simp [announcement, successes, List.countP_append]
  | failure =>
    rw [State.message, h.failed]
    simp [announcement, failures, List.countP_append]
  | exception what => rfl

/-- A step that does not touch the books. -/
theorem Ledger.bystander (h : Ledger publishes past s) (hphase : phase s'.worker = phase s.worker)
    (hsuccessful : s'.successfulSaves = s.successfulSaves) (hfailed : s'.failedSaves = s.failedSaves)
    (hreturned : returned (past ++ e.toList) = returned past)
    (hmessages : messages (past ++ e.toList) = messages past) :
    Ledger publishes (past ++ e.toList) s' := by
  have htally : ∀ {outcomes}, Tally outcomes s → Tally outcomes s' := fun ht =>
    ⟨hsuccessful.trans ht.successful, hfailed.trans ht.failed⟩
  unfold Ledger at h ⊢
  rw [hphase]
  cases hp : phase s.worker with
  | none =>
    rw [hp] at h
    rw [Books, hreturned, hmessages]
    exact ⟨htally h.1, h.2⟩
  | some x =>
    rw [hp] at h
    obtain ⟨done, hdone, ht, hm⟩ := h
    exact ⟨done, by rw [hreturned, hdone], by rw [hreturned]; exact htally ht, by rw [hmessages, hm]⟩

theorem returned_append (x : Event) :
    returned (past ++ [x]) = returned past ++ returned [x] := List.filterMap_append

theorem messages_append (x : Event) :
    messages (past ++ [x]) = messages past ++ messages [x] := List.filterMap_append

/-- Events of no account. -/
theorem Ledger.move (h : Ledger publishes past s) (hphase : phase s'.worker = phase s.worker)
    (hsuccessful : s'.successfulSaves = s.successfulSaves) (hfailed : s'.failedSaves = s.failedSaves)
    (hevent : ∀ x, e = some x → returned [x] = [] ∧ messages [x] = []) :
    Ledger publishes (past ++ e.toList) s' := by
  cases e with
  | none => exact h.bystander hphase hsuccessful hfailed (by simp) (by simp)
  | some x =>
    obtain ⟨hreturned, hmessages⟩ := hevent x rfl
    refine h.bystander hphase hsuccessful hfailed ?_ ?_
    · rw [Option.toList_some, returned_append, hreturned, List.append_nil]
    · rw [Option.toList_some, messages_append, hmessages, List.append_nil]

theorem Ledger.of_bystander (h : Ledger publishes past s) (hstep : Bystander s e s') :
    Ledger publishes (past ++ e.toList) s' := by
  refine h.move ?_ hstep.successfulSaves hstep.failedSaves fun x hx => ?_
  · rcases hstep.worker with hw | ⟨hs, hw⟩ | ⟨hs, hw⟩ | ⟨deadline, b, hs, -, hw⟩
    · rw [hw]
    all_goals
      rw [hs, hw]
      rfl
  · have hof := hstep.ofWorker x hx
    cases x <;> first | exact ⟨rfl, rfl⟩ | cases hof

theorem Ledger.workerStep (h : Ledger publishes past s) {w : WorkerAt} (hw : s.worker = some w)
    (hstep : workerStep? publishes s w = some (e, s')) : Ledger publishes (past ++ e.toList) s' := by
  cases w with
  | waiting _ _ | saving | finished => cases hstep
  | starting | locking | saved =>
    cases hstep
    exact h.move (by rw [hw]; rfl) rfl rfl fun x hx => by cases hx; exact ⟨rfl, rfl⟩
  | testing | woken noTimeout | deciding noTimeout | sleeping until' =>
    simp only [workerStep?] at hstep
    split at hstep <;> cases hstep
    all_goals exact h.move (by rw [hw]; rfl) rfl rfl fun x hx => by cases hx <;> exact ⟨rfl, rfl⟩
  | counting outcome =>
    cases hstep
    unfold Ledger at h
    rw [hw] at h
    obtain ⟨done, hdone, htally, hmessages⟩ := h
    rw [Option.toList_none, List.append_nil]
    refine ⟨done, hdone, ?_, hmessages⟩
    have hcount := htally.count outcome
    rw [if_pos rfl, hdone]
    exact ⟨hcount.successful, hcount.failed⟩
  | publishing outcome =>
    cases hstep
    unfold Ledger at h
    rw [hw] at h
    obtain ⟨done, hdone, htally, hmessages⟩ := h
    rw [if_pos rfl] at htally
    have hphase : phase (s.atWorker (afterPublishing s.now outcome)).worker = none := by
      cases outcome <;> rfl
    unfold Ledger
    rw [hphase]
    rw [hdone] at htally
    cases publishes with
    | false =>
      rw [if_neg (by decide), Option.toList_none, List.append_nil]
      refine ⟨by rw [hdone]; exact ⟨htally.successful, htally.failed⟩, ?_⟩
      rw [hmessages]
      rfl
    | true =>
      rw [if_pos rfl, Option.toList_some]
      have hreturned : returned (past ++ [.published saveChannel (s.message outcome)]) =
          done ++ [outcome] := by
        rw [returned_append, hdone]
        exact List.append_nil _
      refine ⟨by rw [hreturned]; exact ⟨htally.successful, htally.failed⟩, ?_⟩
      rw [hreturned, messages_append, hmessages, announcements_append_singleton, if_pos rfl,
        ← message_count htally]
      rfl

theorem ledger_step (h : Ledger publishes past s) (hstep : step? publishes a s = some (e, s')) :
    Ledger publishes (past ++ e.toList) s' := by
  rcases bystander_or_worker hstep with hby | ⟨w, hw, ⟨cause, -, hwake⟩ | ⟨outcome, -, rfl, rfl, rfl⟩ |
    ⟨-, hworker⟩⟩
  · exact h.of_bystander hby
  · unfold wakeStep? at hwake
    split at hwake
    · rename_i deadline b hwaiting
      cases cause with
      | spurious =>
        cases hwake
        exact h.move (by rw [hwaiting]; rfl) rfl rfl fun x hx => by cases hx; exact ⟨rfl, rfl⟩
      | notified | timeout =>
        simp only at hwake
        split at hwake <;> cases hwake
        exact h.move (by rw [hwaiting]; rfl) rfl rfl fun x hx => by cases hx; exact ⟨rfl, rfl⟩
    · cases hwake
  · unfold Ledger at h
    rw [hw] at h
    obtain ⟨htally, hmessages⟩ := h
    refine ⟨returned past, ?_, ⟨htally.successful, htally.failed⟩, ?_⟩
    · rw [Option.toList_some, returned_append]
      rfl
    · rw [Option.toList_some, messages_append, hmessages]
      exact List.append_nil _
  · exact h.workerStep hw hworker

end Ledger

/-- **The counters and the messages tell what happened.**  Over every interleaving, while no outcome is on
its way into the books, the two counters are the numbers of successes and of failures (exceptions among
them), modulo `2 ^ 32`, and the publisher, if there is one, was given one message for each outcome, in
order and numbered by its kind.  At any other time all but the last outcome are published. -/
theorem counters_and_messages {publishes : Bool} {as : List Action} {trace : List Event} {s : State}
    (hrun : Machine.run? (step? publishes) as {} = some (trace, s)) :
    (phase s.worker = none →
      s.successfulSaves = wrap32 (successes (returned trace)) ∧
      s.failedSaves = wrap32 (failures (returned trace)) ∧
      messages trace = announcements publishes (returned trace)) ∧
    (∀ counted outcome, phase s.worker = some (counted, outcome) →
      ∃ done, returned trace = done ++ [outcome] ∧ messages trace = announcements publishes done) := by
  have hinit : Ledger publishes [] {} := ⟨⟨rfl, rfl⟩, by cases publishes <;> rfl⟩
  have h := Machine.run_inv_nil ledger_step hinit hrun
  unfold Ledger at h
  refine ⟨fun hphase => ?_, fun counted outcome hphase => ?_⟩
  · rw [hphase] at h
    exact ⟨h.1.successful, h.1.failed, h.2⟩
  · rw [hphase] at h
    obtain ⟨done, hdone, -, hmessages⟩ := h
    exact ⟨done, hdone, hmessages⟩

theorem sample_is_counted :
    sampleEnd.failedSaves = wrap32 (failures (returned sampleTrace)) ∧
      messages sampleTrace = announcements true (returned sampleTrace) :=
  ((counters_and_messages run_sample).1 rfl).2

end SaveDaemon

end MinimalRedis
