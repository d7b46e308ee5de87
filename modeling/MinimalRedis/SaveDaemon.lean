import MinimalRedis.Value
import MinimalRedis.Lib.Simulation
import MinimalRedis.Lib.Traces

/-!
# The save daemon (`save_daemon.cpp`)

A worker thread waits for the interval or a notification and saves; the owner of the daemon (`main`)
starts and stops it, and any thread may trigger a save or change the interval.  Every access to a shared
flag, every wait and every call of `save_function` is a step of its own, and the steps of all threads
come in any order.

* `step?` — one step of the process;
* `step?_cases` — the steps by their actors;
* `WorkerEffect`, `Bystander` — what a step of the worker, and of anyone else, leaves alone;
* `bystander_or_worker` — a step is one or the other.

The mutex protects the interval only and is held from the end of the wait to the end of the save, so
`set_interval` waits for a save in progress.  `save_function` may return or throw; the publisher is taken
not to throw.  Times are nanoseconds of the steady clock, which is taken to stay below `2 ^ 63`; an
interval is in seconds, and converting it to 64-bit nanoseconds wraps (`nanos`).
-/

namespace MinimalRedis

namespace SaveDaemon

open Lib

/-! ### Steps -/

/-- What a call of `save_function` comes to. -/
inductive Outcome where
  | success
  | failure
  | exception (what : Bytes)
deriving DecidableEq, Repr

/-- Where `worker_loop` stands. -/
inductive WorkerAt where
  /-- Created; `last_save_time` is set next. -/
  | starting
  /-- At the loop's test. -/
  | testing
  /-- Before the lock. -/
  | locking
  /-- In `wait_for`; `notified` since a notification has come. -/
  | waiting (deadline : ℤ) (notified : Bool)
  /-- `wait_for` has returned, with `no_timeout` or not. -/
  | woken (noTimeout : Bool)
  /-- Stop was not requested. -/
  | deciding (noTimeout : Bool)
  | saving
  | counting (outcome : Outcome)
  | publishing (outcome : Outcome)
  /-- In `sleep_for`. -/
  | sleeping (until' : ℤ)
  /-- Behind `perform_save`. -/
  | saved
  | finished
deriving DecidableEq, Repr

/-- Where the owner stands: outside of the daemon, or before the named statement. -/
inductive OwnerAt where
  | outside
  /-- `start`: `stop_requested = false`. -/
  | clearing
  /-- `start`: `running = true`. -/
  | raising
  /-- `start`: the new thread. -/
  | launching
  /-- `stop`: `stop_requested = true`. -/
  | requesting
  /-- `stop`: `notify_all`. -/
  | notifying
  /-- `stop`: `join`. -/
  | joining
  /-- `stop`: `running = false`. -/
  | lowering
deriving DecidableEq, Repr

/-- `worker` is `none` while `worker_thread` is not joinable; `terminated` after `std::terminate`. -/
structure State where
  running : Bool := false
  stopRequested : Bool := false
  saveInterval : ℤ := 30
  successfulSaves : ℤ := 0
  failedSaves : ℤ := 0
  lastSaveTime : ℤ := 0
  worker : Option WorkerAt := none
  owner : OwnerAt := .outside
  now : ℤ := 0
  terminated : Bool := false
deriving DecidableEq, Repr

/-- Why `wait_for` returns. -/
inductive Wake where
  | notified
  | spurious
  | timeout
deriving DecidableEq, Repr

inductive Action where
  | tick (elapsed : ℕ)
  /-- The owner calls. -/
  | start
  | stop
  /-- The owner's next statement. -/
  | owner
  | triggerSave
  | setInterval (interval : ℤ)
  /-- `wait_for` returns. -/
  | wake (cause : Wake)
  /-- `save_function` returns or throws. -/
  | saveReturns (outcome : Outcome)
  /-- The worker's next statement. -/
  | worker
deriving DecidableEq, Repr

inductive Event where
  | workerStarts
  | workerEnds
  | loopEntered (at' : ℤ)
  | notified
  | waits
  | wakes (cause : Wake)
  | saveBegins (at' interval : ℤ)
  | saveReturned (at' : ℤ) (outcome : Outcome)
  | published (channel message : Bytes)
  | saveEnds (at' : ℤ)
  | stopReturns
deriving DecidableEq, Repr

/-- The event is the worker's doing. -/
def Event.ofWorker : Event → Bool
  | .workerStarts | .notified | .stopReturns => false
  | .workerEnds | .loopEntered _ | .waits | .wakes _ | .saveBegins _ _ | .saveReturned _ _
  | .published _ _ | .saveEnds _ => true

def second : ℤ := 1000000000

/-- An interval in seconds as `wait_for` and the comparison take it: converted to 64-bit nanoseconds. -/
def nanos (interval : ℤ) : ℤ := wrap64 (interval * second)

theorem nanos_eq {interval : ℤ} (h : |interval| * second < 2 ^ 63) :
    nanos interval = interval * second := by
  have hbounds := abs_le.mp (le_refl |interval|)
  unfold second at h
  exact Int.bmod_eq_of_le (by unfold second; omega) (by unfold second; omega)

/-- The least interval whose nanoseconds wrap: no pause at all. -/
example : nanos 9223372037 < 0 := by decide

/-- The worker holds the mutex. -/
def WorkerAt.holdsMutex : WorkerAt → Bool
  | .woken _ | .deciding _ | .saving | .counting _ | .publishing _ | .sleeping _ | .saved => true
  | .starting | .testing | .locking | .waiting _ _ | .finished => false

namespace State

def atWorker (w : WorkerAt) (s : State) : State := { s with worker := some w }

def atOwner (o : OwnerAt) (s : State) : State := { s with owner := o }

/-- Only a thread that waits by then takes notice. -/
def notifyAll (s : State) : State :=
  match s.worker with
  | some (.waiting deadline _) => s.atWorker (.waiting deadline true)
  | _ => s

/-- The statement of `perform_save` that counts. -/
def count (outcome : Outcome) (s : State) : State :=
  match outcome with
  | .success => { s with successfulSaves := wrap32 (s.successfulSaves + 1) }
  | .failure | .exception _ => { s with failedSaves := wrap32 (s.failedSaves + 1) }

/-- The text published. -/
def message (outcome : Outcome) (s : State) : Bytes :=
  match outcome with
  | .success => str "success:" ++ intBytes s.successfulSaves
  | .failure => str "failure:" ++ intBytes s.failedSaves
  | .exception what => str "exception:" ++ what

end State

def saveChannel : Bytes := str "__save_events__"

/-- Behind the publication: a failure sleeps, an exception does not. -/
def afterPublishing (now : ℤ) : Outcome → WorkerAt
  | .failure => .sleeping (now + 5 * second)
  | .success | .exception _ => .saved

/-- The worker's next statement. -/
def workerStep? (publishes : Bool) (s : State) : WorkerAt → Option (Option Event × State)
  | .starting => some (some (.loopEntered s.now), { s.atWorker .testing with lastSaveTime := s.now })
  | .testing =>
      if s.stopRequested then some (some .workerEnds, s.atWorker .finished)
      else some (none, s.atWorker .locking)
  | .locking =>
      some (some .waits, s.atWorker (.waiting (wrap64 (s.now + nanos s.saveInterval)) false))
  | .woken noTimeout =>
      if s.stopRequested then some (some .workerEnds, s.atWorker .finished)
      else some (none, s.atWorker (.deciding noTimeout))
  | .deciding noTimeout =>
      if s.now - s.lastSaveTime ≥ nanos s.saveInterval ∨ noTimeout = true then
        some (some (.saveBegins s.now s.saveInterval), s.atWorker .saving)
      else some (none, s.atWorker .testing)
  | .counting outcome => some (none, (s.count outcome).atWorker (.publishing outcome))
  | .publishing outcome =>
      some (if publishes then some (.published saveChannel (s.message outcome)) else none,
        s.atWorker (afterPublishing s.now outcome))
  | .sleeping until' => if until' ≤ s.now then some (none, s.atWorker .saved) else none
  | .saved => some (some (.saveEnds s.now), { s.atWorker .testing with lastSaveTime := s.now })
  | .waiting _ _ | .saving | .finished => none

/-- The owner's next statement; `join` waits for the thread. -/
def ownerStep? (s : State) : Option (Option Event × State) :=
  match s.owner with
  | .outside => none
  | .clearing => some (none, { s.atOwner .raising with stopRequested := false })
  | .raising => some (none, { s.atOwner .launching with running := true })
  | .launching =>
      match s.worker with
      | none => some (some .workerStarts, (s.atOwner .outside).atWorker .starting)
      | some _ => some (none, { s with terminated := true })
  | .requesting => some (none, { s.atOwner .notifying with stopRequested := true })
  | .notifying => some (some .notified, (s.atOwner .joining).notifyAll)
  | .joining =>
      match s.worker with
      | none => some (none, s.atOwner .lowering)
      | some .finished => some (none, { s.atOwner .lowering with worker := none })
      | some _ => none
  | .lowering => some (some .stopReturns, { s.atOwner .outside with running := false })

/-- `wait_for` returns `timeout` once the clock is there, and may return `no_timeout` at any time. -/
def wakeStep? (cause : Wake) (s : State) : Option (Option Event × State) :=
  match s.worker with
  | some (.waiting deadline notified) =>
      match cause with
      | .notified =>
          if notified then some (some (.wakes .notified), s.atWorker (.woken true)) else none
      | .spurious => some (some (.wakes .spurious), s.atWorker (.woken true))
      | .timeout =>
          if deadline ≤ s.now then some (some (.wakes .timeout), s.atWorker (.woken false)) else none
  | _ => none

/-- One step of the process, `none` where it is not the actor's turn. -/
def step? (publishes : Bool) (a : Action) (s : State) : Option (Option Event × State) :=
  if s.terminated then none
  else
    match a with
    | .tick elapsed => some (none, { s with now := s.now + elapsed })
    | .start =>
        if s.owner = .outside then some (none, if s.running then s else s.atOwner .clearing) else none
    | .stop =>
        if s.owner = .outside then
          if s.running then some (none, s.atOwner .requesting) else some (some .stopReturns, s)
        else none
    | .owner => ownerStep? s
    | .triggerSave => some (some .notified, s.notifyAll)
    | .setInterval interval =>
        if s.worker.any WorkerAt.holdsMutex then none
        else some (none, { s with saveInterval := interval })
    | .wake cause => wakeStep? cause s
    | .saveReturns outcome =>
        match s.worker with
        | some .saving => some (some (.saveReturned s.now outcome), s.atWorker (.counting outcome))
        | _ => none
    | .worker => s.worker.bind (workerStep? publishes s)

/-! ### What a step can do -/

section Steps

variable {publishes : Bool} {a : Action} {s s' : State} {e : Option Event}

theorem mem_toList_iff {x : Event} : x ∈ e.toList ↔ e = some x := by
  cases e <;> simp [eq_comm]

/-- A notification changes the position of a waiting worker, and nothing else. -/
theorem notifyAll_eq (s : State) : ∃ w, s.notifyAll = { s with worker := w } ∧
    (w = s.worker ∨ ∃ deadline b, s.worker = some (.waiting deadline b) ∧
      w = some (.waiting deadline true)) := by
  unfold State.notifyAll
  split
  · rename_i deadline b hw
    exact ⟨_, rfl, .inr ⟨deadline, b, hw, rfl⟩⟩
  · exact ⟨s.worker, rfl, .inl rfl⟩

/-- The steps by their actors: the clock, another thread, the owner or the worker. -/
theorem step?_cases (h : step? publishes a s = some (e, s')) :
    s.terminated = false ∧
      ((∃ elapsed : ℕ, a = .tick elapsed ∧ e = none ∧ s' = { s with now := s.now + elapsed }) ∨
        (a = .triggerSave ∧ e = some .notified ∧ s' = s.notifyAll) ∨
        (∃ interval, a = .setInterval interval ∧ e = none ∧
          s' = { s with saveInterval := interval } ∧ s.worker.any WorkerAt.holdsMutex = false) ∨
        ((a = .start ∨ a = .stop) ∧ s.owner = .outside ∧
          ((a = .start ∧ e = none ∧ s' = if s.running then s else s.atOwner .clearing) ∨
            (a = .stop ∧ s.running = true ∧ e = none ∧ s' = s.atOwner .requesting) ∨
            (a = .stop ∧ s.running = false ∧ e = some .stopReturns ∧ s' = s))) ∨
        (a = .owner ∧ ownerStep? s = some (e, s')) ∨
        ∃ w, s.worker = some w ∧
          ((∃ cause, a = .wake cause ∧ wakeStep? cause s = some (e, s')) ∨
            (∃ outcome, a = .saveReturns outcome ∧ w = .saving ∧
              e = some (.saveReturned s.now outcome) ∧ s' = s.atWorker (.counting outcome)) ∨
            (a = .worker ∧ workerStep? publishes s w = some (e, s')))) := by
  unfold step? at h
  split at h
  · cases h
  · rename_i hterminated
    refine ⟨by simpa using hterminated, ?_⟩
    cases a with
    | tick elapsed =>
      cases h
      exact .inl ⟨elapsed, rfl, rfl, rfl⟩
    | triggerSave =>
      cases h
      exact .inr (.inl ⟨rfl, rfl, rfl⟩)
    | setInterval interval =>
      simp only at h
      split at h
      · cases h
      · rename_i hfree
        cases h
        exact .inr (.inr (.inl ⟨interval, rfl, rfl, rfl, by simpa using hfree⟩))
    | start =>
      simp only at h
      split at h
      · rename_i hout
        cases h
        exact .inr (.inr (.inr (.inl ⟨.inl rfl, hout, .inl ⟨rfl, rfl, rfl⟩⟩)))
      · cases h
    | stop =>
      simp only at h
      split at h
      · rename_i hout
        split at h
        · rename_i hrun
          cases h
          exact .inr (.inr (.inr (.inl ⟨.inr rfl, hout, .inr (.inl ⟨rfl, hrun, rfl, rfl⟩)⟩)))
        · rename_i hrun
          cases h
          exact .inr (.inr (.inr (.inl
            ⟨.inr rfl, hout, .inr (.inr ⟨rfl, by simpa using hrun, rfl, rfl⟩)⟩)))
      · cases h
    | owner => exact .inr (.inr (.inr (.inr (.inl ⟨rfl, h⟩))))
    | wake cause =>
      cases hw : s.worker with
      | none =>
        simp only [wakeStep?, hw] at h
        cases h
      | some w => exact .inr (.inr (.inr (.inr (.inr ⟨w, rfl, .inl ⟨cause, rfl, h⟩⟩))))
    | saveReturns outcome =>
      simp only at h
      split at h
      · rename_i hw
        cases h
        exact .inr (.inr (.inr (.inr (.inr ⟨_, hw, .inr (.inl ⟨outcome, rfl, rfl, rfl, rfl⟩)⟩))))
      · cases h
    | worker =>
      obtain ⟨w, hw, h⟩ := Option.bind_eq_some_iff.mp h
      exact .inr (.inr (.inr (.inr (.inr ⟨w, hw, .inr (.inr ⟨rfl, h⟩)⟩))))

/-- What all steps of the worker have in common. -/
structure WorkerEffect (s : State) (w : WorkerAt) (e : Option Event) (s' : State) (w' : WorkerAt) :
    Prop where
  worker : s'.worker = some w'
  active : w ≠ .finished
  running : s'.running = s.running
  stopRequested : s'.stopRequested = s.stopRequested
  owner : s'.owner = s.owner
  terminated : s'.terminated = s.terminated
  now : s'.now = s.now
  saveInterval : s'.saveInterval = s.saveInterval
  ofWorker : ∀ x, e = some x → x.ofWorker = true
  ends : (w' = .finished ∧ s.stopRequested = true ∧ e = some .workerEnds) ∨
    (w' ≠ .finished ∧ e ≠ some .workerEnds)

theorem workerEffect_step {w : WorkerAt} (h : workerStep? publishes s w = some (e, s')) :
    ∃ w', WorkerEffect s w e s' w' := by
  cases w with
  | testing | woken noTimeout =>
    simp only [workerStep?] at h
    split at h
    · rename_i hstop
      cases h
      exact ⟨.finished, rfl, nofun, rfl, rfl, rfl, rfl, rfl, rfl, by simp [Event.ofWorker],
        .inl ⟨rfl, hstop, rfl⟩⟩
    · cases h
      exact ⟨_, rfl, nofun, rfl, rfl, rfl, rfl, rfl, rfl, nofun, .inr ⟨nofun, nofun⟩⟩
  | deciding noTimeout | sleeping until' =>
    simp only [workerStep?] at h
    split at h <;> cases h
    all_goals
      exact ⟨_, rfl, nofun, rfl, rfl, rfl, rfl, rfl, rfl, by simp [Event.ofWorker],
        .inr ⟨nofun, by simp⟩⟩
  | counting outcome =>
    cases outcome
    all_goals
      cases h
      exact ⟨_, rfl, nofun, rfl, rfl, rfl, rfl, rfl, rfl, nofun, .inr ⟨nofun, nofun⟩⟩
  | publishing outcome =>
    cases h
    refine ⟨_, rfl, nofun, rfl, rfl, rfl, rfl, rfl, rfl, fun x hx => ?_, .inr ⟨?_, ?_⟩⟩
    · split at hx
      · cases hx
        rfl
      · cases hx
    · cases outcome <;> exact nofun
    · split <;> simp
  | waiting _ _ | saving | finished => cases h
  | starting | locking | saved =>
    cases h
    exact ⟨_, rfl, nofun, rfl, rfl, rfl, rfl, rfl, rfl, by simp [Event.ofWorker],
      .inr ⟨nofun, by simp⟩⟩

theorem workerEffect_wake {cause : Wake} {w : WorkerAt} (hw : s.worker = some w)
    (h : wakeStep? cause s = some (e, s')) : ∃ w', WorkerEffect s w e s' w' := by
  unfold wakeStep? at h
  split at h
  · rename_i deadline notified hwaiting
    rw [hw] at hwaiting
    cases hwaiting
    cases cause with
    | spurious =>
      cases h
      exact ⟨_, rfl, nofun, rfl, rfl, rfl, rfl, rfl, rfl, by simp [Event.ofWorker],
        .inr ⟨nofun, by simp⟩⟩
    | notified | timeout =>
      simp only at h
      split at h
      · cases h
        exact ⟨_, rfl, nofun, rfl, rfl, rfl, rfl, rfl, rfl, by simp [Event.ofWorker],
          .inr ⟨nofun, by simp⟩⟩
      · cases h
  · cases h

theorem workerEffect_saveReturns (s : State) (outcome : Outcome) :
    WorkerEffect s .saving (some (.saveReturned s.now outcome)) (s.atWorker (.counting outcome))
      (.counting outcome) :=
  ⟨rfl, nofun, rfl, rfl, rfl, rfl, rfl, rfl, by simp [Event.ofWorker], .inr ⟨nofun, by simp⟩⟩

/-- A step of the worker, whichever of its actions it is. -/
theorem workerEffect {w : WorkerAt} (hw : s.worker = some w)
    (h : (∃ cause, a = .wake cause ∧ wakeStep? cause s = some (e, s')) ∨
      (∃ outcome, a = .saveReturns outcome ∧ w = .saving ∧
        e = some (.saveReturned s.now outcome) ∧ s' = s.atWorker (.counting outcome)) ∨
      (a = .worker ∧ workerStep? publishes s w = some (e, s'))) :
    ∃ w', WorkerEffect s w e s' w' := by
  rcases h with ⟨cause, -, h⟩ | ⟨outcome, -, rfl, rfl, rfl⟩ | ⟨-, h⟩
  · exact workerEffect_wake hw h
  · exact ⟨_, workerEffect_saveReturns s outcome⟩
  · exact workerEffect_step h

/-- What the steps of everyone else have in common: of the worker's data, they change its position only,
and that only by a notification, by a new thread, or when the old one is joined. -/
structure Bystander (s : State) (e : Option Event) (s' : State) : Prop where
  successfulSaves : s'.successfulSaves = s.successfulSaves
  failedSaves : s'.failedSaves = s.failedSaves
  lastSaveTime : s'.lastSaveTime = s.lastSaveTime
  now : s.now ≤ s'.now
  ofWorker : ∀ x, e = some x → x.ofWorker = false
  worker : s'.worker = s.worker ∨ (s.worker = none ∧ s'.worker = some .starting) ∨
    (s.worker = some .finished ∧ s'.worker = none) ∨
    ∃ deadline b, s.worker = some (.waiting deadline b) ∧ e = some .notified ∧
      s'.worker = some (.waiting deadline true)

theorem bystander_notifyAll (s : State) : Bystander s (some .notified) s.notifyAll := by
  obtain ⟨w, heq, hw⟩ := notifyAll_eq s
  rw [heq]
  refine ⟨rfl, rfl, rfl, le_refl _, by simp [Event.ofWorker], ?_⟩
  rcases hw with rfl | ⟨deadline, b, hs, rfl⟩
  · exact .inl rfl
  · exact .inr (.inr (.inr ⟨deadline, b, hs, rfl, rfl⟩))

theorem bystander_owner (h : ownerStep? s = some (e, s')) : Bystander s e s' := by
  unfold ownerStep? at h
  split at h
  · cases h
  · cases h
    exact ⟨rfl, rfl, rfl, le_refl _, nofun, .inl rfl⟩
  · cases h
    exact ⟨rfl, rfl, rfl, le_refl _, nofun, .inl rfl⟩
  · split at h
    · rename_i hnone
      cases h
      exact ⟨rfl, rfl, rfl, le_refl _, by simp [Event.ofWorker], .inr (.inl ⟨hnone, rfl⟩)⟩
    · cases h
      exact ⟨rfl, rfl, rfl, le_refl _, nofun, .inl rfl⟩
  · cases h
    exact ⟨rfl, rfl, rfl, le_refl _, nofun, .inl rfl⟩
  · cases h
    exact { bystander_notifyAll (s.atOwner .joining) with }
  · split at h
    · cases h
      exact ⟨rfl, rfl, rfl, le_refl _, nofun, .inl rfl⟩
    · rename_i hfin
      cases h
      exact ⟨rfl, rfl, rfl, le_refl _, nofun, .inr (.inr (.inl ⟨hfin, rfl⟩))⟩
    · cases h
  · cases h
    exact ⟨rfl, rfl, rfl, le_refl _, by simp [Event.ofWorker], .inl rfl⟩

/-- A step is one of the worker's, or it is a bystander to its work. -/
theorem bystander_or_worker (h : step? publishes a s = some (e, s')) :
    Bystander s e s' ∨ ∃ w, s.worker = some w ∧
      ((∃ cause, a = .wake cause ∧ wakeStep? cause s = some (e, s')) ∨
        (∃ outcome, a = .saveReturns outcome ∧ w = .saving ∧
          e = some (.saveReturned s.now outcome) ∧ s' = s.atWorker (.counting outcome)) ∨
        (a = .worker ∧ workerStep? publishes s w = some (e, s'))) := by
  obtain ⟨-, ⟨elapsed, -, rfl, rfl⟩ | ⟨-, rfl, rfl⟩ | ⟨interval, -, rfl, rfl, -⟩ | ⟨-, -, hcall⟩ |
    ⟨-, howner⟩ | hworker⟩ := step?_cases h
  · exact .inl ⟨rfl, rfl, rfl, by simp, nofun, .inl rfl⟩
  · exact .inl (bystander_notifyAll s)
  · exact .inl ⟨rfl, rfl, rfl, le_refl _, nofun, .inl rfl⟩
  · rcases hcall with ⟨-, rfl, rfl⟩ | ⟨-, -, rfl, rfl⟩ | ⟨-, -, rfl, rfl⟩
    · split <;> exact .inl ⟨rfl, rfl, rfl, le_refl _, nofun, .inl rfl⟩
    · exact .inl ⟨rfl, rfl, rfl, le_refl _, nofun, .inl rfl⟩
    · exact .inl ⟨rfl, rfl, rfl, le_refl _, by simp [Event.ofWorker], .inl rfl⟩
  · exact .inl (bystander_owner howner)
  · exact .inr hworker

end Steps

end SaveDaemon

end MinimalRedis
