import MinimalRedis.DaemonPacing

/-!
# The save daemon: stopping

* `State.left`, `State.begins` — the steps that are left to the two threads once stop is requested, and
  the saves that may still begin;
* `Stopping.pays` — each of their steps is paid from what is left;
* `Stopping.exists_step` — one of the two can take a step, at least when its time has come;
* `stop_is_bounded` — a stop takes at most ten steps and one more save, and never gets stuck.
-/

namespace MinimalRedis

namespace SaveDaemon

open Lib

/-- The action is a step of the owner or of the worker. -/
def Action.ofTwo : Action → Bool
  | .owner | .wake _ | .saveReturns _ | .worker => true
  | .tick _ | .start | .stop | .triggerSave | .setInterval _ => false

def Event.isBegin : Event → Bool
  | .saveBegins _ _ => true
  | _ => false

/-- The steps that are left to the worker once stop is requested. -/
def WorkerAt.left : WorkerAt → ℕ
  | .finished => 0
  | .testing | .woken _ => 1
  | .starting | .waiting _ _ | .saved => 2
  | .locking | .sleeping _ => 3
  | .publishing _ => 4
  | .counting _ => 5
  | .saving => 6
  | .deciding _ => 7

/-- The steps that are left to `stop` behind its request. -/
def OwnerAt.left : OwnerAt → ℕ
  | .notifying => 3
  | .joining => 2
  | .lowering => 1
  | .outside | .clearing | .raising | .launching | .requesting => 0

def State.left (s : State) : ℕ := s.owner.left + (s.worker.map WorkerAt.left).getD 0

/-- The saves that the worker has yet to begin. -/
def State.begins (s : State) : ℕ :=
  match s.worker with
  | some (.deciding _) => 1
  | _ => 0

theorem left_le (s : State) : s.left ≤ 10 := by
  have howner : s.owner.left ≤ 3 := by cases s.owner <;> decide
  have hworker : (s.worker.map WorkerAt.left).getD 0 ≤ 7 := by
    cases s.worker with
    | none => exact Nat.zero_le _
    | some w => cases w <;> simp [WorkerAt.left]
  exact Nat.add_le_add howner hworker

theorem begins_le (s : State) : s.begins ≤ 1 := by
  unfold State.begins
  split
  · exact le_refl _
  · exact Nat.zero_le _

/-- `stop` has made its request and has not returned. -/
structure Stopping (s : State) : Prop where
  inside : 0 < s.owner.left
  requested : s.stopRequested = true
  terminated : s.terminated = false
  joins : s.owner = .notifying ∨ s.owner = .joining → s.worker.isSome = true

theorem stopping_of_lifecycle {past : List Event} {s : State} (h : Lifecycle past s)
    (hinside : 0 < s.owner.left) : Stopping s := by
  have howner := h.owner
  refine ⟨hinside, ?_, h.terminated, fun hjoining => ?_⟩
  · cases hat : s.owner
    all_goals
      rw [hat] at howner hinside
      first
        | exact howner.2.1
        | cases hinside
  · rcases hjoining with hat | hat
    all_goals
      rw [hat] at howner
      exact howner.2.2

section Stopping

variable {publishes : Bool} {a : Action} {s s' : State} {e : Option Event}

/-- What a step takes from what is left. -/
structure Paid (a : Action) (s : State) (e : Option Event) (s' : State) : Prop where
  stopping : Stopping s'
  steps : (if a.ofTwo then 1 else 0) + s'.left ≤ s.left
  begins : (e.toList.countP Event.isBegin) + s'.begins ≤ s.begins

theorem left_notifyAll (s : State) : s.notifyAll.left = s.left ∧ s.notifyAll.begins = s.begins := by
  obtain ⟨w, heq, hw⟩ := notifyAll_eq s
  rw [heq]
  rcases hw with rfl | ⟨deadline, b, hs, rfl⟩
  · exact ⟨rfl, rfl⟩
  · simp [State.left, State.begins, hs, WorkerAt.left]

theorem Stopping.notified (h : Stopping s) : Stopping s.notifyAll := by
  obtain ⟨w, heq, hw⟩ := notifyAll_eq s
  rw [heq]
  refine ⟨h.inside, h.requested, h.terminated, fun hat => ?_⟩
  rcases hw with rfl | ⟨deadline, b, hs, rfl⟩
  · exact h.joins hat
  · rfl

theorem Stopping.worker (h : Stopping s) {w w' : WorkerAt} (hw : s.worker = some w)
    (heffect : WorkerEffect s w e s' w') (hleft : w'.left + 1 ≤ w.left)
    (hbegins : e.toList.countP Event.isBegin + s'.begins ≤ s.begins) (ha : a.ofTwo = true) :
    Paid a s e s' := by
  refine ⟨⟨?_, ?_, ?_, fun _ => ?_⟩, ?_, hbegins⟩
  · rw [heffect.owner]
    exact h.inside
  · rw [heffect.stopRequested]
    exact h.requested
  · rw [heffect.terminated]
    exact h.terminated
  · rw [heffect.worker]
    rfl
  · simp only [State.left, hw, heffect.worker, heffect.owner, ha, if_true, Option.map_some,
      Option.getD_some]
    omega

theorem Stopping.workerStep (h : Stopping s) {w : WorkerAt} (hw : s.worker = some w)
    (hstep : workerStep? publishes s w = some (e, s')) : Paid .worker s e s' := by
  obtain ⟨w', heffect⟩ := workerEffect_step hstep
  have hw' := heffect.worker
  refine h.worker hw heffect ?_ ?_ rfl
  · cases w with
    | testing | woken noTimeout =>
      simp only [workerStep?, h.requested, if_true] at hstep
      cases hstep
      cases hw'
      simp [WorkerAt.left]
    | deciding noTimeout | sleeping until' =>
      simp only [workerStep?] at hstep
      split at hstep <;> cases hstep
      all_goals
        cases hw'
        simp [WorkerAt.left]
    | publishing outcome =>
      cases hstep
      cases hw'
      cases outcome <;> simp [WorkerAt.left, afterPublishing]
    | waiting _ _ | saving | finished => cases hstep
    | starting | locking | counting outcome | saved =>
      cases hstep
      cases hw'
      simp [WorkerAt.left]
  · cases w with
    | testing | woken noTimeout =>
      simp only [workerStep?, h.requested, if_true] at hstep
      cases hstep
      simp [State.begins, State.atWorker, Event.isBegin]
    | deciding noTimeout | sleeping until' =>
      simp only [workerStep?] at hstep
      split at hstep <;> cases hstep
      all_goals simp [State.begins, State.atWorker, Event.isBegin, hw]
    | publishing outcome =>
      cases hstep
      cases outcome <;> cases publishes <;>
        simp [State.begins, State.atWorker, Event.isBegin, afterPublishing]
    | waiting _ _ | saving | finished => cases hstep
    | starting | locking | counting outcome | saved =>
      cases hstep
      simp [State.begins, State.atWorker, Event.isBegin]

theorem Stopping.wake (h : Stopping s) {cause : Wake} (hstep : wakeStep? cause s = some (e, s')) :
    Paid (.wake cause) s e s' := by
  have hstep' := hstep
  unfold wakeStep? at hstep
  split at hstep
  · rename_i deadline b hw
    obtain ⟨w', heffect⟩ := workerEffect_wake hw hstep'
    have hw' := heffect.worker
    have hwoken : ∃ c, e = some (.wakes c) ∧ ∃ b, s' = s.atWorker (.woken b) := by
      cases cause with
      | spurious =>
        cases hstep
        exact ⟨_, rfl, _, rfl⟩
      | notified | timeout =>
        simp only at hstep
        split at hstep <;> cases hstep
        exact ⟨_, rfl, _, rfl⟩
    obtain ⟨c, rfl, b, rfl⟩ := hwoken
    cases hw'
    refine h.worker hw heffect (by simp [WorkerAt.left]) ?_ rfl
    simp [State.begins, State.atWorker, Event.isBegin]
  · cases hstep

theorem Stopping.ownerStep (h : Stopping s) (hstep : ownerStep? s = some (e, s'))
    (he : e ≠ some .stopReturns) : Paid .owner s e s' := by
  have hinside := h.inside
  have hjoins := h.joins
  unfold ownerStep? at hstep
  cases hat : s.owner with
  | outside | clearing | raising | launching | requesting =>
    rw [hat] at hinside
    cases hinside
  | notifying =>
    simp only [hat] at hstep
    cases hstep
    have hjoining : Stopping (s.atOwner .joining) :=
      ⟨Nat.two_pos, h.requested, h.terminated, fun _ => hjoins (.inl hat)⟩
    obtain ⟨hleft, hbegins⟩ := left_notifyAll (s.atOwner .joining)
    refine ⟨hjoining.notified, ?_, ?_⟩
    · rw [hleft]
      simp only [State.left, State.atOwner, hat, OwnerAt.left, Action.ofTwo, if_true]
      omega
    · rw [hbegins]
      simp [State.begins, State.atOwner, Event.isBegin]
  | joining =>
    simp only [hat] at hstep
    split at hstep
    · rename_i hnone
      have hsome := hjoins (.inr hat)
      rw [hnone] at hsome
      cases hsome
    · rename_i hfin
      cases hstep
      refine ⟨⟨Nat.one_pos, h.requested, h.terminated, by simp [State.atOwner]⟩, ?_, ?_⟩
      · simp [State.left, State.atOwner, OwnerAt.left, Action.ofTwo, hat, hfin, WorkerAt.left]
      · simp [State.begins]
    · cases hstep
  | lowering =>
    simp only [hat] at hstep
    cases hstep
    exact absurd rfl he

theorem Stopping.pays (h : Stopping s) (hstep : step? publishes a s = some (e, s'))
    (he : e ≠ some .stopReturns) : Paid a s e s' := by
  obtain ⟨-, ⟨elapsed, rfl, rfl, rfl⟩ | ⟨rfl, rfl, rfl⟩ | ⟨interval, rfl, rfl, rfl, -⟩ |
    ⟨-, hout, -⟩ | ⟨rfl, howner⟩ | ⟨w, hw, ⟨cause, rfl, hwake⟩ | ⟨outcome, rfl, rfl, rfl, rfl⟩ |
    ⟨rfl, hworker⟩⟩⟩ := step?_cases hstep
  · exact ⟨⟨h.inside, h.requested, h.terminated, h.joins⟩, Nat.le_of_eq (Nat.zero_add _),
      Nat.le_of_eq (Nat.zero_add _)⟩
  · obtain ⟨hleft, hbegins⟩ := left_notifyAll s
    refine ⟨h.notified, ?_, ?_⟩
    · rw [hleft]
      exact Nat.le_of_eq (Nat.zero_add _)
    · rw [hbegins]
      exact Nat.le_of_eq (Nat.zero_add _)
  · exact ⟨⟨h.inside, h.requested, h.terminated, h.joins⟩, Nat.le_of_eq (Nat.zero_add _),
      Nat.le_of_eq (Nat.zero_add _)⟩
  · have hinside := h.inside
    rw [hout] at hinside
    cases hinside
  · exact h.ownerStep howner he
  · exact h.wake hwake
  · refine h.worker hw (workerEffect_saveReturns s outcome) (by simp [WorkerAt.left]) ?_ rfl
    simp [State.begins, State.atWorker, Event.isBegin]
  · exact h.workerStep hw hworker

/-- One of the two can take a step, at least when its time has come. -/
theorem Stopping.exists_step (publishes : Bool) (h : Stopping s) :
    ∃ (elapsed : ℕ) (a : Action), a.ofTwo = true ∧ a ≠ .wake .spurious ∧
      (step? publishes a { s with now := s.now + elapsed }).isSome = true := by
  have hterminated : ¬ s.terminated = true := by simp [h.terminated]
  have hinside := h.inside
  cases hat : s.owner with
  | outside | clearing | raising | launching | requesting =>
    rw [hat] at hinside
    cases hinside
  | notifying | lowering =>
    refine ⟨0, .owner, rfl, by simp, ?_⟩
    rw [step?, if_neg hterminated]
    simp [ownerStep?]
  | joining =>
    obtain ⟨w, hw⟩ := Option.isSome_iff_exists.mp (h.joins (.inr hat))
    cases w with
    | finished =>
      refine ⟨0, .owner, rfl, by simp, ?_⟩
      rw [step?, if_neg hterminated]
      simp [ownerStep?, hw]
    | waiting deadline b =>
      refine ⟨(deadline - s.now).toNat, .wake .timeout, rfl, by simp, ?_⟩
      rw [step?, if_neg hterminated]
      have hdue : deadline ≤ s.now + (deadline - s.now).toNat := by omega
      simp only [wakeStep?, hw, if_pos hdue, Option.isSome_some]
    | saving =>
      refine ⟨0, .saveReturns .success, rfl, by simp, ?_⟩
      rw [step?, if_neg hterminated]
      simp [hw]
    | sleeping until' =>
      refine ⟨(until' - s.now).toNat, .worker, rfl, by simp, ?_⟩
      rw [step?, if_neg hterminated]
      have hdue : until' ≤ s.now + (until' - s.now).toNat := by omega
      simp only [hw, Option.bind_some, workerStep?, if_pos hdue, Option.isSome_some]
    | starting | testing | locking | woken b | deciding b | counting outcome | publishing outcome
    | saved =>
      refine ⟨0, .worker, rfl, by simp, ?_⟩
      rw [step?, if_neg hterminated]
      simp only [hw, Option.bind_some, workerStep?]
      try split
      all_goals rfl

end Stopping

/-- **Stopping is bounded.**  From any state of any interleaving in which `stop` has made its request:
until it returns, its thread and the worker take at most ten steps and at most one save begins, whatever
the other threads do; and as long as it has not returned one of the two can go on, if need be after some
time and without a spurious wake-up, so the notification may be lost but the wait ends by itself. -/
theorem stop_is_bounded {publishes : Bool} {as as' : List Action} {trace trace' : List Event}
    {s s' : State} (hrun : Machine.run? (step? publishes) as {} = some (trace, s))
    (hinside : 0 < s.owner.left)
    (hmore : Machine.run? (step? publishes) as' s = some (trace', s'))
    (hpending : .stopReturns ∉ trace') :
    as'.countP Action.ofTwo ≤ 10 ∧ trace'.countP Event.isBegin ≤ 1 ∧
      ∃ (elapsed : ℕ) (a : Action), a.ofTwo = true ∧ a ≠ .wake .spurious ∧
        (step? publishes a { s' with now := s'.now + elapsed }).isSome = true := by
  have hstopping := stopping_of_lifecycle (Machine.run_inv_nil lifecycle_step lifecycle_init hrun)
    hinside
  have hne : ∀ x ∈ trace', x ≠ .stopReturns := fun x hx heq => hpending (heq ▸ hx)
  have hpays : ∀ {a s e s'}, Stopping s → step? publishes a s = some (e, s') →
      (∀ x ∈ e.toList, x ≠ .stopReturns) → Paid a s e s' := fun hs hstep he =>
    hs.pays hstep fun heq => he _ (mem_toList_iff.mpr heq) rfl
  obtain ⟨hstopping', hsteps⟩ := Machine.count_le (p := Action.ofTwo) (q := fun _ => false)
    (fun hs hstep he => ⟨(hpays hs hstep he).stopping, by simpa using (hpays hs hstep he).steps⟩)
    hstopping hmore hne
  obtain ⟨-, hbegins⟩ := Machine.count_le (p := fun _ => false) (q := Event.isBegin)
    (fun hs hstep he => ⟨(hpays hs hstep he).stopping, by simpa using (hpays hs hstep he).begins⟩)
    hstopping hmore hne
  refine ⟨?_, ?_, hstopping'.exists_step publishes⟩
  · have hle : s.left ≤ 10 := left_le s
    omega
  · have hle : s.begins ≤ 1 := begins_le s
    omega

/-- The rest of the sample, from the request of its stop to the join. -/
theorem sample_stop_is_bounded :
    ((sampleRun.drop 16).take 6).countP Action.ofTwo = 5 ∧ 5 ≤ 10 := by
  have hcount : ((sampleRun.drop 16).take 6).countP Action.ofTwo = 5 := by decide
  have hrun : ∃ trace s, Machine.run? (step? true) (sampleRun.take 16) {} = some (trace, s) ∧
      0 < s.owner.left ∧ ∃ trace' s', Machine.run? (step? true) ((sampleRun.drop 16).take 6) s =
        some (trace', s') ∧ .stopReturns ∉ trace' :=
    ⟨_, _, rfl, by decide +kernel, _, _, rfl, by decide +kernel⟩
  obtain ⟨trace, s, hrun, hinside, trace', s', hmore, hpending⟩ := hrun
  exact ⟨hcount, hcount ▸ (stop_is_bounded hrun hinside hmore hpending).1⟩

end SaveDaemon

end MinimalRedis
