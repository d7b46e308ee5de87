import MinimalRedis.SaveDaemon

/-!
# The save daemon: one worker at a time

* `Lifecycle` — what the owner relies on where it stands, and which events may come while a worker is
  alive;
* `lifecycle_step` — every step keeps it;
* `stopped_daemon_is_quiet` — no thread is replaced while it runs, and behind a `stop` that has returned
  the daemon does nothing until the next `start`.
-/

namespace MinimalRedis

namespace SaveDaemon

open Lib

/-- A worker has been started and has not ended since. -/
def Alive (trace : List Event) : Prop := Since (· = .workerStarts) (· = .workerEnds) trace

/-- What the owner relies on where it stands. -/
def OwnerAt.Relies (s : State) : OwnerAt → Prop
  | .outside => s.running = s.worker.isSome ∧ (s.running = true → s.stopRequested = false)
  | .clearing => s.running = false ∧ s.worker = none
  | .raising => s.stopRequested = false ∧ s.worker = none
  | .launching => s.running = true ∧ s.stopRequested = false ∧ s.worker = none
  | .requesting => s.running = true ∧ s.worker.isSome = true
  | .notifying | .joining => s.running = true ∧ s.stopRequested = true ∧ s.worker.isSome = true
  | .lowering => s.running = true ∧ s.stopRequested = true ∧ s.worker = none

/-- The worker's events come while it is alive; a start, and the return of a stop, while none is. -/
def Orderly (before : List Event) (e : Event) : Prop :=
  (e.ofWorker = true → Alive before) ∧ (e = .workerStarts ∨ e = .stopReturns → ¬ Alive before)

structure Lifecycle (trace : List Event) (s : State) : Prop where
  alive : Alive trace ↔ ∃ w, s.worker = some w ∧ w ≠ .finished
  asked : s.worker = some .finished → s.stopRequested = true
  owner : s.owner.Relies s
  terminated : s.terminated = false
  orderly : Always Orderly trace

theorem lifecycle_init : Lifecycle [] {} where
  alive := iff_of_false (not_since_nil _ _) (by rintro ⟨w, hw, -⟩; cases hw)
  asked := nofun
  owner := ⟨rfl, nofun⟩
  terminated := rfl
  orderly := always_nil _

section Lifecycle

variable {publishes : Bool} {past : List Event} {a : Action} {s s' : State} {e : Option Event}

theorem alive_append_of_ne {x : Event} (hstarts : x ≠ .workerStarts) (hends : x ≠ .workerEnds) :
    Alive (past ++ [x]) ↔ Alive past := by
  rw [Alive, since_append_singleton]
  simp only [hstarts, hends, false_or, not_false_eq_true, and_true]
  rfl

theorem Lifecycle.not_alive (h : Lifecycle past s) (hw : s.worker = none) : ¬ Alive past := by
  rw [h.alive, hw]
  rintro ⟨w, hw, -⟩
  cases hw

/-- A step that emits nothing and leaves the position of the worker. -/
theorem Lifecycle.silent (h : Lifecycle past s) (hworker : s'.worker = s.worker)
    (hasked : s'.worker = some .finished → s'.stopRequested = true) (howner : s'.owner.Relies s')
    (hterminated : s'.terminated = false) : Lifecycle past s' where
  alive := by rw [h.alive, hworker]
  asked := hasked
  owner := howner
  terminated := hterminated
  orderly := h.orderly

/-- A notification changes nothing that is of interest here. -/
theorem Lifecycle.notified (h : Lifecycle past s) : Lifecycle (past ++ [.notified]) s.notifyAll := by
  obtain ⟨w, heq, hw⟩ := notifyAll_eq s
  have hsome : w.isSome = s.worker.isSome := by
    rcases hw with rfl | ⟨deadline, b, hs, rfl⟩
    · rfl
    · rw [hs]
      rfl
  rw [heq]
  refine ⟨?_, fun hfin => h.asked ?_, ?_, h.terminated, ?_⟩
  · rw [alive_append_of_ne (x := .notified) nofun nofun, h.alive]
    rcases hw with rfl | ⟨deadline, b, hs, rfl⟩
    · rfl
    · exact iff_of_true ⟨_, hs, nofun⟩ ⟨_, rfl, nofun⟩
  · rcases hw with rfl | ⟨deadline, b, hs, rfl⟩
    · exact hfin
    · cases hfin
  · have howner := h.owner
    have hnone : s.worker = none → w = none := fun hs => by
      rw [← Option.isNone_iff_eq_none, ← Option.not_isSome, hsome, hs]
      rfl
    show s.owner.Relies _
    cases hs : s.owner with
    | outside | requesting | notifying | joining => simpa [hs, OwnerAt.Relies, hsome] using howner
    | clearing | raising | launching | lowering =>
      rw [hs] at howner
      simp only [OwnerAt.Relies] at howner ⊢
      tauto
  · exact always_append_singleton.mpr ⟨h.orderly, ⟨nofun, fun he => by rcases he with he | he <;> cases he⟩⟩

theorem Lifecycle.ownerStep (h : Lifecycle past s) (hstep : ownerStep? s = some (e, s')) :
    Lifecycle (past ++ e.toList) s' := by
  have howner := h.owner
  unfold ownerStep? at hstep
  split at hstep
  · cases hstep
  · rename_i hat
    cases hstep
    rw [hat] at howner
    rw [Option.toList_none, List.append_nil]
    exact h.silent rfl (fun hfin => by cases howner.2.symm.trans hfin) ⟨rfl, howner.2⟩ h.terminated
  · rename_i hat
    cases hstep
    rw [hat] at howner
    rw [Option.toList_none, List.append_nil]
    exact h.silent rfl h.asked ⟨rfl, howner⟩ h.terminated
  · rename_i hat
    rw [hat] at howner
    obtain ⟨hrunning, hstop, hnone⟩ := howner
    split at hstep
    · cases hstep
      -- the flag was cleared for this worker
      refine ⟨?_, nofun, ⟨hrunning, fun _ => hstop⟩, h.terminated, ?_⟩
      · exact iff_of_true ((since_append_singleton _ _).mpr (.inl rfl)) ⟨_, rfl, nofun⟩
      · exact always_append_singleton.mpr ⟨h.orderly, nofun, fun _ => h.not_alive hnone⟩
    · rename_i w hw
      cases hnone.symm.trans hw
  · rename_i hat
    cases hstep
    rw [hat] at howner
    rw [Option.toList_none, List.append_nil]
    exact h.silent rfl (fun _ => rfl) ⟨howner.1, rfl, howner.2⟩ h.terminated
  · rename_i hat
    cases hstep
    rw [hat] at howner
    have hjoining : Lifecycle past (s.atOwner .joining) := h.silent rfl h.asked howner h.terminated
    exact hjoining.notified
  · rename_i hat
    rw [hat] at howner
    obtain ⟨hrunning, hstop, hsome⟩ := howner
    split at hstep
    · rename_i hnone
      cases hstep
      rw [Option.toList_none, List.append_nil]
      exact h.silent rfl h.asked ⟨hrunning, hstop, hnone⟩ h.terminated
    · rename_i hfin
      cases hstep
      rw [Option.toList_none, List.append_nil]
      refine ⟨?_, nofun, ⟨hrunning, hstop, rfl⟩, h.terminated, h.orderly⟩
      rw [h.alive, hfin]
      simp
    · cases hstep
  · rename_i hat
    cases hstep
    rw [hat] at howner
    refine ⟨?_, fun hfin => ?_, ⟨?_, nofun⟩, h.terminated, ?_⟩
    · exact (alive_append_of_ne (x := .stopReturns) nofun nofun).trans h.alive
    · cases howner.2.2.symm.trans hfin
    · exact congrArg Option.isSome howner.2.2.symm
    · exact always_append_singleton.mpr ⟨h.orderly, nofun, fun _ => h.not_alive howner.2.2⟩

/-- The owner's flags and thread are as before, and the worker takes one step. -/
theorem Lifecycle.workerStep (h : Lifecycle past s) {w w' : WorkerAt} (hw : s.worker = some w)
    (heffect : WorkerEffect s w e s' w') : Lifecycle (past ++ e.toList) s' := by
  have hbefore : Alive past := h.alive.mpr ⟨w, hw, heffect.active⟩
  refine ⟨?_, fun hfin => ?_, ?_, heffect.terminated.trans h.terminated, ?_⟩
  · rw [heffect.worker]
    rcases heffect.ends with ⟨rfl, -, rfl⟩ | ⟨hne, hends⟩
    · refine iff_of_false (fun hafter => ?_) (by simp)
      rcases (since_append_singleton _ _).mp hafter with hstarts | ⟨-, hends⟩
      · cases hstarts
      · exact hends rfl
    · refine iff_of_true ?_ ⟨w', rfl, hne⟩
      cases e with
      | none => rwa [Option.toList_none, List.append_nil]
      | some x =>
        refine (alive_append_of_ne (fun hx => ?_) fun hx => hends (congrArg some hx)).mpr hbefore
        have hof := heffect.ofWorker x rfl
        rw [hx] at hof
        cases hof
  · rw [heffect.stopRequested]
    rcases heffect.ends with ⟨-, hstop, -⟩ | ⟨hne, -⟩
    · exact hstop
    · exact absurd (Option.some.inj (heffect.worker.symm.trans hfin)) hne
  · have howner := h.owner
    rw [heffect.owner]
    cases hat : s.owner
    all_goals
      rw [hat] at howner
      simp only [OwnerAt.Relies, hw, heffect.worker, heffect.running, heffect.stopRequested,
        Option.isSome_some, reduceCtorEq, and_false] at howner ⊢
    all_goals exact howner
  · cases e with
    | none =>
      rw [Option.toList_none, List.append_nil]
      exact h.orderly
    | some x =>
      refine always_append_singleton.mpr ⟨h.orderly, fun _ => hbefore, fun hx => ?_⟩
      have hof := heffect.ofWorker x rfl
      rcases hx with rfl | rfl <;> cases hof

theorem lifecycle_step (h : Lifecycle past s) (hstep : step? publishes a s = some (e, s')) :
    Lifecycle (past ++ e.toList) s' := by
  obtain ⟨-, ⟨elapsed, -, rfl, rfl⟩ | ⟨-, rfl, rfl⟩ | ⟨interval, -, rfl, rfl, -⟩ | ⟨-, hout, hcall⟩ |
    ⟨-, howner⟩ | ⟨w, hw, hworker⟩⟩ := step?_cases hstep
  · rw [Option.toList_none, List.append_nil]
    exact h.silent rfl h.asked h.owner h.terminated
  · exact h.notified
  · rw [Option.toList_none, List.append_nil]
    exact h.silent rfl h.asked h.owner h.terminated
  · have hrelies := h.owner
    rw [hout] at hrelies
    obtain ⟨hrunning, hstop⟩ := hrelies
    have hnone : s.running = false → s.worker = none := fun hfalse => by
      rwa [hfalse, eq_comm, Option.isSome_eq_false_iff, Option.isNone_iff_eq_none] at hrunning
    rcases hcall with ⟨-, rfl, rfl⟩ | ⟨-, hrun, rfl, rfl⟩ | ⟨-, hrun, rfl, rfl⟩
    · rw [Option.toList_none, List.append_nil]
      split
      · exact h
      · rename_i hrun
        have hfalse : s.running = false := by simpa using hrun
        exact h.silent rfl h.asked ⟨hfalse, hnone hfalse⟩ h.terminated
    · rw [Option.toList_none, List.append_nil]
      exact h.silent rfl h.asked ⟨hrun, by rw [← hrun]; exact hrunning.symm⟩ h.terminated
    · refine ⟨?_, h.asked, h.owner, h.terminated, ?_⟩
      · exact (alive_append_of_ne (x := .stopReturns) nofun nofun).trans h.alive
      · exact always_append_singleton.mpr ⟨h.orderly, nofun, fun _ => h.not_alive (hnone hrun)⟩
  · exact h.ownerStep howner
  · obtain ⟨w', heffect⟩ := workerEffect hw hworker
    exact h.workerStep hw heffect

end Lifecycle

/-- **One worker, and none behind a stop.**  Over every interleaving: a thread is never assigned while
another one is joinable (`std::terminate`), a worker starts only when the last one has ended, and behind a
`stop` that has returned nothing of the worker's doing happens until the next one starts. -/
theorem stopped_daemon_is_quiet {publishes : Bool} {as : List Action} {trace : List Event} {s : State}
    (hrun : Machine.run? (step? publishes) as {} = some (trace, s)) :
    s.terminated = false ∧
      (∀ x y z, trace = x ++ .workerStarts :: (y ++ .workerStarts :: z) → .workerEnds ∈ y) ∧
      ∀ before after, trace = before ++ .stopReturns :: after → (∀ e ∈ after, e ≠ .workerStarts) →
        ∀ e ∈ after, e.ofWorker = false := by
  have h := Machine.run_inv_nil lifecycle_step lifecycle_init hrun
  refine ⟨h.terminated, fun x y z htrace => ?_, fun before after htrace hnone e he => ?_⟩
  · have hdead := (h.orderly (x ++ .workerStarts :: y) _ z (by rw [htrace]; simp)).2 (.inl rfl)
    by_contra hends
    exact hdead ⟨x, _, y, rfl, rfl, fun e he heq => hends (heq ▸ he)⟩
  · by_contra hof
    obtain ⟨between, rest, hbetween, horderly⟩ := h.orderly.after_mem htrace he
    have halive := horderly.1 (by simpa using hof)
    have hdead := (h.orderly before _ after htrace).2 (.inr rfl)
    refine hdead (Since.of_append halive fun y hy => ?_)
    rcases List.mem_cons.mp hy with rfl | hy
    · exact nofun
    · exact hnone y (by rw [hbetween]; exact List.mem_append_left _ hy)

/-- A start, a triggered save that fails, and a stop while the worker sleeps it off. -/
def sampleRun : List Action :=
  [.start, .owner, .owner, .owner, .worker, .worker, .worker, .triggerSave, .wake .notified, .worker,
    .worker, .saveReturns .failure, .worker, .worker, .stop, .owner, .owner, .tick 5000000000, .worker,
    .worker, .worker, .owner, .owner]

def sampleTrace : List Event :=
  [.workerStarts, .loopEntered 0, .waits, .notified, .wakes .notified, .saveBegins 0 30,
    .saveReturned 0 .failure, .published saveChannel (str "failure:1"), .notified,
    .saveEnds 5000000000, .workerEnds, .stopReturns]

def sampleEnd : State :=
  { stopRequested := true, failedSaves := 1, lastSaveTime := 5000000000, now := 5000000000 }

theorem run_sample : Machine.run? (step? true) sampleRun {} = some (sampleTrace, sampleEnd) := by
  decide +kernel

theorem sample_is_quiet :
    Machine.run? (step? true) sampleRun {} = some (sampleTrace, sampleEnd) ∧
      sampleEnd.terminated = false :=
  ⟨run_sample, (stopped_daemon_is_quiet run_sample).1⟩

end SaveDaemon

end MinimalRedis
