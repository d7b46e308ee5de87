import MinimalRedis.DaemonCounters

/-!
# The save daemon: pacing

* `Paced` — what is said of a save's beginning, of a notified wait and of a save's end;
* `Pace` — the state against the trace: when `last_save_time` was set, why the last wait ended;
* `saves_are_paced` — a save begins when the interval has passed since the last one, or when its wait
  was ended by a notification **issued during that wait**, or spuriously.

The interval is the one the code compares with, `nanos`: with 9223372037 seconds or more it may be
negative, and saves then begin back to back.
-/

namespace MinimalRedis

namespace SaveDaemon

open Lib

/-- The event sets `last_save_time`. -/
def Event.Marks (t : ℤ) (e : Event) : Prop := e = .loopEntered t ∨ e = .saveEnds t

/-- `last_save_time` was set to `t` and not again since. -/
def Marked (trace : List Event) (t : ℤ) : Prop :=
  Since (Event.Marks t) (fun e => ∃ t', e.Marks t') trace

/-- The last wait was ended by a notification or spuriously. -/
def Roused (trace : List Event) : Prop :=
  Since (fun e => e = .wakes .notified ∨ e = .wakes .spurious) (· = .waits) trace

/-- A notification has come since the worker went to wait. -/
def Called (trace : List Event) : Prop := Since (· = .notified) (· = .waits) trace

/-- The last outcome is a failure, returned at time `t`. -/
def FailedAt (trace : List Event) (t : ℤ) : Prop :=
  Since (· = .saveReturned t .failure) (fun e => ∃ t' outcome, e = .saveReturned t' outcome) trace

/-- What is said of the events that keep the pace. -/
def Paced (before : List Event) : Event → Prop
  | .saveBegins at' interval =>
      (∃ t, Marked before t ∧ t + nanos interval ≤ at') ∨ Roused before
  | .wakes .notified => Called before
  | .saveEnds at' => ∀ t, FailedAt before t → t + 5 * second ≤ at'
  | _ => True

/-- Where the worker stands when the last outcome was a failure at time `t`. -/
def WorkerAt.Delayed (t now : ℤ) : WorkerAt → Prop
  | .counting .failure | .publishing .failure => t ≤ now
  | .counting _ | .publishing _ => False
  | .sleeping until' => t + 5 * second ≤ until'
  | .saved => t + 5 * second ≤ now
  | _ => True

structure Pace (trace : List Event) (s : State) : Prop where
  paced : Always Paced trace
  marked : ∀ w, s.worker = some w → w ≠ .starting → Marked trace s.lastSaveTime
  roused : s.worker = some (.woken true) ∨ s.worker = some (.deciding true) → Roused trace
  called : ∀ deadline, s.worker = some (.waiting deadline true) → Called trace
  delayed : ∀ w t, s.worker = some w → FailedAt trace t → w.Delayed t s.now

theorem pace_init : Pace [] {} where
  paced := always_nil _
  marked := nofun
  roused := by simp
  called := nofun
  delayed := nofun

section Pace

variable {publishes : Bool} {past : List Event} {a : Action} {s s' : State} {e : Option Event}

/-- Time may pass. -/
theorem WorkerAt.Delayed.mono {w : WorkerAt} {t now now' : ℤ} (h : w.Delayed t now)
    (hle : now ≤ now') : w.Delayed t now' := by
  cases w with
  | counting outcome | publishing outcome =>
    cases outcome
    all_goals
      simp only [WorkerAt.Delayed] at h ⊢
      try omega
  | saved =>
    simp only [WorkerAt.Delayed] at h ⊢
    omega
  | _ => exact h

theorem always_toList {P : List Event → Event → Prop} (h : Always P past)
    (he : ∀ x, e = some x → P past x) : Always P (past ++ e.toList) := by
  cases e with
  | none => rwa [Option.toList_none, List.append_nil]
  | some x => exact always_append_singleton.mpr ⟨h, he x rfl⟩

theorem Pace.of_bystander (h : Pace past s) (hstep : Bystander s e s') :
    Pace (past ++ e.toList) s' := by
  have hof : ∀ x ∈ e.toList, x.ofWorker = false := fun x hx => hstep.ofWorker x (mem_toList_iff.mp hx)
  have hpaced : ∀ x, e = some x → Paced past x := fun x hx => by
    have hx := hstep.ofWorker x hx
    cases x <;> trivial
  have hmarks : ∀ x ∈ e.toList, ¬ ∃ t, x.Marks t := fun x hx ⟨t, ht⟩ => by
    have hx := hof x hx
    rcases ht with rfl | rfl <;> cases hx
  have hwaits : ∀ x ∈ e.toList, ¬ x = .waits := fun x hx heq => by
    have hx := hof x hx
    rw [heq] at hx
    cases hx
  have hfailed : ∀ t, FailedAt (past ++ e.toList) t → FailedAt past t := fun t ht =>
    ht.of_append fun x hx heq => by
      have hx := hof x hx
      rw [heq] at hx
      cases hx
  refine ⟨always_toList h.paced hpaced, fun w hw hne => ?_, fun hw => ?_, fun deadline hw => ?_,
    fun w t hw ht => ?_⟩
  · rw [hstep.lastSaveTime]
    refine Since.append ?_ hmarks
    rcases hstep.worker with heq | ⟨hs, heq⟩ | ⟨hs, heq⟩ | ⟨deadline, b, hs, -, heq⟩
    · exact h.marked w (heq ▸ hw) hne
    · cases heq.symm.trans hw
      exact absurd rfl hne
    · cases heq.symm.trans hw
    · exact h.marked _ hs nofun
  · refine Since.append ?_ hwaits
    rcases hstep.worker with heq | ⟨hs, heq⟩ | ⟨hs, heq⟩ | ⟨deadline, b, hs, -, heq⟩
    · exact h.roused (by rwa [heq] at hw)
    all_goals
      rw [heq] at hw
      rcases hw with hw | hw <;> cases hw
  · rcases hstep.worker with heq | ⟨hs, heq⟩ | ⟨hs, heq⟩ | ⟨deadline', b, hs, rfl, heq⟩
    · exact Since.append (h.called deadline (heq ▸ hw)) hwaits
    · cases heq.symm.trans hw
    · cases heq.symm.trans hw
    · exact (since_append_singleton _ _).mpr (.inl rfl)
  · rcases hstep.worker with heq | ⟨hs, heq⟩ | ⟨hs, heq⟩ | ⟨deadline', b, hs, -, heq⟩
    · exact (h.delayed w t (heq ▸ hw) (hfailed t ht)).mono hstep.now
    · cases heq.symm.trans hw
      trivial
    · cases heq.symm.trans hw
    · cases heq.symm.trans hw
      trivial

/-- A step of the worker to `w'`. -/
theorem Pace.to (h : Pace past s) {w' : WorkerAt} (hw' : s'.worker = some w')
    (hpaced : ∀ x, e = some x → Paced past x)
    (hmarked : w' ≠ .starting → Marked (past ++ e.toList) s'.lastSaveTime)
    (hroused : w' = .woken true ∨ w' = .deciding true → Roused (past ++ e.toList))
    (hcalled : ∀ deadline, w' = .waiting deadline true → Called (past ++ e.toList))
    (hdelayed : ∀ t, FailedAt (past ++ e.toList) t → w'.Delayed t s'.now) :
    Pace (past ++ e.toList) s' where
  paced := always_toList h.paced hpaced
  marked w hw hne := hmarked (Option.some.inj (hw'.symm.trans hw) ▸ hne)
  roused hw := by
    rw [hw'] at hw
    exact hroused (hw.imp Option.some.inj Option.some.inj)
  called deadline hw := hcalled deadline (Option.some.inj (hw'.symm.trans hw))
  delayed w t hw ht := Option.some.inj (hw'.symm.trans hw) ▸ hdelayed t ht

/-- Nothing is marked by a step that emits no mark. -/
theorem Pace.marked_append (h : Pace past s) {w : WorkerAt} (hw : s.worker = some w)
    (hne : w ≠ .starting) (he : ∀ x, e = some x → ∀ t, ¬ x.Marks t) :
    Marked (past ++ e.toList) s.lastSaveTime :=
  Since.append (h.marked w hw hne) fun x hx ⟨t, ht⟩ => he x (mem_toList_iff.mp hx) t ht

theorem Pace.marked_quiet (h : Pace past s) {w : WorkerAt} (hw : s.worker = some w)
    (hne : w ≠ .starting) : Marked (past ++ (none : Option Event).toList) s.lastSaveTime :=
  h.marked_append hw hne (by simp)

theorem failedAt_of_append {t : ℤ} (h : FailedAt (past ++ e.toList) t)
    (he : ∀ x, e = some x → ∀ t' outcome, x ≠ .saveReturned t' outcome) : FailedAt past t :=
  Since.of_append h fun x hx => he x (mem_toList_iff.mp hx) t _

theorem Pace.workerStep (h : Pace past s) {w : WorkerAt} (hw : s.worker = some w)
    (hstep : workerStep? publishes s w = some (e, s')) : Pace (past ++ e.toList) s' := by
  cases w with
  | waiting _ _ | saving | finished => cases hstep
  | starting =>
    cases hstep
    refine h.to rfl (fun x hx => by cases hx; trivial) (fun _ => ?_) (by simp) (by simp)
      fun _ _ => trivial
    exact (since_append_singleton _ _).mpr (.inl (.inl rfl))
  | testing =>
    simp only [workerStep?] at hstep
    split at hstep <;> cases hstep
    all_goals
      refine h.to rfl ?_ (fun _ => h.marked_append hw (by simp) ?_) (by simp) (by simp)
        fun _ _ => trivial
      all_goals simp [Paced, Event.Marks]
  | locking =>
    cases hstep
    refine h.to rfl ?_ (fun _ => h.marked_append hw (by simp) ?_) (by simp) (by simp) fun _ _ => trivial
    all_goals simp [Paced, Event.Marks]
  | woken noTimeout =>
    simp only [workerStep?] at hstep
    split at hstep <;> cases hstep
    · refine h.to rfl ?_ (fun _ => h.marked_append hw (by simp) ?_) (by simp) (by simp)
        fun _ _ => trivial
      all_goals simp [Paced, Event.Marks]
    · refine h.to rfl (by simp) (fun _ => h.marked_quiet hw (by simp)) (fun hdeciding => ?_) (by simp)
        fun _ _ => trivial
      rw [Option.toList_none, List.append_nil]
      refine h.roused (.inl ?_)
      rcases hdeciding with hdeciding | hdeciding <;> cases hdeciding
      exact hw
  | deciding noTimeout =>
    simp only [workerStep?] at hstep
    split at hstep
    · rename_i hdue
      cases hstep
      refine h.to rfl (fun x hx => ?_) (fun _ => h.marked_append hw (by simp) ?_) (by simp) (by simp)
        fun _ _ => trivial
      · cases hx
        rcases hdue with hdue | rfl
        · exact .inl ⟨s.lastSaveTime, h.marked _ hw (by simp), by omega⟩
        · exact .inr (h.roused (.inr hw))
      · simp [Event.Marks]
    · cases hstep
      exact h.to rfl (by simp) (fun _ => h.marked_quiet hw (by simp)) (by simp) (by simp)
        fun _ _ => trivial
  | counting outcome =>
    have hdelayed := fun t => h.delayed _ t hw
    have hlast : (s.count outcome).lastSaveTime = s.lastSaveTime := by cases outcome <;> rfl
    have hnow : (s.count outcome).now = s.now := by cases outcome <;> rfl
    cases hstep
    refine h.to rfl (by simp) (fun _ => ?_) (by simp) (by simp) fun t ht => ?_
    · show Marked _ (s.count outcome).lastSaveTime
      rw [hlast]
      exact h.marked_quiet hw (by simp)
    · have hd := hdelayed t (failedAt_of_append ht (by simp))
      show WorkerAt.Delayed t (s.count outcome).now _
      rw [hnow]
      cases outcome <;> exact hd
  | publishing outcome =>
    have hdelayed := fun t => h.delayed _ t hw
    cases hstep
    refine h.to rfl ?_ (fun _ => h.marked_append hw (by simp) ?_) ?_ ?_ fun t ht => ?_
    · intro x hx
      split at hx <;> cases hx
      trivial
    · intro x hx t ht
      split at hx <;> cases hx
      rcases ht with ht | ht <;> cases ht
    · cases outcome <;> simp [afterPublishing]
    · cases outcome <;> simp [afterPublishing]
    · have hd := hdelayed t (failedAt_of_append ht fun x hx => by split at hx <;> cases hx; simp)
      show WorkerAt.Delayed t s.now _
      cases outcome with
      | failure =>
        simp only [WorkerAt.Delayed, afterPublishing] at hd ⊢
        omega
      | success | exception what => exact hd.elim
  | sleeping until' =>
    have hdelayed := fun t => h.delayed _ t hw
    simp only [workerStep?] at hstep
    split at hstep
    · rename_i hover
      cases hstep
      refine h.to rfl (by simp) (fun _ => h.marked_quiet hw (by simp)) (by simp) (by simp) fun t ht => ?_
      have hd := hdelayed t (failedAt_of_append ht (by simp))
      show t + 5 * second ≤ s.now
      exact le_trans hd hover
    · cases hstep
  | saved =>
    have hdelayed := fun t => h.delayed _ t hw
    cases hstep
    refine h.to rfl (fun x hx => ?_) (fun _ => ?_) (by simp) (by simp) fun _ _ => trivial
    · cases hx
      exact fun t ht => hdelayed t ht
    · exact (since_append_singleton _ _).mpr (.inl (.inr rfl))

theorem Pace.wake (h : Pace past s) {cause : Wake} (hstep : wakeStep? cause s = some (e, s')) :
    Pace (past ++ e.toList) s' := by
  unfold wakeStep? at hstep
  split at hstep
  · rename_i deadline b hw
    cases cause with
    | spurious =>
      cases hstep
      refine h.to rfl (fun x hx => by cases hx; trivial) (fun _ => h.marked_append hw (by simp) ?_)
        (fun _ => ?_) (by simp) fun _ _ => trivial
      · simp [Event.Marks]
      · exact (since_append_singleton _ _).mpr (.inl (.inr rfl))
    | notified =>
      simp only at hstep
      split at hstep
      · rename_i hb
        cases hstep
        refine h.to rfl (fun x hx => ?_) (fun _ => h.marked_append hw (by simp) ?_) (fun _ => ?_) (by simp)
          fun _ _ => trivial
        · cases hx
          exact h.called deadline (by rw [hw, hb])
        · simp [Event.Marks]
        · exact (since_append_singleton _ _).mpr (.inl (.inl rfl))
      · cases hstep
    | timeout =>
      simp only at hstep
      split at hstep
      · cases hstep
        refine h.to rfl (fun x hx => by cases hx; trivial) (fun _ => h.marked_append hw (by simp) ?_)
          (by simp) (by simp) fun _ _ => trivial
        simp [Event.Marks]
      · cases hstep
  · cases hstep

theorem pace_step (h : Pace past s) (hstep : step? publishes a s = some (e, s')) :
    Pace (past ++ e.toList) s' := by
  rcases bystander_or_worker hstep with hby | ⟨w, hw, ⟨cause, -, hwake⟩ | ⟨outcome, -, rfl, rfl, rfl⟩ |
    ⟨-, hworker⟩⟩
  · exact h.of_bystander hby
  · exact h.wake hwake
  · refine h.to rfl (fun x hx => by cases hx; trivial) (fun _ => h.marked_append hw (by simp) ?_) (by simp)
      (by simp) fun t ht => ?_
    · simp [Event.Marks]
    · rcases (since_append_singleton _ _).mp ht with hreturned | ⟨-, hlast⟩
      · cases hreturned
        exact le_refl _
      · exact absurd ⟨_, _, rfl⟩ hlast
  · exact h.workerStep hw hworker

end Pace

/-- **Saves are paced.**  Over every interleaving: a save begins when the interval in force, as 64-bit
nanoseconds, has passed since the last one ended (or the loop was entered), or when its wait was ended
early; a wait ended by a notification was ended by one that came **during that wait**, so a
`trigger_save` at any other time is lost; and a save that returned a failure ends no sooner than five
seconds later. -/
theorem saves_are_paced {publishes : Bool} {as : List Action} {trace : List Event} {s : State}
    (hrun : Machine.run? (step? publishes) as {} = some (trace, s)) :
    (∀ before at' interval after, trace = before ++ .saveBegins at' interval :: after →
      (∃ t, Marked before t ∧ t + nanos interval ≤ at') ∨ Roused before) ∧
    (∀ before after, trace = before ++ .wakes .notified :: after → Called before) ∧
    ∀ before at' after, trace = before ++ .saveEnds at' :: after →
      ∀ t, FailedAt before t → t + 5 * second ≤ at' := by
  have h := (Machine.run_inv_nil pace_step pace_init hrun).paced
  refine ⟨fun before at' interval after htrace => ?_, fun before after htrace => ?_,
    fun before at' after htrace => ?_⟩
  · exact h before _ after htrace
  · exact h before _ after htrace
  · exact h before _ after htrace

/-- The notification came while the worker waited. -/
theorem sample_is_paced : Called (sampleTrace.take 4) :=
  (saves_are_paced run_sample).2.1 (sampleTrace.take 4) (sampleTrace.drop 5) (by decide +kernel)

end SaveDaemon

end MinimalRedis
