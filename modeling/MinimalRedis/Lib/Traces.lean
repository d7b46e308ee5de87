import Mathlib.Data.List.Induction
import MinimalRedis.Lib.Simulation

/-!
# Machines that emit events

A machine takes an action in a state, if it is the actor's turn, to a new state, and emits at most one
event on the way.  A run is a list of actions; what can be said about it from outside is its trace, the
events in order.

* `Always P` — every event of a trace is related by `P` to the trace before it;
  `always_append_singleton` builds it up event by event, `Always.after_mem` reads it off;
* `Machine.run_inv` — an invariant of trace and state that every step keeps;
* `Machine.count_le` — a budget that every counted action and event is paid from.
-/

namespace Lib

variable {ι σ ε : Type}

/-- Every event of the trace is met by `P` together with what was emitted before it. -/
def Always (P : List ε → ε → Prop) (trace : List ε) : Prop :=
  ∀ before e after, trace = before ++ e :: after → P before e

theorem always_nil (P : List ε → ε → Prop) : Always P [] := by
  intro before e after h
  cases before <;> cases h

theorem always_append_singleton {P : List ε → ε → Prop} {trace : List ε} {x : ε} :
    Always P (trace ++ [x]) ↔ Always P trace ∧ P trace x := by
  constructor
  · intro h
    refine ⟨fun before e after heq => ?_, h trace x [] rfl⟩
    exact h before e (after ++ [x]) (by rw [heq, List.append_assoc, List.cons_append])
  · intro ⟨hall, hlast⟩ before e after heq
    rcases List.eq_nil_or_concat after with rfl | ⟨after, last, rfl⟩
    · obtain ⟨rfl, hx⟩ := List.append_inj' heq rfl
      rw [List.singleton_inj] at hx
      exact hx ▸ hlast
    · rw [List.concat_eq_append, ← List.cons_append, ← List.append_assoc] at heq
      obtain ⟨rfl, -⟩ := List.append_inj' heq rfl
      exact hall before e after rfl

/-- An event behind another one, with what was emitted in between. -/
theorem Always.after_mem {P : List ε → ε → Prop} {trace before after : List ε} {e e' : ε}
    (h : Always P trace) (htrace : trace = before ++ e :: after) (he' : e' ∈ after) :
    ∃ between rest, after = between ++ e' :: rest ∧ P (before ++ e :: between) e' := by
  obtain ⟨between, rest, rfl⟩ := List.append_of_mem he'
  refine ⟨between, rest, rfl, h _ _ rest ?_⟩
  rw [htrace, List.append_assoc, List.cons_append]

/-- What holds since somewhere in the first part, if the second part does not set it. -/
theorem Since.of_append {sets clears : ε → Prop} {xs ys : List ε} (h : Since sets clears (xs ++ ys))
    (hys : ∀ y ∈ ys, ¬ sets y) : Since sets clears xs := by
  induction ys using List.reverseRecOn with
  | nil => rwa [List.append_nil] at h
  | append_singleton ys y ih =>
    rw [← List.append_assoc, since_append_singleton] at h
    rcases h with hsets | ⟨h, -⟩
    · exact absurd hsets (hys y (by simp))
    · exact ih h fun y' hy' => hys y' (List.mem_append_left _ hy')

/-- What holds is not lost by events that do not clear it. -/
theorem Since.append {sets clears : ε → Prop} {xs ys : List ε} (h : Since sets clears xs)
    (hys : ∀ y ∈ ys, ¬ clears y) : Since sets clears (xs ++ ys) := by
  obtain ⟨before, op, after, rfl, hsets, hafter⟩ := h
  refine ⟨before, op, after ++ ys, by simp, hsets, fun y hy => ?_⟩
  rcases List.mem_append.mp hy with hy | hy
  · exact hafter y hy
  · exact hys y hy

namespace Machine

variable (step? : ι → σ → Option (Option ε × σ))

/-- The trace of the actions and the state behind them, `none` where an action is out of turn. -/
def run? : List ι → σ → Option (List ε × σ)
  | [], s => some ([], s)
  | a :: as, s =>
      (step? a s).bind fun x => (run? as x.2).map fun y => (x.1.toList ++ y.1, y.2)

variable {step?} {a : ι} {as as' : List ι} {s s₁ s' : σ} {trace trace' : List ε} {e : Option ε}

theorem run?_cons (h : run? step? (a :: as) s = some (trace, s')) :
    ∃ e s₁ rest, step? a s = some (e, s₁) ∧ run? step? as s₁ = some (rest, s') ∧
      trace = e.toList ++ rest := by
  obtain ⟨x, hx, h⟩ := Option.bind_eq_some_iff.mp h
  obtain ⟨y, hy, h⟩ := Option.map_eq_some_iff.mp h
  cases h
  exact ⟨x.1, x.2, y.1, hx, hy, rfl⟩

theorem run?_cons_of_step (hstep : step? a s = some (e, s₁))
    (hrun : run? step? as s₁ = some (trace, s')) :
    run? step? (a :: as) s = some (e.toList ++ trace, s') := by
  rw [run?, hstep, Option.bind_some, hrun]
  rfl

/-- One more action behind a run. -/
theorem run?_append_singleton (hrun : run? step? as s = some (trace, s₁))
    (hstep : step? a s₁ = some (e, s')) :
    run? step? (as ++ [a]) s = some (trace ++ e.toList, s') := by
  induction as generalizing s trace with
  | nil =>
    cases hrun
    rw [List.nil_append, run?, hstep, Option.bind_some, run?, Option.map_some]
    simp
  | cons b as ih =>
    obtain ⟨e₁, s₂, rest, hfirst, hrest, rfl⟩ := run?_cons hrun
    rw [List.append_assoc]
    exact run?_cons_of_step hfirst (ih hrest)

/-- What every step keeps of trace and state, a run keeps. -/
theorem run_inv {I : List ε → σ → Prop}
    (hstep : ∀ {past a s e s'}, I past s → step? a s = some (e, s') → I (past ++ e.toList) s')
    {past : List ε} (h : I past s) (hrun : run? step? as s = some (trace, s')) :
    I (past ++ trace) s' := by
  induction as generalizing past s trace with
  | nil =>
    cases hrun
    rw [List.append_nil]
    exact h
  | cons a as ih =>
    obtain ⟨e, s₁, rest, hfirst, hrest, rfl⟩ := run?_cons hrun
    rw [← List.append_assoc]
    exact ih (hstep h hfirst) hrest

/-- The same from the start of the trace. -/
theorem run_inv_nil {I : List ε → σ → Prop}
    (hstep : ∀ {past a s e s'}, I past s → step? a s = some (e, s') → I (past ++ e.toList) s')
    (h : I [] s) (hrun : run? step? as s = some (trace, s')) : I trace s' :=
  run_inv hstep h hrun

/-- Steps that keep `I` and pay for themselves out of a budget: one for an action that `p` counts, one
for an event that `q` counts.  A run whose events are all `Q` counts no more than the budget it starts
with. -/
theorem count_le {I : σ → Prop} {Q : ε → Prop} {p : ι → Bool} {q : ε → Bool} {budget : σ → ℕ}
    (hstep : ∀ {a s e s'}, I s → step? a s = some (e, s') → (∀ x ∈ e.toList, Q x) →
      I s' ∧ (if p a then 1 else 0) + e.toList.countP q + budget s' ≤ budget s)
    (h : I s) (hrun : run? step? as s = some (trace, s')) (hQ : ∀ x ∈ trace, Q x) :
    I s' ∧ as.countP p + trace.countP q + budget s' ≤ budget s := by
  induction as generalizing s trace with
  | nil =>
    cases hrun
    exact ⟨h, by simp⟩
  | cons a as ih =>
    obtain ⟨e, s₁, rest, hfirst, hrest, rfl⟩ := run?_cons hrun
    obtain ⟨hI, hpaid⟩ := hstep h hfirst fun x hx => hQ x (List.mem_append_left _ hx)
    obtain ⟨hI', hle⟩ := ih hI hrest fun x hx => hQ x (List.mem_append_right _ hx)
    refine ⟨hI', ?_⟩
    rw [List.countP_cons, List.countP_append]
    omega

end Machine

end Lib
