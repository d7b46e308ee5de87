import MinimalRedis.Lib.Threads

/-!
# What interleaved programs do to the shared state

A program guarantees `R` when each of its calls takes the shared state in a step of `R`, from whatever
state the other threads have left and whatever the calls before it returned.

* `StepsIn.bind` — guarantees compose; `StepsIn.lift` is one call;
* `Performs` — entries that perform a sequence of operations, one behind the other;
* `exists_operations` — where every call is an operation of a data type, the threads perform, under
  every schedule, one sequence of operations.
-/

namespace Lib

namespace Prog

variable {τ σ α β : Type} {R : σ → σ → Prop}

/-- Every call the program can come to is a step of `R`, whenever it is made. -/
inductive StepsIn (R : σ → σ → Prop) : Prog τ σ α → Prop where
  | ret (a : α) : StepsIn R (ret a)
  | call {β : Type} {m : τ → σ → β × σ} {k : β → Prog τ σ α} :
      (∀ t s, R s (m t s).2) → (∀ b, StepsIn R (k b)) → StepsIn R (call m k)

namespace StepsIn

theorem lift {m : τ → σ → β × σ} (h : ∀ t s, R s (m t s).2) : StepsIn R (Prog.lift m) :=
  .call h fun b => .ret b

theorem bind {p : Prog τ σ α} {f : α → Prog τ σ β} (h : p.StepsIn R) (hf : ∀ a, (f a).StepsIn R) :
    (p.bind f).StepsIn R := by
  induction h with
  | ret a => exact hf a
  | call hm _ ih => exact .call hm ih

theorem ite {P : Prop} [Decidable P] {p q : Prog τ σ α} (hp : p.StepsIn R) (hq : q.StepsIn R) :
    (if P then p else q).StepsIn R := by
  split
  · exact hp
  · exact hq

end StepsIn

end Prog

/-! ### Threads -/

/-- The entry is a call. -/
def Entry.isCall {ι σ C ρ : Type} (e : Entry ι σ C ρ) : Bool :=
  match e.action with
  | .call => true
  | _ => false

namespace Config

variable {ι τ σ L C ρ : Type} [DecidableEq ι] {start : C → L → Prog τ σ (ρ × L)} {R : σ → σ → Prop}
  {c c' : Config ι τ σ L C ρ}

/-- What the threads are at guarantees `R`. -/
def RunningIn (R : σ → σ → Prop) (c : Config ι τ σ L C ρ) : Prop :=
  ∀ i p, (c.threads i).running = some p → p.StepsIn R

omit [DecidableEq ι] in
theorem runningIn_of_idle (h : ∀ i, (c.threads i).running = none) : c.RunningIn R := by
  intro i p hp
  rw [h i] at hp
  cases hp

theorem RunningIn.put (h : c.RunningIn R) {i : ι} {th : Thread τ σ L C ρ}
    (hth : ∀ p, th.running = some p → p.StepsIn R) (s : σ) : (c.put i th s).RunningIn R := by
  intro j p hp
  by_cases hj : j = i
  · subst hj
    rw [put_self] at hp
    exact hth p hp
  · rw [put_of_ne th s hj] at hp
    exact h j p hp

/-- One step: a call of `R`, or nothing is done to the shared state. -/
theorem RunningIn.step (hstart : ∀ command own, (start command own).StepsIn R) (h : c.RunningIn R)
    {i : ι} {t : τ} {e : Entry ι σ C ρ} (hstep : c.step? start i t = some (e, c')) :
    c'.RunningIn R ∧ e.before = c.shared ∧ e.after = c'.shared ∧
      ((e.isCall = true ∧ R c.shared c'.shared) ∨ (e.isCall = false ∧ c'.shared = c.shared)) := by
  unfold step? at hstep
  split at hstep
  · split at hstep
    · cases hstep
    · cases hstep
      refine ⟨h.put (fun p hp => ?_) _, rfl, rfl, .inr ⟨rfl, rfl⟩⟩
      cases hp
      exact hstart _ _
  · cases hstep
    refine ⟨h.put (fun p hp => ?_) _, rfl, rfl, .inr ⟨rfl, rfl⟩⟩
    cases hp
  · rename_i m k hk
    cases hstep
    have hcall := h i _ hk
    cases hcall with
    | call hm hrest =>
      refine ⟨h.put (fun p hp => ?_) _, rfl, rfl, .inl ⟨rfl, hm _ _⟩⟩
      cases hp
      exact hrest _

/-- The entries are the operations, one behind the other, and lead from `s` to the last state. -/
inductive Performs {ω : Type} (apply : σ → ω → σ) :
    σ → List (Entry ι σ C ρ) → List ω → σ → Prop where
  | nil (s : σ) : Performs apply s [] [] s
  | cons {s s' : σ} {e : Entry ι σ C ρ} {log : List (Entry ι σ C ρ)} {op : ω} {ops : List ω} :
      e.before = s → e.after = apply s op → Performs apply (apply s op) log ops s' →
        Performs apply s (e :: log) (op :: ops) s'

omit [DecidableEq ι] in
theorem Performs.eq_foldl {ω : Type} {apply : σ → ω → σ} {s s' : σ} {log : List (Entry ι σ C ρ)}
    {ops : List ω} (h : Performs apply s log ops s') : s' = ops.foldl apply s := by
  induction h with
  | nil => rfl
  | cons _ _ _ ih => exact ih

/-- **The threads perform one sequence of operations**, whatever the schedule. -/
theorem exists_operations {ω : Type} (apply : σ → ω → σ)
    (hstart : ∀ command own, (start command own).StepsIn fun s s' => ∃ op, s' = apply s op)
    (h : c.RunningIn fun s s' => ∃ op, s' = apply s op) {schedule : List (ι × τ)}
    {log : List (Entry ι σ C ρ)} (hrun : c.run? start schedule = some (log, c')) :
    ∃ ops : List ω, Performs apply c.shared (log.filter Entry.isCall) ops c'.shared := by
  induction schedule generalizing c log with
  | nil =>
    cases hrun
    exact ⟨[], .nil _⟩
  | cons x schedule ih =>
    obtain ⟨e, c₁, rest, hstep, hrest, rfl⟩ := run?_cons (i := x.1) (t := x.2) hrun
    obtain ⟨h₁, hbefore, hafter, hmove⟩ := h.step hstart hstep
    obtain ⟨ops, hops⟩ := ih h₁ hrest
    rcases hmove with ⟨hcall, op, hop⟩ | ⟨hcall, hsame⟩
    · refine ⟨op :: ops, ?_⟩
      rw [List.filter_cons_of_pos hcall]
      rw [hop] at hafter hops
      exact .cons hbefore hafter hops
    · refine ⟨ops, ?_⟩
      rw [List.filter_cons_of_neg (by rw [hcall]; exact Bool.false_ne_true), ← hsame]
      exact hops

end Config

end Lib
