import Mathlib.Logic.Function.Basic
import Mathlib.Tactic.Common

/-!
# Threads of atomic calls

A `Prog τ σ α` makes calls on a shared state `σ`, each of them one atomic step at some time `τ`, and
returns an `α`.  A thread takes commands from its input, runs the program of each to its end and
replies; a schedule says which thread moves next.

* `run` — a program by itself; `run_bind` composes;
* `Config.step?`, `Config.run?` — one step and a schedule of steps, with the log of what was done;
* `exists_advance`, `exists_finish` — a thread that is scheduled alone runs its program;
* `AtMost`, `length_calls_le` — a bound on the calls of a program bounds the calls of its thread under
  every schedule.
-/

namespace Lib

inductive Prog (τ σ α : Type) : Type 1 where
  | ret (a : α)
  | call {β : Type} (m : τ → σ → β × σ) (k : β → Prog τ σ α)

namespace Prog

variable {τ σ α β : Type}

protected def bind : Prog τ σ α → (α → Prog τ σ β) → Prog τ σ β
  | ret a, f => f a
  | call m k, f => call m fun b => (k b).bind f

instance : Monad (Prog τ σ) where
  pure := ret
  bind := Prog.bind

/-- The program of one call. -/
def lift (m : τ → σ → β × σ) : Prog τ σ β := call m ret

/-- The program by itself, all its calls at one time. -/
def run (t : τ) : Prog τ σ α → σ → α × σ
  | ret a, s => (a, s)
  | call m k, s => (k (m t s).1).run t (m t s).2

/-- The number of calls it makes by itself. -/
def calls (t : τ) : Prog τ σ α → σ → ℕ
  | ret _, _ => 0
  | call m k, s => (k (m t s).1).calls t (m t s).2 + 1

def isCall : Prog τ σ α → Bool
  | ret _ => false
  | call _ _ => true

theorem run_bind (t : τ) (p : Prog τ σ α) (f : α → Prog τ σ β) (s : σ) :
    (p.bind f).run t s = (f (p.run t s).1).run t (p.run t s).2 := by
  induction p generalizing s with
  | ret a => rfl
  | call m k ih => exact ih _ _

theorem run_ite (t : τ) (P : Prop) [Decidable P] (p q : Prog τ σ α) (s : σ) :
    (if P then p else q).run t s = if P then p.run t s else q.run t s := by
  split <;> rfl

theorem bind_ret (p : Prog τ σ α) : p.bind ret = p := by
  induction p with
  | ret a => rfl
  | call m k ih =>
    show call m (fun b => (k b).bind ret) = call m k
    congr 1
    funext b
    exact ih b

theorem bind_assoc {γ : Type} (p : Prog τ σ α) (f : α → Prog τ σ β) (g : β → Prog τ σ γ) :
    (p.bind f).bind g = p.bind fun a => (f a).bind g := by
  induction p with
  | ret a => rfl
  | call m k ih =>
    show call m (fun b => ((k b).bind f).bind g) = call m fun b => (k b).bind fun a => (f a).bind g
    congr 1
    funext b
    exact ih b

theorem isCall_bind {p : Prog τ σ α} (h : p.isCall = true) (f : α → Prog τ σ β) :
    (p.bind f).isCall = true := by
  cases p with
  | ret a => cases h
  | call m k => rfl

theorem calls_pos {p : Prog τ σ α} (h : p.isCall = true) (t : τ) (s : σ) : 0 < p.calls t s := by
  cases p with
  | ret a => cases h
  | call m k => exact Nat.succ_pos _

/-- A program that makes no call returns at once. -/
theorem eq_ret_of_not_isCall {p : Prog τ σ α} (h : p.isCall = false) : ∃ a, p = ret a := by
  cases p with
  | ret a => exact ⟨a, rfl⟩
  | call m k => cases h

/-- No path through the program makes more than `n` calls. -/
inductive AtMost : ℕ → Prog τ σ α → Prop where
  | ret (n : ℕ) (a : α) : AtMost n (ret a)
  | call {n : ℕ} {β : Type} (m : τ → σ → β × σ) {k : β → Prog τ σ α} :
      (∀ b, AtMost n (k b)) → AtMost (n + 1) (call m k)

end Prog

/-! ### Threads -/

/-- A thread with its local state, the program of the command it is at, and the commands that wait. -/
structure Thread (τ σ L C ρ : Type) : Type 1 where
  own : L
  running : Option (Prog τ σ (ρ × L)) := none
  input : List C := []

inductive Action (C ρ : Type) where
  | receive (command : C)
  | call
  | reply (r : ρ)

/-- A step of a thread, with the shared state before and after it. -/
structure Entry (ι σ C ρ : Type) where
  thread : ι
  action : Action C ρ
  before : σ
  after : σ

structure Config (ι τ σ L C ρ : Type) : Type 1 where
  shared : σ
  threads : ι → Thread τ σ L C ρ

namespace Config

variable {ι τ σ L C ρ : Type} [DecidableEq ι] (start : C → L → Prog τ σ (ρ × L))

omit start in
/-- Thread `i` becomes `th`, and the shared state `s`. -/
def put (i : ι) (th : Thread τ σ L C ρ) (s : σ) (c : Config ι τ σ L C ρ) : Config ι τ σ L C ρ :=
  ⟨s, Function.update c.threads i th⟩

/-- The next step of thread `i`, at time `t`: it takes a command, makes a call or replies. -/
def step? (i : ι) (t : τ) (c : Config ι τ σ L C ρ) :
    Option (Entry ι σ C ρ × Config ι τ σ L C ρ) :=
  match (c.threads i).running with
  | none =>
      match (c.threads i).input with
      | [] => none
      | command :: rest =>
          let th := { c.threads i with running := some (start command (c.threads i).own), input := rest }
          some (⟨i, .receive command, c.shared, c.shared⟩, c.put i th c.shared)
  | some (.ret x) =>
      let th := { c.threads i with own := x.2, running := none }
      some (⟨i, .reply x.1, c.shared, c.shared⟩, c.put i th c.shared)
  | some (.call m k) =>
      let y := m t c.shared
      let th := { c.threads i with running := some (k y.1) }
      some (⟨i, .call, c.shared, y.2⟩, c.put i th y.2)

/-- The steps of a schedule and the configuration after them, `none` when a thread that has nothing
to do is scheduled. -/
def run? : List (ι × τ) → Config ι τ σ L C ρ →
    Option (List (Entry ι σ C ρ) × Config ι τ σ L C ρ)
  | [], c => some ([], c)
  | x :: schedule, c =>
      (c.step? start x.1 x.2).bind fun y =>
        (run? schedule y.2).map fun z => (y.1 :: z.1, z.2)

/-- A configuration that a run from idle threads can come to. -/
inductive Reachable : Config ι τ σ L C ρ → Prop where
  | idle {c : Config ι τ σ L C ρ} : (∀ i, (c.threads i).running = none) → Reachable c
  | step {c c' : Config ι τ σ L C ρ} {i : ι} {t : τ} {e : Entry ι σ C ρ} :
      Reachable c → c.step? start i t = some (e, c') → Reachable c'

variable {start} {i : ι} {t : τ} {c c' : Config ι τ σ L C ρ}

theorem run?_cons {schedule : List (ι × τ)} {log : List (Entry ι σ C ρ)}
    (h : c.run? start ((i, t) :: schedule) = some (log, c')) :
    ∃ e c₁ rest, c.step? start i t = some (e, c₁) ∧ c₁.run? start schedule = some (rest, c') ∧
      log = e :: rest := by
  obtain ⟨y, hy, h⟩ := Option.bind_eq_some_iff.mp h
  obtain ⟨z, hz, h⟩ := Option.map_eq_some_iff.mp h
  cases h
  exact ⟨y.1, y.2, z.1, hy, hz, rfl⟩

theorem run?_cons_of_step {schedule : List (ι × τ)} {log : List (Entry ι σ C ρ)}
    {e : Entry ι σ C ρ} {c₁ : Config ι τ σ L C ρ} (hstep : c.step? start i t = some (e, c₁))
    (hrun : c₁.run? start schedule = some (log, c')) :
    c.run? start ((i, t) :: schedule) = some (e :: log, c') := by
  show (c.step? start i t).bind _ = _
  rw [hstep, Option.bind_some, hrun]
  rfl

theorem run?_append {s₁ s₂ : List (ι × τ)} {l₁ l₂ : List (Entry ι σ C ρ)}
    {c₁ : Config ι τ σ L C ρ} (h₁ : c.run? start s₁ = some (l₁, c₁))
    (h₂ : c₁.run? start s₂ = some (l₂, c')) : c.run? start (s₁ ++ s₂) = some (l₁ ++ l₂, c') := by
  induction s₁ generalizing c l₁ with
  | nil =>
    cases h₁
    exact h₂
  | cons x s₁ ih =>
    obtain ⟨e, c₂, rest, hstep, hrest, rfl⟩ := run?_cons (i := x.1) (t := x.2) h₁
    exact run?_cons_of_step hstep (ih hrest)

/-- A part of the log from its beginning is the log of a part of the schedule. -/
theorem exists_run?_of_append {schedule : List (ι × τ)} {l₁ l₂ : List (Entry ι σ C ρ)}
    (h : c.run? start schedule = some (l₁ ++ l₂, c')) :
    ∃ s₁ c₁, c.run? start s₁ = some (l₁, c₁) := by
  induction l₁ generalizing c schedule with
  | nil => exact ⟨[], c, rfl⟩
  | cons e l₁ ih =>
    cases schedule with
    | nil => cases h
    | cons x schedule =>
      obtain ⟨e', c₂, rest, hstep, hrest, hlog⟩ := run?_cons (i := x.1) (t := x.2) h
      rw [List.cons_append, List.cons.injEq] at hlog
      rw [← hlog.1] at hstep
      rw [← hlog.2] at hrest
      obtain ⟨s₁, c₁, hrun⟩ := ih hrest
      exact ⟨x :: s₁, c₁, run?_cons_of_step hstep hrun⟩

/-! ### Steps of one thread -/

theorem put_self (th : Thread τ σ L C ρ) (s : σ) : (c.put i th s).threads i = th := by
  show Function.update c.threads i th i = th
  rw [Function.update_self]

theorem put_of_ne {j : ι} (th : Thread τ σ L C ρ) (s : σ) (hj : j ≠ i) :
    (c.put i th s).threads j = c.threads j := by
  show Function.update c.threads i th j = c.threads j
  rw [Function.update_of_ne hj]

theorem step?_call (start : C → L → Prog τ σ (ρ × L)) (t : τ) {β : Type} {m : τ → σ → β × σ}
    {k : β → Prog τ σ (ρ × L)}
    (h : (c.threads i).running = some (.call m k)) :
    c.step? start i t = some (⟨i, .call, c.shared, (m t c.shared).2⟩,
      c.put i { c.threads i with running := some (k (m t c.shared).1) } (m t c.shared).2) := by
  unfold step?
  rw [h]

theorem step?_ret (start : C → L → Prog τ σ (ρ × L)) (t : τ) {x : ρ × L}
    (h : (c.threads i).running = some (.ret x)) :
    c.step? start i t = some (⟨i, .reply x.1, c.shared, c.shared⟩,
      c.put i { c.threads i with own := x.2, running := none } c.shared) := by
  unfold step?
  rw [h]

theorem step?_receive (start : C → L → Prog τ σ (ρ × L)) (t : τ) {command : C} {rest : List C}
    (hidle : (c.threads i).running = none)
    (hinput : (c.threads i).input = command :: rest) :
    c.step? start i t = some (⟨i, .receive command, c.shared, c.shared⟩,
      c.put i { c.threads i with running := some (start command (c.threads i).own), input := rest }
        c.shared) := by
  unfold step?
  rw [hidle, hinput]

/-- The three kinds of steps; a thread leaves the others alone. -/
theorem step?_cases {e : Entry ι σ C ρ} (h : c.step? start i t = some (e, c')) :
    e.thread = i ∧ (∀ j, j ≠ i → c'.threads j = c.threads j) ∧
      (((c.threads i).running = none ∧ ∃ command, e.action = .receive command) ∨
        (∃ x, (c.threads i).running = some (.ret x) ∧ e.action = .reply x.1) ∨
        ∃ (β : Type) (m : τ → σ → β × σ) (k : β → Prog τ σ (ρ × L)) (b : β),
          (c.threads i).running = some (.call m k) ∧ e.action = .call ∧
          (c'.threads i).running = some (k b)) := by
  unfold step? at h
  split at h
  · rename_i hidle
    split at h
    · cases h
    · rename_i command rest hinput
      cases h
      exact ⟨rfl, fun j hj => put_of_ne _ _ hj, .inl ⟨hidle, command, rfl⟩⟩
  · rename_i x hx
    cases h
    exact ⟨rfl, fun j hj => put_of_ne _ _ hj, .inr (.inl ⟨x, hx, rfl⟩)⟩
  · rename_i β m k hk
    cases h
    exact ⟨rfl, fun j hj => put_of_ne _ _ hj,
      .inr (.inr ⟨β, m, k, (m t c.shared).1, hk, rfl, congrArg Thread.running (put_self _ _)⟩)⟩

/-- Scheduled alone, a thread runs the first part of its program. -/
theorem exists_advance (start : C → L → Prog τ σ (ρ × L)) (t : τ) {α : Type} (p : Prog τ σ α)
    (f : α → Prog τ σ (ρ × L)) (c : Config ι τ σ L C ρ) (h : (c.threads i).running = some (p.bind f)) :
    ∃ schedule log c', c.run? start schedule = some (log, c') ∧
      (∀ e ∈ log, e.thread = i ∧ e.action = .call) ∧ log.length = p.calls t c.shared ∧
      (c'.threads i).running = some (f (p.run t c.shared).1) ∧
      c'.shared = (p.run t c.shared).2 ∧ ∀ j, j ≠ i → c'.threads j = c.threads j := by
  induction p generalizing c with
  | ret a => exact ⟨[], [], c, rfl, nofun, rfl, h, rfl, fun _ _ => rfl⟩
  | call m k ih =>
    have hstep := step?_call start t h
    let c₁ := c.put i { c.threads i with running := some ((k (m t c.shared).1).bind f) }
      (m t c.shared).2
    obtain ⟨schedule, log, c', hrun, hlog, hlength, hrunning, hshared, hothers⟩ :=
      ih (m t c.shared).1 c₁ (congrArg Thread.running (put_self _ _))
    refine ⟨(i, t) :: schedule, _ :: log, c', run?_cons_of_step hstep hrun, ?_, ?_, hrunning, hshared,
      ?_⟩
    · intro e he
      rcases List.mem_cons.mp he with rfl | he
      · exact ⟨rfl, rfl⟩
      · exact hlog e he
    · rw [List.length_cons, hlength]
      rfl
    · intro j hj
      rw [hothers j hj]
      exact put_of_ne _ _ hj

/-- Scheduled alone, a thread runs its program to the end and replies. -/
theorem exists_finish (start : C → L → Prog τ σ (ρ × L)) (t : τ) (p : Prog τ σ (ρ × L))
    (c : Config ι τ σ L C ρ) (h : (c.threads i).running = some p) :
    ∃ schedule log s c', c.run? start schedule =
        some (log ++ [⟨i, .reply (p.run t c.shared).1.1, s, s⟩], c') ∧
      (∀ e ∈ log, e.thread = i ∧ e.action = .call) ∧ log.length = p.calls t c.shared := by
  obtain ⟨schedule, log, c₁, hrun, hlog, hlength, hrunning, -, -⟩ :=
    exists_advance start t p .ret c (by rw [Prog.bind_ret]; exact h)
  exact ⟨schedule ++ [(i, t)], log, c₁.shared, _,
    run?_append hrun (run?_cons_of_step (step?_ret start t hrunning) rfl), hlog, hlength⟩

/-! ### Bounds under every schedule -/

/-- The entry is a call of thread `i`. -/
def Entry.isCallOf (i : ι) (e : Entry ι σ C ρ) : Bool :=
  match e.action with
  | .call => decide (e.thread = i)
  | _ => false

theorem isCallOf_eq_true {e : Entry ι σ C ρ} (h : e.thread = i ∧ e.action = .call) :
    Entry.isCallOf i e = true := by
  unfold Entry.isCallOf
  rw [h.2]
  exact decide_eq_true h.1

/-- A bound on the calls of a program bounds the calls of its thread up to its reply, whatever the
other threads do. -/
theorem length_calls_le {n : ℕ} {p : Prog τ σ (ρ × L)} {schedule : List (ι × τ)}
    {log : List (Entry ι σ C ρ)} (hp : p.AtMost n) (hrunning : (c.threads i).running = some p)
    (hrun : c.run? start schedule = some (log, c'))
    (hreply : ∀ e ∈ log, e.thread = i → ∀ r, e.action ≠ .reply r) :
    (log.filter (Entry.isCallOf i)).length ≤ n := by
  induction schedule generalizing c log n p with
  | nil =>
    cases hrun
    exact Nat.zero_le _
  | cons x schedule ih =>
    obtain ⟨e, c₁, rest, hstep, hrest, rfl⟩ := run?_cons (i := x.1) (t := x.2) hrun
    obtain ⟨hthread, hothers, hkind⟩ := step?_cases hstep
    have htail : ∀ e ∈ rest, e.thread = i → ∀ r, e.action ≠ .reply r :=
      fun e he => hreply e (List.mem_cons_of_mem _ he)
    by_cases hi : x.1 = i
    · rw [hi] at hkind hthread
      rcases hkind with ⟨hidle, -⟩ | ⟨y, -, haction⟩ | ⟨β, m, k, b, hcall, haction, hnext⟩
      · rw [hrunning] at hidle
        cases hidle
      · exact absurd haction (hreply e List.mem_cons_self hthread _)
      · rw [hrunning, Option.some.injEq] at hcall
        subst hcall
        cases hp with
        | call _ hk =>
          have hle := ih (hk b) hnext hrest htail
          rw [List.filter_cons_of_pos (isCallOf_eq_true ⟨hthread, haction⟩), List.length_cons]
          omega
    · have hother : Entry.isCallOf i e = false := by
        unfold Entry.isCallOf
        split
        · exact decide_eq_false fun heq => hi (hthread.symm.trans heq)
        · rfl
      rw [List.filter_cons_of_neg (by rw [hother]; exact Bool.false_ne_true)]
      exact ih hp ((congrArg Thread.running (hothers i (Ne.symm hi))).trans hrunning) hrest htail

/-- Between the end of the first `n` calls of thread `i` and its last call, another thread changes the
shared state. -/
def Intruded (i : ι) (n : ℕ) (log : List (Entry ι σ C ρ)) : Prop :=
  ∃ l₁ e l₂, log = l₁ ++ e :: l₂ ∧ n ≤ (l₁.filter (Entry.isCallOf i)).length ∧ e.thread ≠ i ∧
    e.after ≠ e.before ∧ ∃ e' ∈ l₂, Entry.isCallOf i e' = true

/-- A thread that makes no more than `n` calls has no such last call. -/
theorem not_intruded_of_length_le {n : ℕ} {log : List (Entry ι σ C ρ)}
    (h : (log.filter (Entry.isCallOf i)).length ≤ n) : ¬ Intruded i n log := by
  intro hintruded
  obtain ⟨l₁, e, l₂, rfl, hn, -, -, e', he', hcall⟩ := hintruded
  have hpos : 0 < ((e :: l₂).filter (Entry.isCallOf i)).length :=
    List.length_pos_iff.mpr (List.ne_nil_of_mem (List.mem_filter.mpr
      ⟨List.mem_cons_of_mem _ he', hcall⟩))
  rw [List.filter_append, List.length_append] at h
  omega

end Config

end Lib
