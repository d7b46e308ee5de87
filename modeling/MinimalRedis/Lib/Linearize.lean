import MinimalRedis.Lib.Simulation
import MinimalRedis.Lib.Threads

/-!
# Linearizability of programs of atomic calls

Threads interleave call by call.  A program is `Linear` when one of its calls is its point of effect: the
calls before it find what stays true (`Le`), the calls behind it cannot be seen (`Same`).  Whatever the
schedule, such threads do what some sequential order of their commands does.

* `Prog.Quiet` — the rest of a program returns `a`, and its calls are not seen;
* `Prog.Linear` — a program with a point of effect; `Linear.bind_ret` for what is done with the result;
* `linearizable` — under every schedule there is a sequential history with the same replies and, up to
  `Same`, the same final state, in which every command stands between its receipt and its reply.
-/

namespace Lib

/-- What an observer makes of a state: the invariant of the states, what stays true of them, and which
of them look alike. -/
structure Observer (σ : Type) where
  Inv : σ → Prop
  Le : σ → σ → Prop
  Same : σ → σ → Prop
  le_refl : ∀ s, Le s s
  le_trans : ∀ {s s' s''}, Le s s' → Le s' s'' → Le s s''
  same_equiv : Equivalence Same

namespace Observer

variable {σ α : Type} (o : Observer σ)

/-- What a call leaves is a state as good, of which all that was true of `s` is true. -/
structure Advance (s s' : σ) : Prop where
  inv : o.Inv s'
  le : o.Le s s'

/-- The same result, and states that look alike. -/
structure SameRun (x y : α × σ) : Prop where
  result : x.1 = y.1
  state : o.Same x.2 y.2

/-- The operation does alike in states that look alike. -/
def Blind (m : σ → α × σ) : Prop := ∀ s u, o.Same s u → o.SameRun (m s) (m u)

variable {o}

theorem SameRun.trans {x y z : α × σ} (h : o.SameRun x y) (h' : o.SameRun y z) : o.SameRun x z :=
  ⟨h.result.trans h'.result, o.same_equiv.trans h.state h'.state⟩

theorem SameRun.symm {x y : α × σ} (h : o.SameRun x y) : o.SameRun y x :=
  ⟨h.result.symm, o.same_equiv.symm h.state⟩

end Observer

namespace Prog

variable {τ σ α β : Type} (o : Observer σ)

/-- From any state in which what is true of `s` is true, the program returns `a` and makes no call that
can be seen. -/
def Quiet (a : α) : Prog τ σ α → σ → Prop
  | ret b, _ => b = a
  | call m k, s => ∀ s' t, o.Le s s' → o.Inv s' →
      o.Advance s' (m t s').2 ∧ o.Same (m t s').2 s' ∧ Quiet a (k (m t s').1) (m t s').2

/-- From any state in which what is true of `s` is true: the next call takes effect and the rest is
quiet, or the call is not seen and what it found stays true, so that the rest does by itself what the
whole program does. -/
def Linear : Prog τ σ α → σ → Prop
  | ret _, _ => True
  | call m k, s => ∀ s' t, o.Le s s' → o.Inv s' → o.Advance s' (m t s').2 ∧
      ((∃ a, Quiet o a (k (m t s').1) (m t s').2) ∨
        (o.Same (m t s').2 s' ∧
          (∀ s'' t', o.Le (m t s').2 s'' → o.Inv s'' →
            o.SameRun ((k (m t s').1).run t' s'') ((call m k).run t' s'')) ∧
          Linear (k (m t s').1) (m t s').2))

variable {o} {a : α} {p : Prog τ σ α} {s s' : σ}

theorem Quiet.mono (h : Quiet o a p s) (hle : o.Le s s') : Quiet o a p s' := by
  cases p with
  | ret b => exact h
  | call m k => exact fun s'' t hle' hinv => h s'' t (o.le_trans hle hle') hinv

theorem Linear.mono (h : Linear o p s) (hle : o.Le s s') : Linear o p s' := by
  cases p with
  | ret b => trivial
  | call m k => exact fun s'' t hle' hinv => h s'' t (o.le_trans hle hle') hinv

/-- By itself, a quiet program returns and leaves a state that looks alike. -/
theorem Quiet.run (h : Quiet o a p s) (t : τ) (hinv : o.Inv s) : o.SameRun (p.run t s) (a, s) := by
  induction p generalizing s with
  | ret b => exact ⟨h, o.same_equiv.refl s⟩
  | call m k ih =>
    obtain ⟨hadvance, hsame, hrest⟩ := h s t (o.le_refl s) hinv
    have hrun := ih _ hrest hadvance.inv
    exact ⟨hrun.result, o.same_equiv.trans hrun.state hsame⟩

theorem Quiet.bind_ret (f : α → β) (h : Quiet o a p s) :
    Quiet o (f a) (p.bind fun x => ret (f x)) s := by
  induction p generalizing s with
  | ret b => exact congrArg f h
  | call m k ih =>
    intro s' t hle hinv
    obtain ⟨hadvance, hsame, hrest⟩ := h s' t hle hinv
    exact ⟨hadvance, hsame, ih _ hrest⟩

theorem run_bind_ret (f : α → β) (t : τ) (p : Prog τ σ α) (s : σ) :
    (p.bind fun x => ret (f x)).run t s = (f (p.run t s).1, (p.run t s).2) :=
  run_bind t p _ s

/-- What is done with the result of a program is no call. -/
theorem Linear.bind_ret (f : α → β) (h : Linear o p s) :
    Linear o (p.bind fun x => ret (f x)) s := by
  induction p generalizing s with
  | ret b => trivial
  | call m k ih =>
    intro s' t hle hinv
    obtain ⟨hadvance, ⟨a, hquiet⟩ | ⟨hsame, hstable, hrest⟩⟩ := h s' t hle hinv
    · exact ⟨hadvance, .inl ⟨f a, hquiet.bind_ret f⟩⟩
    · refine ⟨hadvance, .inr ⟨hsame, fun s'' t' hle' hinv' => ?_, ih _ hrest⟩⟩
      have hrun := hstable s'' t' hle' hinv'
      show o.SameRun (((k _).bind fun x => ret (f x)).run t' s'')
        (((call m k).bind fun x => ret (f x)).run t' s'')
      rw [run_bind_ret, run_bind_ret]
      exact ⟨congrArg f hrun.result, hrun.state⟩

/-- A call that takes effect, with a quiet rest. -/
theorem linear_of_quiet {m : τ → σ → β × σ} {k : β → Prog τ σ α}
    (hadvance : ∀ s' t, o.Le s s' → o.Inv s' → o.Advance s' (m t s').2)
    (hquiet : ∀ s' t, o.Le s s' → o.Inv s' → ∃ a, Quiet o a (k (m t s').1) (m t s').2) :
    Linear o (call m k) s :=
  fun s' t hle hinv => ⟨hadvance s' t hle hinv, .inl (hquiet s' t hle hinv)⟩

/-- A program that makes a single call. -/
theorem linear_lift_bind {m : τ → σ → β × σ} {f : β → α}
    (hadvance : ∀ s' t, o.Le s s' → o.Inv s' → o.Advance s' (m t s').2) :
    Linear o ((lift m).bind fun b => ret (f b)) s :=
  linear_of_quiet hadvance fun _ _ _ _ => ⟨_, rfl⟩

variable (o) in
/-- A program whose calls do alike in states that look alike. -/
inductive Blind : Prog τ σ α → Prop where
  | ret (a : α) : Blind (ret a)
  | call {β : Type} {m : τ → σ → β × σ} {k : β → Prog τ σ α} :
      (∀ t, o.Blind (m t)) → (∀ b, Blind (k b)) → Blind (call m k)

namespace Blind

theorem lift {m : τ → σ → β × σ} (h : ∀ t, o.Blind (m t)) : Blind o (Prog.lift m) :=
  .call h fun b => .ret b

theorem bind {f : α → Prog τ σ β} (h : Blind o p) (hf : ∀ a, Blind o (f a)) : Blind o (p.bind f) := by
  induction h with
  | ret a => exact hf a
  | call hm _ ih => exact .call hm ih

theorem ite {P : Prop} [Decidable P] {q : Prog τ σ α} (hp : Blind o p) (hq : Blind o q) :
    Blind o (if P then p else q) := by
  split
  · exact hp
  · exact hq

theorem run (h : Blind o p) (t : τ) : o.Blind (p.run t) := by
  induction h with
  | ret a => exact fun s u hsame => ⟨rfl, hsame⟩
  | @call γ m k hm _ ih =>
    intro s u hsame
    obtain ⟨hresult, hstate⟩ := hm t s u hsame
    show o.SameRun ((k (m t s).1).run t (m t s).2) ((k (m t u).1).run t (m t u).2)
    rw [hresult]
    exact ih _ _ _ hstate

end Blind

end Prog

/-! ### Sequential histories -/

/-- A command of a thread that has taken effect at some time, with its reply. -/
structure Done (ι τ C ρ : Type) where
  thread : ι
  time : τ
  command : C
  reply : ρ

section History

variable {ι τ σ L C ρ : Type} [DecidableEq ι]

/-- The commands that thread `i` received. -/
def commandsOf (i : ι) (log : List (Entry ι σ C ρ)) : List C :=
  log.filterMap fun e =>
    match e.action with
    | .receive command => if e.thread = i then some command else none
    | _ => none

/-- The replies that thread `i` gave. -/
def repliesOf (i : ι) (log : List (Entry ι σ C ρ)) : List ρ :=
  log.filterMap fun e =>
    match e.action with
    | .reply r => if e.thread = i then some r else none
    | _ => none

def doneOf (i : ι) (h : List (Done ι τ C ρ)) : List (Done ι τ C ρ) :=
  h.filter fun x => decide (x.thread = i)

/-- One command by itself, with the local state of its thread. -/
def seqStep (start : C → L → Prog τ σ (ρ × L)) (x : Done ι τ C ρ) (s : σ × (ι → L)) :
    ρ × (σ × (ι → L)) :=
  let y := (start x.command (s.2 x.thread)).run x.time s.1
  (y.1.1, y.2, Function.update s.2 x.thread y.1.2)

/-- The history `h` is the sequential run of its commands, with the replies it says. -/
def Legal {κ : Type} (step : Done ι τ C ρ → κ → ρ × κ) (h : List (Done ι τ C ρ)) (s s' : κ) : Prop :=
  runOps step h s = (h.map Done.reply, s')

/-- The history `h` explains what the threads did from `c` to `c'`: it is sequential and ends in a state
that looks like that of `c'`; every thread was given the replies of `h` to its commands, in order, and
all of them once it is idle; and whenever one looks, the commands that have taken effect are among those
received, and the ones answered are among those that have taken effect. -/
structure Explains (o : Observer σ) (step : Done ι τ C ρ → σ × (ι → L) → ρ × (σ × (ι → L)))
    (c : Config ι τ σ L C ρ) (log : List (Entry ι σ C ρ)) (c' : Config ι τ σ L C ρ)
    (h : List (Done ι τ C ρ)) : Prop where
  legal : ∃ s own, Legal step h (c.shared, fun i => (c.threads i).own) (s, own) ∧ o.Same c'.shared s
  replies : ∀ i, repliesOf i log <+: (doneOf i h).map Done.reply
  commands : ∀ i, (doneOf i h).map Done.command <+: commandsOf i log
  complete : ∀ i, (c'.threads i).running = none →
    repliesOf i log = (doneOf i h).map Done.reply ∧ (doneOf i h).map Done.command = commandsOf i log
  between : ∀ l₁ l₂, log = l₁ ++ l₂ → ∃ h₁ h₂, h = h₁ ++ h₂ ∧ ∀ i,
    (repliesOf i l₁).length ≤ (doneOf i h₁).length ∧ (doneOf i h₁).length ≤ (commandsOf i l₁).length

/-- The programs that the threads start, for the commands `Allowed` and the local states `Good`. -/
structure Disciplined (o : Observer σ) (start : C → L → Prog τ σ (ρ × L)) (Allowed : C → Prop)
    (Good : L → Prop) : Prop where
  linear : ∀ {command own s}, Allowed command → Good own → o.Inv s → (start command own).Linear o s
  good : ∀ {command own s} (t : τ), Allowed command → Good own → o.Inv s →
    Good ((start command own).run t s).1.2
  blind : ∀ {command own}, Allowed command → Good own → (start command own).Blind o

/-- How thread `th` stands to the history in the shared state `s`; `own` is its local state in the
history. -/
inductive Status (o : Observer σ) (start : C → L → Prog τ σ (ρ × L)) (Allowed : C → Prop) (s : σ)
    (own : L) (th : Thread τ σ L C ρ) (received : List C) (replied : List ρ)
    (done : List (Done ι τ C ρ)) : Prop
  | idle : th.running = none → own = th.own → received = done.map Done.command →
      replied = done.map Done.reply → Status o start Allowed s own th received replied done
  /-- The rest of its program does by itself what the whole does, whatever comes in between. -/
  | pending (command : C) (q : Prog τ σ (ρ × L)) : th.running = some q → own = th.own →
      Allowed command → received = done.map Done.command ++ [command] →
      replied = done.map Done.reply → q.Linear o s →
      (∀ s' t, o.Le s s' → o.Inv s' → o.SameRun (q.run t s') ((start command own).run t s')) →
      Status o start Allowed s own th received replied done
  /-- Its command has taken effect, and the reply is determined. -/
  | effective (x : ρ × L) (q : Prog τ σ (ρ × L)) : th.running = some q → own = x.2 →
      received = done.map Done.command → done.map Done.reply = replied ++ [x.1] → q.Quiet o x s →
      Status o start Allowed s own th received replied done

variable {o : Observer σ} {start : C → L → Prog τ σ (ρ × L)} {Allowed : C → Prop} {Good : L → Prop}

omit [DecidableEq ι] in
theorem Status.mono {s s' : σ} {own : L} {th : Thread τ σ L C ρ} {received : List C}
    {replied : List ρ} {done : List (Done ι τ C ρ)}
    (h : Status o start Allowed s own th received replied done) (hle : o.Le s s') :
    Status o start Allowed s' own th received replied done := by
  cases h with
  | idle hrunning hown hreceived hreplied => exact .idle hrunning hown hreceived hreplied
  | pending command q hrunning hown hallowed hreceived hreplied hlinear hsame =>
    exact .pending command q hrunning hown hallowed hreceived hreplied (hlinear.mono hle)
      fun s'' t hle' hinv => hsame s'' t (o.le_trans hle hle') hinv
  | effective x q hrunning hown hreceived hreplied hquiet =>
    exact .effective x q hrunning hown hreceived hreplied (hquiet.mono hle)

omit [DecidableEq ι] in
theorem Status.length_le {s : σ} {own : L} {th : Thread τ σ L C ρ} {received : List C}
    {replied : List ρ} {done : List (Done ι τ C ρ)}
    (h : Status o start Allowed s own th received replied done) :
    replied.length ≤ done.length ∧ done.length ≤ received.length := by
  cases h with
  | idle hrunning hown hreceived hreplied => simp [hreceived, hreplied]
  | pending command q hrunning hown hallowed hreceived hreplied => simp [hreceived, hreplied]
  | effective x q hrunning hown hreceived hreplied =>
    have hlen := congrArg List.length hreplied
    simp only [List.length_map, List.length_append] at hlen
    rw [hreceived, List.length_map]
    exact ⟨by omega, Nat.le_refl _⟩

/-- What holds of the threads in a configuration that they have come to, `h` being the history so far. -/
structure Sim (o : Observer σ) (start : C → L → Prog τ σ (ρ × L)) (Allowed : C → Prop)
    (Good : L → Prop) (c : Config ι τ σ L C ρ) (log : List (Entry ι σ C ρ)) (c' : Config ι τ σ L C ρ)
    (h : List (Done ι τ C ρ)) (s : σ) (own : ι → L) : Prop where
  legal : Legal (seqStep start) h (c.shared, fun i => (c.threads i).own) (s, own)
  allowed : ∀ x ∈ h, Allowed x.command
  inv : o.Inv c'.shared
  same : o.Same c'.shared s
  good : ∀ i, Good (own i)
  input : ∀ i, ∀ command ∈ (c'.threads i).input, Allowed command
  status : ∀ i, Status o start Allowed c'.shared (own i) (c'.threads i) (commandsOf i log)
    (repliesOf i log) (doneOf i h)
  between : ∀ l₁ l₂, log = l₁ ++ l₂ → ∃ h₁ h₂, h = h₁ ++ h₂ ∧ ∀ i,
    (repliesOf i l₁).length ≤ (doneOf i h₁).length ∧ (doneOf i h₁).length ≤ (commandsOf i l₁).length

theorem commandsOf_append (i : ι) (log : List (Entry ι σ C ρ)) (e : Entry ι σ C ρ) :
    commandsOf i (log ++ [e]) = commandsOf i log ++ commandsOf i [e] := List.filterMap_append

theorem repliesOf_append (i : ι) (log : List (Entry ι σ C ρ)) (e : Entry ι σ C ρ) :
    repliesOf i (log ++ [e]) = repliesOf i log ++ repliesOf i [e] := List.filterMap_append

theorem doneOf_append (i : ι) (h h' : List (Done ι τ C ρ)) :
    doneOf i (h ++ h') = doneOf i h ++ doneOf i h' := List.filter_append ..

theorem of_other {i : ι} {e : Entry ι σ C ρ} (hi : i ≠ e.thread) :
    commandsOf i [e] = [] ∧ repliesOf i [e] = [] := by
  have hne : ¬ e.thread = i := fun heq => hi heq.symm
  constructor
  all_goals
    cases h : e.action <;> simp [commandsOf, repliesOf, h, hne]

omit [DecidableEq ι] in
theorem runOps_congr {κ : Type} {step step' : Done ι τ C ρ → κ → ρ × κ} {I : κ → Prop}
    {h : List (Done ι τ C ρ)} {s : κ} (hs : I s)
    (hstep : ∀ x ∈ h, ∀ s, I s → step x s = step' x s ∧ I (step' x s).2) :
    runOps step h s = runOps step' h s := by
  induction h generalizing s with
  | nil => rfl
  | cons x h ih =>
    obtain ⟨hx, hkept⟩ := hstep x List.mem_cons_self s hs
    rw [runOps, runOps, hx, ih hkept fun y hy => hstep y (List.mem_cons_of_mem _ hy)]

omit [DecidableEq ι] in
theorem legal_append {κ : Type} {step : Done ι τ C ρ → κ → ρ × κ} {h : List (Done ι τ C ρ)}
    {x : Done ι τ C ρ} {s s' s'' : κ} (hlegal : Legal step h s s') (hx : step x s' = (x.reply, s'')) :
    Legal step (h ++ [x]) s s'' := by
  unfold Legal at hlegal ⊢
  rw [runOps_append, hlegal]
  simp only [runOps, hx, List.map_append, List.map_cons, List.map_nil]

section Steps

variable {c c' c'' : Config ι τ σ L C ρ} {log : List (Entry ι σ C ρ)} {h : List (Done ι τ C ρ)}
  {s : σ} {own : ι → L} {e : Entry ι σ C ρ}

/-- A step of thread `e.thread` that adds `h'` to the history and comes to `s'`, `own'`. -/
theorem Sim.append (hsim : Sim o start Allowed Good c log c' h s own) {h' : List (Done ι τ C ρ)}
    {s' : σ} {own' : ι → L} (hadvance : o.Advance c'.shared c''.shared)
    (hlegal : Legal (seqStep start) (h ++ h') (c.shared, fun i => (c.threads i).own) (s', own'))
    (hallowed : ∀ x ∈ h', Allowed x.command) (hsame : o.Same c''.shared s') (hgood : Good (own' e.thread))
    (hthread : Status o start Allowed c''.shared (own' e.thread) (c''.threads e.thread)
      (commandsOf e.thread (log ++ [e])) (repliesOf e.thread (log ++ [e]))
      (doneOf e.thread (h ++ h')))
    (hinput : ∀ command ∈ (c''.threads e.thread).input, command ∈ (c'.threads e.thread).input)
    (hothers : ∀ j, j ≠ e.thread → c''.threads j = c'.threads j ∧ own' j = own j ∧ doneOf j h' = []) :
    Sim o start Allowed Good c (log ++ [e]) c'' (h ++ h') s' own' := by
  have hstatus : ∀ j, Status o start Allowed c''.shared (own' j) (c''.threads j)
      (commandsOf j (log ++ [e])) (repliesOf j (log ++ [e])) (doneOf j (h ++ h')) := by
    intro j
    by_cases hj : j = e.thread
    · rw [hj]
      exact hthread
    · obtain ⟨hth, hown, hdone⟩ := hothers j hj
      obtain ⟨hcommands, hreplies⟩ := of_other hj
      rw [hth, hown, commandsOf_append, hcommands, repliesOf_append, hreplies, doneOf_append, hdone,
        List.append_nil, List.append_nil, List.append_nil]
      exact (hsim.status j).mono hadvance.le
  refine ⟨hlegal, List.forall_mem_append.mpr ⟨hsim.allowed, hallowed⟩, hadvance.inv, hsame,
    fun j => ?_, fun j => ?_, hstatus, fun l₁ l₂ hsplit => ?_⟩
  · by_cases hj : j = e.thread
    · rw [hj]
      exact hgood
    · rw [(hothers j hj).2.1]
      exact hsim.good j
  · by_cases hj : j = e.thread
    · rw [hj]
      exact fun command hmem => hsim.input _ command (hinput command hmem)
    · rw [(hothers j hj).1]
      exact hsim.input j
  · rcases List.eq_nil_or_concat l₂ with rfl | ⟨l₂, last, rfl⟩
    · rw [List.append_nil] at hsplit
      subst hsplit
      exact ⟨h ++ h', [], (List.append_nil _).symm, fun j => (hstatus j).length_le⟩
    · rw [List.concat_eq_append, ← List.append_assoc] at hsplit
      obtain ⟨hlog, -⟩ := List.append_inj' hsplit rfl
      obtain ⟨h₁, h₂, hh, hbounds⟩ := hsim.between l₁ l₂ hlog
      exact ⟨h₁, h₂ ++ h', by rw [hh, List.append_assoc], hbounds⟩

/-- The command of thread `i` takes effect in the step, with the result `x`. -/
theorem Sim.effect (hdisciplined : Disciplined o start Allowed Good)
    (hsim : Sim o start Allowed Good c log c' h s own) {i : ι} {t : τ} {command : C} {x : ρ × L}
    {s₁ : σ} (hallowed : Allowed command)
    (hrun : o.SameRun ((start command (own i)).run t c'.shared) (x, s₁)) :
    ∃ s', Legal (seqStep start) (h ++ [⟨i, t, command, x.1⟩]) (c.shared, fun i => (c.threads i).own)
        (s', Function.update own i x.2) ∧ o.Same s₁ s' ∧ Good x.2 := by
  have hblind := (hdisciplined.blind hallowed (hsim.good i)).run t c'.shared s hsim.same
  have hseq := hblind.symm.trans hrun
  refine ⟨((start command (own i)).run t s).2, legal_append hsim.legal ?_, ?_, ?_⟩
  · have hresult : ((start command (own i)).run t s).1 = x := hseq.result
    simp only [seqStep, hresult]
  · exact o.same_equiv.symm hseq.state
  · have hgood := hdisciplined.good t hallowed (hsim.good i) hsim.inv
    rw [hrun.result] at hgood
    exact hgood

theorem doneOf_self (i : ι) (t : τ) (command : C) (r : ρ) :
    doneOf i [⟨i, t, command, r⟩] = [⟨i, t, command, r⟩] := by simp [doneOf]

theorem doneOf_other {i j : ι} (hj : j ≠ i) (t : τ) (command : C) (r : ρ) :
    doneOf j [⟨i, t, command, r⟩] = [] := by simp [doneOf, Ne.symm hj]

/-- A command is received. -/
theorem Sim.receive (hdisciplined : Disciplined o start Allowed Good)
    (hsim : Sim o start Allowed Good c log c' h s own) {i : ι} {command : C} {rest : List C}
    (hidle : (c'.threads i).running = none) (hinput : (c'.threads i).input = command :: rest) :
    Sim o start Allowed Good c (log ++ [⟨i, .receive command, c'.shared, c'.shared⟩])
      (c'.put i { c'.threads i with running := some (start command (c'.threads i).own), input := rest }
        c'.shared) (h ++ []) s own := by
  have hallowed : Allowed command := hsim.input i command (by rw [hinput]; exact List.mem_cons_self)
  refine hsim.append ⟨hsim.inv, o.le_refl _⟩ (by rw [List.append_nil]; exact hsim.legal) nofun hsim.same
    (hsim.good i) ?_ ?_ fun j hj => ⟨Config.put_of_ne _ _ hj, rfl, rfl⟩
  · rw [Config.put_self, List.append_nil, commandsOf_append, repliesOf_append]
    cases hsim.status i with
    | idle _ hown hreceived hreplied =>
      refine .pending command _ rfl hown hallowed ?_ ?_ ?_ fun s' t _ _ => ?_
      · rw [hreceived]
        simp [commandsOf]
      · rw [hreplied]
        simp [repliesOf]
      · exact hdisciplined.linear hallowed (hown ▸ hsim.good i) hsim.inv
      · rw [hown]
        exact ⟨rfl, o.same_equiv.refl _⟩
    | pending _ q hrunning => cases hidle.symm.trans hrunning
    | effective x q hrunning => cases hidle.symm.trans hrunning
  · rw [Config.put_self]
    exact fun command' hmem => by rw [hinput]; exact List.mem_cons_of_mem _ hmem

/-- A reply is given. -/
theorem Sim.reply (hdisciplined : Disciplined o start Allowed Good)
    (hsim : Sim o start Allowed Good c log c' h s own) {i : ι} (t : τ) {x : ρ × L}
    (hrunning : (c'.threads i).running = some (.ret x)) :
    ∃ h' s' own', Sim o start Allowed Good c (log ++ [⟨i, .reply x.1, c'.shared, c'.shared⟩])
      (c'.put i { c'.threads i with own := x.2, running := none } c'.shared) (h ++ h') s' own' := by
  have hadvance : o.Advance c'.shared c'.shared := ⟨hsim.inv, o.le_refl _⟩
  cases hsim.status i with
  | idle hidle => cases hidle.symm.trans hrunning
  | pending command q hq hown hallowed hreceived hreplied hlinear hsame =>
    -- a program without calls takes effect at its reply
    obtain rfl := Option.some.inj (hq.symm.trans hrunning)
    have hrun := (hsame c'.shared t (o.le_refl _) hsim.inv).symm
    obtain ⟨s', hlegal, hsame', hgood⟩ := hsim.effect hdisciplined hallowed hrun
    refine ⟨_, s', _, hsim.append hadvance hlegal
      (List.forall_mem_singleton.mpr hallowed) hsame' ?_ ?_ ?_ fun j hj =>
      ⟨Config.put_of_ne _ _ hj, Function.update_of_ne hj _ _, doneOf_other hj _ _ _⟩⟩
    · rw [Function.update_self]
      exact hgood
    · rw [Config.put_self, Function.update_self, commandsOf_append, repliesOf_append, doneOf_append,
        doneOf_self]
      refine .idle rfl rfl ?_ ?_
      · rw [hreceived]
        simp [commandsOf]
      · rw [hreplied]
        simp [repliesOf]
    · rw [Config.put_self]
      exact fun _ hmem => hmem
  | effective x' q hq hown hreceived hreplied hquiet =>
    obtain rfl := Option.some.inj (hq.symm.trans hrunning)
    have hx : x = x' := hquiet
    refine ⟨[], s, own, hsim.append hadvance (by rw [List.append_nil]; exact hsim.legal) nofun hsim.same
      (hsim.good i) ?_ ?_ fun j hj => ⟨Config.put_of_ne _ _ hj, rfl, rfl⟩⟩
    · rw [Config.put_self, List.append_nil, commandsOf_append, repliesOf_append]
      refine .idle rfl (hown.trans (congrArg Prod.snd hx.symm)) ?_ ?_
      · rw [hreceived]
        simp [commandsOf]
      · rw [hreplied, hx]
        simp [repliesOf]
    · rw [Config.put_self]
      exact fun _ hmem => hmem

/-- A call is made. -/
theorem Sim.call (hdisciplined : Disciplined o start Allowed Good)
    (hsim : Sim o start Allowed Good c log c' h s own) {i : ι} (t : τ) {β : Type} {m : τ → σ → β × σ}
    {k : β → Prog τ σ (ρ × L)} (hrunning : (c'.threads i).running = some (.call m k)) :
    ∃ h' s' own', Sim o start Allowed Good c
      (log ++ [⟨i, .call, c'.shared, (m t c'.shared).2⟩])
      (c'.put i { c'.threads i with running := some (k (m t c'.shared).1) } (m t c'.shared).2)
      (h ++ h') s' own' := by
  have hcommands : commandsOf i (log ++ [⟨i, .call, c'.shared, (m t c'.shared).2⟩]) =
      commandsOf i log := by rw [commandsOf_append]; simp [commandsOf]
  have hreplies : repliesOf i (log ++ [⟨i, .call, c'.shared, (m t c'.shared).2⟩]) =
      repliesOf i log := by rw [repliesOf_append]; simp [repliesOf]
  cases hsim.status i with
  | idle hidle => cases hidle.symm.trans hrunning
  | pending command q hq hown hallowed hreceived hreplied hlinear hsame =>
    obtain rfl := Option.some.inj (hq.symm.trans hrunning)
    obtain ⟨hadvance, ⟨x, hquiet⟩ | ⟨hunseen, hstable, hrest⟩⟩ :=
      hlinear c'.shared t (o.le_refl _) hsim.inv
    · have hrun := (hsame c'.shared t (o.le_refl _) hsim.inv).symm.trans
        (hquiet.run t hadvance.inv)
      obtain ⟨s', hlegal, hsame', hgood⟩ := hsim.effect hdisciplined hallowed hrun
      refine ⟨_, s', _, hsim.append hadvance hlegal
      (List.forall_mem_singleton.mpr hallowed) hsame' ?_ ?_ ?_ fun j hj =>
        ⟨Config.put_of_ne _ _ hj, Function.update_of_ne hj _ _, doneOf_other hj _ _ _⟩⟩
      · rw [Function.update_self]
        exact hgood
      · rw [Config.put_self, Function.update_self, hcommands, hreplies, doneOf_append, doneOf_self]
        exact .effective x _ rfl rfl (by simp [hreceived]) (by simp [hreplied]) hquiet
      · rw [Config.put_self]
        exact fun _ hmem => hmem
    · refine ⟨[], s, own, hsim.append hadvance (by rw [List.append_nil]; exact hsim.legal) nofun
        (o.same_equiv.trans hunseen hsim.same) (hsim.good i) ?_ ?_
        fun j hj => ⟨Config.put_of_ne _ _ hj, rfl, rfl⟩⟩
      · rw [Config.put_self, List.append_nil, hcommands, hreplies]
        refine .pending command _ rfl hown hallowed hreceived hreplied hrest fun s'' t' hle hinv => ?_
        exact (hstable s'' t' hle hinv).trans (hsame s'' t' (o.le_trans hadvance.le hle) hinv)
      · rw [Config.put_self]
        exact fun _ hmem => hmem
  | effective x q hq hown hreceived hreplied hquiet =>
    obtain rfl := Option.some.inj (hq.symm.trans hrunning)
    obtain ⟨hadvance, hunseen, hrest⟩ := hquiet c'.shared t (o.le_refl _) hsim.inv
    refine ⟨[], s, own, hsim.append hadvance (by rw [List.append_nil]; exact hsim.legal) nofun
      (o.same_equiv.trans hunseen hsim.same) (hsim.good i) ?_ ?_
      fun j hj => ⟨Config.put_of_ne _ _ hj, rfl, rfl⟩⟩
    · rw [Config.put_self, List.append_nil, hcommands, hreplies]
      exact .effective x _ rfl hown hreceived hreplied hrest
    · rw [Config.put_self]
      exact fun _ hmem => hmem

theorem Sim.step (hdisciplined : Disciplined o start Allowed Good)
    (hsim : Sim o start Allowed Good c log c' h s own) {i : ι} {t : τ}
    (hstep : c'.step? start i t = some (e, c'')) :
    ∃ h' s' own', Sim o start Allowed Good c (log ++ [e]) c'' (h ++ h') s' own' := by
  unfold Config.step? at hstep
  split at hstep
  · rename_i hidle
    split at hstep
    · cases hstep
    · rename_i command rest hinput
      cases hstep
      exact ⟨[], s, own, hsim.receive hdisciplined hidle hinput⟩
  · rename_i x hx
    cases hstep
    exact hsim.reply hdisciplined t hx
  · rename_i β m k hk
    cases hstep
    exact hsim.call hdisciplined t hk

theorem Sim.run (hdisciplined : Disciplined o start Allowed Good)
    (hsim : Sim o start Allowed Good c log c' h s own) {schedule : List (ι × τ)}
    {log' : List (Entry ι σ C ρ)} (hrun : c'.run? start schedule = some (log', c'')) :
    ∃ h' s' own', Sim o start Allowed Good c (log ++ log') c'' h' s' own' := by
  induction schedule generalizing c' log log' h s own with
  | nil =>
    cases hrun
    exact ⟨h, s, own, by rwa [List.append_nil]⟩
  | cons x schedule ih =>
    obtain ⟨e, c₁, rest, hstep, hrest, rfl⟩ := Config.run?_cons (i := x.1) (t := x.2) hrun
    obtain ⟨h', s', own', hsim'⟩ := hsim.step hdisciplined hstep
    obtain ⟨h'', s'', own'', hfinal⟩ := ih hsim' hrest
    exact ⟨h'', s'', own'', by rwa [List.append_assoc] at hfinal⟩

end Steps

/-- Steps that agree on the commands of the history, in the states it can be in, explain the same. -/
theorem Explains.congr {step step' : Done ι τ C ρ → σ × (ι → L) → ρ × (σ × (ι → L))}
    {I : σ × (ι → L) → Prop} {c c' : Config ι τ σ L C ρ} {log : List (Entry ι σ C ρ)}
    {h : List (Done ι τ C ρ)} (hexplains : Explains o step c log c' h)
    (hinit : I (c.shared, fun i => (c.threads i).own))
    (hstep : ∀ x ∈ h, ∀ s, I s → step x s = step' x s ∧ I (step' x s).2) :
    Explains o step' c log c' h := by
  obtain ⟨s, own, hlegal, hsame⟩ := hexplains.legal
  refine { hexplains with legal := ⟨s, own, ?_, hsame⟩ }
  unfold Legal at hlegal ⊢
  rw [← hlegal]
  exact (runOps_congr hinit hstep).symm

/-- From idle threads, what the threads do under any schedule is explained by a sequential history of
allowed commands. -/
theorem linearizable (hdisciplined : Disciplined o start Allowed Good) {c c' : Config ι τ σ L C ρ}
    {schedule : List (ι × τ)} {log : List (Entry ι σ C ρ)} (hinv : o.Inv c.shared)
    (hthreads : ∀ i, (c.threads i).running = none ∧ Good (c.threads i).own ∧
      ∀ command ∈ (c.threads i).input, Allowed command)
    (hrun : c.run? start schedule = some (log, c')) :
    ∃ h, Explains o (seqStep start) c log c' h ∧ ∀ x ∈ h, Allowed x.command := by
  have hinit : Sim o start Allowed Good c [] c [] c.shared (fun i => (c.threads i).own) :=
    { legal := rfl
      allowed := nofun
      inv := hinv
      same := o.same_equiv.refl _
      good := fun i => (hthreads i).2.1
      input := fun i => (hthreads i).2.2
      status := fun i => .idle (hthreads i).1 rfl rfl rfl
      between := fun l₁ l₂ hsplit => by
        rw [List.nil_eq, List.append_eq_nil_iff] at hsplit
        exact ⟨[], [], rfl, fun i => by rw [hsplit.1]; exact ⟨Nat.le_refl _, Nat.le_refl _⟩⟩ }
  obtain ⟨h, s, own, hsim⟩ := hinit.run hdisciplined hrun
  rw [List.nil_append] at hsim
  refine ⟨h, ⟨⟨s, own, hsim.legal, hsim.same⟩, fun i => ?_, fun i => ?_, fun i hidle => ?_,
    hsim.between⟩, hsim.allowed⟩
  · cases hsim.status i with
    | idle _ _ _ hreplied => exact ⟨[], by rw [hreplied, List.append_nil]⟩
    | pending _ _ _ _ _ _ hreplied => exact ⟨[], by rw [hreplied, List.append_nil]⟩
    | effective x _ _ _ _ hreplied => exact ⟨[x.1], hreplied.symm⟩
  · cases hsim.status i with
    | idle _ _ hreceived => exact ⟨[], by rw [hreceived, List.append_nil]⟩
    | pending command _ _ _ _ hreceived => exact ⟨[command], hreceived.symm⟩
    | effective _ _ _ _ hreceived => exact ⟨[], by rw [hreceived, List.append_nil]⟩
  · cases hsim.status i with
    | idle _ _ hreceived hreplied => exact ⟨hreplied, hreceived.symm⟩
    | pending _ q hq => cases hidle.symm.trans hq
    | effective _ q hq => cases hidle.symm.trans hq

end History

end Lib
