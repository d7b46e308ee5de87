import MinimalRedis.Lib.Traces

/-!
# Optimistic updates

Clients update a cell that they do not lock.  A client notes the tag of the cell, loads the value, makes a
new one of it, and commits; the cell takes it if its tag is still the noted one, and refuses it otherwise.
`tag n` is the tag behind `n` updates.

* `serializes` — while tags do not come back, the value is what the winners make of the first one, each of
  the value that its forerunner left: **no update is lost**; and a client is refused only when another
  update came in since it noted the tag.
-/

namespace Lib

namespace Machine

variable {ι κ σ ρ ε : Type} {step? : ι → σ → Option (Option ε × σ)} {step'? : κ → ρ → Option (Option ε × ρ)}

/-- Where every step is one of the other machine with the same event, or is not seen and has no event,
every run is one of the other machine with the same trace. -/
theorem run?_simulates {R : σ → ρ → Prop}
    (hstep : ∀ {a s e s' x}, R s x → step? a s = some (e, s') →
      (e = none ∧ R s' x) ∨ ∃ b x', step'? b x = some (e, x') ∧ R s' x')
    {as : List ι} {s s' : σ} {x : ρ} {trace : List ε} (h : R s x)
    (hrun : run? step? as s = some (trace, s')) :
    ∃ bs x', run? step'? bs x = some (trace, x') ∧ R s' x' := by
  induction as generalizing s x trace with
  | nil =>
    cases hrun
    exact ⟨[], x, rfl, h⟩
  | cons a as ih =>
    obtain ⟨e, s₁, rest, hfirst, hrest, rfl⟩ := run?_cons hrun
    rcases hstep h hfirst with ⟨rfl, h₁⟩ | ⟨b, x₁, hb, h₁⟩
    · exact ih h₁ hrest
    · obtain ⟨bs, x', hrun', h'⟩ := ih h₁ hrest
      exact ⟨b :: bs, x', run?_cons_of_step hb hrun', h'⟩

/-- A run has no more events than actions. -/
theorem length_trace_le {as : List ι} {s s' : σ} {trace : List ε}
    (hrun : run? step? as s = some (trace, s')) : trace.length ≤ as.length := by
  induction as generalizing s trace with
  | nil =>
    cases hrun
    exact Nat.le_refl _
  | cons a as ih =>
    obtain ⟨e, s₁, rest, -, hrest, rfl⟩ := run?_cons hrun
    have hone : e.toList.length ≤ 1 := by
      cases e with
      | none => exact Nat.zero_le _
      | some e => exact Nat.le_refl _
    have hle := ih hrest
    rw [List.length_append, List.length_cons]
    omega

end Machine

namespace Optimistic

variable {ι τ α : Type}

/-- Where a client stands in its update. -/
inductive Phase (τ α : Type) where
  | idle
  | noted (tag : τ)
  | loaded (tag : τ) (value : α)

/-- The cell behind `version` updates, and its clients. -/
structure State (ι τ α : Type) where
  value : α
  version : ℕ := 0
  phases : ι → Phase τ α := fun _ => .idle

inductive Action (ι : Type) where
  | note (i : ι)
  | load (i : ι)
  | commit (i : ι)

inductive Event (ι : Type) where
  | noted (i : ι)
  | won (i : ι)
  | lost (i : ι)

def Event.winner? : Event ι → Option ι
  | .won i => some i
  | _ => none

/-- The updates of a trace, in order. -/
def winners (trace : List (Event ι)) : List ι := trace.filterMap Event.winner?

variable [DecidableEq ι] [DecidableEq τ] (tag : ℕ → τ) (update : ι → α → α)

def State.move (i : ι) (phase : Phase τ α) (s : State ι τ α) : State ι τ α :=
  { s with phases := Function.update s.phases i phase }

omit [DecidableEq τ] in
theorem State.move_self (i : ι) (s : State ι τ α) : s.move i (s.phases i) = s := by
  rw [move, Function.update_eq_self]

def step? : Action ι → State ι τ α → Option (Option (Event ι) × State ι τ α)
  | .note i, s =>
      match s.phases i with
      | .idle => some (some (.noted i), s.move i (.noted (tag s.version)))
      | _ => none
  | .load i, s =>
      match s.phases i with
      | .noted t => some (none, s.move i (.loaded t s.value))
      | _ => none
  | .commit i, s =>
      match s.phases i with
      | .loaded t x =>
          if t = tag s.version then
            some (some (.won i), { s.move i .idle with value := update i x, version := s.version + 1 })
          else some (some (.lost i), s.move i .idle)
      | _ => none

/-- What the updates make of a value, one after the other. -/
def replay (is : List ι) (x : α) : α := is.foldl (fun x i => update i x) x

/-- Another update came in since `i` noted the tag. -/
def Outrun (i : ι) (before : List (Event ι)) : Prop :=
  ∃ past rest, before = past ++ .noted i :: rest ∧ .noted i ∉ rest ∧ winners rest ≠ []

/-- A refused client was outrun. -/
def Fair (before : List (Event ι)) (e : Event ι) : Prop := ∀ i, e = .lost i → Outrun i before

/-- A client has noted the tag behind the updates before, and has loaded the value behind some of them. -/
structure Noted (x₀ : α) (trace : List (Event ι)) (i : ι) (t : τ) (value : Option α) : Prop where
  since : ∃ past rest, trace = past ++ .noted i :: rest ∧ .noted i ∉ rest ∧ t = tag (winners past).length ∧
    ∀ x, value = some x → ∃ seen later, rest = seen ++ later ∧
      x = replay update (winners (past ++ .noted i :: seen)) x₀

/-- What holds behind a trace. -/
structure Inv (x₀ : α) (trace : List (Event ι)) (s : State ι τ α) : Prop where
  value : s.value = replay update (winners trace) x₀
  version : s.version = (winners trace).length
  fair : Always Fair trace
  noted : ∀ i t, s.phases i = .noted t → Noted tag update x₀ trace i t none
  loaded : ∀ i t x, s.phases i = .loaded t x → Noted tag update x₀ trace i t (some x)

omit [DecidableEq ι] [DecidableEq τ] in
theorem winners_append (xs ys : List (Event ι)) : winners (xs ++ ys) = winners xs ++ winners ys :=
  List.filterMap_append

variable {tag update} {x₀ x : α} {trace : List (Event ι)} {s s' : State ι τ α} {i : ι} {t : τ}
  {value : Option α} {e : Event ι}

omit [DecidableEq ι] [DecidableEq τ] in
theorem winners_noted (past rest : List (Event ι)) (i : ι) :
    winners (past ++ .noted i :: rest) = winners past ++ winners rest := winners_append ..

omit [DecidableEq ι] [DecidableEq τ] in
theorem Noted.append (h : Noted tag update x₀ trace i t value) (hne : .noted i ≠ e) :
    Noted tag update x₀ (trace ++ [e]) i t value := by
  obtain ⟨past, rest, htrace, hnone, htag, hvalue⟩ := h.since
  refine ⟨past, rest ++ [e], by rw [htrace, List.append_assoc, List.cons_append], ?_, htag, ?_⟩
  · simpa using ⟨hnone, hne⟩
  · intro x hx
    obtain ⟨seen, later, rfl, hreplay⟩ := hvalue x hx
    exact ⟨seen, later ++ [e], List.append_assoc .., hreplay⟩

omit [DecidableEq ι] [DecidableEq τ] in
/-- The client loads what is there. -/
theorem Noted.load (h : Noted tag update x₀ trace i t none) :
    Noted tag update x₀ trace i t (some (replay update (winners trace) x₀)) := by
  obtain ⟨past, rest, htrace, hnone, htag, -⟩ := h.since
  refine ⟨past, rest, htrace, hnone, htag, fun x hx => ?_⟩
  cases hx
  exact ⟨rest, [], (List.append_nil rest).symm, by rw [htrace]⟩

omit [DecidableEq ι] [DecidableEq τ] in
/-- Where no update came in since, the loaded value is the last one. -/
theorem Noted.value_eq (h : Noted tag update x₀ trace i t (some x))
    (hinj : ∀ n, n ≤ (winners trace).length → tag n = tag (winners trace).length →
      n = (winners trace).length) (htag : t = tag (winners trace).length) :
    x = replay update (winners trace) x₀ := by
  obtain ⟨past, rest, rfl, -, hpast, hvalue⟩ := h.since
  obtain ⟨seen, later, rfl, rfl⟩ := hvalue x rfl
  rw [winners_noted, winners_append] at hinj htag
  rw [winners_noted, winners_noted, winners_append]
  have hlen := hinj _ (by simp) (hpast.symm.trans htag)
  simp only [List.length_append] at hlen
  have hlater : winners later = [] := List.length_eq_zero_iff.mp (by omega)
  rw [hlater, List.append_nil]

omit [DecidableEq ι] [DecidableEq τ] in
/-- Where the tag has changed, an update came in. -/
theorem Noted.outrun (h : Noted tag update x₀ trace i t value) (htag : t ≠ tag (winners trace).length) :
    Outrun i trace := by
  obtain ⟨past, rest, rfl, hnone, hpast, -⟩ := h.since
  refine ⟨past, rest, rfl, hnone, fun hnil => htag ?_⟩
  rw [winners_noted, hnil, List.append_nil]
  exact hpast

omit [DecidableEq τ] in
/-- A step that no update comes with, `i` being the client that moves. -/
theorem Inv.quiet {phase : Phase τ α} {e : Option (Event ι)} (h : Inv tag update x₀ trace s)
    (hwinner : ∀ x ∈ e.toList, x.winner? = none) (hfair : ∀ x ∈ e.toList, Fair trace x)
    (hothers : ∀ j, j ≠ i → ∀ x ∈ e.toList, .noted j ≠ x)
    (hnoted : ∀ t, phase = .noted t → Noted tag update x₀ (trace ++ e.toList) i t none)
    (hloaded : ∀ t x, phase = .loaded t x → Noted tag update x₀ (trace ++ e.toList) i t (some x)) :
    Inv tag update x₀ (trace ++ e.toList) (s.move i phase) := by
  have hwinners : winners (trace ++ e.toList) = winners trace := by
    have hnone : winners e.toList = [] := List.filterMap_eq_nil_iff.mpr hwinner
    rw [winners_append, hnone, List.append_nil]
  have hkept : ∀ j t value, j ≠ i → Noted tag update x₀ trace j t value →
      Noted tag update x₀ (trace ++ e.toList) j t value := by
    intro j t value hj hnote
    cases e with
    | none => rwa [Option.toList_none, List.append_nil]
    | some e => exact hnote.append (hothers j hj e (List.mem_singleton_self e))
  refine ⟨?_, ?_, ?_, fun j t hj => ?_, fun j t x hj => ?_⟩
  · rw [hwinners]
    exact h.value
  · rw [hwinners]
    exact h.version
  · cases e with
    | none => rw [Option.toList_none, List.append_nil]; exact h.fair
    | some e => exact always_append_singleton.mpr ⟨h.fair, hfair e (List.mem_singleton_self e)⟩
  · replace hj : Function.update s.phases i phase j = .noted t := hj
    by_cases hij : j = i
    · rw [hij, Function.update_self] at hj
      exact hij ▸ hnoted t hj
    · rw [Function.update_of_ne hij] at hj
      exact hkept j t none hij (h.noted j t hj)
  · replace hj : Function.update s.phases i phase j = .loaded t x := hj
    by_cases hij : j = i
    · rw [hij, Function.update_self] at hj
      exact hij ▸ hloaded t x hj
    · rw [Function.update_of_ne hij] at hj
      exact hkept j t (some x) hij (h.loaded j t x hj)

/-- One step, while the tags so far are distinct. -/
theorem inv_step {a : Action ι} {e : Option (Event ι)} (h : Inv tag update x₀ trace s)
    (hinj : ∀ n, n ≤ (winners trace).length → tag n = tag (winners trace).length →
      n = (winners trace).length)
    (hstep : step? tag update a s = some (e, s')) : Inv tag update x₀ (trace ++ e.toList) s' := by
  cases a with
  | note i =>
    simp only [step?] at hstep
    split at hstep
    · cases hstep
      refine h.quiet (fun x hx => ?_) (fun x hx => ?_) (fun j hj x hx => ?_) (fun t ht => ?_) nofun
      · cases List.mem_singleton.mp hx
        rfl
      · cases List.mem_singleton.mp hx
        exact nofun
      · cases List.mem_singleton.mp hx
        exact fun heq => hj (Event.noted.inj heq)
      · cases ht
        exact ⟨trace, [], rfl, List.not_mem_nil, by rw [h.version], nofun⟩
    · cases hstep
  | load i =>
    simp only [step?] at hstep
    split at hstep
    · rename_i t hphase
      cases hstep
      refine h.quiet nofun nofun (fun _ _ => nofun) nofun fun t x hx => ?_
      cases hx
      rw [Option.toList_none, List.append_nil, h.value]
      exact (h.noted i t hphase).load
    · cases hstep
  | commit i =>
    simp only [step?] at hstep
    split at hstep
    · rename_i t x hphase
      have hnote := h.loaded i t x hphase
      split at hstep
      · rename_i htag
        cases hstep
        rw [h.version] at htag
        have hx := hnote.value_eq hinj htag
        have hone : winners (trace ++ [.won i]) = winners trace ++ [i] := winners_append ..
        refine ⟨?_, ?_, ?_, fun j t' hj => ?_, fun j t' x' hj => ?_⟩
        · show update i x = replay update (winners (trace ++ [.won i])) x₀
          rw [hone, replay, List.foldl_append, hx]
          rfl
        · show s.version + 1 = (winners (trace ++ [.won i])).length
          rw [hone, List.length_append, h.version]
          rfl
        · exact always_append_singleton.mpr ⟨h.fair, nofun⟩
        · replace hj : Function.update s.phases i .idle j = .noted t' := hj
          by_cases hij : j = i
          · rw [hij, Function.update_self] at hj
            cases hj
          · rw [Function.update_of_ne hij] at hj
            exact (h.noted j t' hj).append nofun
        · replace hj : Function.update s.phases i .idle j = .loaded t' x' := hj
          by_cases hij : j = i
          · rw [hij, Function.update_self] at hj
            cases hj
          · rw [Function.update_of_ne hij] at hj
            exact (h.loaded j t' x' hj).append nofun
      · rename_i htag
        cases hstep
        rw [h.version] at htag
        refine h.quiet (fun y hy => ?_) (fun y hy => ?_) (fun j hj y hy => ?_) nofun nofun
        · cases List.mem_singleton.mp hy
          rfl
        · cases List.mem_singleton.mp hy
          intro j hj
          cases hj
          exact hnote.outrun htag
        · cases List.mem_singleton.mp hy
          exact nofun
    · cases hstep

omit [DecidableEq ι] [DecidableEq τ] in
theorem inv_start (x₀ : α) : Inv tag update x₀ ([] : List (Event ι)) ({ value := x₀ } : State ι τ α) where
  value := rfl
  version := rfl
  fair := always_nil _
  noted _ _ h := by cases h
  loaded _ _ _ h := by cases h

/-- **No update is lost.** -/
theorem serializes {as : List (Action ι)}
    (hrun : Machine.run? (step? tag update) as { value := x₀ } = some (trace, s))
    (hinj : ∀ m n, m ≤ trace.length → n ≤ trace.length → tag m = tag n → m = n) :
    s.value = replay update (winners trace) x₀ ∧ Always Fair trace := by
  -- the tags are distinct as long as the trace is not longer than the whole one
  have h := Machine.run_inv_nil
    (I := fun past s => past.length ≤ trace.length → Inv tag update x₀ past s)
    (fun {past a s e s'} hI hstep hlen => by
      rw [List.length_append] at hlen
      have hwinners : (winners past).length ≤ past.length := List.length_filterMap_le ..
      exact inv_step (hI (by omega)) (fun n hn => hinj n _ (by omega) (by omega)) hstep)
    (fun _ => inv_start x₀) hrun (Nat.le_refl _)
  exact ⟨h.value, h.fair⟩

end Optimistic

end Lib
