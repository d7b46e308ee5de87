import Mathlib.Tactic.Common

/-!
# Runs of operations

An object is a step function: an operation takes a state to an output and a state.  `runOps` is a
sequence of operations, `AlongOps P` says that every operation meets `P` in the state it finds.

* `alongOps_iff` — `AlongOps` by the places in the sequence;
* `runOps_inv` — what every step preserves, a run preserves;
* `runOps_simulates` — two objects that answer alike from related states and stay related answer alike
  over whole runs;
* `runOps_answered` — the same against a specification that leaves the answers open;
* `since_append_singleton` — what has been set and not cleared since, by the last operation.
-/

namespace Lib

variable {ι σ τ ω : Type}

/-- The outputs of the operations in order, and the state behind them. -/
def runOps (step : ι → σ → ω × σ) : List ι → σ → List ω × σ
  | [], s => ([], s)
  | op :: ops, s =>
      let x := step op s
      let y := runOps step ops x.2
      (x.1 :: y.1, y.2)

/-- Every operation of the run meets `P` in the state it finds. -/
def AlongOps (P : ι → σ → Prop) (step : ι → σ → ω × σ) : List ι → σ → Prop
  | [], _ => True
  | op :: ops, s => P op s ∧ AlongOps P step ops (step op s).2

variable {step : ι → σ → ω × σ} {step' : ι → τ → ω × τ}

theorem runOps_append (ops ops' : List ι) (s : σ) :
    runOps step (ops ++ ops') s =
      ((runOps step ops s).1 ++ (runOps step ops' (runOps step ops s).2).1,
        (runOps step ops' (runOps step ops s).2).2) := by
  induction ops generalizing s with
  | nil => rfl
  | cons op ops ih => rw [List.cons_append, runOps, ih, runOps, List.cons_append]

theorem alongOps_iff {P : ι → σ → Prop} {ops : List ι} {s : σ} :
    AlongOps P step ops s ↔
      ∀ before op after, ops = before ++ op :: after → P op (runOps step before s).2 := by
  induction ops generalizing s with
  | nil =>
    refine iff_of_true trivial fun before op after h => ?_
    simp at h
  | cons op ops ih =>
    rw [AlongOps, ih]
    constructor
    · intro ⟨hop, hops⟩ before op' after h
      rcases List.cons_eq_append_iff.mp h with ⟨rfl, hcons⟩ | ⟨before', rfl, htail⟩
      · obtain ⟨rfl, -⟩ := List.cons.inj hcons
        exact hop
      · exact hops before' op' after htail
    · intro h
      refine ⟨h [] op ops rfl, fun before op' after htail => ?_⟩
      exact h (op :: before) op' after (by rw [htail, List.cons_append])

theorem AlongOps.before {P : ι → σ → Prop} {ops ops' : List ι} {s : σ}
    (h : AlongOps P step (ops ++ ops') s) : AlongOps P step ops s := by
  induction ops generalizing s with
  | nil => trivial
  | cons op ops ih => exact ⟨h.1, ih h.2⟩

/-- What every step preserves, a run preserves. -/
theorem runOps_inv {P : ι → σ → Prop} {I : σ → Prop}
    (hstep : ∀ op s, I s → P op s → I (step op s).2) {ops : List ι} {s : σ} (h : I s)
    (hops : AlongOps P step ops s) : I (runOps step ops s).2 := by
  induction ops generalizing s with
  | nil => exact h
  | cons op ops ih => exact ih (hstep op s h hops.1) hops.2

/-- Steps that answer alike and keep the relation make runs that answer alike. -/
theorem runOps_simulates {R : σ → τ → Prop} {P : ι → τ → Prop}
    (hstep : ∀ op s t, R s t → P op t →
      (step op s).1 = (step' op t).1 ∧ R (step op s).2 (step' op t).2)
    {ops : List ι} {s : σ} {t : τ} (h : R s t) (hops : AlongOps P step' ops t) :
    (runOps step ops s).1 = (runOps step' ops t).1 ∧
      R (runOps step ops s).2 (runOps step' ops t).2 := by
  induction ops generalizing s t with
  | nil => exact ⟨rfl, h⟩
  | cons op ops ih =>
    obtain ⟨hout, hrel⟩ := hstep op s t h hops.1
    obtain ⟨houts, hrels⟩ := ih hrel hops.2
    refine ⟨?_, hrels⟩
    show (step op s).1 :: _ = (step' op t).1 :: _
    rw [hout, houts]

/-! ### Answers of a specification -/

/-- Each output is an answer the specification allows in the abstract state that the operations before
it lead to. -/
def Answered (effect : ι → τ → τ) (Answers : ι → τ → ω → Prop) : List ι → List ω → τ → Prop
  | [], [], _ => True
  | op :: ops, out :: outs, x => Answers op x out ∧ Answered effect Answers ops outs (effect op x)
  | _, _, _ => False

/-- Steps that are answers, and take the abstract state where the specification does, make runs that
are. -/
theorem runOps_answered {effect : ι → τ → τ} {Answers : ι → τ → ω → Prop} {I : σ → Prop} (abs : σ → τ)
    (hstep : ∀ op s, I s → Answers op (abs s) (step op s).1 ∧
      abs (step op s).2 = effect op (abs s) ∧ I (step op s).2)
    (ops : List ι) {s : σ} (h : I s) :
    Answered effect Answers ops (runOps step ops s).1 (abs s) ∧
      abs (runOps step ops s).2 = ops.foldl (fun x op => effect op x) (abs s) := by
  induction ops generalizing s with
  | nil => exact ⟨trivial, rfl⟩
  | cons op ops ih =>
    obtain ⟨hanswer, habs, hkept⟩ := hstep op s h
    obtain ⟨hrest, hfinal⟩ := ih hkept
    rw [habs] at hrest hfinal
    exact ⟨⟨hanswer, hrest⟩, hfinal⟩

/-! ### What still holds -/

/-- Some operation of the sequence has set it, and none behind that has cleared it. -/
def Since (sets clears : ι → Prop) (ops : List ι) : Prop :=
  ∃ before op after, ops = before ++ op :: after ∧ sets op ∧ ∀ op' ∈ after, ¬ clears op'

theorem not_since_nil (sets clears : ι → Prop) : ¬ Since sets clears [] := by
  intro h
  obtain ⟨before, op, after, hops, -, -⟩ := h
  cases before <;> cases hops

theorem since_append_singleton {sets clears : ι → Prop} (ops : List ι) (op : ι) :
    Since sets clears (ops ++ [op]) ↔ sets op ∨ Since sets clears ops ∧ ¬ clears op := by
  constructor
  · intro h
    obtain ⟨before, op', after, hops, hsets, hclears⟩ := h
    rcases List.eq_nil_or_concat after with rfl | ⟨after, last, rfl⟩
    · obtain ⟨-, hlast⟩ := List.append_inj' hops rfl
      rw [List.singleton_inj] at hlast
      exact .inl (hlast ▸ hsets)
    · simp only [List.concat_eq_append] at hops hclears
      rw [← List.cons_append, ← List.append_assoc] at hops
      obtain ⟨rfl, hlast⟩ := List.append_inj' hops rfl
      rw [List.singleton_inj] at hlast
      subst hlast
      refine .inr ⟨⟨before, op', after, rfl, hsets, fun x hx => ?_⟩, ?_⟩
      · exact hclears x (List.mem_append_left _ hx)
      · exact hclears op (List.mem_append_right _ (List.mem_singleton_self _))
  · intro h
    rcases h with hsets | ⟨⟨before, op', after, rfl, hsets, hclears⟩, hlast⟩
    · exact ⟨ops, op, [], rfl, hsets, fun x hx => absurd hx List.not_mem_nil⟩
    · refine ⟨before, op', after ++ [op], by simp, hsets, fun x hx => ?_⟩
      rcases List.mem_append.mp hx with hx | hx
      · exact hclears x hx
      · rw [List.mem_singleton.mp hx]
        exact hlast

end Lib
