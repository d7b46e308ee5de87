import MinimalRedis.Lib.Simulation

/-!
# Messages from data that arrives in pieces

A reader `next` takes a message off the front of the data, or finds that there is none yet.  It is
`Stable` when a message that is there stays the same whatever arrives behind it.

* `Takes next xs ms rest` — the messages `ms` can be taken off `xs` one after the other, which leaves
  `rest`; with nothing left to take, messages and rest are determined (`Takes.unique`);
* `Implements` — an object that is fed pieces and asked for messages, in any order, and answers as the
  reader does on what it has not given out yet;
* `takes_runOps` — over every sequence of arrivals and attempts, its messages are taken off **all that
  arrived**, so how the data was cut and when it was asked for make no difference.
-/

namespace Lib

variable {α μ σ ω : Type}

/-- Data behind a message does not change it. -/
def Stable (next : List α → Option (μ × List α)) : Prop :=
  ∀ xs m rest, next xs = some (m, rest) → ∀ ys, next (xs ++ ys) = some (m, rest ++ ys)

/-- The messages `ms` come off the front of the data one after the other and leave the rest. -/
inductive Takes (next : List α → Option (μ × List α)) : List α → List μ → List α → Prop where
  | done (xs : List α) : Takes next xs [] xs
  | take {xs ys rest : List α} {m : μ} {ms : List μ} : next xs = some (m, ys) →
      Takes next ys ms rest → Takes next xs (m :: ms) rest

variable {next : List α → Option (μ × List α)} {xs rest : List α} {ms : List μ}

theorem Takes.append {ys : List α} {ms' : List μ} (h : Takes next xs ms rest)
    (h' : Takes next rest ms' ys) : Takes next xs (ms ++ ms') ys := by
  induction h with
  | done xs => exact h'
  | take hnext _ ih => exact .take hnext (ih h')

/-- More data behind leaves the messages alone and lengthens the rest. -/
theorem Takes.more (hstable : Stable next) (h : Takes next xs ms rest) (ys : List α) :
    Takes next (xs ++ ys) ms (rest ++ ys) := by
  induction h with
  | done xs => exact .done _
  | take hnext _ ih => exact .take (hstable _ _ _ hnext ys) ih

/-- With no message left, the messages and the rest are determined. -/
theorem Takes.unique {rest' : List α} {ms' : List μ} (h : Takes next xs ms rest)
    (hdone : next rest = none) (h' : Takes next xs ms' rest') (hdone' : next rest' = none) :
    ms = ms' ∧ rest = rest' := by
  induction h generalizing ms' with
  | done xs =>
    cases h' with
    | done => exact ⟨rfl, rfl⟩
    | take hnext _ =>
      rw [hdone] at hnext
      cases hnext
  | take hnext _ ih =>
    cases h' with
    | done =>
      rw [hdone'] at hnext
      cases hnext
    | take hnext' hrest' =>
      obtain ⟨rfl, rfl⟩ := Prod.mk.inj (Option.some.inj (hnext.symm.trans hnext'))
      obtain ⟨rfl, hrest⟩ := ih hdone hrest'
      exact ⟨rfl, hrest⟩

/-- Messages that are the data they were taken from, one behind the other. -/
theorem Takes.flatMap_append {bytes : μ → List α}
    (hbytes : ∀ xs m rest, next xs = some (m, rest) → xs = bytes m ++ rest)
    (h : Takes next xs ms rest) : xs = ms.flatMap bytes ++ rest := by
  induction h with
  | done xs => rfl
  | take hnext _ ih => rw [hbytes _ _ _ hnext, ih, List.flatMap_cons, List.append_assoc]

/-! ### Objects that are fed and asked -/

/-- A piece of data arrives, or a message is asked for. -/
inductive Receive (α : Type) where
  | append (piece : List α)
  | next

/-- All that arrives over a sequence of operations. -/
def received : List (Receive α) → List α
  | [] => []
  | .append piece :: ops => piece ++ received ops
  | .next :: ops => received ops

/-- In states that meet `I`, the object answers as the reader does on its unread data, and keeps what
it has not given out. -/
structure Implements (next : List α → Option (μ × List α)) (step : Receive α → σ → ω × σ)
    (I : σ → Prop) (unread : σ → List α) (message : ω → Option μ) : Prop where
  inv : ∀ op s, I s → I (step op s).2
  append : ∀ piece s, I s → message (step (.append piece) s).1 = none ∧
    unread (step (.append piece) s).2 = unread s ++ piece
  waits : ∀ s, I s → next (unread s) = none →
    message (step .next s).1 = none ∧ unread (step .next s).2 = unread s
  gives : ∀ s m rest, I s → next (unread s) = some (m, rest) →
    message (step .next s).1 = some m ∧ unread (step .next s).2 = rest

variable {step : Receive α → σ → ω × σ} {I : σ → Prop} {unread : σ → List α}
  {message : ω → Option μ}

/-- The messages of a run are taken off what was unread and all that arrived. -/
theorem takes_runOps (himpl : Implements next step I unread message) (hstable : Stable next)
    (ops : List (Receive α)) {s : σ} (hs : I s) :
    Takes next (unread s ++ received ops) ((runOps step ops s).1.filterMap message)
      (unread (runOps step ops s).2) := by
  induction ops generalizing s with
  | nil =>
    rw [received, List.append_nil]
    exact .done _
  | cons op ops ih =>
    have hrest := ih (himpl.inv op s hs)
    rw [runOps]
    simp only
    cases op with
    | append piece =>
      obtain ⟨hmessage, hunread⟩ := himpl.append piece s hs
      rw [hunread, List.append_assoc] at hrest
      rw [List.filterMap_cons_none hmessage]
      exact hrest
    | next =>
      cases hnext : next (unread s) with
      | none =>
        obtain ⟨hmessage, hunread⟩ := himpl.waits s hs hnext
        rw [hunread] at hrest
        rw [List.filterMap_cons_none hmessage]
        exact hrest
      | some x =>
        obtain ⟨hmessage, hunread⟩ := himpl.gives s x.1 x.2 hs hnext
        rw [hunread] at hrest
        rw [List.filterMap_cons_some hmessage]
        exact .take (hstable _ _ _ hnext _) hrest

/-- An object without a message stays without one until more arrives. -/
theorem next_replicate_of_none (himpl : Implements next step I unread message) {s : σ} (hs : I s)
    (h : next (unread s) = none) (k : ℕ) :
    next (unread (runOps step (List.replicate k .next) s).2) = none := by
  induction k generalizing s with
  | zero => exact h
  | succ k ih =>
    refine ih (himpl.inv .next s hs) ?_
    rw [(himpl.waits s hs h).2]
    exact h

/-- Asked often enough, an object whose reader takes something off with each message has none left. -/
theorem next_replicate (himpl : Implements next step I unread message)
    (hshorter : ∀ xs m rest, next xs = some (m, rest) → rest.length < xs.length) {s : σ} (hs : I s)
    {k : ℕ} (hk : (unread s).length ≤ k) :
    next (unread (runOps step (List.replicate k .next) s).2) = none := by
  induction k generalizing s with
  | zero =>
    refine next_replicate_of_none himpl hs ?_ 0
    cases hnext : next (unread s) with
    | none => rfl
    | some x =>
      have hlt := hshorter _ x.1 x.2 hnext
      omega
  | succ k ih =>
    cases hnext : next (unread s) with
    | none => exact next_replicate_of_none himpl hs hnext (k + 1)
    | some x =>
      have hlt := hshorter _ x.1 x.2 hnext
      have hgives := (himpl.gives s x.1 x.2 hs hnext).2
      exact ih (himpl.inv .next s hs) (by rw [hgives]; omega)

end Lib
