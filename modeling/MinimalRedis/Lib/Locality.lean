import Mathlib.Data.Set.Basic
import MinimalRedis.Lib.Threads

/-!
# Local operations

A state is seen through `view : σ → κ → ν`, key by key.  An operation is `Within keys` when it neither
reads nor writes elsewhere: what is under other keys stays, and its result and what it leaves under
`keys` depend on what was there only.

* `Within.commute` — operations within disjoint keys commute, results included;
* `Prog.CallsWithin` — a program all of whose calls are within `keys`, whatever their results;
  `CallsWithin.within` runs it;
* `Prog.Along` — what holds of every call that a run makes, before and after it; `along_bind` composes.
-/

namespace Lib

variable {σ κ ν τ α β : Type} (view : σ → κ → ν)

structure Within (keys : Set κ) (m : σ → α × σ) : Prop where
  frame : ∀ s, ∀ k ∉ keys, view (m s).2 k = view s k
  result : ∀ s s', (∀ k ∈ keys, view s k = view s' k) → (m s).1 = (m s').1
  effect : ∀ s s', (∀ k ∈ keys, view s k = view s' k) → ∀ k ∈ keys, view (m s).2 k = view (m s').2 k

namespace Within

variable {view} {keys keys' : Set κ} {m : σ → α × σ} {n : σ → β × σ}

theorem ret (a : α) : Within view keys fun s => (a, s) where
  frame _ _ _ := rfl
  result _ _ _ := rfl
  effect _ _ h := h

/-- An operation that writes nothing. -/
theorem read {f : σ → α} (h : ∀ s s', (∀ k ∈ keys, view s k = view s' k) → f s = f s') :
    Within view keys fun s => (f s, s) where
  frame _ _ _ := rfl
  result := h
  effect _ _ h := h

theorem mono (h : Within view keys m) (hkeys : keys ⊆ keys') : Within view keys' m where
  frame s k hk := h.frame s k fun hmem => hk (hkeys hmem)
  result s s' hs := h.result s s' fun k hk => hs k (hkeys hk)
  effect s s' hs k hk := by
    by_cases hmem : k ∈ keys
    · exact h.effect s s' (fun k hk => hs k (hkeys hk)) k hmem
    · rw [h.frame s k hmem, h.frame s' k hmem]
      exact hs k hk

/-- Operations one after the other. -/
theorem bind {f : α → σ → β × σ} (h : Within view keys m) (hf : ∀ a, Within view keys (f a)) :
    Within view keys fun s => f (m s).1 (m s).2 where
  frame s k hk := ((hf _).frame _ k hk).trans (h.frame s k hk)
  result s s' hs := by
    rw [h.result s s' hs]
    exact (hf _).result _ _ (h.effect s s' hs)
  effect s s' hs := by
    rw [h.result s s' hs]
    exact (hf _).effect _ _ (h.effect s s' hs)

/-- An operation elsewhere is not noticed. -/
theorem agree_elsewhere (h : Within view keys m) (hkeys : ∀ k ∈ keys', k ∉ keys) (s : σ) :
    ∀ k ∈ keys', view (m s).2 k = view s k :=
  fun k hk => h.frame s k (hkeys k hk)

/-- The two orders give the same results and leave the same under every key. -/
theorem commute (hm : Within view keys m) (hn : Within view keys' n)
    (hdisjoint : ∀ k ∈ keys, k ∉ keys') (s : σ) :
    (m (n s).2).1 = (m s).1 ∧ (n (m s).2).1 = (n s).1 ∧
      ∀ k, view (m (n s).2).2 k = view (n (m s).2).2 k := by
  have hafter_n := hn.agree_elsewhere hdisjoint s
  have hafter_m := hm.agree_elsewhere (fun k hk' hk => hdisjoint k hk hk') s
  refine ⟨hm.result _ _ hafter_n, hn.result _ _ hafter_m, fun k => ?_⟩
  by_cases hk : k ∈ keys
  · rw [hn.frame _ k (hdisjoint k hk)]
    exact hm.effect _ _ hafter_n k hk
  · rw [hm.frame _ k hk]
    by_cases hk' : k ∈ keys'
    · exact (hn.effect _ _ hafter_m k hk').symm
    · rw [hn.frame _ k hk', hn.frame _ k hk', hm.frame _ k hk]

end Within

namespace Prog

/-- Every call the program can come to is within `keys`. -/
inductive CallsWithin (keys : Set κ) : Prog τ σ α → Prop where
  | ret (a : α) : CallsWithin keys (ret a)
  | call {β : Type} {m : τ → σ → β × σ} {k : β → Prog τ σ α} :
      (∀ t, Within view keys (m t)) → (∀ b, CallsWithin keys (k b)) → CallsWithin keys (call m k)

namespace CallsWithin

variable {view} {keys keys' : Set κ}

theorem lift {m : τ → σ → β × σ} (h : ∀ t, Within view keys (m t)) :
    CallsWithin view keys (Prog.lift m) := .call h fun b => .ret b

theorem mono {p : Prog τ σ α} (h : CallsWithin view keys p) (hkeys : keys ⊆ keys') :
    CallsWithin view keys' p := by
  induction h with
  | ret a => exact .ret a
  | call hm _ ih => exact .call (fun t => (hm t).mono hkeys) ih

theorem bind {p : Prog τ σ α} {f : α → Prog τ σ β} (h : CallsWithin view keys p)
    (hf : ∀ a, CallsWithin view keys (f a)) : CallsWithin view keys (p.bind f) := by
  induction h with
  | ret a => exact hf a
  | call hm _ ih => exact .call hm ih

theorem ite {P : Prop} [Decidable P] {p q : Prog τ σ α} (hp : CallsWithin view keys p)
    (hq : CallsWithin view keys q) : CallsWithin view keys (if P then p else q) := by
  split
  · exact hp
  · exact hq

/-- A run of the program is one operation within `keys`. -/
theorem within {p : Prog τ σ α} (h : CallsWithin view keys p) (t : τ) :
    Within view keys (p.run t) := by
  induction h with
  | ret a => exact .ret a
  | call hm _ ih => exact (hm t).bind ih

end CallsWithin

/-! ### What the calls of a run do -/

/-- Every call of the run from `s` takes the state in a step of `P`. -/
def Along (P : σ → σ → Prop) (t : τ) : Prog τ σ α → σ → Prop
  | ret _, _ => True
  | call m k, s => P s (m t s).2 ∧ (k (m t s).1).Along P t (m t s).2

variable {P Q : σ → σ → Prop} {t : τ}

theorem Along.mono {p : Prog τ σ α} {s : σ} (h : p.Along P t s) (hPQ : ∀ s s', P s s' → Q s s') :
    p.Along Q t s := by
  induction p generalizing s with
  | ret a => trivial
  | call m k ih => exact ⟨hPQ _ _ h.1, ih _ h.2⟩

theorem Along.ite {c : Prop} [Decidable c] {p q : Prog τ σ α} {s : σ} (hp : p.Along P t s)
    (hq : q.Along P t s) : (if c then p else q).Along P t s := by
  split
  · exact hp
  · exact hq

theorem along_bind {p : Prog τ σ α} {f : α → Prog τ σ β} {s : σ} (h : p.Along P t s)
    (hf : (f (p.run t s).1).Along P t (p.run t s).2) : (p.bind f).Along P t s := by
  induction p generalizing s with
  | ret a => exact hf
  | call m k ih => exact ⟨h.1, ih _ h.2 hf⟩

end Prog

end Lib
