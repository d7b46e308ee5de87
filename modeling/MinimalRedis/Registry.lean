import Mathlib.Data.Set.Insert
import MinimalRedis.Lib.Simulation
import MinimalRedis.Subscriptions

/-!
# The subscription registry as a relation

What the registry is for is a relation between clients and channels (`relation`).  The vectors behind
it repeat a client that subscribed twice, keep the order of subscription, and have to be erased when
they run empty.

* `relation_apply` — each method does to the relation what its name says;
* `others_apply` — and leaves the entries of all other clients alone, in every channel;
* `registry_refines_relation` — over every sequence of calls, a client is listed exactly when it has
  subscribed and not been unsubscribed since, and no channel has an empty vector.
-/

namespace MinimalRedis

open Lib

namespace PubSubManager

/-- A call of one of the three methods that change the registry. -/
inductive Call where
  | subscribe (fd : ℤ) (channel : Bytes)
  | unsubscribe (fd : ℤ) (channel : Bytes)
  | unsubscribeAll (fd : ℤ)
deriving DecidableEq

namespace Call

/-- The client a call is about. -/
def fd : Call → ℤ
  | .subscribe fd _ => fd
  | .unsubscribe fd _ => fd
  | .unsubscribeAll fd => fd

def apply : Call → PubSubManager → PubSubManager
  | .subscribe fd channel, r => r.subscribe fd channel
  | .unsubscribe fd channel, r => r.unsubscribe fd channel
  | .unsubscribeAll fd, r => r.unsubscribeAll fd

/-- What the call means for the relation. -/
def relate : Call → Set (ℤ × Bytes) → Set (ℤ × Bytes)
  | .subscribe fd channel, R => insert (fd, channel) R
  | .unsubscribe fd channel, R => R \ {(fd, channel)}
  | .unsubscribeAll fd, R => {p ∈ R | p.1 ≠ fd}

end Call

/-- The registry after a sequence of calls. -/
def run (calls : List Call) : PubSubManager := calls.foldl (fun r call => call.apply r) {}

/-- Who is listed where. -/
def relation (r : PubSubManager) : Set (ℤ × Bytes) := {p | p.1 ∈ r.getSubscribers p.2}

/-- No channel is mapped to an empty vector. -/
def NoEmptyVector (r : PubSubManager) : Prop :=
  ∀ channel subs, r.subscribers.find? channel = some subs → subs ≠ []

/-! ### The methods -/

section Methods

variable (fd : ℤ) (channel channel' : Bytes) (r : PubSubManager)

theorem getSubscribers_subscribe : (r.subscribe fd channel).getSubscribers channel' =
    if channel' = channel then r.getSubscribers channel' ++ [fd] else r.getSubscribers channel' := by
  rw [subscribe, getSubscribers, UMap.find?_set]
  by_cases hc : channel' = channel
  · rw [if_pos hc, if_pos hc, hc]
    rfl
  · rw [if_neg hc, if_neg hc]
    rfl

theorem find?_unsubscribeAll : (r.unsubscribeAll fd).subscribers.find? channel =
    ((r.subscribers.find? channel).map fun subs => subs.filter (· ≠ fd)).filter (· ≠ []) := by
  rw [unsubscribeAll, UMap.find?_filter, UMap.find?_mapValues]

theorem getSubscribers_unsubscribeAll : (r.unsubscribeAll fd).getSubscribers channel =
    (r.getSubscribers channel).filter (· ≠ fd) := by
  rw [getSubscribers, getSubscribers, find?_unsubscribeAll]
  cases r.subscribers.find? channel with
  | none => rfl
  | some subs =>
    rw [Option.map_some, Option.filter_some, Option.getD_some]
    split
    · rfl
    · rename_i hempty
      simpa using hempty

end Methods

/-! ### One call -/

section Calls

variable {r : PubSubManager} (call : Call)

theorem relation_apply : relation (call.apply r) = call.relate (relation r) := by
  ext ⟨fd', channel'⟩
  cases call with
  | subscribe fd channel =>
    show fd' ∈ (r.subscribe fd channel).getSubscribers channel' ↔ _
    rw [getSubscribers_subscribe, Call.relate, Set.mem_insert_iff, Prod.mk.injEq]
    by_cases hc : channel' = channel
    · simp [hc, relation, or_comm]
    · simp [hc, relation]
  | unsubscribe fd channel =>
    show fd' ∈ (r.unsubscribe fd channel).getSubscribers channel' ↔ _
    rw [getSubscribers_unsubscribe, Call.relate, Set.mem_sdiff, Set.mem_singleton_iff, Prod.mk.injEq]
    by_cases hc : channel' = channel
    · simp [hc, relation]
    · simp [hc, relation]
  | unsubscribeAll fd =>
    show fd' ∈ (r.unsubscribeAll fd).getSubscribers channel' ↔ _
    rw [getSubscribers_unsubscribeAll, List.mem_filter, decide_eq_true_eq]
    rfl

/-- The entries of the other clients, in order. -/
theorem others_apply (channel : Bytes) :
    ((call.apply r).getSubscribers channel).filter (· ≠ call.fd) =
      (r.getSubscribers channel).filter (· ≠ call.fd) := by
  cases call with
  | subscribe fd channel' =>
    show ((r.subscribe fd channel').getSubscribers channel).filter (· ≠ fd) =
      (r.getSubscribers channel).filter (· ≠ fd)
    rw [getSubscribers_subscribe]
    split
    · simp
    · rfl
  | unsubscribe fd channel' =>
    show ((r.unsubscribe fd channel').getSubscribers channel).filter (· ≠ fd) =
      (r.getSubscribers channel).filter (· ≠ fd)
    rw [getSubscribers_unsubscribe]
    split
    · simp
    · rfl
  | unsubscribeAll fd =>
    show ((r.unsubscribeAll fd).getSubscribers channel).filter (· ≠ fd) =
      (r.getSubscribers channel).filter (· ≠ fd)
    rw [getSubscribers_unsubscribeAll]
    simp

theorem mem_apply_of_ne {fd : ℤ} (hfd : fd ≠ call.fd) (channel : Bytes) :
    fd ∈ (call.apply r).getSubscribers channel ↔ fd ∈ r.getSubscribers channel := by
  have hothers := congrArg (fd ∈ ·) (others_apply (r := r) call channel)
  simpa [hfd] using hothers

theorem noEmptyVector_apply (h : r.NoEmptyVector) : (call.apply r).NoEmptyVector := by
  intro channel' subs hsubs
  cases call with
  | subscribe fd channel =>
    replace hsubs : (r.subscribe fd channel).subscribers.find? channel' = some subs := hsubs
    rw [subscribe, UMap.find?_set] at hsubs
    split at hsubs
    · rw [← Option.some.inj hsubs]
      exact List.concat_ne_nil _ _
    · exact h channel' subs hsubs
  | unsubscribe fd channel =>
    replace hsubs : (r.unsubscribe fd channel).subscribers.find? channel' = some subs := hsubs
    by_cases hc : channel' = channel
    · -- what the call leaves under its own channel is erased when empty
      subst hc
      intro hnil
      exact not_moves_unsubscribe fd channel' r ⟨subs, hsubs, .inl hnil⟩
    · rw [find?_unsubscribe_ne fd hc] at hsubs
      exact h channel' subs hsubs
  | unsubscribeAll fd =>
    replace hsubs : (r.unsubscribeAll fd).subscribers.find? channel' = some subs := hsubs
    rw [find?_unsubscribeAll, Option.filter_eq_some_iff] at hsubs
    exact of_decide_eq_true hsubs.2

end Calls

/-! ### Sequences of calls -/

theorem run_append_singleton (calls : List Call) (call : Call) :
    run (calls ++ [call]) = call.apply (run calls) := by
  rw [run, run, List.foldl_append]
  rfl

theorem relation_run (calls : List Call) :
    relation (run calls) = calls.foldl (fun R call => call.relate R) ∅ := by
  induction calls using List.reverseRecOn with
  | nil =>
    ext p
    exact iff_of_false List.not_mem_nil (Set.notMem_empty p)
  | append_singleton calls call ih =>
    rw [run_append_singleton, relation_apply, ih, List.foldl_append]
    rfl

theorem noEmptyVector_run (calls : List Call) : (run calls).NoEmptyVector := by
  induction calls using List.reverseRecOn with
  | nil =>
    intro channel subs h
    cases h
  | append_singleton calls call ih =>
    rw [run_append_singleton]
    exact noEmptyVector_apply call ih

/-- The call ends the subscription of the client to the channel. -/
def Call.ends (fd : ℤ) (channel : Bytes) (call : Call) : Prop :=
  call = .unsubscribe fd channel ∨ call = .unsubscribeAll fd

theorem mem_relate_iff (fd : ℤ) (channel : Bytes) (call : Call) (R : Set (ℤ × Bytes)) :
    (fd, channel) ∈ call.relate R ↔
      call = .subscribe fd channel ∨ (fd, channel) ∈ R ∧ ¬ call.ends fd channel := by
  cases call with
  | subscribe fd' channel' =>
    rw [Call.relate, Set.mem_insert_iff, Prod.mk.injEq, Call.subscribe.injEq, eq_comm,
      @eq_comm _ channel]
    simp [Call.ends]
  | unsubscribe fd' channel' =>
    rw [Call.relate, Set.mem_sdiff, Set.mem_singleton_iff, Prod.mk.injEq, eq_comm, @eq_comm _ channel]
    simp [Call.ends]
  | unsubscribeAll fd' =>
    show (fd, channel) ∈ R ∧ fd ≠ fd' ↔ _
    simp [Call.ends, eq_comm]

theorem mem_getSubscribers_run (calls : List Call) (fd : ℤ) (channel : Bytes) :
    fd ∈ (run calls).getSubscribers channel ↔
      Since (· = .subscribe fd channel) (Call.ends fd channel) calls := by
  induction calls using List.reverseRecOn with
  | nil => exact iff_of_false List.not_mem_nil (not_since_nil _ _)
  | append_singleton calls call ih =>
    rw [since_append_singleton, ← ih, run_append_singleton]
    show (fd, channel) ∈ relation (call.apply (run calls)) ↔ _
    rw [relation_apply]
    exact mem_relate_iff fd channel call _

/-- Over every sequence of calls from the empty registry: a client is listed for a channel exactly when
it subscribed and neither it was unsubscribed from the channel nor from all channels after that; the
registry is the relation the calls describe; no channel has an empty vector; and a further call changes
neither whether another client is listed nor the order of the others. -/
theorem registry_refines_relation (calls : List Call) :
    (∀ fd channel, fd ∈ (run calls).getSubscribers channel ↔
      ∃ before after, calls = before ++ .subscribe fd channel :: after ∧
        .unsubscribe fd channel ∉ after ∧ .unsubscribeAll fd ∉ after) ∧
    relation (run calls) = calls.foldl (fun R call => call.relate R) ∅ ∧
    (run calls).NoEmptyVector ∧
    ∀ (call : Call) channel,
      (∀ fd, fd ≠ call.fd → (fd ∈ (call.apply (run calls)).getSubscribers channel ↔
        fd ∈ (run calls).getSubscribers channel)) ∧
      ((call.apply (run calls)).getSubscribers channel).filter (· ≠ call.fd) =
        ((run calls).getSubscribers channel).filter (· ≠ call.fd) := by
  refine ⟨fun fd channel => ?_, relation_run calls, noEmptyVector_run calls, fun call channel =>
    ⟨fun fd hfd => mem_apply_of_ne call hfd channel, others_apply call channel⟩⟩
  rw [mem_getSubscribers_run]
  constructor
  · intro h
    obtain ⟨before, call, after, hcalls, rfl, hafter⟩ := h
    exact ⟨before, after, hcalls, fun hmem => hafter _ hmem (.inl rfl),
      fun hmem => hafter _ hmem (.inr rfl)⟩
  · intro h
    obtain ⟨before, after, hcalls, hone, hall⟩ := h
    refine ⟨before, _, after, hcalls, rfl, fun call hcall hends => ?_⟩
    rcases hends with rfl | rfl
    · exact hone hcall
    · exact hall hcall

end PubSubManager

end MinimalRedis
