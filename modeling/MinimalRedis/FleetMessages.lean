import MinimalRedis.FleetRefinement

/-!
# Messages between the connections

* `Server.inbox` — what the commands of a history put into the mailbox of one client;
* `pubsubMessages_run` — the mailbox is that, while nothing takes messages out;
* `messages_in_order` — the messages written to a client and those that wait are what the `PUBLISH`es of
  the history sent it since it connected, each as often as the registry lists it, in order; and a handler
  in `select` with messages waiting can be woken up.

The last part holds between the steps of `Fleet`: in the code the byte is written behind the push, and
between the two a message waits without one (`notify_never_strands`).
-/

namespace MinimalRedis

open Lib

variable {S : Type} [Score S] {Λ : Type}

namespace Server

/-- What was put into the mailbox of `fd` since it was accepted, given what was before the event. -/
def gathers (fd : ℤ) (past : List Bytes) (srv : Server S Λ) : ServerEvent → List Bytes
  | .accept fd' _ => if fd' = fd then [] else past
  | .close _ => past
  | .command fd' _ command =>
      match srv.processors.find? fd' with
      | none => past
      | some p => past ++ sends command ⟨srv.world, p⟩ fd

def inbox (env : Env Λ) (boot : Λ) (fd : ℤ) : List ServerEvent → List Bytes → Server S Λ → List Bytes
  | [], past, _ => past
  | e :: es, past, srv =>
      match srv.step? env boot e with
      | none => past
      | some x => inbox env boot fd es (srv.gathers fd past e) x.2

variable {env : Env Λ} {boot : Λ} {e : ServerEvent} {es : List ServerEvent} {srv srv' : Server S Λ}
  {x : Bytes × Server S Λ} {past : List Bytes} {fd : ℤ}

theorem pubsubMessages_step
    (h : ∀ m, srv.world.clientProcessors.find? fd = some m → m.pubsubMessages = past)
    (hstep : srv.step? env boot e = some x) :
    ∀ m, x.2.world.clientProcessors.find? fd = some m → m.pubsubMessages = srv.gathers fd past e := by
  intro m hm
  obtain ⟨fd', n, rfl, -, -, rfl⟩ | ⟨fd', p, rfl, -, rfl⟩ | ⟨fd', now, command, p, rfl, hp, rfl⟩ :=
    step?_cases hstep
  · replace hm : (srv.world.clientProcessors.set fd' _).find? fd = some m := hm
    rw [gathers]
    by_cases hfd : fd' = fd
    · rw [hfd, UMap.find?_set_self] at hm
      cases hm
      exact (if_pos hfd).symm
    · rw [UMap.find?_set_ne _ _ (Ne.symm hfd)] at hm
      rw [if_neg hfd]
      exact h m hm
  · replace hm : (srv.world.clientProcessors.erase fd').find? fd = some m := hm
    have hfd : fd ≠ fd' := by
      intro heq
      rw [heq, UMap.find?_erase_self] at hm
      cases hm
    rw [UMap.find?_erase_ne _ hfd] at hm
    exact h m hm
  · replace hm : (processCommand env now command ⟨srv.world, p⟩).2.world.clientProcessors.find? fd =
      some m := hm
    rw [clientProcessors_processCommand, find?_mailboxesAfter] at hm
    obtain ⟨m₀, hm₀, rfl⟩ := Option.map_eq_some_iff.mp hm
    rw [gathers, hp, Mailbox.pubsubMessages_receive, h m₀ hm₀]

theorem pubsubMessages_run
    (h : ∀ m, srv.world.clientProcessors.find? fd = some m → m.pubsubMessages = past)
    (hrun : srv.run? env boot es = some srv') :
    ∀ m, srv'.world.clientProcessors.find? fd = some m →
      m.pubsubMessages = inbox env boot fd es past srv := by
  induction es generalizing srv past with
  | nil =>
    cases hrun
    exact h
  | cons e es ih =>
    obtain ⟨x, hx, hrest⟩ := run?_cons hrun
    rw [inbox, hx]
    exact ih (pubsubMessages_step h hx) hrest

end Server

/-- **Messages arrive in order, each once**, while no two commands overlap.  However the threads take
turns between whole commands: for every open connection, the messages written to the client and those that
wait for it are, in order, what the commands executed since it connected have sent it, each as often as
the registry lists it.  Between two commands a handler in `select` with messages waiting has a byte in its
pipe. -/
theorem messages_in_order (env : Env Λ) (boot : Λ) (grants : ℕ) (d : Data S) {actions : List FleetAction}
    {trace : List Occurrence} {f : Fleet S Λ} {fd : ℤ} {h : Handler Λ}
    (hrun : Machine.run? (Fleet.step? env boot grants) actions (Fleet.start d) = some (trace, f))
    (hh : f.handlers.find? fd = some h) :
    ∃ mailbox, f.world.clientProcessors.find? fd = some mailbox ∧
      (lifetime fd trace).filterMap Occurrence.message? ++ mailbox.pubsubMessages =
        Server.inbox env boot fd (historyOf trace) [] (Server.start d) ∧
      (h.phase = .selecting → mailbox.pubsubMessages ≠ [] → 0 < mailbox.notifyBytes) := by
  obtain ⟨srv, hrep⟩ := exists_represents hrun
  obtain ⟨m, m', hm, hm', hown⟩ := hrep.handlers fd h hh
  refine ⟨m, hm, ?_, fun hphase hne => ?_⟩
  · rw [← hown.messages]
    exact Server.pubsubMessages_run (fun _ hnone => by cases hnone) (Server.run?_of_emit hrep.history) m' hm'
  · refine (hown.awake.resolve_left ?_).resolve_left hne
    rw [hphase]
    decide

theorem messages_in_order_publishing :
    ∃ trace f h, Machine.run? (Fleet.step? Env.standalone () 8192) publishing
        (Fleet.start (∅ : Data NatScore)) = some (trace, f) ∧ f.handlers.find? 7 = some h ∧
      (lifetime 7 trace).filterMap Occurrence.message? = [pubsubMessage [99] [109]] ∧
      ∃ mailbox, f.world.clientProcessors.find? 7 = some mailbox ∧
        (lifetime 7 trace).filterMap Occurrence.message? ++ mailbox.pubsubMessages =
          Server.inbox Env.standalone () 7 (historyOf trace) [] (Server.start (∅ : Data NatScore)) ∧
        (h.phase = .selecting → mailbox.pubsubMessages ≠ [] → 0 < mailbox.notifyBytes) := by
  obtain ⟨trace, f, hrun, hmessages, hopen⟩ := exists_publishing
  obtain ⟨h, hh⟩ := Option.isSome_iff_exists.mp hopen
  exact ⟨trace, f, h, hrun, hh, hmessages, messages_in_order Env.standalone () 8192 ∅ hrun hh⟩

end MinimalRedis
