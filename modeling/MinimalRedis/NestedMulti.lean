import MinimalRedis.TransactionRuns

/-!
# `MULTI` and `WATCH` inside a transaction

Both handlers refuse to run while a transaction is open.  The test that decides whether a handler runs
at all stands before them in `process_command`, and it queues everything but `EXEC` and `DISCARD`.

* `step_nested` — in an open transaction the two commands are queued like any other;
* `length_queuedBy` — the queue counts them;
* `nested_commands_never_refused` — so over every run they are never refused, and the reply of `EXEC`
  has as many elements as there were other commands only when none of the two was sent.
-/

namespace MinimalRedis

open Lib

variable {S : Type} [Score S] {Λ : Type}

/-- `MULTI` or `WATCH`. -/
def RespValue.nests (command : RespValue) : Bool :=
  command.command? == some .multi || command.command? == some .watch

/-- What client `A` sent to the queue since its `MULTI`, the two commands apart. -/
def othersInside (A : ℕ) (since : List Request) : List Request :=
  since.filter fun r => r.client == A && r.command.queued?.isSome && !r.command.nests

/-- The two commands client `A` sent since its `MULTI`. -/
def nestedInside (A : ℕ) (since : List Request) : List Request :=
  since.filter fun r => r.client == A && r.command.nests

section Nested

variable {command : RespValue}

theorem nests_iff : command.nests = true ↔
    command.command? = some .multi ∨ command.command? = some .watch := by
  rw [RespValue.nests, Bool.or_eq_true, beq_iff_eq, beq_iff_eq]

/-- Neither is one of the two commands that end a transaction, and both have a name. -/
theorem nests_spec (h : command.nests = true) : command.command? ≠ some .exec ∧
    command.command? ≠ some .discard ∧ ∃ name rest, command = .array (.bulkString name :: rest) := by
  rcases nests_iff.mp h with hcommand | hcommand
  · refine ⟨?_, ?_, exists_name_of_command? hcommand⟩ <;> rw [hcommand] <;> decide
  · refine ⟨?_, ?_, exists_name_of_command? hcommand⟩ <;> rw [hcommand] <;> decide

theorem queued?_of_nests (h : command.nests = true) : ∃ tx, queueOf command = some tx ∧
    command.queued? = some tx := by
  obtain ⟨hexec, hdiscard, name, rest, rfl⟩ := nests_spec h
  exact ⟨_, rfl, if_neg (not_or.mpr ⟨hexec, hdiscard⟩)⟩

theorem step_nested {env : Env Λ} {sys : System S Λ} {r : Request}
    (hin : (sys.clients r.client).inTransaction = true) (h : r.command.nests = true) :
    (sys.step env r).1 = queuedReply ∧ ∃ tx, queueOf r.command = some tx ∧
      ((sys.step env r).2.clients r.client).transactionQueue =
        (sys.clients r.client).transactionQueue ++ [tx] := by
  obtain ⟨hexec, hdiscard, name, rest, hshape⟩ := nests_spec h
  obtain ⟨tx, htx, -⟩ := queued?_of_nests h
  refine ⟨?_, tx, htx, ?_⟩
  · show (processCommand env r.now r.command (sys.session r.client)).1 = _
    rw [hshape] at hexec hdiscard ⊢
    rw [processCommand, if_pos ⟨hin, hexec, hdiscard⟩]
  · rw [clients_step_self, processCommand_queue hin hexec hdiscard, htx]
    rfl

/-- The queue holds the others and the two. -/
theorem length_queuedBy (A : ℕ) (since : List Request) :
    (queuedBy A since).length = (othersInside A since).length + (nestedInside A since).length := by
  induction since using List.reverseRecOn with
  | nil => rfl
  | append_singleton since r ih =>
    have hothers : (othersInside A (since ++ [r])).length =
        (othersInside A since).length + (othersInside A [r]).length := by
      rw [othersInside, List.filter_append, List.length_append]
      rfl
    have hnested : (nestedInside A (since ++ [r])).length =
        (nestedInside A since).length + (nestedInside A [r]).length := by
      rw [nestedInside, List.filter_append, List.length_append]
      rfl
    have hlast : (if r.client = A then r.command.queued?.toList else []).length =
        (othersInside A [r]).length + (nestedInside A [r]).length := by
      rw [othersInside, nestedInside]
      by_cases hA : r.client = A
      · cases hnests : r.command.nests with
        | true =>
          obtain ⟨tx, -, hqueued⟩ := queued?_of_nests hnests
          simp [hA, hnests, hqueued]
        | false => cases hq : r.command.queued? <;> simp [hA, hnests, hq]
      · simp [hA]
    rw [queuedBy_append, List.length_append, ih, hothers, hnested, hlast]
    omega

end Nested

/-- Over every run from an idle client with an empty queue: while its transaction is open, a `MULTI` or
`WATCH` of the client is never refused, with whatever error; and an `EXEC` that executes replies one
element for each of the other commands exactly when neither was sent. -/
theorem nested_commands_never_refused (env : Env Λ) (sys : System S Λ) (A : ℕ)
    (hout : (sys.clients A).inTransaction = false) (hqueue : (sys.clients A).transactionQueue = [])
    (rs : List Request) (hin : ((sys.run env rs).clients A).inTransaction = true) :
    (∀ r msg, r.client = A → r.command.nests = true →
      ((sys.run env rs).step env r).1 = queuedReply ∧
      ¬ ((sys.run env rs).step env r).1 = errReply msg ∧
      ¬ (((sys.run env rs).step env r).2.clients A).transactionQueue =
        ((sys.run env rs).clients A).transactionQueue) ∧
    ∃ before multi since, rs = before ++ multi :: since ∧ OpenSince env A sys before multi since ∧
      ∀ e, e.client = A → e.command.command? = some .exec →
        ¬ IsError ((sys.run env rs).step env e).1 →
        ∃ replies, ((sys.run env rs).step env e).1 = execReply replies ∧
          (replies.length = (othersInside A since).length ↔ nestedInside A since = []) := by
  obtain ⟨before, multi, since, hrs, hopen, hheld⟩ := (queueInvariant_run env hout hqueue rs).2 hin
  refine ⟨fun r msg hr hnests => ?_, before, multi, since, hrs, hopen, fun e he hexec hreply => ?_⟩
  · subst hr
    obtain ⟨hqueued, tx, -, hlonger⟩ := @step_nested _ _ _ env (sys.run env rs) r hin hnests
    refine ⟨hqueued, fun h => ?_, fun h => ?_⟩
    · rw [hqueued] at h
      exact not_isError_queuedReply (h ▸ isError_errReply msg)
    · rw [hlonger] at h
      exact absurd (congrArg List.length h) (by simp)
  · subst he
    obtain ⟨replies, -, -, hexecuted, hlength, -⟩ := executed_exec hexec hreply
    refine ⟨replies, hexecuted, ?_⟩
    rw [hlength, hheld, length_queuedBy, ← List.length_eq_zero_iff]
    omega

/-- With a second `MULTI` in the queue already, a `WATCH` is queued behind it. -/
theorem nested_multi_counted :
    let sys : System NatScore Unit := System.fresh ∅
    let rs := [request 0 ["MULTI"], request 0 ["MULTI"]]
    ((sys.run .standalone rs).clients 0).inTransaction = true ∧
      ((sys.run .standalone rs).step .standalone (request 0 ["WATCH", "k"])).1 = queuedReply := by
  intro sys rs
  have hin : ((sys.run .standalone rs).clients 0).inTransaction = true := by decide
  exact ⟨hin, ((nested_commands_never_refused .standalone sys 0 rfl rfl rs hin).1
    (request 0 ["WATCH", "k"]) "" rfl (by decide)).1⟩

/-- A second `MULTI` is queued, and `EXEC` replies an element for it although no other command was
sent. -/
theorem nested_multi_is_queued :
    let sys : System NatScore Unit := System.fresh ∅
    let opened := sys.run .standalone [request 0 ["MULTI"]]
    let nested := sys.run .standalone [request 0 ["MULTI"], request 0 ["MULTI"]]
    (opened.clients 0).inTransaction = true ∧
      (opened.step .standalone (request 0 ["MULTI"])).1 ≠ errReply "ERR MULTI cannot be nested" ∧
      (nested.clients 0).transactionQueue ≠ (opened.clients 0).transactionQueue ∧
      (nested.step .standalone (request 0 ["EXEC"])).1 =
        str "*1\r\n-ERR Unknown command\r\n" := by
  intro sys opened nested
  refine ⟨by decide, by decide, fun h => ?_, by decide⟩
  exact absurd (congrArg List.length h) (by decide)

end MinimalRedis
