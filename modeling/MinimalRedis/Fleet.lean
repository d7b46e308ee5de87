import MinimalRedis.ConnectionBuffer
import MinimalRedis.Lib.Traces
import MinimalRedis.Mailboxes
import MinimalRedis.Notify
import MinimalRedis.Streaming

/-!
# All connections at once (`main.cpp`)

Each client has a thread of its own in `handle_client`, and all of them share one world.  Here the threads
take steps of their loops in any order: a `select` with bytes, one round of the loop over the commands, a
byte off the notify pipe, one queued message.  Bytes come in pieces of any size; `Server` knows whole
commands only.

* `Fleet.step?` — one step of a handler;
* `commandLoop_succ` — the loop over the commands is its rounds;
* `run?_readable` — undisturbed, a handler does with a read what `onReadable` does in one go.

A round is **one step**: a command with all its `Database` calls and its deliveries, without any other
thread in between, and no `write` to a pipe blocks.  What is proved about these runs is proved for
commands that do not overlap.  The threads of the code do interleave their calls (`commandProg`), and then
no history of whole commands need explain what comes out: `set_del_ghost` and `exec_misses_unfinished_set`
are such schedules.  `Notify` has the two steps of a delivery.
-/

namespace MinimalRedis

open Lib
open ReadBuffer (nextCommand nextCommand_of_parse)

/-! ### One round of the loop -/

section Rounds

variable {σ : Type} (grants : ℕ) (exec : ℕ → RespValue → σ → Bytes × σ)

/-- How a round of the loop over the commands ends. -/
inductive Round (σ : Type) where
  | executed (command : RespValue) (reply : Bytes) (c : Connection σ)
  | left (c : Connection σ)

def commandRound (c : Connection σ) : Round σ :=
  if c.buf = [] then .left c
  else
    match RespParser.parse grants c.buf with
    | .ok (command, consumed) =>
        let x := exec c.executed command c.state
        .executed command x.1
          { c with
            state := x.2
            buf := c.buf.drop consumed
            executed := c.executed + 1
            written := c.written ++ [x.1] }
    | .error (.runtimeError msg) => .left (onRuntimeError msg c)
    | .error _ => .left { c with status := .terminated }

/-- What follows on a round. -/
def Round.next (loop : Connection σ → Connection σ) : Round σ → Connection σ
  | .executed _ _ c => loop c
  | .left c => c

theorem commandLoop_succ (fuel : ℕ) (c : Connection σ) :
    commandLoop grants exec (fuel + 1) c =
      (commandRound grants exec c).next (commandLoop grants exec fuel) := by
  rw [commandLoop, commandRound]
  split
  · rfl
  · cases RespParser.parse grants c.buf with
    | ok x => rfl
    | error err =>
      cases err with
      | _ => rfl

end Rounds

/-! ### The handlers -/

variable {S : Type} [Score S] {Λ : Type}

/-- Where a handler stands. -/
inductive Phase where
  /-- In `select`. -/
  | selecting
  /-- In the loop that writes the queued messages. -/
  | draining
  /-- In the loop over the commands. -/
  | executing
deriving DecidableEq, Repr

/-- A running `handle_client`. -/
structure Handler (Λ : Type) where
  connection : Connection (Processor Λ)
  phase : Phase := .selecting

/-- The handlers under their descriptors, and what they share; `terminated` says that an exception has
left one of them. -/
structure Fleet (S Λ : Type) [Score S] where
  world : World S := {}
  handlers : UMap ℤ (Handler Λ) := ∅
  terminated : Bool := false

inductive FleetAction where
  /-- A connection is accepted; `notifyWriteFd` is from `pipe`. -/
  | accept (fd notifyWriteFd : ℤ)
  /-- `select` reports the client, and `read` gives these bytes. -/
  | receive (fd : ℤ) (chunk : Bytes)
  /-- A round of the loop over the commands. -/
  | round (fd now : ℤ)
  /-- `select` reports the pipe, and a byte is read. -/
  | notified (fd : ℤ)
  /-- A round of the loop over the messages. -/
  | drain (fd : ℤ)
  /-- End of file, or a `select`, `read` or `write` that failed. -/
  | hangUp (fd : ℤ)

/-- What is seen of a run. -/
inductive Occurrence where
  | accepted (fd notifyWriteFd : ℤ)
  | received (fd : ℤ) (chunk : Bytes)
  | served (fd now : ℤ) (command : RespValue) (reply : Bytes)
  | delivered (fd : ℤ) (message : Bytes)
  | closed (fd : ℤ)

/-- A connection inside the world. -/
def Connection.enter (world : World S) (c : Connection (Processor Λ)) : Connection (Session S Λ) :=
  { state := ⟨world, c.state⟩, buf := c.buf, executed := c.executed, written := c.written,
    status := c.status }

def Connection.leave (c : Connection (Session S Λ)) : Connection (Processor Λ) :=
  { state := c.state.self, buf := c.buf, executed := c.executed, written := c.written,
    status := c.status }

namespace Fleet

def start (d : Data S) : Fleet S Λ := { world := { data := d } }

def put (fd : ℤ) (h : Handler Λ) (f : Fleet S Λ) : Fleet S Λ :=
  { f with handlers := f.handlers.set fd h }

def setMailbox (fd : ℤ) (m : Mailbox) (f : Fleet S Λ) : Fleet S Λ :=
  { f with world := { f.world with clientProcessors := f.world.clientProcessors.set fd m } }

/-- `handle_client` up to its loop; `boot` is a new Lua state. -/
def register (boot : Λ) (fd notifyWriteFd : ℤ) (f : Fleet S Λ) : Fleet S Λ :=
  (f.setMailbox fd { notifyWriteFd := notifyWriteFd }).put fd
    { connection := { state := { clientFd := fd, engine := { state := boot } } } }

/-- The cleanup of `handle_client`. -/
def cleanup (fd : ℤ) (f : Fleet S Λ) : Fleet S Λ :=
  { f with
    world := { f.world with clientProcessors := f.world.clientProcessors.erase fd }
    handlers := f.handlers.erase fd }

/-- Behind the loop over the commands: back to `select`, to the cleanup, or nowhere. -/
def leaveLoop (fd : ℤ) (c : Connection (Session S Λ)) (f : Fleet S Λ) : Option Occurrence × Fleet S Λ :=
  match c.status with
  | .reading => (none, f.put fd { connection := c.leave })
  | .closed => (some (.closed fd), f.cleanup fd)
  | .terminated => (none, { f.put fd { connection := c.leave, phase := .executing } with terminated := true })

def afterRound (fd now : ℤ) (f : Fleet S Λ) : Round (Session S Λ) → Option Occurrence × Fleet S Λ
  | .executed command reply c =>
      (some (.served fd now command reply),
        { f with
          world := c.state.world
          handlers := f.handlers.set fd { connection := c.leave, phase := .executing } })
  | .left c => f.leaveLoop fd (closeIfFull c)

/-- The occurrence and the fleet behind an action, `none` where it is not the handler's turn. -/
def step? (env : Env Λ) (boot : Λ) (grants : ℕ) (a : FleetAction) (f : Fleet S Λ) :
    Option (Option Occurrence × Fleet S Λ) :=
  if f.terminated then none
  else
    match a with
    | .accept fd notifyWriteFd =>
        if fd < 0 ∨ notifyWriteFd < 0 ∨ (f.handlers.find? fd).isSome then none
        else some (some (.accepted fd notifyWriteFd), f.register boot fd notifyWriteFd)
    | .receive fd chunk =>
        (f.handlers.find? fd).bind fun h =>
          if h.phase = .selecting ∧ chunk ≠ [] ∧
              chunk.length ≤ bufferSize - h.connection.buf.length - 1 then
            let c := { h.connection with buf := h.connection.buf ++ chunk }
            some (some (.received fd chunk), f.put fd { connection := c, phase := .executing })
          else none
    | .round fd now =>
        (f.handlers.find? fd).bind fun h =>
          if h.phase = .executing then
            some (f.afterRound fd now (commandRound grants (fun _ => processCommand env now)
              (h.connection.enter f.world)))
          else none
    | .notified fd =>
        (f.handlers.find? fd).bind fun h => (f.world.clientProcessors.find? fd).bind fun mailbox =>
          if h.phase = .selecting ∧ 0 < mailbox.notifyBytes then
            some (none, (f.setMailbox fd mailbox.readByte).put fd { h with phase := .draining })
          else none
    | .drain fd =>
        (f.handlers.find? fd).bind fun h => (f.world.clientProcessors.find? fd).bind fun mailbox =>
          if h.phase = .draining then
            if mailbox.hasPubsubMessages then
              let x := mailbox.getNextPubsubMessage
              let c := { h.connection with written := h.connection.written ++ [x.1] }
              some (some (.delivered fd x.1), (f.setMailbox fd x.2).put fd { h with connection := c })
            else some (none, f.put fd { h with phase := .selecting })
          else none
    | .hangUp fd => (f.handlers.find? fd).map fun _ => (some (.closed fd), f.cleanup fd)

end Fleet

/-! ### A handler that is not disturbed -/

section Undisturbed

variable {σ : Type} {grants : ℕ} {exec : ℕ → RespValue → σ → Bytes × σ} {c c' : Connection σ}

/-- What a round executes is the first command of the buffer. -/
theorem commandRound_executed {command : RespValue} {reply : Bytes}
    (h : commandRound grants exec c = .executed command reply c') (hroom : c.buf.length < bufferSize) :
    ∃ bytes, nextCommand grants c.buf = some ((command, bytes), c'.buf) ∧
      c'.buf.length < c.buf.length ∧ reply = (exec c.executed command c.state).1 ∧
      c'.state = (exec c.executed command c.state).2 ∧ c'.written = c.written ++ [reply] := by
  rw [commandRound] at h
  split at h
  · cases h
  · rename_i hne
    split at h
    · rename_i command' consumed hparse
      cases h
      have hnext := nextCommand_of_parse hroom.le hparse
      have hadvance := RespParser.advances_of_parse (by unfold bufferSize at hroom; omega) hparse
      refine ⟨_, hnext, ?_, rfl, rfl, rfl⟩
      have hpos := List.length_pos_iff.mpr hne
      rw [List.length_drop]
      omega
    · cases h
    · cases h

/-- Nothing but the status differs. -/
def Connection.Alike (c c' : Connection σ) : Prop :=
  c'.state = c.state ∧ c'.buf = c.buf ∧ c'.written = c.written

theorem alike_closeIfFull (c : Connection σ) :
    (closeIfFull c).state = c.state ∧ ((closeIfFull c).status = .closed ∨ c.Alike (closeIfFull c)) := by
  rw [closeIfFull]
  split
  · exact ⟨rfl, .inl rfl⟩
  · exact ⟨rfl, .inr ⟨rfl, rfl, rfl⟩⟩

theorem alike_onRuntimeError (msg : ParseMessage) (c : Connection σ) :
    (onRuntimeError msg c).state = c.state ∧
      ((onRuntimeError msg c).status = .closed ∨ c.Alike (onRuntimeError msg c)) := by
  rw [onRuntimeError]
  split
  · exact ⟨rfl, .inr ⟨rfl, rfl, rfl⟩⟩
  · exact ⟨rfl, .inl rfl⟩

/-- A round that leaves the loop closes the connection, or leaves buffer and replies as they were. -/
theorem commandRound_left (h : commandRound grants exec c = .left c') :
    (closeIfFull c').state = c.state ∧
      ((closeIfFull c').status = .closed ∨ c.Alike (closeIfFull c')) := by
  have hround : c'.state = c.state ∧ (c'.status = .closed ∨ c.Alike c') := by
    rw [commandRound] at h
    split at h
    · cases h
      exact ⟨rfl, .inr ⟨rfl, rfl, rfl⟩⟩
    · split at h
      · cases h
      · rename_i msg hparse
        cases h
        exact alike_onRuntimeError msg c
      · cases h
        exact ⟨rfl, .inr ⟨rfl, rfl, rfl⟩⟩
  obtain ⟨hstate, hround⟩ := hround
  obtain ⟨hstate', hfull⟩ := alike_closeIfFull c'
  refine ⟨hstate'.trans hstate, ?_⟩
  rcases hround with hclosed | ⟨-, hbuf, hwritten⟩
  · left
    rw [closeIfFull_of_closed hclosed, hclosed]
  · rcases hfull with hclosed | ⟨-, hbuf', hwritten'⟩
    · exact .inl hclosed
    · exact .inr ⟨hstate'.trans hstate, hbuf'.trans hbuf, hwritten'.trans hwritten⟩

end Undisturbed

namespace Fleet

variable (env : Env Λ) (boot : Λ) (grants : ℕ) {f f' : Fleet S Λ} {fd : ℤ} {h : Handler Λ}

theorem step?_round (hrunning : f.terminated = false) (hh : f.handlers.find? fd = some h)
    (hphase : h.phase = .executing) (now : ℤ) :
    step? env boot grants (.round fd now) f = some (f.afterRound fd now
      (commandRound grants (fun _ => processCommand env now) (h.connection.enter f.world))) := by
  rw [step?, if_neg (by simp [hrunning])]
  simp only [hh, Option.bind_some, if_pos hphase]

/-- The fleet behind the loop of one handler that ends with `c`. -/
def settle (fd : ℤ) (c : Connection (Session S Λ)) (f : Fleet S Λ) : Fleet S Λ :=
  (leaveLoop fd c { f with world := c.state.world }).2

theorem settle_put (fd : ℤ) (c : Connection (Session S Λ)) (f : Fleet S Λ) (h : Handler Λ) (w : World S) :
    settle fd c { f with world := w, handlers := f.handlers.set fd h } = settle fd c f := by
  unfold settle leaveLoop
  cases c.status with
  | reading => simp only [put, UMap.set_set]
  | closed => simp only [cleanup, UMap.erase_set]
  | terminated => simp only [put, UMap.set_set]

theorem run?_left (hrunning : f.terminated = false) (hh : f.handlers.find? fd = some h)
    (hphase : h.phase = .executing) {now : ℤ} {c : Connection (Session S Λ)}
    (hround : commandRound grants (fun _ => processCommand env now) (h.connection.enter f.world) = .left c) :
    ∃ trace, Machine.run? (step? env boot grants) [.round fd now] f =
      some (trace, settle fd (closeIfFull c) f) := by
  have hstep := step?_round env boot grants hrunning hh hphase now
  have hworld : (closeIfFull c).state.world = f.world :=
    congrArg Session.world (commandRound_left hround).1
  have hsettle : settle fd (closeIfFull c) f = (f.leaveLoop fd (closeIfFull c)).2 := by
    rw [settle, hworld]
  rw [hround] at hstep
  rw [hsettle]
  exact ⟨_, Machine.run?_cons_of_step hstep rfl⟩

/-- Enough rounds without a step of another handler are the loop over the commands. -/
theorem run?_rounds (now : ℤ) {fuel : ℕ} (hrunning : f.terminated = false)
    (hh : f.handlers.find? fd = some h) (hphase : h.phase = .executing)
    (hroom : h.connection.buf.length < bufferSize) (hfuel : h.connection.buf.length ≤ fuel) :
    ∃ k trace, Machine.run? (step? env boot grants) (List.replicate k (.round fd now)) f =
      some (trace, settle fd (closeIfFull (commandLoop grants (fun _ => processCommand env now) fuel
        (h.connection.enter f.world))) f) := by
  induction fuel generalizing f h with
  | zero =>
    have hnil : h.connection.buf = [] := List.length_eq_zero_iff.mp (Nat.le_zero.mp hfuel)
    have hround : commandRound grants (fun _ => processCommand env now) (h.connection.enter f.world) =
        .left (h.connection.enter f.world) := if_pos hnil
    exact ⟨1, run?_left env boot grants hrunning hh hphase hround⟩
  | succ fuel ih =>
    rw [commandLoop_succ]
    cases hround : commandRound grants (fun _ => processCommand env now) (h.connection.enter f.world) with
    | left c => exact ⟨1, run?_left env boot grants hrunning hh hphase hround⟩
    | executed command reply c =>
      obtain ⟨-, -, hshorter, -⟩ := commandRound_executed hround hroom
      replace hshorter : c.buf.length < h.connection.buf.length := hshorter
      have hstep := step?_round env boot grants hrunning hh hphase now
      rw [hround] at hstep
      let h₁ : Handler Λ := { connection := c.leave, phase := .executing }
      let f₁ : Fleet S Λ := { f with world := c.state.world, handlers := f.handlers.set fd h₁ }
      have hh₁ : f₁.handlers.find? fd = some h₁ := UMap.find?_set_self _ _ _
      have hlen : h₁.connection.buf.length = c.buf.length := rfl
      obtain ⟨k, trace, hrun⟩ := ih (f := f₁) hrunning hh₁ rfl (by omega) (by omega)
      have hsettle : ∀ c', settle fd c' f₁ = settle fd c' f := fun c' => settle_put fd c' f h₁ _
      rw [hsettle] at hrun
      exact ⟨k + 1, _, Machine.run?_cons_of_step hstep hrun⟩

/-- A read that is followed by enough rounds does what `onReadable` does in one go. -/
theorem run?_readable (now : ℤ) {chunk : Bytes} (hrunning : f.terminated = false)
    (hh : f.handlers.find? fd = some h) (hphase : h.phase = .selecting)
    (hreading : h.connection.status = .reading) (hchunk : chunk ≠ [])
    (hfit : h.connection.buf.length + chunk.length < bufferSize) :
    ∃ k trace, Machine.run? (step? env boot grants)
        (.receive fd chunk :: List.replicate k (.round fd now)) f =
      some (trace, settle fd (onReadable grants (fun _ => processCommand env now) chunk
        (h.connection.enter f.world)) f) := by
  let c := { h.connection with buf := h.connection.buf ++ chunk }
  let h₁ : Handler Λ := { connection := c, phase := .executing }
  have hlen : h₁.connection.buf.length = h.connection.buf.length + chunk.length := List.length_append
  have hstep : step? env boot grants (.receive fd chunk) f =
      some (some (.received fd chunk), f.put fd h₁) := by
    rw [step?, if_neg (by simp [hrunning])]
    simp only [hh, Option.bind_some]
    rw [if_pos ⟨hphase, hchunk, by omega⟩]
  have hh₁ : (f.put fd h₁).handlers.find? fd = some h₁ := UMap.find?_set_self _ _ _
  obtain ⟨k, trace, hrun⟩ := run?_rounds env boot grants now
    (f := f.put fd h₁) hrunning hh₁ rfl (by omega) le_rfl
  have hsettle : ∀ c', settle fd c' (f.put fd h₁) = settle fd c' f := fun c' => settle_put fd c' f h₁ _
  rw [hsettle] at hrun
  have hreadable : onReadable grants (fun _ => processCommand env now) chunk (h.connection.enter f.world) =
      closeIfFull (commandLoop grants (fun _ => processCommand env now) h₁.connection.buf.length
        (h₁.connection.enter f.world)) := by
    rw [onReadable, if_neg (by simp [Connection.enter, hreading]), if_neg hchunk]
    rfl
  rw [hreadable]
  exact ⟨k, _, Machine.run?_cons_of_step hstep hrun⟩

end Fleet

end MinimalRedis
