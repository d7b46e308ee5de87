import MinimalRedis.Connection
import MinimalRedis.Lib.Area
import MinimalRedis.Lib.Framing
import MinimalRedis.RespProgress

/-!
# The read buffer of a connection (`main.cpp`, `handle_client`)

`Connection` keeps the unread bytes as a list.  Here they lie where `handle_client` has them: in `buf`,
an area of `BUFFER_SIZE` bytes, from `processed_pos` to `buf_pos`.  Every access to `buf` is checked
and the rounds of the inner loop are counted, so an access outside or a loop that goes on is a
`Fault`.

* `exact_of_processBuffer` — the inner loop, with a round for each byte, moves bytes from the buffer
  to the executed commands and does nothing else with them; by induction on the rounds, as the
  parser takes between one byte and all that are there;
* `atHead_of_onSelected` — what one turn of the outer loop preserves, over the three ways of moving
  the rest to the front;
* `atHead_of_reaches` — so it holds over every sequence of turns.
-/

namespace MinimalRedis

open Lib

namespace ReadBuffer

/-! ### The loop -/

/-- What must not happen. -/
inductive Fault where
  /-- An access outside `buf`. -/
  | outOfBounds
  /-- The loop over the commands goes on when its rounds are used up. -/
  | unfinished
deriving DecidableEq, Repr

/-- An access that has to succeed. -/
def checked {α : Type} : Option α → Except Fault α
  | none => .error .outOfBounds
  | some a => .ok a

/-- The variables of `handle_client`.  `processedPos` is 0 outside the read branch; `executed`
records the commands executed so far, each with the bytes it was parsed from. -/
structure ClientLocals (σ : Type) where
  state : σ
  buf : List.Vector UInt8 bufferSize
  bufPos : ℕ := 0
  processedPos : ℕ := 0
  executed : List (RespValue × Bytes) := []
  written : List Bytes := []

/-- The bytes from `processed_pos` to `buf_pos`. -/
def ClientLocals.unread {σ : Type} (c : ClientLocals σ) : Bytes :=
  (c.buf.toList.take c.bufPos).drop c.processedPos

/-- How a piece of `handle_client` ends. -/
inductive TurnEnd (σ : Type) where
  | goesOn (c : ClientLocals σ)
  /-- `break` out of the outer loop, or `goto cleanup`. -/
  | closed (c : ClientLocals σ)
  /-- An exception other than a `std::runtime_error`. -/
  | terminated (c : ClientLocals σ)

/-- What `select` reports, and what `read` delivers if the client is ready: nothing for end of file
and for an error. -/
structure Selected where
  notified : Bool
  arrived : Option Bytes

/-- The size given to `read`, a `size_t`. -/
def offered (bufPos : ℕ) : ℕ := (bufferSize + 2 ^ 64 - bufPos - 1) % 2 ^ 64

/-- What happens around the buffer: `exec i` is `process_command` on the `i`-th command, with its reply
or the text of a `std::runtime_error`; `sent i` tells whether the `i`-th `write` succeeds; `notify`
is the notify branch, with the messages written and whether all of them could be. -/
structure Surroundings (σ : Type) where
  grants : ℕ
  exec : ℕ → RespValue → σ → Except Bytes Bytes × σ
  sent : ℕ → Bytes → Bool
  notify : σ → List Bytes × Bool × σ

section ReadBranch

variable {σ : Type} (env : Surroundings σ)

/-- The catch clause. -/
def onWhat (what : Bytes) (c : ClientLocals σ) : TurnEnd σ :=
  if what = str "Incomplete command" then .goesOn c
  else .closed { c with written := c.written ++ [str "-ERR " ++ what ++ crlf] }

/-- One round of the loop over the commands: it goes on behind the command, or it is left. -/
inductive Round (σ : Type) where
  | next (c : ClientLocals σ)
  | left (o : TurnEnd σ)

/-- Write the reply, and move past the command if that succeeds. -/
def respond (command : RespValue) (bytes : Bytes) (consumed : ℕ) (response : Bytes)
    (c : ClientLocals σ) : Round σ :=
  let c' := { c with written := c.written ++ [response] }
  if env.sent c.written.length response then
    .next { c' with
      processedPos := c.processedPos + consumed
      executed := c.executed ++ [(command, bytes.take consumed)] }
  else .left (.closed c')

/-- The body of the loop, on the bytes given to the `RespParser`. -/
def executeNext (bytes : Bytes) (c : ClientLocals σ) : Round σ :=
  match RespParser.parse env.grants bytes with
  | .error (.runtimeError msg) => .left (onWhat msg.what c)
  | .error _ => .left (.terminated c)
  | .ok (command, consumed) =>
      match env.exec c.executed.length command c.state with
      | (.error what, state) => .left (onWhat what { c with state := state })
      | (.ok response, state) =>
          respond env command bytes consumed response { c with state := state }

/-- `while (processed_pos < buf_pos)`, for at most `rounds` rounds. -/
def processBuffer : ℕ → ClientLocals σ → Except Fault (TurnEnd σ)
  | 0, c => if c.processedPos < c.bufPos then .error .unfinished else .ok (.goesOn c)
  | rounds + 1, c =>
      if c.processedPos < c.bufPos then
        (checked (readAt c.buf c.processedPos (c.bufPos - c.processedPos))).bind fun bytes =>
          match executeNext env bytes c with
          | .next c' => processBuffer rounds c'
          | .left o => .ok o
      else .ok (.goesOn c)

/-- Move the rest to the front: part of the buffer was processed, or all of it, or nothing. -/
def compact (c : ClientLocals σ) : Except Fault (ClientLocals σ) :=
  if 0 < c.processedPos ∧ c.processedPos < c.bufPos then
    (checked (moveWithin c.buf 0 c.processedPos (c.bufPos - c.processedPos))).map fun buf =>
      { c with buf := buf, bufPos := c.bufPos - c.processedPos, processedPos := 0 }
  else if c.processedPos = c.bufPos then .ok { c with bufPos := 0, processedPos := 0 }
  else .ok { c with processedPos := 0 }

/-- The cutoff for a buffer that is nearly full. -/
def cutoff (c : ClientLocals σ) : TurnEnd σ :=
  if c.bufPos ≥ bufferSize - 1024 then
    .closed { c with written := c.written ++ [str "-ERR Command too large\r\n"] }
  else .goesOn c

/-- Behind the loop over the commands, unless the branch was left. -/
def finishRead : TurnEnd σ → Except Fault (TurnEnd σ)
  | .goesOn c => (compact c).map cutoff
  | o => .ok o

/-- The bytes are stored behind the unread ones, and a NUL behind them. -/
def store (chunk : Bytes) (c : ClientLocals σ) : Except Fault (ClientLocals σ) :=
  (checked (writeAt c.buf c.bufPos chunk)).bind fun buf =>
    (checked (writeAt buf (c.bufPos + chunk.length) [0])).map fun buf =>
      { c with buf := buf, bufPos := c.bufPos + chunk.length, processedPos := 0 }

/-- The read branch.  A command takes a byte, so the loop gets a round for each. -/
def onArrived (chunk : Bytes) (c : ClientLocals σ) : Except Fault (TurnEnd σ) :=
  if chunk = [] then .ok (.closed c)
  else (store chunk c).bind fun c' => (processBuffer env c'.bufPos c').bind finishRead

/-- The notify branch. -/
def onNotify (c : ClientLocals σ) : TurnEnd σ :=
  let x := env.notify c.state
  let c' := { c with state := x.2.2, written := c.written ++ x.1 }
  if x.2.1 then .goesOn c' else .closed c'

/-- Behind the notify branch, unless it was left: the read branch, if the client is ready. -/
def clientBranch (arrived : Option Bytes) : TurnEnd σ → Except Fault (TurnEnd σ)
  | .goesOn c =>
      match arrived with
      | none => .ok (.goesOn c)
      | some chunk => onArrived env chunk c
  | o => .ok o

/-- One turn of the outer loop; `none` is a `select` that fails. -/
def onSelected : Option Selected → ClientLocals σ → Except Fault (TurnEnd σ)
  | none, c => .ok (.closed c)
  | some selected, c =>
      clientBranch env selected.arrived
        (if selected.notified then onNotify env c else .goesOn c)

/-- `read` delivers no more than it is offered. -/
def Selected.Fits (selected : Selected) (c : ClientLocals σ) : Prop :=
  ∀ chunk, selected.arrived = some chunk → chunk.length ≤ offered c.bufPos

/-- All that is received over a sequence of turns. -/
def receivedBytes (turns : List Selected) : Bytes := turns.flatMap fun t => t.arrived.getD []

/-- The head of the outer loop is reached with `c` behind these turns. -/
inductive Reaches (start : ClientLocals σ) : List Selected → ClientLocals σ → Prop where
  | start : Reaches start [] start
  | turn {turns : List Selected} {selected : Selected} {c c' : ClientLocals σ} :
      Reaches start turns c → selected.Fits c →
      onSelected env (some selected) c = .ok (.goesOn c') →
      Reaches start (turns ++ [selected]) c'

end ReadBranch

/-! ### Commands in what was received -/

/-- The first command of the bytes received, if it is complete within a buffer. -/
def nextCommand (grants : ℕ) (received : Bytes) : Option ((RespValue × Bytes) × Bytes) :=
  match RespParser.parse grants (received.take bufferSize) with
  | .ok (command, n) => some ((command, received.take n), received.drop n)
  | .error _ => none

theorem length_take_bufferSize (bs : Bytes) : (bs.take bufferSize).length < 2 ^ 63 - 1 := by
  have hle := List.length_take_le bufferSize bs
  have hsize : bufferSize < 2 ^ 63 - 1 := by decide
  omega

theorem nextCommand_eq_some {grants : ℕ} {received rest : Bytes} {m : RespValue × Bytes}
    (h : nextCommand grants received = some (m, rest)) :
    ∃ n, RespParser.parse grants (received.take bufferSize) = .ok (m.1, n) ∧ 0 < n ∧
      n ≤ bufferSize ∧ n ≤ received.length ∧ m.2 = received.take n ∧ rest = received.drop n := by
  rw [nextCommand] at h
  split at h
  · rename_i command n hparse
    cases h
    have hn := RespParser.advances_of_parse (length_take_bufferSize received) hparse
    rw [List.length_take] at hn
    exact ⟨n, hparse, hn.1, by omega, by omega, rfl, rfl⟩
  · cases h

theorem nextCommand_of_parse {grants n : ℕ} {bytes : Bytes} {command : RespValue}
    (hlen : bytes.length ≤ bufferSize) (h : RespParser.parse grants bytes = .ok (command, n)) :
    nextCommand grants bytes = some ((command, bytes.take n), bytes.drop n) := by
  rw [nextCommand, List.take_of_length_le hlen, h]

theorem nextCommand_append {grants : ℕ} (xs : Bytes) (m : RespValue × Bytes) (rest : Bytes)
    (h : nextCommand grants xs = some (m, rest)) : xs = m.2 ++ rest := by
  obtain ⟨n, -, -, -, -, hm, rfl⟩ := nextCommand_eq_some h
  rw [hm, List.take_append_drop]

/-- What arrives behind a complete command does not change it. -/
theorem stable_nextCommand (grants : ℕ) : Stable (nextCommand grants) := by
  intro xs m rest h ys
  obtain ⟨n, hparse, -, hsize, hn, hm, rfl⟩ := nextCommand_eq_some h
  have hfront : (xs ++ ys).take n = xs.take n := List.take_append_of_le_length hn
  have hagree : ((xs ++ ys).take bufferSize).take n = (xs.take bufferSize).take n := by
    rw [List.take_take, List.take_take, min_eq_left hsize, hfront]
  have hmore := RespParser.parse_of_agree (length_take_bufferSize xs)
    (length_take_bufferSize (xs ++ ys)) hparse hagree
  rw [nextCommand, hmore]
  simp only [hfront, List.drop_append_of_le_length hn]
  rw [← hm]

/-! ### The invariant -/

variable {σ : Type}

theorem length_unread {c : ClientLocals σ} (h : c.bufPos ≤ bufferSize) :
    c.unread.length = c.bufPos - c.processedPos := by
  rw [ClientLocals.unread, List.length_drop, List.length_take, List.Vector.toList_length,
    min_eq_left h]

theorem unread_eq_nil_iff {c : ClientLocals σ} (h : c.bufPos ≤ bufferSize) :
    c.unread = [] ↔ c.bufPos ≤ c.processedPos := by
  rw [← List.length_eq_zero_iff, length_unread h, Nat.sub_eq_zero_iff_le]

/-- The parser gets the unread bytes. -/
theorem readAt_unread {c : ClientLocals σ} (hpos : c.processedPos ≤ c.bufPos)
    (h : c.bufPos ≤ bufferSize) :
    readAt c.buf c.processedPos (c.bufPos - c.processedPos) = some c.unread := by
  rw [readAt_eq_some c.buf (by omega), ClientLocals.unread, List.drop_take]

/-- The executed commands are those at the front of what was received, and the unread bytes are the
rest of it. -/
structure Exact (grants : ℕ) (received : Bytes) (c : ClientLocals σ) : Prop where
  position : c.processedPos ≤ c.bufPos
  room : c.bufPos < bufferSize
  takes : Takes (nextCommand grants) received c.executed c.unread

/-- Nothing but the state and what was written differs. -/
structure SameBuffer (c c' : ClientLocals σ) : Prop where
  buf : c'.buf = c.buf
  bufPos : c'.bufPos = c.bufPos
  processedPos : c'.processedPos = c.processedPos
  executed : c'.executed = c.executed

theorem SameBuffer.unread {c c' : ClientLocals σ} (h : SameBuffer c c') :
    c'.unread = c.unread := by
  rw [ClientLocals.unread, h.buf, h.bufPos, h.processedPos]
  rfl

theorem Exact.of_same {grants : ℕ} {received : Bytes} {c c' : ClientLocals σ}
    (h : Exact grants received c) (hsame : SameBuffer c c') : Exact grants received c' where
  position := by
    rw [hsame.processedPos, hsame.bufPos]
    exact h.position
  room := by
    rw [hsame.bufPos]
    exact h.room
  takes := by
    rw [hsame.executed, hsame.unread]
    exact h.takes

/-! ### The loop over the commands -/

variable {env : Surroundings σ} {received : Bytes}

theorem sameBuffer_of_onWhat {what : Bytes} {c c' : ClientLocals σ}
    (h : onWhat what c = .goesOn c') : c' = c := by
  rw [onWhat] at h
  split at h
  · cases h
    rfl
  · cases h

/-- What one round can do: execute the command at the front, or leave the loop with the buffer as it
was. -/
theorem executeNext_cases (bytes : Bytes) (c : ClientLocals σ) :
    (∃ command consumed response state,
        RespParser.parse env.grants bytes = .ok (command, consumed) ∧
        executeNext env bytes c = .next { c with
          state := state
          written := c.written ++ [response]
          processedPos := c.processedPos + consumed
          executed := c.executed ++ [(command, bytes.take consumed)] }) ∨
      ∃ o, executeNext env bytes c = .left o ∧ ∀ c', o = .goesOn c' → SameBuffer c c' := by
  rw [executeNext]
  cases hparse : RespParser.parse env.grants bytes with
  | error err =>
    cases err with
    | runtimeError msg =>
      refine .inr ⟨_, rfl, fun c' hc' => ?_⟩
      rw [sameBuffer_of_onWhat hc']
      exact ⟨rfl, rfl, rfl, rfl⟩
    | lengthError => exact .inr ⟨_, rfl, fun c' hc' => by cases hc'⟩
    | badAlloc => exact .inr ⟨_, rfl, fun c' hc' => by cases hc'⟩
    | outOfFuel => exact .inr ⟨_, rfl, fun c' hc' => by cases hc'⟩
  | ok x =>
    obtain ⟨command, consumed⟩ := x
    rcases hexec : env.exec c.executed.length command c.state with ⟨result, state⟩
    cases result with
    | error what =>
      refine .inr ⟨onWhat what { c with state := state }, by simp only [hexec], fun c' hc' => ?_⟩
      rw [sameBuffer_of_onWhat hc']
      exact ⟨rfl, rfl, rfl, rfl⟩
    | ok response =>
      simp only [hexec, respond]
      split
      · exact .inl ⟨command, consumed, response, state, rfl, rfl⟩
      · exact .inr ⟨_, rfl, fun c' hc' => by cases hc'⟩

/-- A command that was parsed from the unread bytes moves to the executed ones. -/
theorem Exact.execute {grants : ℕ} {c : ClientLocals σ} {command : RespValue} {consumed : ℕ}
    (state : σ) (written : List Bytes) (h : Exact grants received c)
    (hparse : RespParser.parse grants c.unread = .ok (command, consumed)) :
    0 < consumed ∧ Exact grants received { c with
      state := state
      written := written
      processedPos := c.processedPos + consumed
      executed := c.executed ++ [(command, c.unread.take consumed)] } := by
  have hroom := h.room
  have hlen := length_unread hroom.le
  have hshort : bufferSize < 2 ^ 63 - 1 := by decide
  have hconsumed := RespParser.advances_of_parse (by omega) hparse
  have hposition := h.position
  refine ⟨hconsumed.1, show c.processedPos + consumed ≤ c.bufPos by omega, hroom, ?_⟩
  have hnext := nextCommand_of_parse (by omega) hparse
  have hrest : (c.buf.toList.take c.bufPos).drop (c.processedPos + consumed) =
      c.unread.drop consumed := by rw [ClientLocals.unread, List.drop_drop]
  show Takes _ _ _ ((c.buf.toList.take c.bufPos).drop (c.processedPos + consumed))
  rw [hrest]
  exact h.takes.append (.take hnext (.done _))

/-- With a round for each unread byte the loop ends, and its account is kept. -/
theorem exact_of_processBuffer {rounds : ℕ} {c : ClientLocals σ} (h : Exact env.grants received c)
    (hrounds : c.bufPos - c.processedPos ≤ rounds) :
    ∃ o, processBuffer env rounds c = .ok o ∧
      ∀ c', o = .goesOn c' → Exact env.grants received c' := by
  induction rounds generalizing c with
  | zero =>
    refine ⟨.goesOn c, if_neg (by omega), fun c' hc' => ?_⟩
    cases hc'
    exact h
  | succ rounds ih =>
    by_cases hpos : c.processedPos < c.bufPos
    · rw [processBuffer, if_pos hpos, readAt_unread h.position h.room.le]
      simp only [checked, Except.bind]
      rcases executeNext_cases c.unread c with
        ⟨command, consumed, response, state, hparse, hnext⟩ | ⟨o, hleft, hsame⟩
      · obtain ⟨hconsumed, hexact⟩ := h.execute state (c.written ++ [response]) hparse
        simp only [hnext]
        exact ih hexact (show c.bufPos - (c.processedPos + consumed) ≤ rounds by omega)
      · simp only [hleft]
        exact ⟨o, rfl, fun c' hc' => h.of_same (hsame c' hc')⟩
    · refine ⟨.goesOn c, by rw [processBuffer, if_neg hpos], fun c' hc' => ?_⟩
      cases hc'
      exact h

/-! ### One turn -/

theorem offered_eq {bufPos : ℕ} (h : bufPos < bufferSize) :
    offered bufPos = bufferSize - bufPos - 1 := by
  unfold offered bufferSize at *
  omega

/-- Bytes that fit with a NUL behind them are stored behind what is there. -/
theorem store_eq (chunk : Bytes) (c : ClientLocals σ) (h : c.bufPos + chunk.length < bufferSize) :
    ∃ buf, store chunk c =
        .ok { c with buf := buf, bufPos := c.bufPos + chunk.length, processedPos := 0 } ∧
      buf.toList.take (c.bufPos + chunk.length) = c.buf.toList.take c.bufPos ++ chunk := by
  obtain ⟨buf, hread, hfront⟩ := writeAt_eq_some c.buf h.le
  obtain ⟨buf', hnul, -⟩ := writeAt_eq_some buf
    (show c.bufPos + chunk.length + [(0 : UInt8)].length ≤ bufferSize from h)
  refine ⟨buf', ?_, ?_⟩
  · rw [store, hread]
    simp only [checked, Except.bind, hnul]
    rfl
  · rw [take_writeAt hnul le_rfl, hfront]

/-- The three cases of moving the rest to the front. -/
theorem compact_eq (c : ClientLocals σ) (hpos : c.processedPos ≤ c.bufPos)
    (hroom : c.bufPos ≤ bufferSize) :
    ∃ buf bufPos, compact c = .ok { c with buf := buf, bufPos := bufPos, processedPos := 0 } ∧
      buf.toList.take bufPos = c.unread ∧ bufPos ≤ c.bufPos := by
  rw [compact]
  by_cases hall : c.processedPos = c.bufPos
  · refine ⟨c.buf, 0, ?_, ?_, Nat.zero_le _⟩
    · rw [if_neg (by omega), if_pos hall]
    · rw [ClientLocals.unread, hall, List.drop_eq_nil_of_le (List.length_take_le _ _),
        List.take_zero]
  · by_cases hnone : c.processedPos = 0
    · refine ⟨c.buf, c.bufPos, ?_, ?_, le_rfl⟩
      · rw [if_neg (by omega), if_neg hall]
      · rw [ClientLocals.unread, hnone, List.drop_zero]
    · obtain ⟨buf, hmove, hfront⟩ := moveWithin_eq_some c.buf
        (show c.processedPos + (c.bufPos - c.processedPos) ≤ bufferSize by omega)
        (show 0 + (c.bufPos - c.processedPos) ≤ bufferSize by omega)
      refine ⟨buf, c.bufPos - c.processedPos, ?_, ?_, by omega⟩
      · rw [if_pos (by omega), hmove]
        rfl
      · rw [Nat.zero_add, List.take_zero, List.nil_append] at hfront
        rw [hfront, ClientLocals.unread, List.drop_take]

/-- The head of the outer loop. -/
structure AtHead (grants : ℕ) (received : Bytes) (c : ClientLocals σ) : Prop where
  processedPos : c.processedPos = 0
  bufPos : c.bufPos < bufferSize - 1024
  takes : Takes (nextCommand grants) received c.executed (c.buf.toList.take c.bufPos)

theorem AtHead.unread {grants : ℕ} {c : ClientLocals σ} (h : AtHead grants received c) :
    c.unread = c.buf.toList.take c.bufPos := by
  rw [ClientLocals.unread, h.processedPos, List.drop_zero]

theorem AtHead.of_same {grants : ℕ} {c c' : ClientLocals σ} (h : AtHead grants received c)
    (hsame : SameBuffer c c') : AtHead grants received c' where
  processedPos := by rw [hsame.processedPos, h.processedPos]
  bufPos := by
    rw [hsame.bufPos]
    exact h.bufPos
  takes := by
    rw [hsame.executed, hsame.buf, hsame.bufPos]
    exact h.takes

/-- What `read` stores is the end of what was received. -/
theorem AtHead.store {grants : ℕ} {c : ClientLocals σ} {chunk : Bytes}
    (h : AtHead grants received c) (hfit : chunk.length ≤ offered c.bufPos) :
    ∃ c', store chunk c = .ok c' ∧ Exact grants (received ++ chunk) c' := by
  have hbufPos := h.bufPos
  have hsize : bufferSize = 8192 := rfl
  rw [offered_eq (by omega)] at hfit
  obtain ⟨buf, hstore, hfront⟩ := store_eq chunk c (by omega)
  refine ⟨_, hstore, Nat.zero_le _, show c.bufPos + chunk.length < bufferSize by omega, ?_⟩
  show Takes _ _ _ ((buf.toList.take (c.bufPos + chunk.length)).drop 0)
  rw [List.drop_zero, hfront]
  exact h.takes.more (stable_nextCommand grants) chunk

/-- Behind the loop over the commands: the rest is moved, and the head is reached with room left. -/
theorem atHead_of_finishRead {grants : ℕ} {o : TurnEnd σ}
    (h : ∀ c, o = .goesOn c → Exact grants received c) :
    ∃ o', finishRead o = .ok o' ∧ ∀ c', o' = .goesOn c' → AtHead grants received c' := by
  cases o with
  | closed c => exact ⟨_, rfl, fun c' hc' => by cases hc'⟩
  | terminated c => exact ⟨_, rfl, fun c' hc' => by cases hc'⟩
  | goesOn c =>
    have hexact := h c rfl
    obtain ⟨buf, bufPos, hcompact, hunread, -⟩ := compact_eq c hexact.position hexact.room.le
    rw [finishRead, hcompact]
    refine ⟨_, rfl, fun c' hc' => ?_⟩
    unfold cutoff at hc'
    split at hc'
    · cases hc'
    · rename_i hroom
      cases hc'
      refine ⟨rfl, not_le.mp hroom, ?_⟩
      show Takes _ _ _ (buf.toList.take bufPos)
      rw [hunread]
      exact hexact.takes

theorem atHead_of_onArrived {c : ClientLocals σ} {chunk : Bytes}
    (h : AtHead env.grants received c) (hfit : chunk.length ≤ offered c.bufPos) :
    ∃ o, onArrived env chunk c = .ok o ∧
      ∀ c', o = .goesOn c' → AtHead env.grants (received ++ chunk) c' := by
  rw [onArrived]
  split
  · exact ⟨_, rfl, fun c' hc' => by cases hc'⟩
  · obtain ⟨c₁, hstore, hexact⟩ := h.store hfit
    obtain ⟨o, hloop, hends⟩ := exact_of_processBuffer hexact (Nat.sub_le _ _)
    rw [hstore]
    simp only [Except.bind, hloop]
    exact atHead_of_finishRead hends

theorem sameBuffer_of_onNotify {c c' : ClientLocals σ} (h : onNotify env c = .goesOn c') :
    SameBuffer c c' := by
  unfold onNotify at h
  simp only at h
  split at h
  · cases h
    exact ⟨rfl, rfl, rfl, rfl⟩
  · cases h

theorem sameBuffer_of_notified {c c' : ClientLocals σ} {notified : Bool}
    (h : (if notified then onNotify env c else .goesOn c) = .goesOn c') : SameBuffer c c' := by
  split at h
  · exact sameBuffer_of_onNotify h
  · cases h
    exact ⟨rfl, rfl, rfl, rfl⟩

theorem Selected.Fits.of_same {selected : Selected} {c c' : ClientLocals σ} {chunk : Bytes}
    (h : selected.Fits c) (hsame : SameBuffer c c') (harrived : selected.arrived = some chunk) :
    chunk.length ≤ offered c'.bufPos := by
  rw [hsame.bufPos]
  exact h chunk harrived

/-- A turn that comes back to the head has passed both branches. -/
theorem goesOn_cases {c c' : ClientLocals σ} {selected : Selected}
    (h : onSelected env (some selected) c = .ok (.goesOn c')) :
    ∃ c₁, (if selected.notified then onNotify env c else .goesOn c) = .goesOn c₁ ∧
      (selected.arrived = none ∧ c' = c₁ ∨
        ∃ chunk, selected.arrived = some chunk ∧ onArrived env chunk c₁ = .ok (.goesOn c')) := by
  rw [onSelected] at h
  cases hnotify : (if selected.notified then onNotify env c else .goesOn c) with
  | closed c₁ =>
    rw [hnotify] at h
    cases h
  | terminated c₁ =>
    rw [hnotify] at h
    cases h
  | goesOn c₁ =>
    rw [hnotify] at h
    refine ⟨c₁, rfl, ?_⟩
    cases harrived : selected.arrived with
    | none =>
      rw [harrived] at h
      cases h
      exact .inl ⟨rfl, rfl⟩
    | some chunk =>
      rw [harrived] at h
      exact .inr ⟨chunk, rfl, h⟩

/-- One turn of the outer loop makes no fault, and leads back to the head or out of the loop. -/
theorem atHead_of_onSelected {c : ClientLocals σ} {selected : Selected}
    (h : AtHead env.grants received c) (hfit : selected.Fits c) :
    ∃ o, onSelected env (some selected) c = .ok o ∧
      ∀ c', o = .goesOn c' → AtHead env.grants (received ++ selected.arrived.getD []) c' := by
  rw [onSelected]
  cases hnotify : (if selected.notified then onNotify env c else .goesOn c) with
  | closed c₁ => exact ⟨.closed c₁, rfl, fun c' hc' => by cases hc'⟩
  | terminated c₁ => exact ⟨.terminated c₁, rfl, fun c' hc' => by cases hc'⟩
  | goesOn c₁ =>
    have hsame := sameBuffer_of_notified hnotify
    have hhead := h.of_same hsame
    cases harrived : selected.arrived with
    | none =>
      refine ⟨.goesOn c₁, rfl, fun c' hc' => ?_⟩
      cases hc'
      rwa [Option.getD_none, List.append_nil]
    | some chunk =>
      exact atHead_of_onArrived hhead (hfit.of_same hsame harrived)

/-! ### Whole runs -/

/-- A connection that was just accepted. -/
def ClientLocals.accepted (state : σ) : ClientLocals σ where
  state := state
  buf := List.Vector.replicate bufferSize 0

theorem atHead_accepted (grants : ℕ) (state : σ) :
    AtHead grants [] (ClientLocals.accepted state) :=
  ⟨rfl, show 0 < bufferSize - 1024 by decide, .done []⟩

theorem receivedBytes_append (turns : List Selected) (selected : Selected) :
    receivedBytes (turns ++ [selected]) = receivedBytes turns ++ selected.arrived.getD [] := by
  simp [receivedBytes]

/-- By induction on the turns. -/
theorem atHead_of_reaches {state : σ} {turns : List Selected} {c : ClientLocals σ}
    (h : Reaches env (.accepted state) turns c) : AtHead env.grants (receivedBytes turns) c := by
  induction h with
  | start => exact atHead_accepted env.grants state
  | turn _ hfit hturn ih =>
    obtain ⟨o, ho, hends⟩ := atHead_of_onSelected ih hfit
    rw [hturn] at ho
    cases ho
    rw [receivedBytes_append]
    exact hends _ rfl

end ReadBuffer

end MinimalRedis
