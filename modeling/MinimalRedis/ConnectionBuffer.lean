import MinimalRedis.ReadBuffer

/-!
# The connection as a view of its read buffer

`Connection` has the unread bytes as a list, without positions, stores or moves.  `view` reads them off
the buffer of `handle_client`, and every step of one is a step of the other:

* `view_of_processBuffer` — a round of the inner loop drops what its command consumed;
* `view_of_onArrived` — moving the rest to the front is not seen at all;
* `read_buffer_exact` — over every sequence of turns: positions in bounds, no fault, and **the executed
  commands followed by the buffer are the bytes received**;
* `executed_unique` — so the commands do not depend on how the bytes were cut into reads;
* `view_of_reaches` — and the buffer shows what `handleClient` makes of the same events.
-/

namespace MinimalRedis

open Lib

namespace ReadBuffer

variable {σ : Type} {grants : ℕ} {exec : ℕ → RespValue → σ → Bytes × σ}
  {notify : σ → List Bytes × σ} {received : Bytes}

/-- Commands answer without a `std::runtime_error`, and every `write` succeeds. -/
def answering (grants : ℕ) (exec : ℕ → RespValue → σ → Bytes × σ)
    (notify : σ → List Bytes × σ) : Surroundings σ where
  grants := grants
  exec i command s := (.ok (exec i command s).1, (exec i command s).2)
  sent _ _ := true
  notify s := ((notify s).1, true, (notify s).2)

/-- The connection that the variables of `handle_client` stand for. -/
def ClientLocals.view (c : ClientLocals σ) : Connection σ where
  state := c.state
  buf := c.unread
  executed := c.executed.length
  written := c.written

def TurnEnd.view : TurnEnd σ → Connection σ
  | .goesOn c => c.view
  | .closed c => { c.view with status := .closed }
  | .terminated c => { c.view with status := .terminated }

/-! ### The loop over the commands -/

theorem view_onWhat (msg : ParseMessage) (c : ClientLocals σ) :
    (onWhat msg.what c).view = onRuntimeError msg c.view := by
  rw [onWhat, onRuntimeError]
  split
  · rfl
  · rfl

/-- `c` behind a command that was executed and answered. -/
def ClientLocals.behind (exec : ℕ → RespValue → σ → Bytes × σ) (command : RespValue)
    (consumed : ℕ) (c : ClientLocals σ) : ClientLocals σ :=
  { c with
    state := (exec c.executed.length command c.state).2
    written := c.written ++ [(exec c.executed.length command c.state).1]
    processedPos := c.processedPos + consumed
    executed := c.executed ++ [(command, c.unread.take consumed)] }

theorem view_behind (command : RespValue) (consumed : ℕ) (c : ClientLocals σ) :
    (c.behind exec command consumed).view =
      { c.view with
        state := (exec c.view.executed command c.view.state).2
        buf := c.view.buf.drop consumed
        executed := c.view.executed + 1
        written := c.view.written ++ [(exec c.view.executed command c.view.state).1] } := by
  have hunread : (c.behind exec command consumed).unread = c.unread.drop consumed :=
    List.drop_drop.symm
  have hcount : (c.behind exec command consumed).executed.length = c.executed.length + 1 := by
    simp [ClientLocals.behind]
  rw [ClientLocals.view]
  rw [hunread, hcount]
  rfl

/-- One round of `commandLoop` is one of the buffer's loop. -/
theorem commandLoop_view (fuel : ℕ) {c : ClientLocals σ} (hne : c.unread ≠ []) :
    (∃ command consumed, RespParser.parse grants c.unread = .ok (command, consumed) ∧
        executeNext (answering grants exec notify) c.unread c =
          .next (c.behind exec command consumed) ∧
        commandLoop grants exec (fuel + 1) c.view =
          commandLoop grants exec fuel (c.behind exec command consumed).view) ∨
      ∃ o, executeNext (answering grants exec notify) c.unread c = .left o ∧
        commandLoop grants exec (fuel + 1) c.view = o.view := by
  have hbuf : c.view.buf = c.unread := rfl
  have hgrants : (answering grants exec notify).grants = grants := rfl
  rw [executeNext]
  rw [commandLoop, hbuf, if_neg hne, hgrants]
  cases hparse : RespParser.parse grants c.unread with
  | error err =>
    right
    cases err with
    | runtimeError msg => exact ⟨_, rfl, (view_onWhat msg c).symm⟩
    | lengthError => exact ⟨_, rfl, rfl⟩
    | badAlloc => exact ⟨_, rfl, rfl⟩
    | outOfFuel => exact ⟨_, rfl, rfl⟩
  | ok x =>
    left
    refine ⟨x.1, x.2, rfl, rfl, ?_⟩
    rw [view_behind]
    rfl

theorem view_of_processBuffer {rounds : ℕ} {c : ClientLocals σ} {o : TurnEnd σ}
    (h : Exact grants received c) (hrounds : c.bufPos - c.processedPos ≤ rounds)
    (ho : processBuffer (answering grants exec notify) rounds c = .ok o) :
    o.view = commandLoop grants exec rounds c.view := by
  induction rounds generalizing c with
  | zero =>
    rw [processBuffer, if_neg (by omega)] at ho
    cases ho
    rfl
  | succ rounds ih =>
    by_cases hpos : c.processedPos < c.bufPos
    · have hne : c.unread ≠ [] := by
        rw [Ne, unread_eq_nil_iff h.room.le]
        exact not_le.mpr hpos
      rw [processBuffer, if_pos hpos, readAt_unread h.position h.room.le] at ho
      simp only [checked, Except.bind] at ho
      rcases @commandLoop_view σ grants exec notify rounds c hne with
        ⟨command, consumed, hparse, hnext, hloop⟩ | ⟨o', hleft, hloop⟩
      · obtain ⟨hconsumed, hexact⟩ := h.execute (exec c.executed.length command c.state).2
          (c.written ++ [(exec c.executed.length command c.state).1]) hparse
        simp only [hnext] at ho
        rw [hloop]
        exact ih hexact (show c.bufPos - (c.processedPos + consumed) ≤ rounds by omega) ho
      · simp only [hleft] at ho
        cases ho
        exact hloop.symm
    · rw [processBuffer, if_neg hpos] at ho
      cases ho
      rw [commandLoop, if_pos]
      · rfl
      · exact (unread_eq_nil_iff h.room.le).mpr (not_lt.mp hpos)

/-! ### One turn -/

theorem closeIfFull_of_not_reading {c : Connection σ} (h : c.status ≠ .reading) :
    closeIfFull c = c := by
  rw [closeIfFull, if_neg fun hboth => h hboth.1]

/-- The view does not see how the rest is moved. -/
theorem view_of_finishRead {o o' : TurnEnd σ} (h : ∀ c, o = .goesOn c → Exact grants received c)
    (ho : finishRead o = .ok o') : o'.view = closeIfFull o.view := by
  cases o with
  | closed c =>
    cases ho
    exact (closeIfFull_of_not_reading (by simp [TurnEnd.view])).symm
  | terminated c =>
    cases ho
    exact (closeIfFull_of_not_reading (by simp [TurnEnd.view])).symm
  | goesOn c =>
    have hexact := h c rfl
    have hroom := hexact.room
    obtain ⟨buf, bufPos, hcompact, hfront, hle⟩ := compact_eq c hexact.position hroom.le
    have hlen : c.unread.length = bufPos := by
      rw [← hfront, List.length_take, List.Vector.toList_length]
      omega
    have hview : ({ c with buf := buf, bufPos := bufPos, processedPos := 0 } :
        ClientLocals σ).view = c.view := by
      have hunread : ({ c with buf := buf, bufPos := bufPos, processedPos := 0 } :
          ClientLocals σ).unread = c.unread := hfront
      unfold ClientLocals.view
      rw [hunread]
    rw [finishRead, hcompact] at ho
    cases ho
    unfold cutoff closeIfFull
    by_cases hfull : bufPos ≥ bufferSize - 1024
    · rw [if_pos hfull, if_pos ⟨rfl, show c.unread.length ≥ bufferSize - 1024 by rwa [hlen]⟩]
      show { ({ c with buf := buf, bufPos := bufPos, processedPos := 0 } :
        ClientLocals σ).view with
          written := c.written ++ [str "-ERR Command too large\r\n"], status := .closed } = _
      rw [hview]
      rfl
    · rw [if_neg hfull, if_neg]
      · exact hview
      · intro hboth
        exact hfull (by rw [← hlen]; exact hboth.2)

/-- The bytes stored are appended to the list. -/
theorem view_of_store {c c' : ClientLocals σ} {chunk : Bytes} (hpos : c.processedPos = 0)
    (hfit : c.bufPos + chunk.length < bufferSize) (hstore : store chunk c = .ok c') :
    c'.view = { c.view with buf := c.view.buf ++ chunk } ∧
      c'.bufPos = (c.view.buf ++ chunk).length := by
  obtain ⟨buf, hstore', hfront⟩ := store_eq chunk c hfit
  rw [hstore] at hstore'
  cases hstore'
  have hunread : c.unread = c.buf.toList.take c.bufPos := by
    rw [ClientLocals.unread, hpos, List.drop_zero]
  have hlen := length_unread (show c.bufPos ≤ bufferSize by omega)
  constructor
  · unfold ClientLocals.view
    rw [hunread, ← hfront]
    rfl
  · show c.bufPos + chunk.length = (c.unread ++ chunk).length
    rw [List.length_append, hlen, hpos, Nat.sub_zero]

/-- A read is a read of the connection. -/
theorem view_of_onArrived {c : ClientLocals σ} {chunk : Bytes} {o : TurnEnd σ}
    (h : AtHead grants received c) (hfit : chunk.length ≤ offered c.bufPos)
    (ho : onArrived (answering grants exec notify) chunk c = .ok o) :
    o.view = onReadable grants exec chunk c.view := by
  rw [onReadable, if_neg (by simp [ClientLocals.view])]
  by_cases hchunk : chunk = []
  · rw [onArrived, if_pos hchunk] at ho
    cases ho
    rw [if_pos hchunk]
    rfl
  · obtain ⟨c₁, hstore, hexact⟩ := h.store hfit
    obtain ⟨o₁, hloop, hends⟩ := @exact_of_processBuffer σ (answering grants exec notify) _ _ c₁
      hexact (Nat.sub_le _ _)
    rw [onArrived, if_neg hchunk, hstore] at ho
    simp only [Except.bind, hloop] at ho
    have hbufPos := h.bufPos
    have hsize : bufferSize = 8192 := rfl
    rw [offered_eq (by omega)] at hfit
    obtain ⟨hview, hlen⟩ := view_of_store h.processedPos (by omega) hstore
    rw [view_of_finishRead hends ho, view_of_processBuffer hexact (Nat.sub_le _ _) hloop,
      if_neg hchunk, hview, hlen]

theorem view_of_onNotify (c : ClientLocals σ) :
    (onNotify (answering grants exec notify) c).view =
      { c.view with state := (notify c.state).2, written := c.written ++ (notify c.state).1 } := rfl

/-- The buffer's loop goes on when the connection stays open. -/
theorem onSelected_of_reading {c : ClientLocals σ} {chunk : Bytes} (h : AtHead grants received c)
    (hfit : chunk.length ≤ offered c.bufPos)
    (hopen : (onReadable grants exec chunk c.view).status = .reading) :
    ∃ c', onSelected (answering grants exec notify) (some ⟨false, some chunk⟩) c =
        .ok (.goesOn c') ∧ c'.view = onReadable grants exec chunk c.view := by
  obtain ⟨o, ho, -⟩ := @atHead_of_onArrived σ (answering grants exec notify) _ c chunk h hfit
  have hview := view_of_onArrived h hfit ho
  rw [← hview] at hopen
  cases o with
  | goesOn c' => exact ⟨c', ho, hview⟩
  | closed c' => cases hopen
  | terminated c' => cases hopen

/-! ### Whole runs -/

/-- What holds at the head of the loop, behind any turns. -/
structure BufferExact (env : Surroundings σ) (turns : List Selected) (c : ClientLocals σ) :
    Prop where
  position : c.bufPos < bufferSize - 1024
  /-- The size given to `read` does not wrap, and is positive. -/
  offers : offered c.bufPos = bufferSize - c.bufPos - 1 ∧ 0 < offered c.bufPos
  /-- Whatever `read` delivers, the NUL lies in the buffer, and the loop over the commands ends
  within a round for each byte. -/
  reads : ∀ chunk : Bytes, chunk.length ≤ offered c.bufPos →
    c.bufPos + chunk.length < bufferSize ∧
      ∃ c', store chunk c = .ok c' ∧ ∀ rounds, c'.bufPos ≤ rounds →
        ∃ o, processBuffer env rounds c' = .ok o
  /-- The next turn makes no fault. -/
  goesOn : ∀ selected : Selected, selected.Fits c → ∃ o, onSelected env (some selected) c = .ok o
  /-- None lost, duplicated or reordered. -/
  account : c.executed.flatMap Prod.snd ++ c.buf.toList.take c.bufPos = receivedBytes turns
  /-- The commands are those that come off the front of what was received. -/
  commands : Takes (nextCommand env.grants) (receivedBytes turns) c.executed
    (c.buf.toList.take c.bufPos)

/-- Over every sequence of turns until the connection is closed. -/
theorem read_buffer_exact (env : Surroundings σ) (state : σ) (turns : List Selected)
    (c : ClientLocals σ) (h : Reaches env (.accepted state) turns c) :
    BufferExact env turns c := by
  have hhead := atHead_of_reaches h
  have hsize : bufferSize = 8192 := rfl
  have hbufPos := hhead.bufPos
  have hoffered := offered_eq (show c.bufPos < bufferSize by omega)
  refine ⟨hbufPos, ⟨hoffered, by omega⟩, ?_, ?_, ?_, hhead.takes⟩
  · intro chunk hfit
    obtain ⟨c', hstore, hexact⟩ := hhead.store hfit
    refine ⟨by omega, c', hstore, fun rounds hrounds => ?_⟩
    obtain ⟨o, ho, -⟩ := exact_of_processBuffer hexact
      (show c'.bufPos - c'.processedPos ≤ rounds by omega)
    exact ⟨o, ho⟩
  · intro selected hfit
    obtain ⟨o, ho, -⟩ := atHead_of_onSelected hhead hfit
    exact ⟨o, ho⟩
  · exact (hhead.takes.flatMap_append nextCommand_append).symm

theorem view_accepted (s : σ) : (ClientLocals.accepted s).view = { state := s } := by
  have hunread : (ClientLocals.accepted s).unread = [] := by
    rw [unread_eq_nil_iff (Nat.zero_le _)]
    exact le_rfl
  rw [ClientLocals.view]
  rw [hunread]
  rfl

/-- Every command is answered with `PONG`. -/
def ponging : Surroundings Unit := answering 8192 (fun _ _ s => (str "+PONG\r\n", s)) fun s => ([], s)

/-- A command and the count line of the next one, and then what that one lacks. -/
def pings : List Selected :=
  [⟨false, some (str "*1\r\n$4\r\nPING\r\n*1\r\n")⟩, ⟨false, some (str "$4\r\nPING\r\n")⟩]

/-- The count line is moved to the front and completed by the second read. -/
theorem read_buffer_exact_pings :
    ∃ c, Reaches ponging (.accepted ()) pings c ∧
      c.written = [str "+PONG\r\n", str "+PONG\r\n"] ∧ BufferExact ponging pings c := by
  let first : Connection Unit := onReadable 8192 (fun _ _ s => (str "+PONG\r\n", s))
    (str "*1\r\n$4\r\nPING\r\n*1\r\n") { state := () }
  let second : Connection Unit := onReadable 8192 (fun _ _ s => (str "+PONG\r\n", s))
    (str "$4\r\nPING\r\n") first
  have hopen : first.status = .reading ∧ second.status = .reading ∧
      second.written = [str "+PONG\r\n", str "+PONG\r\n"] := by decide +kernel
  simp only [first, second, ← view_accepted] at hopen
  obtain ⟨hfirst, hsecond, hwritten⟩ := hopen
  have hfits : ∀ {c : ClientLocals Unit} {received : Bytes} {bs : Bytes}, AtHead 8192 received c →
      bs.length ≤ 1023 → (⟨false, some bs⟩ : Selected).Fits c := by
    intro c received bs hc hbs chunk hchunk
    have hbufPos := hc.bufPos
    have hsize : bufferSize = 8192 := rfl
    cases hchunk
    rw [offered_eq (by omega)]
    omega
  have hhead := atHead_accepted 8192 ()
  have hfit := hfits hhead (show (str "*1\r\n$4\r\nPING\r\n*1\r\n").length ≤ 1023 by decide)
  obtain ⟨c₁, hturn₁, hview₁⟩ := onSelected_of_reading hhead (hfit _ rfl) hfirst
  have hrun₁ : Reaches ponging (.accepted ()) (pings.take 1) c₁ := Reaches.turn .start hfit hturn₁
  rw [← hview₁] at hsecond hwritten
  have hhead₁ : AtHead 8192 (receivedBytes (pings.take 1)) c₁ := atHead_of_reaches hrun₁
  have hfit₁ := hfits hhead₁ (show (str "$4\r\nPING\r\n").length ≤ 1023 by decide)
  obtain ⟨c₂, hturn₂, hview₂⟩ := onSelected_of_reading hhead₁ (hfit₁ _ rfl) hsecond
  have hrun₂ : Reaches ponging (.accepted ()) pings c₂ := Reaches.turn hrun₁ hfit₁ hturn₂
  rw [← hview₂] at hwritten
  exact ⟨c₂, hrun₂, hwritten, read_buffer_exact ponging () pings c₂ hrun₂⟩

/-! ### The commands do not depend on the cuts -/

/-- A round that leaves the loop without closing has found no complete command. -/
theorem nextCommand_of_left {c c' : ClientLocals σ} (h : Exact grants received c)
    (hleft : executeNext (answering grants exec notify) c.unread c = .left (.goesOn c')) :
    c' = c ∧ nextCommand grants c.unread = none := by
  have hroom := h.room
  have hlen := length_unread hroom.le
  have hnone : ∀ err, RespParser.parse grants c.unread = .error err →
      nextCommand grants c.unread = none := by
    intro err herr
    rw [nextCommand, List.take_of_length_le (by omega), herr]
  have hgrants : (answering grants exec notify).grants = grants := rfl
  rw [executeNext] at hleft
  rw [hgrants] at hleft
  cases hparse : RespParser.parse grants c.unread with
  | error err =>
    rw [hparse] at hleft
    refine ⟨?_, hnone err hparse⟩
    cases err with
    | runtimeError msg => exact sameBuffer_of_onWhat (Round.left.inj hleft)
    | lengthError => cases hleft
    | badAlloc => cases hleft
    | outOfFuel => cases hleft
  | ok x =>
    rw [hparse] at hleft
    cases hleft

theorem nextCommand_of_le {c : ClientLocals σ} (h : c.bufPos ≤ bufferSize)
    (hpos : c.bufPos ≤ c.processedPos) : nextCommand grants c.unread = none := by
  rw [(unread_eq_nil_iff h).mpr hpos]
  rfl

theorem drained_of_processBuffer {rounds : ℕ} {c c' : ClientLocals σ} (h : Exact grants received c)
    (hgoes : processBuffer (answering grants exec notify) rounds c = .ok (.goesOn c')) :
    nextCommand grants c'.unread = none := by
  induction rounds generalizing c with
  | zero =>
    rw [processBuffer] at hgoes
    split at hgoes
    · cases hgoes
    · cases hgoes
      exact nextCommand_of_le h.room.le (by omega)
  | succ rounds ih =>
    rw [processBuffer] at hgoes
    split at hgoes
    · rename_i hpos
      have hne : c.unread ≠ [] := by
        rw [Ne, unread_eq_nil_iff h.room.le]
        exact not_le.mpr hpos
      rw [readAt_unread h.position h.room.le] at hgoes
      simp only [checked, Except.bind] at hgoes
      rcases @commandLoop_view σ grants exec notify rounds c hne with
        ⟨command, consumed, hparse, hnext, -⟩ | ⟨o, hleft, -⟩
      · obtain ⟨-, hexact⟩ := h.execute (exec c.executed.length command c.state).2
          (c.written ++ [(exec c.executed.length command c.state).1]) hparse
        simp only [hnext] at hgoes
        exact ih hexact hgoes
      · simp only [hleft] at hgoes
        cases hgoes
        obtain ⟨rfl, hnone⟩ := nextCommand_of_left h hleft
        exact hnone
    · cases hgoes
      exact nextCommand_of_le h.room.le (by omega)

/-- A read leaves no complete command in the buffer. -/
theorem drained_of_onArrived {c c' : ClientLocals σ} {chunk : Bytes} (h : AtHead grants received c)
    (hfit : chunk.length ≤ offered c.bufPos)
    (hgoes : onArrived (answering grants exec notify) chunk c = .ok (.goesOn c')) :
    nextCommand grants c'.unread = none := by
  rw [onArrived] at hgoes
  split at hgoes
  · cases hgoes
  · obtain ⟨c₁, hstore, hexact⟩ := h.store hfit
    obtain ⟨o, hloop, hends⟩ := @exact_of_processBuffer σ (answering grants exec notify) _ _ c₁
      hexact (Nat.sub_le _ _)
    rw [hstore] at hgoes
    simp only [Except.bind, hloop] at hgoes
    cases o with
    | closed c₂ => cases hgoes
    | terminated c₂ => cases hgoes
    | goesOn c₂ =>
      have hexact₂ := hends c₂ rfl
      have hview := view_of_finishRead hends hgoes
      have hopen : (closeIfFull c₂.view).status = .reading := by
        rw [show closeIfFull c₂.view = c'.view from hview.symm]
        rfl
      have hsame : closeIfFull c₂.view = c₂.view := by
        unfold closeIfFull at hopen ⊢
        split at hopen
        · cases hopen
        · rename_i hnot
          rw [if_neg hnot]
      have hunread : c'.unread = c₂.unread := congrArg Connection.buf (hview.trans hsame)
      rw [hunread]
      exact drained_of_processBuffer hexact hloop

theorem drained_of_reaches {s : σ} {turns : List Selected} {c : ClientLocals σ}
    (h : Reaches (answering grants exec notify) (.accepted s) turns c) :
    nextCommand grants c.unread = none := by
  induction h with
  | start => exact nextCommand_of_le (Nat.zero_le _) le_rfl
  | @turn turns selected c c' hturns hfit hturn ih =>
    have hhead : AtHead grants (receivedBytes turns) c := atHead_of_reaches hturns
    obtain ⟨c₁, hnotify, ⟨-, rfl⟩ | ⟨chunk, harrived, hread⟩⟩ := goesOn_cases hturn
    · rwa [(sameBuffer_of_notified hnotify).unread]
    · have hsame := sameBuffer_of_notified hnotify
      exact drained_of_onArrived (hhead.of_same hsame) (hfit.of_same hsame harrived) hread

/-- Two connections that received the same bytes and are still open have executed the same commands,
however the bytes were cut, and keep the same beginning of the next one. -/
theorem executed_unique {exec' : ℕ → RespValue → σ → Bytes × σ} {notify' : σ → List Bytes × σ}
    {s s' : σ} {turns turns' : List Selected} {c c' : ClientLocals σ}
    (h : Reaches (answering grants exec notify) (.accepted s) turns c)
    (h' : Reaches (answering grants exec' notify') (.accepted s') turns' c')
    (hbytes : receivedBytes turns = receivedBytes turns') :
    c.executed = c'.executed ∧ c.unread = c'.unread := by
  have hhead : AtHead grants (receivedBytes turns) c := atHead_of_reaches h
  have hhead' : AtHead grants (receivedBytes turns') c' := atHead_of_reaches h'
  have htakes := hhead.takes
  have htakes' := hhead'.takes
  rw [← hhead.unread] at htakes
  rw [← hhead'.unread, ← hbytes] at htakes'
  exact htakes.unique (drained_of_reaches h) htakes' (drained_of_reaches h')

section Server

variable {S : Type} [Score S] {Λ : Type}

/-- The messages queued for a client, and the session once they are taken. -/
def takeMessages (s : Session S Λ) : List Bytes × Session S Λ :=
  match s.world.clientProcessors.find? s.self.clientFd with
  | none => ([], s)
  | some mailbox =>
      (mailbox.pubsubMessages, { s with world := { s.world with
        clientProcessors := s.world.clientProcessors.set s.self.clientFd { mailbox with
          pubsubMessages := [], notifyBytes := mailbox.notifyBytes - 1 } } })

/-- `handle_client` with its commands; `clock i` is the time of the `i`-th one. -/
def serving (env : Env Λ) (grants : ℕ) (clock : ℕ → ℤ) : Surroundings (Session S Λ) :=
  answering grants (fun i command s => processCommand env (clock i) command s) takeMessages

/-- A turn as events: the notify branch comes first. -/
def Selected.events (selected : Selected) : List Event :=
  (if selected.notified then [.notified] else []) ++
    (selected.arrived.map Event.readable).toList

theorem view_of_notified (env : Env Λ) (grants : ℕ) (clock : ℕ → ℤ)
    (c : ClientLocals (Session S Λ)) :
    (onNotify (serving env grants clock) c).view = onNotified c.view := by
  have hstate : c.view.state = c.state := rfl
  have hwritten : c.view.written = c.written := rfl
  rw [serving, view_of_onNotify, onNotified, if_neg (by simp [ClientLocals.view])]
  simp only [takeMessages, hstate]
  cases c.state.world.clientProcessors.find? c.state.self.clientFd with
  | none => simp only [List.append_nil, ← hwritten, ← hstate]
  | some mailbox => rw [← hwritten]

theorem handleClient_append (env : Env Λ) (grants : ℕ) (clock : ℕ → ℤ) (events more : List Event)
    (c : Connection (Session S Λ)) :
    handleClient env grants clock (events ++ more) c =
      handleClient env grants clock more (handleClient env grants clock events c) :=
  List.foldl_append

/-- A turn that comes back to the head is its events, one after the other. -/
theorem view_of_onSelected (env : Env Λ) (grants : ℕ) (clock : ℕ → ℤ)
    {c c' : ClientLocals (Session S Λ)} {selected : Selected} (h : AtHead grants received c)
    (hfit : selected.Fits c)
    (hturn : onSelected (serving env grants clock) (some selected) c = .ok (.goesOn c')) :
    c'.view = handleClient env grants clock selected.events c.view := by
  have hnotified : (if selected.notified then onNotify (serving env grants clock) c
      else .goesOn c).view =
        handleClient env grants clock (if selected.notified then [.notified] else []) c.view := by
    split
    · exact view_of_notified env grants clock c
    · rfl
  obtain ⟨c₁, hnotify, harrived⟩ := goesOn_cases hturn
  rw [Selected.events, handleClient_append, ← hnotified, hnotify]
  rcases harrived with ⟨hnone, rfl⟩ | ⟨chunk, hchunk, hread⟩
  · rw [hnone]
    rfl
  · have hsame := sameBuffer_of_notified hnotify
    rw [hchunk]
    exact view_of_onArrived (h.of_same hsame) (hfit.of_same hsame hchunk) hread

/-- Over every sequence of turns the buffer shows what `handleClient` makes of their events. -/
theorem view_of_reaches (env : Env Λ) (grants : ℕ) (clock : ℕ → ℤ) (s : Session S Λ)
    (turns : List Selected) (c : ClientLocals (Session S Λ))
    (h : Reaches (serving env grants clock) (.accepted s) turns c) :
    c.view = handleClient env grants clock (turns.flatMap Selected.events)
      (ClientLocals.accepted s).view := by
  induction h with
  | start => rfl
  | turn hturns hfit hturn ih =>
    rw [List.flatMap_append, handleClient_append, ← ih, List.flatMap_singleton]
    exact view_of_onSelected env grants clock (atHead_of_reaches hturns) hfit hturn

end Server

end ReadBuffer

end MinimalRedis
