import MinimalRedis.Fleet

/-!
# The connections refine the server

* `Occurrence` seen from one connection, since it was accepted (`lifetime`);
* `Represents` — what has been executed is one history of the server, and what each handler has read,
  written and kept is what the history says;
* `represents_step` — every step keeps it;
* `fleet_refines_server` — over every run, what the handlers have executed is **one history of the
  server**, with the same replies and the same world; each client's commands are those at the front of the
  bytes it has sent, and it has been written their replies and its messages, in order.

These are the runs of `Fleet`, in which a command is one step.
-/

namespace MinimalRedis

open Lib
open ReadBuffer (nextCommand stable_nextCommand)

variable {S : Type} [Score S] {Λ : Type}

/-! ### What is seen of one connection -/

namespace Occurrence

def fd : Occurrence → ℤ
  | accepted fd _ => fd
  | received fd _ => fd
  | served fd _ _ _ => fd
  | delivered fd _ => fd
  | closed fd => fd

/-- The event of the server's history, with its reply. -/
def observation? : Occurrence → Option (ServerEvent × Bytes)
  | accepted fd notifyWriteFd => some (.accept fd notifyWriteFd, [])
  | served fd now command reply => some (.command fd now command, reply)
  | closed fd => some (.close fd, [])
  | _ => none

/-- The bytes that come from the client. -/
def chunk : Occurrence → Bytes
  | received _ chunk => chunk
  | _ => []

def command? : Occurrence → Option RespValue
  | served _ _ command _ => some command
  | _ => none

/-- What the client is written. -/
def output? : Occurrence → Option Bytes
  | served _ _ _ reply => some reply
  | delivered _ message => some message
  | _ => none

def message? : Occurrence → Option Bytes
  | delivered _ message => some message
  | _ => none

def isAccept : Occurrence → Bool
  | accepted _ _ => true
  | _ => false

end Occurrence

theorem flatMap_snoc {α β : Type} (g : α → List β) (xs : List α) (x : α) :
    (xs ++ [x]).flatMap g = xs.flatMap g ++ g x := by
  rw [List.flatMap_append, List.flatMap_singleton]

theorem filterMap_snoc {α β : Type} (g : α → Option β) (xs : List α) (x : α) :
    (xs ++ [x]).filterMap g = xs.filterMap g ++ (g x).toList := by
  rw [List.filterMap_append]
  cases hx : g x with
  | none => rw [List.filterMap_cons_none hx, List.filterMap_nil, Option.toList_none]
  | some y => rw [List.filterMap_cons_some hx, List.filterMap_nil, Option.toList_some]

theorem filterMap_snoc_none {α β : Type} {g : α → Option β} {x : α} (h : g x = none) (xs : List α) :
    (xs ++ [x]).filterMap g = xs.filterMap g := by
  rw [filterMap_snoc, h, Option.toList_none, List.append_nil]

/-- What is seen of the connection on `fd` since it was accepted. -/
def lifetime (fd : ℤ) (trace : List Occurrence) : List Occurrence :=
  trace.foldl (fun own e => if e.fd ≠ fd then own else if e.isAccept then [] else own ++ [e]) []

theorem lifetime_append_ne {fd : ℤ} {trace : List Occurrence} {e : Occurrence} (h : e.fd ≠ fd) :
    lifetime fd (trace ++ [e]) = lifetime fd trace := by
  rw [lifetime, List.foldl_append]
  exact if_pos h

theorem lifetime_append_own {fd : ℤ} {trace : List Occurrence} {e : Occurrence} (h : e.fd = fd)
    (haccept : e.isAccept = false) : lifetime fd (trace ++ [e]) = lifetime fd trace ++ [e] := by
  rw [lifetime, List.foldl_append]
  show (if e.fd ≠ fd then _ else if e.isAccept = true then _ else _) = _
  rw [if_neg (not_not_intro h), haccept]
  rfl

theorem lifetime_append_accepted (fd n : ℤ) (trace : List Occurrence) :
    lifetime fd (trace ++ [.accepted fd n]) = [] := by
  rw [lifetime, List.foldl_append]
  exact if_neg (not_not_intro rfl)

/-! ### One history of the server -/

/-- The history of the server that is seen in a run. -/
def historyOf (trace : List Occurrence) : List ServerEvent :=
  (trace.filterMap Occurrence.observation?).map Prod.fst

/-- The server emits each event with its reply. -/
def Server.emit? (env : Env Λ) (boot : Λ) (e : ServerEvent) (srv : Server S Λ) :
    Option (Option (ServerEvent × Bytes) × Server S Λ) :=
  (srv.step? env boot e).map fun x => (some (e, x.1), x.2)

/-- Such a run is a history. -/
theorem Server.run?_of_emit {env : Env Λ} {boot : Λ} {history : List ServerEvent} {srv srv' : Server S Λ}
    {log : List (ServerEvent × Bytes)}
    (h : Machine.run? (Server.emit? env boot) history srv = some (log, srv')) :
    srv.run? env boot history = some srv' := by
  induction history generalizing srv log with
  | nil =>
    cases h
    rfl
  | cons e history ih =>
    obtain ⟨e', srv₁, rest, hstep, hrest, -⟩ := Machine.run?_cons h
    obtain ⟨x, hx, heq⟩ := Option.map_eq_some_iff.mp hstep
    cases heq
    rw [Server.run?, hx, Option.bind_some]
    exact ih hrest

/-- What a handler has done since its connection was accepted, `m` being its mailbox and `m'` the one that
nobody empties. -/
structure Handler.Faithful (grants : ℕ) (own : List Occurrence) (m m' : Mailbox) (h : Handler Λ) : Prop where
  commands : ∃ taken, Takes (nextCommand grants) (own.flatMap Occurrence.chunk) taken h.connection.buf ∧
    taken.map Prod.fst = own.filterMap Occurrence.command?
  written : h.connection.written = own.filterMap Occurrence.output?
  messages : m'.pubsubMessages = own.filterMap Occurrence.message? ++ m.pubsubMessages
  room : h.connection.buf.length < bufferSize
  awake : h.phase = .draining ∨ m.pubsubMessages = [] ∨ 0 < m.notifyBytes
  pipe : m.notifyWriteFd ≠ -1

/-- The fleet is where the server is behind the history that was seen, but for the mailboxes. -/
structure Represents (env : Env Λ) (boot : Λ) (grants : ℕ) (d : Data S) (trace : List Occurrence)
    (f : Fleet S Λ) (srv : Server S Λ) : Prop where
  history : Machine.run? (Server.emit? env boot) (historyOf trace) (Server.start d) =
    some (trace.filterMap Occurrence.observation?, srv)
  world : srv.world = { f.world with clientProcessors := srv.world.clientProcessors }
  processors : ∀ fd, srv.processors.find? fd = (f.handlers.find? fd).map fun h => h.connection.state
  handlers : ∀ fd h, f.handlers.find? fd = some h → ∃ m m',
    f.world.clientProcessors.find? fd = some m ∧ srv.world.clientProcessors.find? fd = some m' ∧
      h.Faithful grants (lifetime fd trace) m m'

section Steps

variable {env : Env Λ} {boot : Λ} {grants : ℕ} {d : Data S} {trace own : List Occurrence}
  {f f' : Fleet S Λ} {srv : Server S Λ} {fd : ℤ} {h h' : Handler Λ} {m m' : Mailbox}

theorem Handler.Faithful.receive (hh : h.Faithful grants own m m') (messages : List Bytes) :
    h.Faithful grants own (m.receive messages) (m'.receive messages) where
  commands := hh.commands
  written := hh.written
  messages := by
    rw [Mailbox.pubsubMessages_receive, Mailbox.pubsubMessages_receive, hh.messages, List.append_assoc]
  room := hh.room
  awake := by
    rw [Mailbox.pubsubMessages_receive, Mailbox.notifyBytes_receive messages hh.pipe]
    rcases hh.awake with hphase | hnil | hbytes
    · exact .inl hphase
    · rw [hnil, List.nil_append, ← List.length_eq_zero_iff]
      omega
    · exact .inr (.inr (by omega))
  pipe := by
    rw [Mailbox.notifyWriteFd_receive]
    exact hh.pipe

/-- A step of one handler that the server does not see. -/
theorem Represents.quiet {e : Option Occurrence} (hrep : Represents env boot grants d trace f srv)
    (hh : f.handlers.find? fd = some h)
    (hown : ∀ x ∈ e.toList, x.fd = fd ∧ x.isAccept = false ∧ x.observation? = none)
    (hhandlers : f'.handlers = f.handlers.set fd h') (hstate : h'.connection.state = h.connection.state)
    (hworld : f'.world = { f.world with clientProcessors := f'.world.clientProcessors })
    (hothers : ∀ fd', fd' ≠ fd →
      f'.world.clientProcessors.find? fd' = f.world.clientProcessors.find? fd')
    (hfaithful : ∀ m m', f.world.clientProcessors.find? fd = some m →
      h.Faithful grants (lifetime fd trace) m m' → ∃ m₁, f'.world.clientProcessors.find? fd = some m₁ ∧
        h'.Faithful grants (lifetime fd trace ++ e.toList) m₁ m') :
    Represents env boot grants d (trace ++ e.toList) f' srv := by
  have hobserve : (trace ++ e.toList).filterMap Occurrence.observation? =
      trace.filterMap Occurrence.observation? := by
    rw [List.filterMap_append, List.filterMap_eq_nil_iff.mpr fun x hx => (hown x hx).2.2,
      List.append_nil]
  have hlifetime : lifetime fd (trace ++ e.toList) = lifetime fd trace ++ e.toList := by
    cases e with
    | none => exact (congrArg _ (List.append_nil _)).trans (List.append_nil _).symm
    | some x =>
      obtain ⟨hfd, haccept, -⟩ := hown x (List.mem_singleton_self x)
      exact lifetime_append_own hfd haccept
  have hother : ∀ fd', fd' ≠ fd → lifetime fd' (trace ++ e.toList) = lifetime fd' trace := by
    intro fd' hne
    cases e with
    | none => exact congrArg _ (List.append_nil _)
    | some x =>
      obtain ⟨hfd, -⟩ := hown x (List.mem_singleton_self x)
      exact lifetime_append_ne (hfd ▸ hne.symm)
  refine ⟨?_, ?_, fun fd' => ?_, fun fd' h₁ hh₁ => ?_⟩
  · rw [historyOf, hobserve]
    exact hrep.history
  · rw [hworld]
    exact hrep.world
  · rw [hhandlers, hrep.processors]
    by_cases hfd : fd' = fd
    · rw [hfd, hh, UMap.find?_set_self, Option.map_some, Option.map_some, hstate]
    · rw [UMap.find?_set_ne _ _ hfd]
  · rw [hhandlers] at hh₁
    by_cases hfd : fd' = fd
    · subst hfd
      rw [UMap.find?_set_self] at hh₁
      cases hh₁
      obtain ⟨m, m', hm, hm', hown'⟩ := hrep.handlers fd' h hh
      obtain ⟨m₁, hm₁, hnew⟩ := hfaithful m m' hm hown'
      rw [hlifetime]
      exact ⟨m₁, m', hm₁, hm', hnew⟩
    · rw [UMap.find?_set_ne _ _ hfd] at hh₁
      rw [hother fd' hfd, hothers fd' hfd]
      exact hrep.handlers fd' h₁ hh₁

/-- A step of one handler that leaves no mark on the trace. -/
theorem Represents.silent (hrep : Represents env boot grants d trace f srv)
    (hh : f.handlers.find? fd = some h) (hhandlers : f'.handlers = f.handlers.set fd h')
    (hstate : h'.connection.state = h.connection.state)
    (hworld : f'.world = { f.world with clientProcessors := f'.world.clientProcessors })
    (hothers : ∀ fd', fd' ≠ fd →
      f'.world.clientProcessors.find? fd' = f.world.clientProcessors.find? fd')
    (hfaithful : ∀ m m', f.world.clientProcessors.find? fd = some m →
      h.Faithful grants (lifetime fd trace) m m' → ∃ m₁, f'.world.clientProcessors.find? fd = some m₁ ∧
        h'.Faithful grants (lifetime fd trace) m₁ m') :
    Represents env boot grants d (trace ++ (none : Option Occurrence).toList) f' srv := by
  refine hrep.quiet hh ?_ hhandlers hstate hworld hothers fun m m' hm hown => ?_
  · intro x hx
    exact absurd hx List.not_mem_nil
  · rw [Option.toList_none, List.append_nil]
    exact hfaithful m m' hm hown

theorem Represents.history_snoc {x : Occurrence} {y : ServerEvent × Bytes} {srv' : Server S Λ}
    (hrep : Represents env boot grants d trace f srv) (hx : x.observation? = some y)
    (hstep : srv.step? env boot y.1 = some (y.2, srv')) :
    Machine.run? (Server.emit? env boot) (historyOf (trace ++ [x])) (Server.start d) =
      some ((trace ++ [x]).filterMap Occurrence.observation?, srv') := by
  have hemit : Server.emit? env boot y.1 srv = some (some y, srv') := by
    rw [Server.emit?, hstep]
    rfl
  rw [historyOf, filterMap_snoc, hx, Option.toList_some, List.map_append]
  exact Machine.run?_append_singleton hrep.history hemit

/-- A connection is accepted. -/
theorem Represents.accept {n : ℤ} (hrep : Represents env boot grants d trace f srv) (hfd : ¬ fd < 0)
    (hn : ¬ n < 0) (hnone : f.handlers.find? fd = none) :
    Represents env boot grants d (trace ++ [.accepted fd n]) (f.register boot fd n)
      (srv.register boot fd n) := by
  have hfree : srv.processors.find? fd = none := by
    rw [hrep.processors, hnone]
    rfl
  have hstep : srv.step? env boot (.accept fd n) = some ([], srv.register boot fd n) := by
    rw [Server.step?, if_neg hfd, hfree]
  refine ⟨hrep.history_snoc (y := (_, _)) rfl hstep, ?_, fun fd' => ?_, fun fd' h₁ hh₁ => ?_⟩
  · have hworld := hrep.world
    show ({ srv.world with clientProcessors := _ } : World S) = _
    rw [hworld]
    rfl
  · show (srv.processors.set fd _).find? fd' = ((f.handlers.set fd _).find? fd').map _
    by_cases hne : fd' = fd
    · rw [hne, UMap.find?_set_self, UMap.find?_set_self]
      rfl
    · rw [UMap.find?_set_ne _ _ hne, UMap.find?_set_ne _ _ hne, hrep.processors]
  · replace hh₁ : (f.handlers.set fd _).find? fd' = some h₁ := hh₁
    show ∃ m m', (f.world.clientProcessors.set fd _).find? fd' = some m ∧
      (srv.world.clientProcessors.set fd _).find? fd' = some m' ∧ _
    by_cases hne : fd' = fd
    · subst hne
      rw [UMap.find?_set_self] at hh₁
      cases hh₁
      rw [lifetime_append_accepted, UMap.find?_set_self, UMap.find?_set_self]
      refine ⟨_, _, rfl, rfl, ⟨[], .done _, rfl⟩, rfl, rfl, Nat.zero_lt_succ _, .inr (.inl rfl), ?_⟩
      show n ≠ -1
      omega
    · rw [UMap.find?_set_ne _ _ hne] at hh₁
      rw [UMap.find?_set_ne _ _ hne, UMap.find?_set_ne _ _ hne, lifetime_append_ne (Ne.symm hne)]
      exact hrep.handlers fd' h₁ hh₁

/-- A handler cleans up. -/
theorem Represents.close (hrep : Represents env boot grants d trace f srv)
    (hh : f.handlers.find? fd = some h) :
    Represents env boot grants d (trace ++ [.closed fd]) (f.cleanup fd) (srv.cleanup fd) := by
  have hstep : srv.step? env boot (.close fd) = some ([], srv.cleanup fd) := by
    rw [Server.step?, hrep.processors, hh]
    rfl
  refine ⟨hrep.history_snoc (y := (_, _)) rfl hstep, ?_, fun fd' => ?_, fun fd' h₁ hh₁ => ?_⟩
  · have hworld := hrep.world
    show ({ srv.world with clientProcessors := _ } : World S) = _
    rw [hworld]
    rfl
  · show (srv.processors.erase fd).find? fd' = ((f.handlers.erase fd).find? fd').map _
    by_cases hne : fd' = fd
    · rw [hne, UMap.find?_erase_self, UMap.find?_erase_self]
      rfl
    · rw [UMap.find?_erase_ne _ hne, UMap.find?_erase_ne _ hne, hrep.processors]
  · replace hh₁ : (f.handlers.erase fd).find? fd' = some h₁ := hh₁
    have hne : fd' ≠ fd := by
      intro heq
      rw [heq, UMap.find?_erase_self] at hh₁
      cases hh₁
    rw [UMap.find?_erase_ne _ hne] at hh₁
    show ∃ m m', (f.world.clientProcessors.erase fd).find? fd' = some m ∧
      (srv.world.clientProcessors.erase fd).find? fd' = some m' ∧ _
    rw [UMap.find?_erase_ne _ hne, UMap.find?_erase_ne _ hne, lifetime_append_ne (Ne.symm hne)]
    exact hrep.handlers fd' h₁ hh₁

/-- What a handler has done once it has executed a command. -/
theorem Handler.Faithful.execute (hh : h.Faithful grants own m m') (hphase : h.phase = .executing)
    {exec : ℕ → RespValue → Session S Λ → Bytes × Session S Λ} {world : World S} {command : RespValue}
    {reply : Bytes} {c : Connection (Session S Λ)} {now : ℤ}
    (hround : commandRound grants exec (h.connection.enter world) = .executed command reply c) :
    ({ connection := c.leave, phase := .executing } : Handler Λ).Faithful grants
      (own ++ [.served fd now command reply]) m m' := by
  obtain ⟨bytes, hnext, hshorter, -, -, hwritten⟩ := commandRound_executed hround hh.room
  obtain ⟨taken, htakes, hcommands⟩ := hh.commands
  refine ⟨⟨taken ++ [(command, bytes)], ?_, ?_⟩, ?_, ?_, lt_trans hshorter hh.room, ?_, hh.pipe⟩
  · rw [flatMap_snoc]
    exact (List.append_nil _).symm ▸ htakes.append (.take hnext (.done _))
  · rw [List.map_append, filterMap_snoc, hcommands]
    rfl
  · rw [filterMap_snoc, ← hh.written]
    exact hwritten
  · rw [filterMap_snoc_none rfl]
    exact hh.messages
  · refine .inr (hh.awake.resolve_left ?_)
    rw [hphase]
    decide

/-- A handler executes a command. -/
theorem Represents.serve {now : ℤ} {command : RespValue} {reply : Bytes} {c : Connection (Session S Λ)}
    (hrep : Represents env boot grants d trace f srv) (hh : f.handlers.find? fd = some h)
    (hphase : h.phase = .executing)
    (hround : commandRound grants (fun _ => processCommand env now) (h.connection.enter f.world) =
      .executed command reply c) :
    ∃ srv', Represents env boot grants d (trace ++ [.served fd now command reply])
      { f with
        world := c.state.world
        handlers := f.handlers.set fd { connection := c.leave, phase := .executing } } srv' := by
  let s : Session S Λ := ⟨f.world, h.connection.state⟩
  obtain ⟨m, m', hm, hm', hown⟩ := hrep.handlers fd h hh
  obtain ⟨-, -, -, hreply, hstate, -⟩ := commandRound_executed hround hown.room
  replace hreply : reply = (processCommand env now command s).1 := hreply
  replace hstate : c.state = (processCommand env now command s).2 := hstate
  have hserver : (⟨srv.world, h.connection.state⟩ : Session S Λ) =
      s.withMailboxes srv.world.clientProcessors := by
    rw [hrep.world]
    rfl
  have hcommand := processCommand_withMailboxes env now command s srv.world.clientProcessors
  have hmailboxes : c.state.world.clientProcessors =
      mailboxesAfter command s f.world.clientProcessors := by
    rw [hstate]
    exact clientProcessors_processCommand env now command s
  let srv' : Server S Λ :=
    { world := (c.state.withMailboxes (mailboxesAfter command s srv.world.clientProcessors)).world
      processors := srv.processors.set fd c.state.self }
  have hstep : srv.step? env boot (.command fd now command) = some (reply, srv') := by
    rw [Server.step?, hrep.processors, hh]
    show some (srv.process env fd now h.connection.state command) = _
    rw [Server.process, hserver, hcommand, ← hreply, ← hstate]
    rfl
  refine ⟨srv', hrep.history_snoc (y := (_, _)) rfl hstep, rfl, fun fd' => ?_, fun fd' h₁ hh₁ => ?_⟩
  · show (srv.processors.set fd _).find? fd' = ((f.handlers.set fd _).find? fd').map _
    by_cases hne : fd' = fd
    · rw [hne, UMap.find?_set_self, UMap.find?_set_self]
      rfl
    · rw [UMap.find?_set_ne _ _ hne, UMap.find?_set_ne _ _ hne, hrep.processors]
  · replace hh₁ : (f.handlers.set fd _).find? fd' = some h₁ := hh₁
    show ∃ m m', c.state.world.clientProcessors.find? fd' = some m ∧
      (mailboxesAfter command s srv.world.clientProcessors).find? fd' = some m' ∧ _
    rw [hmailboxes, find?_mailboxesAfter, find?_mailboxesAfter]
    by_cases hne : fd' = fd
    · subst hne
      rw [UMap.find?_set_self] at hh₁
      cases hh₁
      have hlifetime : lifetime fd' (trace ++ [.served fd' now command reply]) = _ :=
        lifetime_append_own rfl rfl
      rw [hm, hm', hlifetime]
      exact ⟨_, _, rfl, rfl, (hown.execute hphase hround).receive _⟩
    · rw [UMap.find?_set_ne _ _ hne] at hh₁
      obtain ⟨m₁, m₁', hm₁, hm₁', hother⟩ := hrep.handlers fd' h₁ hh₁
      rw [hm₁, hm₁', lifetime_append_ne (Ne.symm hne)]
      exact ⟨_, _, rfl, rfl, hother.receive _⟩

/-- The handler stands elsewhere, and nothing else has changed. -/
theorem Handler.Faithful.move (hh : h.Faithful grants own m m')
    (hbuf : h'.connection.buf = h.connection.buf) (hwritten : h'.connection.written = h.connection.written)
    (hawake : h'.phase = .draining ∨ m.pubsubMessages = [] ∨ 0 < m.notifyBytes) :
    h'.Faithful grants own m m' where
  commands := by
    rw [hbuf]
    exact hh.commands
  written := hwritten.trans hh.written
  messages := hh.messages
  room := hbuf ▸ hh.room
  awake := hawake
  pipe := hh.pipe

/-- Bytes arrive. -/
theorem Handler.Faithful.arrive {chunk : Bytes} (hh : h.Faithful grants own m m')
    (hphase : h.phase = .selecting) (hfit : chunk.length ≤ bufferSize - h.connection.buf.length - 1) :
    ({ connection := { h.connection with buf := h.connection.buf ++ chunk }, phase := .executing } :
      Handler Λ).Faithful grants (own ++ [.received fd chunk]) m m' := by
  obtain ⟨taken, htakes, hcommands⟩ := hh.commands
  refine ⟨⟨taken, ?_, ?_⟩, ?_, ?_, ?_, ?_, hh.pipe⟩
  · rw [flatMap_snoc]
    exact htakes.more (stable_nextCommand grants) chunk
  · rw [filterMap_snoc_none rfl]
    exact hcommands
  · rw [filterMap_snoc_none rfl]
    exact hh.written
  · rw [filterMap_snoc_none rfl]
    exact hh.messages
  · show (h.connection.buf ++ chunk).length < bufferSize
    have hroom := hh.room
    rw [List.length_append]
    omega
  · refine .inr (hh.awake.resolve_left ?_)
    rw [hphase]
    decide

/-- A message is written. -/
theorem Handler.Faithful.deliver {message : Bytes} {rest : List Bytes} (hh : h.Faithful grants own m m')
    (hphase : h.phase = .draining) (hqueue : m.pubsubMessages = message :: rest) :
    ({ h with connection := { h.connection with written := h.connection.written ++ [message] } } :
      Handler Λ).Faithful grants (own ++ [.delivered fd message]) { m with pubsubMessages := rest } m' := by
  obtain ⟨taken, htakes, hcommands⟩ := hh.commands
  refine ⟨⟨taken, ?_, ?_⟩, ?_, ?_, hh.room, .inl hphase, hh.pipe⟩
  · rw [flatMap_snoc]
    exact (List.append_nil _).symm ▸ htakes
  · rw [filterMap_snoc_none rfl]
    exact hcommands
  · rw [filterMap_snoc, ← hh.written]
    rfl
  · rw [filterMap_snoc, hh.messages, hqueue, List.append_assoc]
    rfl

/-- A handler leaves the loop over the commands. -/
theorem Represents.leave {now : ℤ} {c : Connection (Session S Λ)}
    (hrep : Represents env boot grants d trace f srv) (hh : f.handlers.find? fd = some h)
    (hphase : h.phase = .executing)
    (hround : commandRound grants (fun _ => processCommand env now) (h.connection.enter f.world) =
      .left c) :
    ∃ srv', Represents env boot grants d (trace ++ (f.leaveLoop fd (closeIfFull c)).1.toList)
      (f.leaveLoop fd (closeIfFull c)).2 srv' := by
  obtain ⟨hstate, halike⟩ := commandRound_left hround
  have hself : (closeIfFull c).state.self = h.connection.state := congrArg Session.self hstate
  have hmoved : (closeIfFull c).status ≠ .closed → ∀ (phase : Phase) (m m' : Mailbox),
      h.Faithful grants (lifetime fd trace) m m' →
        ({ connection := (closeIfFull c).leave, phase := phase } : Handler Λ).Faithful grants
          (lifetime fd trace) m m' := by
    intro hopen phase m m' hh
    obtain ⟨-, hbuf, hwritten⟩ := halike.resolve_left hopen
    refine hh.move hbuf hwritten (.inr (hh.awake.resolve_left ?_))
    rw [hphase]
    decide
  unfold Fleet.leaveLoop
  cases hstatus : (closeIfFull c).status with
  | closed => exact ⟨_, hrep.close hh⟩
  | reading =>
    refine ⟨srv, hrep.silent hh rfl hself rfl (fun _ _ => rfl) fun m m' hm hown => ⟨m, hm, ?_⟩⟩
    exact hmoved (by rw [hstatus]; decide) .selecting m m' hown
  | terminated =>
    refine ⟨srv, hrep.silent hh rfl hself rfl (fun _ _ => rfl) fun m m' hm hown => ⟨m, hm, ?_⟩⟩
    exact hmoved (by rw [hstatus]; decide) .executing m m' hown

/-- Every step of a handler is a step of the server, or none. -/
theorem represents_step {a : FleetAction} {e : Option Occurrence}
    (hrep : Represents env boot grants d trace f srv)
    (hstep : f.step? env boot grants a = some (e, f')) :
    ∃ srv', Represents env boot grants d (trace ++ e.toList) f' srv' := by
  unfold Fleet.step? at hstep
  split at hstep
  · cases hstep
  cases a with
  | accept fd n =>
    simp only at hstep
    split at hstep
    · cases hstep
    · rename_i hguard
      cases hstep
      rw [not_or, not_or, Bool.not_eq_true, Option.isSome_eq_false_iff, Option.isNone_iff_eq_none] at hguard
      exact ⟨_, hrep.accept hguard.1 hguard.2.1 hguard.2.2⟩
  | receive fd chunk =>
    obtain ⟨h, hh, hstep⟩ := Option.bind_eq_some_iff.mp hstep
    split at hstep
    · rename_i hguard
      obtain ⟨hphase, -, hfit⟩ := hguard
      cases hstep
      refine ⟨srv, hrep.quiet hh ?_ rfl rfl rfl (fun _ _ => rfl) fun m m' hm hown => ?_⟩
      · intro x hx
        cases List.mem_singleton.mp hx
        exact ⟨rfl, rfl, rfl⟩
      · exact ⟨m, hm, hown.arrive hphase hfit⟩
    · cases hstep
  | round fd now =>
    obtain ⟨h, hh, hstep⟩ := Option.bind_eq_some_iff.mp hstep
    split at hstep
    · rename_i hphase
      cases hround : commandRound grants (fun _ => processCommand env now)
          (h.connection.enter f.world) with
      | executed command reply c =>
        rw [hround] at hstep
        cases hstep
        exact hrep.serve hh hphase hround
      | left c =>
        rw [hround] at hstep
        have hleft := hrep.leave hh hphase hround
        rw [Fleet.afterRound, Option.some_inj] at hstep
        rw [hstep] at hleft
        exact hleft
    · cases hstep
  | notified fd =>
    obtain ⟨h, hh, hstep⟩ := Option.bind_eq_some_iff.mp hstep
    obtain ⟨mailbox, hmailbox, hstep⟩ := Option.bind_eq_some_iff.mp hstep
    split at hstep
    · cases hstep
      refine ⟨srv, hrep.silent hh rfl rfl rfl (fun fd' hne => UMap.find?_set_ne _ _ hne)
        fun m m' hm hown => ⟨_, UMap.find?_set_self _ _ _, ?_⟩⟩
      cases hmailbox.symm.trans hm
      exact ⟨hown.commands, hown.written, hown.messages, hown.room, .inl rfl, hown.pipe⟩
    · cases hstep
  | drain fd =>
    obtain ⟨h, hh, hstep⟩ := Option.bind_eq_some_iff.mp hstep
    obtain ⟨mailbox, hmailbox, hstep⟩ := Option.bind_eq_some_iff.mp hstep
    split at hstep
    · rename_i hphase
      split at hstep
      · rename_i hmessages
        obtain ⟨message, rest, hqueue⟩ := List.exists_cons_of_ne_nil
          (Mailbox.hasPubsubMessages_iff.mp hmessages)
        have hnext : mailbox.getNextPubsubMessage = (message, { mailbox with pubsubMessages := rest }) := by
          rw [Mailbox.getNextPubsubMessage, hqueue]
        rw [hnext] at hstep
        cases hstep
        refine ⟨srv, hrep.quiet hh ?_ rfl rfl rfl (fun fd' hne => UMap.find?_set_ne _ _ hne)
          fun m m' hm hown => ⟨_, UMap.find?_set_self _ _ _, ?_⟩⟩
        · intro x hx
          cases List.mem_singleton.mp hx
          exact ⟨rfl, rfl, rfl⟩
        · cases hmailbox.symm.trans hm
          exact hown.deliver hphase hqueue
      · rename_i hempty
        cases hstep
        refine ⟨srv, hrep.silent hh rfl rfl rfl (fun _ _ => rfl) fun m m' hm hown => ⟨m, hm, ?_⟩⟩
        cases hmailbox.symm.trans hm
        refine hown.move rfl rfl (.inr (.inl ?_))
        rw [Mailbox.hasPubsubMessages_iff, not_not] at hempty
        exact hempty
    · cases hstep
  | hangUp fd =>
    obtain ⟨h, hh, hstep⟩ := Option.map_eq_some_iff.mp hstep
    cases hstep
    exact ⟨_, hrep.close hh⟩

end Steps

/-- Before the first connection. -/
theorem represents_start (env : Env Λ) (boot : Λ) (grants : ℕ) (d : Data S) :
    Represents env boot grants d [] (Fleet.start d) (Server.start d) where
  history := rfl
  world := rfl
  processors _ := rfl
  handlers _ _ hh := by cases hh

theorem exists_represents {env : Env Λ} {boot : Λ} {grants : ℕ} {d : Data S} {actions : List FleetAction}
    {trace : List Occurrence} {f : Fleet S Λ}
    (hrun : Machine.run? (Fleet.step? env boot grants) actions (Fleet.start d) = some (trace, f)) :
    ∃ srv, Represents env boot grants d trace f srv :=
  Machine.run_inv_nil (I := fun trace f => ∃ srv, Represents env boot grants d trace f srv)
    (fun ⟨_, hrep⟩ hstep => represents_step hrep hstep) ⟨_, represents_start env boot grants d⟩ hrun

/-- **The connections refine the server**, while no two commands overlap.  However the threads take
turns between whole commands, and the bytes are cut: the commands that were executed are one history of
the server, with these replies, and the world is the one it leaves, but for the mailboxes.  For every open
connection, the commands executed for it are taken off the front of the bytes that came, the buffer is the
rest of them, and what was written to the client is the replies and its messages in the order in which
they were seen. -/
theorem fleet_refines_server (env : Env Λ) (boot : Λ) (grants : ℕ) (d : Data S)
    {actions : List FleetAction} {trace : List Occurrence} {f : Fleet S Λ}
    (hrun : Machine.run? (Fleet.step? env boot grants) actions (Fleet.start d) = some (trace, f)) :
    ∃ srv : Server S Λ,
      Machine.run? (Server.emit? env boot) (historyOf trace) (Server.start d) =
        some (trace.filterMap Occurrence.observation?, srv) ∧
      srv.world = { f.world with clientProcessors := srv.world.clientProcessors } ∧
      (∀ fd, srv.processors.find? fd = (f.handlers.find? fd).map fun h => h.connection.state) ∧
      ∀ fd h, f.handlers.find? fd = some h →
        (∃ taken, Takes (nextCommand grants) ((lifetime fd trace).flatMap Occurrence.chunk) taken
            h.connection.buf ∧
          taken.map Prod.fst = (lifetime fd trace).filterMap Occurrence.command?) ∧
        h.connection.written = (lifetime fd trace).filterMap Occurrence.output? := by
  obtain ⟨srv, hrep⟩ := exists_represents hrun
  refine ⟨srv, hrep.history, hrep.world, hrep.processors, fun fd h hh => ?_⟩
  obtain ⟨m, m', -, -, hown⟩ := hrep.handlers fd h hh
  exact ⟨hown.commands, hown.written⟩

/-- A client subscribes, and another one publishes to it. -/
def publishing : List FleetAction :=
  [.accept 7 9, .accept 8 10, .receive 7 (arrayReply [str "SUBSCRIBE", [99]]), .round 7 0,
    .receive 8 (arrayReply [str "PUBLISH", [99], [109]]), .round 8 0, .round 7 0, .notified 7, .round 8 0,
    .drain 7]

/-- The first client is written its message. -/
theorem exists_publishing :
    ∃ trace f, Machine.run? (Fleet.step? Env.standalone () 8192) publishing
        (Fleet.start (∅ : Data NatScore)) = some (trace, f) ∧
      (lifetime 7 trace).filterMap Occurrence.message? = [pubsubMessage [99] [109]] ∧
      (f.handlers.find? 7).isSome = true := by
  obtain ⟨x, hx, hcheck⟩ := (Option.any_eq_true _ _).mp (show ((Machine.run?
    (Fleet.step? Env.standalone () 8192) publishing (Fleet.start (∅ : Data NatScore))).any fun x =>
      (lifetime 7 x.1).filterMap Occurrence.message? == [pubsubMessage [99] [109]] &&
        (x.2.handlers.find? 7).isSome) = true from by decide +kernel)
  rw [Bool.and_eq_true, beq_iff_eq] at hcheck
  exact ⟨x.1, x.2, hx, hcheck⟩

theorem fleet_refines_server_publishing :
    ∃ trace f, Machine.run? (Fleet.step? Env.standalone () 8192) publishing
        (Fleet.start (∅ : Data NatScore)) = some (trace, f) ∧
      ∃ srv : Server NatScore Unit,
        Machine.run? (Server.emit? Env.standalone ()) (historyOf trace) (Server.start ∅) =
          some (trace.filterMap Occurrence.observation?, srv) := by
  obtain ⟨trace, f, hrun, -⟩ := exists_publishing
  obtain ⟨srv, hhistory, -⟩ := fleet_refines_server Env.standalone () 8192 ∅ hrun
  exact ⟨trace, f, hrun, srv, hhistory⟩

end MinimalRedis
