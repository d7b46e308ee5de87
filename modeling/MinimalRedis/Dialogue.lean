import MinimalRedis.ClientLines
import MinimalRedis.Streaming

/-!
# The terminal client and the server

A client and the thread of its connection, with the bytes in flight between them.  The client sends a line
when it likes, and asks for a response when it likes; the server reads what has come by then, cut anyhow;
the client receives what has been written by then, cut anyhow.

* `dialogue_served` — over every run, the server has executed the first lines, one after the other, and
  what the client has shown are the lines of the replies, in order: nothing is lost, doubled or made up;
* `dialogue_shown` — whatever is written to the client, notifications too.
-/

namespace MinimalRedis

namespace Client

open Lib

variable {S : Type} [Score S] {Λ : Type}

/-- The two ends of a connection and the bytes on their way; `entered` are the lines that were sent and
`shown` the messages that `get_response` has returned. -/
structure Dialogue (S Λ : Type) [Score S] where
  client : RedisClient := { connected := true }
  server : Connection (Session S Λ)
  toServer : Bytes := []
  toClient : Bytes := []
  entered : List Bytes := []
  shown : List Bytes := []

/-- What happens next: `send_command`, a wake-up of the server's `select`, or `get_response`. -/
inductive DialogueEvent where
  | send (line : Bytes)
  | read (n : ℕ)
  | notified
  | receive (n : ℕ)
  | timeout
  | hangup
deriving DecidableEq, Repr

namespace Dialogue

def fresh (s : Session S Λ) : Dialogue S Λ where
  server := { state := s }

/-- The server goes on to `c`, and what it has written on the way is sent. -/
def served (c : Connection (Session S Λ)) (x : Dialogue S Λ) : Dialogue S Λ :=
  { x with
    server := c
    toClient := x.toClient ++ (c.written.drop x.server.written.length).flatten }

/-- `get_response`; the empty string is no message. -/
def asked (arrival : Arrival) (x : Dialogue S Λ) : Dialogue S Λ :=
  let y := getResponse arrival x.client
  { x with
    client := y.2
    shown := if y.1 = [] then x.shown else x.shown ++ [y.1] }

/-- The dialogue after an event, `none` where it cannot happen.  `send` takes the command whole; `read` and
`recv` bring some of the bytes in flight, no more than there is space for. -/
def step? (env : Env Λ) (grants : ℕ) (clock : ℕ → ℤ) (x : Dialogue S Λ) :
    DialogueEvent → Option (Dialogue S Λ)
  | .send line =>
      let y := sendCommand (commandBytes line).length line x.client
      some { x with
        toServer := x.toServer ++ y.2
        entered := if y.1 then x.entered ++ [line] else x.entered }
  | .read n =>
      if x.server.status = .reading ∧ 0 < n ∧ n ≤ x.toServer.length ∧
          n ≤ bufferSize - x.server.buf.length - 1 then
        some { x.served (onReadable grants (execAt env clock) (x.toServer.take n) x.server) with
          toServer := x.toServer.drop n }
      else none
  | .notified =>
      if x.server.status = .reading then some (x.served (onNotified x.server)) else none
  | .receive n =>
      if x.client.connected = true ∧ 0 < n ∧ n ≤ x.toClient.length ∧ n ≤ recvSize then
        some { x.asked (.data (x.toClient.take n)) with toClient := x.toClient.drop n }
      else none
  | .timeout => some (x.asked .timeout)
  | .hangup =>
      if x.server.status ≠ .reading ∧ x.toClient = [] then some (x.asked .hangup) else none

def run? (env : Env Λ) (grants : ℕ) (clock : ℕ → ℤ) :
    List DialogueEvent → Dialogue S Λ → Option (Dialogue S Λ)
  | [], x => some x
  | e :: events, x => (x.step? env grants clock e).bind (run? env grants clock events)

end Dialogue

/-! ### The server's side -/

section Reads

variable {σ : Type} {grants : ℕ} (exec : ℕ → RespValue → σ → Bytes × σ)

/-- The server answers with an error and hangs up. -/
def refuse (text : Bytes) (c : Connection σ) : Connection σ :=
  { c with written := c.written ++ [str "-ERR " ++ text], status := .closed }

/-- A command that the server's memory has room for. -/
def Served (grants : ℕ) (cmd : List Bytes) : Prop :=
  (arrayReply cmd).length < 2 ^ 59 ∧ (arrayReply cmd).length ≤ grants

/-- The rounds of the loop that are left when the whole commands in the buffer are done. -/
theorem onReadable_eq_loop (hgrants : bufferSize ≤ grants) {done : List (List Bytes)} {chunk v : Bytes}
    {c : Connection σ} (hstatus : c.status = .reading) (hchunk : chunk ≠ [])
    (hbuf : c.buf ++ chunk = stream done ++ v) (hlen : (c.buf ++ chunk).length < bufferSize) :
    ∃ fuel, v.length ≤ fuel ∧ onReadable grants exec chunk c =
      closeIfFull (commandLoop grants exec fuel ((executeAll exec done c).setBuf v)) := by
  have hcount := length_le_stream done
  have hsum : (c.buf ++ chunk).length = (stream done).length + v.length := by
    rw [hbuf, List.length_append]
  refine ⟨(c.buf ++ chunk).length - done.length, by omega, ?_⟩
  rw [onReadable, if_neg (by simp [hstatus]), if_neg hchunk]
  show closeIfFull (commandLoop grants exec (c.buf ++ chunk).length (c.setBuf (c.buf ++ chunk))) = _
  have hcommands : (c.setBuf (c.buf ++ chunk)).buf = stream done ++ v := hbuf
  have hloop : commandLoop grants exec _ (c.setBuf (c.buf ++ chunk)) = _ :=
    commandLoop_stream hgrants hcommands hlen ((c.buf ++ chunk).length - done.length)
  rw [executeAll_setBuf, Nat.add_sub_cancel' (by omega)] at hloop
  rw [hloop]
  rfl

theorem commandLoop_of_error {c : Connection σ} (hne : c.buf ≠ []) {msg : ParseMessage}
    (hparse : RespParser.parse grants c.buf = .error (.runtimeError msg)) (fuel : ℕ) :
    commandLoop grants exec (fuel + 1) c = onRuntimeError msg c := by
  rw [commandLoop, if_neg hne, hparse]

/-- One read: the commands it completes are executed, and the rest waits, or is refused. -/
theorem onReadable_served (hgrants : bufferSize ≤ grants) {done todo : List (List Bytes)}
    {chunk v : Bytes} {c : Connection σ} (hstatus : c.status = .reading) (hchunk : chunk ≠ [])
    (hbuf : c.buf ++ chunk = stream done ++ v) (hlen : (c.buf ++ chunk).length < bufferSize)
    (htodo : ∀ cmd ∈ todo, Served grants cmd)
    (hv : v = [] ∨ ∃ cmd more w, todo = cmd :: more ∧ v ++ w = arrayReply cmd ∧ w ≠ []) :
    onReadable grants exec chunk c = (executeAll exec done c).setBuf v ∨
      ∃ text, onReadable grants exec chunk c = refuse text ((executeAll exec done c).setBuf v) := by
  obtain ⟨fuel, hfuel, hloop⟩ := onReadable_eq_loop exec hgrants hstatus hchunk hbuf hlen
  have hopen : ((executeAll exec done c).setBuf v).status = .reading :=
    (status_executeAll done c).trans hstatus
  rw [hloop]
  by_cases hnil : v = []
  · left
    rw [commandLoop_nil hnil]
    apply closeIfFull_of_lt
    rw [show ((executeAll exec done c).setBuf v).buf = [] from hnil]
    decide
  obtain ⟨cmd, more, w, rfl, hcut, hw⟩ := hv.resolve_left hnil
  obtain ⟨hshort, hserved⟩ := htodo cmd List.mem_cons_self
  have hpos := List.length_pos_iff.mpr hnil
  have hvlen : v.length < bufferSize := by
    rw [hbuf, List.length_append] at hlen
    omega
  obtain ⟨fuel, rfl⟩ : ∃ n, fuel = n + 1 := ⟨fuel - 1, by omega⟩
  let c' := (executeAll exec done c).setBuf v
  by_cases hat : RespParser.AtElement cmd v
  · have hgranted : v.length ≤ grants := by omega
    have hsmall : v.length < 2 ^ 62 := by
      unfold bufferSize at hvlen
      omega
    have hparse : RespParser.parse grants c'.buf = .error (.runtimeError .incompleteCommand) :=
      RespParser.parse_boundary hshort hserved hsmall hgranted hat
    rw [commandLoop_of_error exec (c := c') hnil hparse, onRuntimeError, if_pos (by decide)]
    by_cases hfull : v.length ≥ bufferSize - 1024
    · right
      refine ⟨str "Command too large\r\n", ?_⟩
      rw [closeIfFull, if_pos ⟨hopen, hfull⟩]
      rfl
    · exact .inl (closeIfFull_of_lt (Nat.lt_of_not_le hfull))
  · right
    obtain ⟨msg, hmsg, hparse⟩ := RespParser.parse_inside hshort hserved hcut hnil hw hat
    have hwhat : msg.what ≠ str "Incomplete command" := by
      cases msg with
      | incompleteCommand => exact absurd rfl hmsg
      | _ => decide
    refine ⟨msg.what ++ crlf, ?_⟩
    rw [commandLoop_of_error exec (c := c') hnil hparse, onRuntimeError, if_neg hwhat,
      closeIfFull_of_closed rfl]
    simp [refuse, c']

end Reads

section Served

variable {env : Env Λ} {grants : ℕ} {clock : ℕ → ℤ}

/-- `process_command` on line after line: the replies and the session behind them.  The `i`-th command of
the connection runs at `clock i`. -/
def serve (env : Env Λ) (clock : ℕ → ℤ) (lines : List (Bytes × ℕ)) (s : Session S Λ) :
    List Bytes × Session S Λ :=
  runOps (fun x s => processCommand env (clock x.2) (commandOf x.1) s) lines s

theorem executeAll_lines (lines : List Bytes) (c : Connection (Session S Λ)) :
    executeAll (execAt env clock) (lines.map partsOf) c =
      { c with
        state := (serve env clock (lines.zipIdx c.executed) c.state).2
        executed := c.executed + lines.length
        written := c.written ++ (serve env clock (lines.zipIdx c.executed) c.state).1 } := by
  induction lines generalizing c with
  | nil =>
    show c = { c with written := c.written ++ [] }
    rw [List.append_nil]
  | cons line lines ih =>
    have hrest := ih (executeOne (execAt env clock) c (partsOf line))
    rw [List.map_cons, List.zipIdx_cons, serve, runOps]
    show executeAll (execAt env clock) (lines.map partsOf)
      (executeOne (execAt env clock) c (partsOf line)) = _
    rw [hrest]
    simp only [executeOne, execAt, serve, List.append_assoc, List.singleton_append, List.length_cons,
      Nat.add_assoc, Nat.add_comm 1]
    rfl

/-- The server has executed the first lines, and waits for the others or has refused one. -/
structure ServerSide (env : Env Λ) (clock : ℕ → ℤ) (s : Session S Λ) (done todo errors : List Bytes)
    (x : Dialogue S Λ) : Prop where
  entered : x.entered = done ++ todo
  state : x.server.state = (serve env clock done.zipIdx s).2
  executed : x.server.executed = done.length
  written : x.server.written = (serve env clock done.zipIdx s).1 ++ errors
  standing : (errors = [] ∧ x.server.status = .reading ∧
      x.server.buf ++ x.toServer = todo.flatMap commandBytes) ∨
    ((∃ text, errors = [str "-ERR " ++ text]) ∧ x.server.status = .closed)

theorem stream_map_partsOf (lines : List Bytes) :
    stream (lines.map partsOf) = lines.flatMap commandBytes := by
  rw [stream, List.flatMap_map]
  exact List.flatMap_congr fun line _ => (commandBytes_eq line).symm

theorem serverSide_fresh (s : Session S Λ) :
    ServerSide env clock s [] [] [] (Dialogue.fresh s) where
  entered := rfl
  state := rfl
  executed := rfl
  written := rfl
  standing := .inl ⟨rfl, rfl, rfl⟩

theorem serve_append (xs ys : List (Bytes × ℕ)) (s : Session S Λ) :
    serve env clock (xs ++ ys) s =
      ((serve env clock xs s).1 ++ (serve env clock ys (serve env clock xs s).2).1,
        (serve env clock ys (serve env clock xs s).2).2) := runOps_append xs ys s

/-- The commands of one read behind those executed before. -/
theorem executeAll_serverSide {s : Session S Λ} {done todo : List Bytes} {x : Dialogue S Λ}
    (h : ServerSide env clock s done todo [] x) (lines : List Bytes) (v : Bytes) :
    (executeAll (execAt env clock) (lines.map partsOf) x.server).setBuf v =
      { x.server with
        state := (serve env clock (done ++ lines).zipIdx s).2
        buf := v
        executed := (done ++ lines).length
        written := (serve env clock (done ++ lines).zipIdx s).1 } := by
  rw [executeAll_lines, h.executed, h.state, h.written, List.append_nil, List.zipIdx_append, serve_append,
    Nat.zero_add, List.length_append]
  rfl

theorem sendCommand_whole (line : Bytes) (c : RedisClient) :
    sendCommand (commandBytes line).length line c = (false, []) ∨
      sendCommand (commandBytes line).length line c = (true, commandBytes line) := by
  unfold sendCommand
  split
  · exact .inl rfl
  · split
    · exact .inl rfl
    · right
      rw [decide_eq_true rfl, Int.toNat_natCast, List.take_length]

theorem ServerSide.send {s : Session S Λ} {done todo errors : List Bytes} {x : Dialogue S Λ}
    (h : ServerSide env clock s done todo errors x) (line : Bytes) :
    ServerSide env clock s done (todo ++ [line]) errors { x with
      toServer := x.toServer ++ commandBytes line
      entered := x.entered ++ [line] } where
  entered := by rw [h.entered, List.append_assoc]
  state := h.state
  executed := h.executed
  written := h.written
  standing := by
    rcases h.standing with ⟨herrors, hstatus, hbytes⟩ | hclosed
    · refine .inl ⟨herrors, hstatus, ?_⟩
      rw [← List.append_assoc, hbytes, List.flatMap_append, List.flatMap_singleton]
    · exact .inr hclosed

/-- One read of the server. -/
theorem ServerSide.read (hgrants : bufferSize ≤ grants) {s : Session S Λ}
    {done todo : List Bytes} {x : Dialogue S Λ} (h : ServerSide env clock s done todo [] x)
    (hlines : ∀ line ∈ x.entered, Served grants (partsOf line)) (hstatus : x.server.status = .reading)
    {n : ℕ} (hpos : 0 < n) (hn : n ≤ x.toServer.length) (hspace : n ≤ bufferSize - x.server.buf.length - 1) :
    ∃ done todo errors, ServerSide env clock s done todo errors
      { x.served (onReadable grants (execAt env clock) (x.toServer.take n) x.server) with
        toServer := x.toServer.drop n } := by
  have hbytes : x.server.buf ++ x.toServer = todo.flatMap commandBytes := by
    rcases h.standing with ⟨-, -, hbytes⟩ | ⟨-, hclosed⟩
    · exact hbytes
    · rw [hstatus] at hclosed
      cases hclosed
  have hlength : (x.toServer.take n).length = n := List.length_take_of_le hn
  rw [← List.take_append_drop n x.toServer, ← List.append_assoc, ← stream_map_partsOf] at hbytes
  obtain ⟨cmds, rest, v, hcmds, hread, hv⟩ := stream_cut hbytes
  obtain ⟨lines, more, rfl, rfl, rfl⟩ := List.map_eq_append_iff.mp hcmds
  have hleft : v ++ x.toServer.drop n = more.flatMap commandBytes := by
    rw [hread, List.map_append, stream_append, List.append_assoc, List.append_cancel_left_eq,
      stream_map_partsOf] at hbytes
    exact hbytes
  have hmore : ∀ cmd ∈ more.map partsOf, Served grants cmd := by
    refine List.forall_mem_map.mpr fun line hline => hlines line ?_
    rw [h.entered]
    simp [hline]
  have hne : x.toServer.take n ≠ [] := by
    intro hnil
    rw [hnil] at hlength
    exact absurd hlength (Nat.ne_of_lt hpos)
  have hlen : (x.server.buf ++ x.toServer.take n).length < bufferSize := by
    rw [List.length_append, hlength]
    omega
  have hall := executeAll_serverSide h lines v
  rcases onReadable_served (execAt env clock) hgrants hstatus hne hread hlen hmore hv with
    heq | ⟨text, heq⟩
  · refine ⟨done ++ lines, more, [], ?_⟩
    rw [heq, hall]
    exact
      { entered := by rw [List.append_assoc]; exact h.entered
        state := rfl
        executed := rfl
        written := (List.append_nil _).symm
        standing := .inl ⟨rfl, hstatus, hleft⟩ }
  · refine ⟨done ++ lines, more, [str "-ERR " ++ text], ?_⟩
    rw [heq, hall]
    exact
      { entered := by rw [List.append_assoc]; exact h.entered
        state := rfl
        executed := rfl
        written := rfl
        standing := .inr ⟨⟨text, rfl⟩, rfl⟩ }

/-- The client's side leaves the server's as it is. -/
theorem ServerSide.asked {s : Session S Λ} {done todo errors : List Bytes} {x x' : Dialogue S Λ}
    (h : ServerSide env clock s done todo errors x) (hserver : x'.server = x.server)
    (htoServer : x'.toServer = x.toServer) (hentered : x'.entered = x.entered) :
    ServerSide env clock s done todo errors x' where
  entered := hentered.trans h.entered
  state := by rw [hserver, h.state]
  executed := by rw [hserver, h.executed]
  written := by rw [hserver, h.written]
  standing := by
    rw [hserver, htoServer]
    exact h.standing

theorem serverSide_step (hgrants : bufferSize ≤ grants) {s : Session S Λ} {x x' : Dialogue S Λ}
    {e : DialogueEvent} (he : e ≠ .notified)
    (h : ∃ done todo errors, ServerSide env clock s done todo errors x)
    (hlines : ∀ line ∈ x.entered, Served grants (partsOf line))
    (hstep : x.step? env grants clock e = some x') :
    ∃ done todo errors, ServerSide env clock s done todo errors x' := by
  obtain ⟨done, todo, errors, h⟩ := h
  cases e with
  | send line =>
    cases hstep
    rcases sendCommand_whole line x.client with hsend | hsend
    · rw [hsend]
      exact ⟨done, todo, errors, h.asked rfl (List.append_nil _) rfl⟩
    · rw [hsend]
      exact ⟨done, todo ++ [line], errors, h.send line⟩
  | read n =>
    simp only [Dialogue.step?] at hstep
    split at hstep
    · rename_i hguard
      obtain ⟨hstatus, hpos, hn, hspace⟩ := hguard
      cases hstep
      have hnone : errors = [] := by
        rcases h.standing with ⟨hnone, -⟩ | ⟨-, hclosed⟩
        · exact hnone
        · rw [hstatus] at hclosed
          cases hclosed
      subst hnone
      exact h.read hgrants hlines hstatus hpos hn hspace
    · cases hstep
  | notified => exact absurd rfl he
  | receive n =>
    simp only [Dialogue.step?] at hstep
    split at hstep
    · cases hstep
      exact ⟨done, todo, errors, h.asked rfl rfl rfl⟩
    · cases hstep
  | timeout =>
    cases hstep
    exact ⟨done, todo, errors, h.asked rfl rfl rfl⟩
  | hangup =>
    simp only [Dialogue.step?] at hstep
    split at hstep
    · cases hstep
      exact ⟨done, todo, errors, h.asked rfl rfl rfl⟩
    · cases hstep

end Served

/-! ### The client's side -/

section Shown

variable {env : Env Λ} {grants : ℕ} {clock : ℕ → ℤ}

theorem prefix_written_commandLoop {σ : Type} {exec : ℕ → RespValue → σ → Bytes × σ} (fuel : ℕ)
    (c : Connection σ) : c.written <+: (commandLoop grants exec fuel c).written := by
  induction fuel generalizing c with
  | zero => exact List.prefix_rfl
  | succ fuel ih =>
    rw [commandLoop]
    split
    · exact List.prefix_rfl
    · split
      · refine List.IsPrefix.trans ?_ (ih _)
        exact List.prefix_append _ _
      · unfold onRuntimeError
        split
        · exact List.prefix_rfl
        · exact List.prefix_append _ _
      · exact List.prefix_rfl

theorem prefix_written_closeIfFull {σ : Type} (c : Connection σ) :
    c.written <+: (closeIfFull c).written := by
  unfold closeIfFull
  split
  · exact List.prefix_append _ _
  · exact List.prefix_rfl

theorem prefix_written_onReadable {σ : Type} {exec : ℕ → RespValue → σ → Bytes × σ} (chunk : Bytes)
    (c : Connection σ) : c.written <+: (onReadable grants exec chunk c).written := by
  unfold onReadable
  split
  · exact List.prefix_rfl
  · split
    · exact List.prefix_rfl
    · refine List.IsPrefix.trans ?_ (prefix_written_closeIfFull _)
      exact prefix_written_commandLoop (c.buf ++ chunk).length { c with buf := c.buf ++ chunk }

theorem prefix_written_onNotified (c : Connection (Session S Λ)) :
    c.written <+: (onNotified c).written := by
  unfold onNotified
  split
  · exact List.prefix_rfl
  · dsimp only
    split
    · exact List.prefix_rfl
    · exact List.prefix_append _ _

def NulFree (x : Dialogue S Λ) : Prop := ∀ reply ∈ x.server.written, (0 : UInt8) ∉ reply

/-- What the client has shown are the first lines of what was written; the rest it holds, or it is on its
way. -/
structure ClientSide (x : Dialogue S Λ) : Prop where
  valid : x.client.parser.Valid
  shown : NulFree x → Takes nextLine x.server.written.flatten x.shown
    (x.client.parser.unread ++ x.toClient)

theorem clientSide_fresh (s : Session S Λ) : ClientSide (Dialogue.fresh s) where
  valid := le_refl 0
  shown _ := .done _

theorem ClientSide.served {x : Dialogue S Λ} (h : ClientSide x) {c : Connection (Session S Λ)}
    (hc : x.server.written <+: c.written) : ClientSide (x.served c) where
  valid := h.valid
  shown hnul := by
    obtain ⟨new, hnew⟩ := hc
    have hbefore : NulFree x := fun reply hreply => hnul reply (by
      show reply ∈ c.written
      rw [← hnew]
      exact List.mem_append_left _ hreply)
    have hmore := (h.shown hbefore).more stable_nextLine new.flatten
    show Takes nextLine c.written.flatten x.shown
      (x.client.parser.unread ++ (x.toClient ++ (c.written.drop x.server.written.length).flatten))
    rw [← hnew, List.drop_left, List.flatten_append, ← List.append_assoc]
    exact hmore

/-- `get_response` without anything to receive. -/
theorem ClientSide.idle {x : Dialogue S Λ} (h : ClientSide x) {arrival : Arrival}
    (harrival : ∀ bs, arrival ≠ .data bs) : ClientSide (x.asked arrival) := by
  have hnone : (getResponse arrival x.client).1 = [] ∧
      (getResponse arrival x.client).2.parser = x.client.parser := by
    unfold getResponse
    split
    · exact ⟨rfl, rfl⟩
    · cases arrival with
      | timeout => exact ⟨rfl, rfl⟩
      | hangup => exact ⟨rfl, rfl⟩
      | data bs => exact absurd rfl (harrival bs)
  obtain ⟨hmessage, hparser⟩ := hnone
  have hshown : (x.asked arrival).shown = x.shown := if_pos hmessage
  have hunread : (x.asked arrival).client.parser = x.client.parser := hparser
  constructor
  · rw [hunread]
    exact h.valid
  · intro hnul
    rw [hshown, hunread]
    exact h.shown hnul

theorem getResponse_data {c : RedisClient} (hc : c.connected = true) {data : Bytes}
    (hsize : data.length ≤ recvSize) :
    getResponse (.data data) c = ((c.parser.append (cstr data)).getNextMessage.1,
      { c with parser := (c.parser.append (cstr data)).getNextMessage.2 }) := by
  rw [getResponse, if_neg (by rw [hc]; decide)]
  simp only [List.take_of_length_le hsize]

theorem RespParser.message_eq_none {reply : Bytes} (h : RespParser.message reply = none) :
    reply = [] := by
  by_contra hne
  rw [RespParser.message, if_neg hne] at h
  cases h

theorem RespParser.message_eq_some {reply m : Bytes} (h : RespParser.message reply = some m) :
    reply ≠ [] ∧ reply = m := by
  by_cases hnil : reply = []
  · rw [RespParser.message, if_pos hnil] at h
    cases h
  · rw [RespParser.message, if_neg hnil] at h
    exact ⟨hnil, Option.some.inj h⟩

/-- `get_response` with bytes that have come. -/
theorem ClientSide.receive {x : Dialogue S Λ} (h : ClientSide x) (hconnected : x.client.connected = true)
    {n : ℕ} (hsize : n ≤ recvSize) :
    ClientSide { x.asked (.data (x.toClient.take n)) with toClient := x.toClient.drop n } := by
  have htaken : (x.toClient.take n).length ≤ recvSize := (List.length_take_le _ _).trans hsize
  have hresponse := getResponse_data hconnected htaken
  have himpl := RespParser.implements_nextLine
  let p := x.client.parser.append (cstr (x.toClient.take n))
  have hp : p.Valid := himpl.inv (.append _) _ h.valid
  have hparser : (x.asked (.data (x.toClient.take n))).client.parser = p.getNextMessage.2 :=
    congrArg (fun y => y.2.parser) hresponse
  have hshown : (x.asked (.data (x.toClient.take n))).shown =
      if p.getNextMessage.1 = [] then x.shown else x.shown ++ [p.getNextMessage.1] := by
    show (if (getResponse _ _).1 = [] then _ else x.shown ++ [(getResponse _ _).1]) = _
    rw [hresponse]
  constructor
  · show (x.asked _).client.parser.Valid
    rw [hparser]
    exact himpl.inv .next p hp
  · intro hnul
    have htakes := h.shown hnul
    have hclean : (0 : UInt8) ∉ x.toClient.take n := by
      intro hmem
      have hflat := flatten_of_takes htakes
      have hwritten : (0 : UInt8) ∈ x.server.written.flatten := by
        rw [hflat]
        exact List.mem_append_right _ (List.mem_append_right _ (List.mem_of_mem_take hmem))
      obtain ⟨reply, hreply, hzero⟩ := List.mem_flatten.mp hwritten
      exact hnul reply hreply hzero
    have hunread : p.unread = x.client.parser.unread ++ x.toClient.take n := by
      rw [← cstr_eq_self hclean]
      exact (himpl.append _ _ h.valid).2
    have hflight : p.unread ++ x.toClient.drop n = x.client.parser.unread ++ x.toClient := by
      rw [hunread, List.append_assoc, List.take_append_drop]
    show Takes nextLine x.server.written.flatten (x.asked _).shown
      ((x.asked _).client.parser.unread ++ x.toClient.drop n)
    rw [hparser, hshown]
    cases hline : nextLine p.unread with
    | none =>
      obtain ⟨hnone, hrest⟩ := himpl.waits p hp hline
      have hnil : p.getNextMessage.1 = [] := RespParser.message_eq_none hnone
      rw [if_pos hnil]
      show Takes nextLine _ _ ((RespParser.receive .next p).2.unread ++ _)
      rw [hrest, hflight]
      exact htakes
    | some y =>
      obtain ⟨m, rest⟩ := y
      obtain ⟨hsome, hrest⟩ := himpl.gives p m rest hp hline
      have hm : p.getNextMessage.1 ≠ [] ∧ p.getNextMessage.1 = m := RespParser.message_eq_some hsome
      rw [if_neg hm.1, hm.2]
      have hnext := stable_nextLine _ _ _ hline (x.toClient.drop n)
      rw [hflight] at hnext
      show Takes nextLine _ _ ((RespParser.receive .next p).2.unread ++ _)
      rw [hrest]
      exact htakes.append (.take hnext (.done _))

theorem clientSide_step {x x' : Dialogue S Λ} {e : DialogueEvent} (h : ClientSide x)
    (hstep : x.step? env grants clock e = some x') : ClientSide x' := by
  cases e with
  | send line =>
    cases hstep
    exact ⟨h.valid, h.shown⟩
  | read n =>
    simp only [Dialogue.step?] at hstep
    split at hstep
    · cases hstep
      have hwritten : x.server.written <+:
          (onReadable grants (execAt env clock) (x.toServer.take n) x.server).written :=
        prefix_written_onReadable (x.toServer.take n) x.server
      exact ⟨(h.served hwritten).valid, (h.served hwritten).shown⟩
    · cases hstep
  | notified =>
    simp only [Dialogue.step?] at hstep
    split at hstep
    · cases hstep
      exact h.served (prefix_written_onNotified x.server)
    · cases hstep
  | receive n =>
    simp only [Dialogue.step?] at hstep
    split at hstep
    · rename_i hguard
      obtain ⟨hconnected, -, -, hsize⟩ := hguard
      cases hstep
      exact h.receive hconnected hsize
    · cases hstep
  | timeout =>
    cases hstep
    exact h.idle nofun
  | hangup =>
    simp only [Dialogue.step?] at hstep
    split at hstep
    · cases hstep
      exact h.idle nofun
    · cases hstep

end Shown

/-! ### Runs -/

section Runs

variable {env : Env Λ} {grants : ℕ} {clock : ℕ → ℤ}

theorem mem_entered_step {x x' : Dialogue S Λ} {e : DialogueEvent}
    (hstep : x.step? env grants clock e = some x') :
    ∀ line ∈ x'.entered, line ∈ x.entered ∨ e = .send line := by
  intro line hline
  cases e with
  | send line' =>
    cases hstep
    rcases sendCommand_whole line' x.client with hsend | hsend
    · rw [hsend] at hline
      exact .inl hline
    · rw [hsend] at hline
      rcases List.mem_append.mp hline with hline | hline
      · exact .inl hline
      · exact .inr (by rw [List.mem_singleton.mp hline])
  | timeout =>
    cases hstep
    exact .inl hline
  | read n | notified | receive n | hangup =>
    simp only [Dialogue.step?] at hstep
    split at hstep
    · cases hstep
      exact .inl hline
    · cases hstep

/-- Whatever an invariant of the steps, it holds behind a run. -/
theorem Dialogue.run?_inv {I : Dialogue S Λ → Prop} {events : List DialogueEvent}
    (hstep : ∀ e ∈ events, ∀ x x', I x → x.step? env grants clock e = some x' → I x')
    {x x' : Dialogue S Λ} (h : I x) (hrun : x.run? env grants clock events = some x') : I x' := by
  induction events generalizing x with
  | nil =>
    cases hrun
    exact h
  | cons e events ih =>
    obtain ⟨x₁, hfirst, hrest⟩ := Option.bind_eq_some_iff.mp hrun
    exact ih (fun e he => hstep e (List.mem_cons_of_mem _ he))
      (hstep e List.mem_cons_self x x₁ h hfirst) hrest

/-- **What a client is shown.**  Over every run, notifications included, the messages are the lines of
what the server has written, one after the other from the first; the rest the client holds or is on its
way. -/
theorem dialogue_shown (s : Session S Λ) {events : List DialogueEvent} {x : Dialogue S Λ}
    (hrun : (Dialogue.fresh s).run? env grants clock events = some x) (hnul : NulFree x) :
    Takes nextLine x.server.written.flatten x.shown (x.client.parser.unread ++ x.toClient) :=
  (Dialogue.run?_inv (I := ClientSide) (fun _ _ _ _ h hstep => clientSide_step h hstep)
    (clientSide_fresh s) hrun).shown hnul

/-- **Client and server.**  Over every run without notifications, however the bytes are cut in both
directions: the server has executed the first of the lines, one after the other as `process_command` does
it, and has the others before it or has refused one and hung up; and as long as no reply has a NUL byte,
where the client's `buffer.data()` ends, the messages that it has shown are the lines of these replies, in
order. -/
theorem dialogue_served (hgrants : bufferSize ≤ grants) (s : Session S Λ)
    {events : List DialogueEvent} (hnotified : .notified ∉ events)
    (hlines : ∀ line, .send line ∈ events → Served grants (partsOf line)) {x : Dialogue S Λ}
    (hrun : (Dialogue.fresh s).run? env grants clock events = some x) :
    ∃ done todo errors, ServerSide env clock s done todo errors x ∧
      (NulFree x → Takes nextLine ((serve env clock done.zipIdx s).1 ++ errors).flatten x.shown
        (x.client.parser.unread ++ x.toClient)) := by
  have hinv := Dialogue.run?_inv (I := fun x => (∀ line ∈ x.entered, Served grants (partsOf line)) ∧
    ∃ done todo errors, ServerSide env clock s done todo errors x)
    (fun e he x x' h hstep => ?_) ⟨List.forall_mem_nil _, [], [], [], serverSide_fresh s⟩ hrun
  · obtain ⟨-, done, todo, errors, hserver⟩ := hinv
    refine ⟨done, todo, errors, hserver, fun hnul => ?_⟩
    rw [← hserver.written]
    exact dialogue_shown s hrun hnul
  · obtain ⟨hserved, hserver⟩ := h
    refine ⟨fun line hline => ?_, serverSide_step hgrants ?_ hserver hserved hstep⟩
    · rcases mem_entered_step hstep line hline with hline | rfl
      · exact hserved line hline
      · exact hlines line he
    · intro heq
      exact hnotified (heq ▸ he)

/-- `SET k v` and `GET k` are sent at once; the server reads the first command and half of the second. -/
def setAndGet : List DialogueEvent :=
  [.send (str "SET k v"), .send (str "GET k"), .timeout, .read 40, .receive 2, .receive 3, .read 7,
    .timeout, .receive 7]

theorem dialogue_served_set_get :
    ∃ x, (Dialogue.fresh (Session.fresh (∅ : Data NatScore))).run? Env.standalone 8192 (fun _ => 0)
        setAndGet = some x ∧ x.shown = [str "+OK\r\n", str "$1\r\n"] ∧
      ∃ done todo errors,
        ServerSide Env.standalone (fun _ => 0) (Session.fresh (∅ : Data NatScore)) done todo errors x ∧
          (NulFree x → Takes nextLine ((serve Env.standalone (fun _ => 0) done.zipIdx
            (Session.fresh (∅ : Data NatScore))).1 ++ errors).flatten x.shown
            (x.client.parser.unread ++ x.toClient)) := by
  obtain ⟨x, hx, hshown⟩ := (Option.any_eq_true _ _).mp (show (((Dialogue.fresh (Session.fresh
    (∅ : Data NatScore))).run? Env.standalone 8192 (fun _ => 0) setAndGet).any fun x =>
      x.shown == [str "+OK\r\n", str "$1\r\n"]) = true from by decide +kernel)
  refine ⟨x, hx, beq_iff_eq.mp hshown, dialogue_served (le_refl 8192) _ (by decide) ?_ hx⟩
  intro line hline
  simp only [setAndGet, List.mem_cons, DialogueEvent.send.injEq, List.not_mem_nil, or_false,
    reduceCtorEq] at hline
  rcases hline with rfl | rfl
  · exact ⟨by decide, by decide⟩
  · exact ⟨by decide, by decide⟩

end Runs

end Client

end MinimalRedis
