import Mathlib.Data.List.TakeWhile
import MinimalRedis.CommandBytes
import MinimalRedis.Lib.Simulation
import MinimalRedis.Lua

/-!
# The terminal client (`clients/tui/redis_client.cpp`)

`send_command` splits a line at blanks and writes an array of bulk strings; `get_response` makes one
`recv`, appends it to a buffer that is never cleared, and returns what stands between its position and
the next CR LF.

* `send_command_parsed_back` — what the client sends, the server's parser reads, command by command;
* `get_response_pairs_iff` — the client returns **lines, not replies**, and cuts what it receives at the
  first NUL byte: call `i` returns reply `i` exactly when every reply is one line without NUL.
-/

namespace MinimalRedis

namespace Client

open Lib

/-! ### The client -/

/-- The client's `RespParser`: all it ever received, and the position behind the last message. -/
structure RespParser where
  buffer : Bytes := []
  pos : ℕ := 0
deriving DecidableEq, Repr

structure RedisClient where
  connected : Bool := false
  parser : RespParser := {}
deriving DecidableEq, Repr

/-- `while (ss >> part)`: the runs of bytes between blanks. -/
def partsOf (command : Bytes) : List Bytes := (command.splitOnP isBlank).filter (· ≠ [])

/-- The string `cmd` built for `send`. -/
def commandBytes (command : Bytes) : Bytes :=
  let parts := partsOf command
  (42 :: (natBytes parts.length ++ crlf)) ++
    parts.flatMap fun p => (36 :: (natBytes p.length ++ crlf)) ++ p ++ crlf

/-- The result, and the bytes put on the socket; `sent` is what `send` returns, the number of bytes it
took or -1. -/
def sendCommand (sent : ℤ) (command : Bytes) (c : RedisClient) : Bool × Bytes :=
  if c.connected = false then (false, [])
  else if partsOf command = [] then (false, [])
  else (decide (sent = (commandBytes command).length), (commandBytes command).take sent.toNat)

def RespParser.append (data : Bytes) (p : RespParser) : RespParser :=
  { p with buffer := p.buffer ++ data }

/-- `find("\r\n")`: the position of the first CR with an LF behind it. -/
def findCrlf : Bytes → Option ℕ
  | [] => none
  | b :: bs => if b = 13 ∧ bs.head? = some 10 then some 0 else (findCrlf bs).map (· + 1)

def RespParser.getNextMessage (p : RespParser) : Bytes × RespParser :=
  if p.buffer = [] ∨ p.pos ≥ p.buffer.length then ([], p)
  else
    match findCrlf (p.buffer.drop p.pos) with
    | none => ([], p)
    | some n => ((p.buffer.drop p.pos).take (n + 2), { p with pos := p.pos + n + 2 })

/-- What `select` and `recv` bring. -/
inductive Arrival where
  | timeout
  | hangup
  | data (available : Bytes)
deriving DecidableEq, Repr

/-- `recv` is given the receive buffer but for its last byte. -/
def recvSize : ℕ := 8191

/-- `std::string(buffer.data())` ends at the first NUL. -/
def getResponse (arrival : Arrival) (c : RedisClient) : Bytes × RedisClient :=
  if c.connected = false then ([], c)
  else
    match arrival with
    | .timeout => ([], c)
    | .hangup => ([], { c with connected := false })
    | .data available =>
        let x := (c.parser.append (cstr (available.take recvSize))).getNextMessage
        (x.1, { c with parser := x.2 })

/-! ### Commands on the wire -/

/-- Client and server write arrays alike. -/
theorem commandBytes_eq (command : Bytes) : commandBytes command = arrayReply (partsOf command) := by
  rw [commandBytes, arrayReply_eq]
  show countLine _ ++ _ = countLine _ ++ _
  congr 1
  refine List.flatMap_congr fun p _ => ?_
  simp [bulkReply]

/-- `send_command` reports success, with these bytes on the socket. -/
def Sends (c : RedisClient) (command bs : Bytes) : Prop :=
  ∃ sent, sendCommand sent command c = (true, bs)

theorem sends_iff {c : RedisClient} (hc : c.connected = true) {command bs : Bytes} :
    Sends c command bs ↔ partsOf command ≠ [] ∧ bs = commandBytes command := by
  have hnot : ¬ c.connected = false := by rw [hc]; decide
  constructor
  · rintro ⟨sent, hsent⟩
    rw [sendCommand, if_neg hnot] at hsent
    split at hsent
    · cases hsent
    · rename_i hparts
      obtain ⟨hall, rfl⟩ := Prod.mk.inj hsent
      rw [of_decide_eq_true hall, Int.toNat_natCast, List.take_length]
      exact ⟨hparts, rfl⟩
  · rintro ⟨hparts, rfl⟩
    refine ⟨(commandBytes command).length, ?_⟩
    rw [sendCommand, if_neg hnot, if_neg hparts, Int.toNat_natCast, List.take_length,
      decide_eq_true rfl]

/-- What the parts' vector and the string of `send_command` can hold, and the server's allocator
serves. -/
structure InMemory (grants : ℕ) (command : Bytes) : Prop where
  parts : (partsOf command).length < 2 ^ 58
  bytes : (commandBytes command).length < 2 ^ 63
  served : (commandBytes command).length ≤ grants

/-- The command as the server sees it. -/
def commandOf (command : Bytes) : RespValue := .array ((partsOf command).map .bulkString)

theorem parse_commandBytes {grants : ℕ} {command : Bytes} (h : InMemory grants command)
    (rest : Bytes) :
    RespParser.parse grants (commandBytes command ++ rest) =
      .ok (commandOf command, (commandBytes command).length) := by
  have hparts := h.parts
  have hbytes := h.bytes
  have hserved := h.served
  rw [commandBytes_eq] at hbytes hserved ⊢
  apply RespParser.parse_of_wire (wire_arrayReply _) _ hbytes hserved
  rw [widest_bulkStrings, RespParser.vectorMaxSize]
  omega

/-- `n` calls of `parse`, each on what the one before left unconsumed. -/
def parseAll (grants : ℕ) : ℕ → Bytes → Except ParseException (List RespValue × Bytes)
  | 0, bs => .ok ([], bs)
  | n + 1, bs =>
      (RespParser.parse grants bs).bind fun x =>
        (parseAll grants n (bs.drop x.2)).map fun y => (x.1 :: y.1, y.2)

theorem parseAll_commandBytes {grants : ℕ} {commands : List Bytes}
    (h : ∀ command ∈ commands, InMemory grants command) (rest : Bytes) :
    parseAll grants commands.length (commands.flatMap commandBytes ++ rest) =
      .ok (commands.map commandOf, rest) := by
  induction commands with
  | nil => rfl
  | cons command commands ih =>
    obtain ⟨hcommand, hcommands⟩ := List.forall_mem_cons.mp h
    rw [List.flatMap_cons, List.append_assoc, List.length_cons, parseAll, parse_commandBytes hcommand]
    show (parseAll grants commands.length (List.drop _ _)).map _ = _
    rw [List.drop_left, ih hcommands]
    rfl

/-- **Client and server speak the same language.**  On a line with at least one part `send_command` can
succeed, and whenever it does, the server's parser reads what is on the socket, with anything behind it,
as the array of exactly the parts; commands sent one behind the other are read as exactly these
commands, with the rest left over. -/
theorem send_command_parsed_back {grants : ℕ} {c : RedisClient} (hc : c.connected = true) :
    (∀ command, partsOf command ≠ [] → InMemory grants command →
      (∃ bs, Sends c command bs) ∧ ∀ bs, Sends c command bs → ∀ rest,
        RespParser.parse grants (bs ++ rest) = .ok (commandOf command, bs.length)) ∧
    ∀ sent : List (Bytes × Bytes), (∀ x ∈ sent, Sends c x.1 x.2 ∧ InMemory grants x.1) → ∀ rest,
      parseAll grants sent.length ((sent.map Prod.snd).flatten ++ rest) =
        .ok (sent.map fun x => commandOf x.1, rest) := by
  refine ⟨fun command hparts hmemory => ⟨?_, ?_⟩, fun sent hsent rest => ?_⟩
  · exact ⟨_, (sends_iff hc).mpr ⟨hparts, rfl⟩⟩
  · intro bs hbs rest
    obtain ⟨-, rfl⟩ := (sends_iff hc).mp hbs
    exact parse_commandBytes hmemory rest
  · have hbytes : sent.map Prod.snd = (sent.map Prod.fst).map commandBytes := by
      rw [List.map_map]
      exact List.map_congr_left fun x hx => ((sends_iff hc).mp (hsent x hx).1).2
    have hall := parseAll_commandBytes (List.forall_mem_map.mpr fun x hx => (hsent x hx).2) rest
    rw [List.length_map, List.flatMap, ← hbytes, List.map_map] at hall
    exact hall

/-- `GET k`, with tabs and blanks around it. -/
theorem send_command_get :
    Sends { connected := true } (str " GET\tk ") (str "*2\r\n$3\r\nGET\r\n$1\r\nk\r\n") ∧
      RespParser.parse 100 (str "*2\r\n$3\r\nGET\r\n$1\r\nk\r\n" ++ str "+") =
        .ok (.array [.bulkString (str "GET"), .bulkString (str "k")], 20) := by
  have hsends : Sends { connected := true } (str " GET\tk ")
      (str "*2\r\n$3\r\nGET\r\n$1\r\nk\r\n") := ⟨20, by decide⟩
  refine ⟨hsends, ?_⟩
  exact ((send_command_parsed_back rfl).1 (str " GET\tk ") (by decide)
    ⟨by decide, by decide, by decide⟩).2 _ hsends (str "+")

/-! ### Replies -/

/-- One RESP value on the wire; the null array is not among the values the server's parser knows. -/
def Complete (reply : Bytes) : Prop := (∃ v, Wire v reply) ∨ reply = str "*-1\r\n"

/-- The only line end is the one at the end. -/
def SingleLine (reply : Bytes) : Prop := ∃ line, reply = line ++ crlf ∧ (10 : UInt8) ∉ line

/-- A value starts with a line: its tag with its text, its number or its length. -/
theorem Complete.exists_line {reply : Bytes} (h : Complete reply) :
    ∃ line rest, reply = line ++ (crlf ++ rest) ∧ (10 : UInt8) ∉ line := by
  rcases h with ⟨v, h⟩ | rfl
  · cases h with
    | @simpleString s hs _ => exact ⟨43 :: s, [], by simp, by simpa using hs⟩
    | @error s hs _ => exact ⟨45 :: s, [], by simp, by simpa using hs⟩
    | @integer n ds hds _ =>
      have hlf : (10 : UInt8) ∉ ds := hds.not_mem rfl
      exact ⟨58 :: (signBytes n ++ ds), [], by simp, by simp [lf_not_mem_signBytes, hlf]⟩
    | @bulkString s ds hds =>
      have hlf : (10 : UInt8) ∉ ds := hds.not_mem rfl
      exact ⟨36 :: ds, s ++ crlf, by simp, by simp [hlf]⟩
    | nullBulk => exact ⟨36 :: str "-1", [], by simp, by decide⟩
    | @array elems ds hds _ =>
      have hlf : (10 : UInt8) ∉ ds := hds.not_mem rfl
      exact ⟨42 :: ds, (elems.map Prod.snd).flatten, by simp, by simp [hlf]⟩
  · exact ⟨str "*-1", [], by decide, by decide⟩

theorem findCrlf_line {line : Bytes} (h : (10 : UInt8) ∉ line) (rest : Bytes) :
    findCrlf (line ++ (crlf ++ rest)) = some line.length := by
  induction line with
  | nil => rfl
  | cons b line ih =>
    have hline := List.not_mem_of_not_mem_cons h
    have hhead : (line ++ (crlf ++ rest)).head? ≠ some 10 := by
      cases line with
      | nil => exact fun hcr => absurd (Option.some.inj hcr) (by decide)
      | cons b' line' => simpa using fun heq : b' = 10 => hline (by simp [heq])
    rw [List.cons_append, findCrlf, if_neg fun hcr => hhead hcr.2, ih hline]
    rfl

theorem singleLine_iff {line rest : Bytes} (h : (10 : UInt8) ∉ line) :
    SingleLine (line ++ (crlf ++ rest)) ↔ rest = [] := by
  constructor
  · rintro ⟨line', heq, hline'⟩
    -- both lines end at the first CR LF
    have hfind := findCrlf_line hline' []
    rw [List.append_nil, ← heq, findCrlf_line h] at hfind
    have hlen := congrArg List.length heq
    simp only [List.length_append, Option.some.inj hfind] at hlen
    exact List.length_eq_zero_iff.mp (by omega)
  · rintro rfl
    exact ⟨line, by rw [List.append_nil], h⟩

/-- A connected client that has returned all it received. -/
structure CaughtUp (c : RedisClient) : Prop where
  connected : c.connected = true
  consumed : c.parser.pos = c.parser.buffer.length

/-- With nothing left over, the next message is the first line of what is appended. -/
theorem getNextMessage_append (buffer data : Bytes) :
    RespParser.getNextMessage ⟨buffer ++ data, buffer.length⟩ =
      match findCrlf data with
      | none => ([], ⟨buffer ++ data, buffer.length⟩)
      | some n => (data.take (n + 2), ⟨buffer ++ data, buffer.length + n + 2⟩) := by
  rw [RespParser.getNextMessage]
  cases data with
  | nil =>
    rw [if_pos (.inr (by simp))]
    rfl
  | cons b data =>
    rw [if_neg (by simp), List.drop_left]

theorem getResponse_caughtUp {c : RedisClient} (hc : CaughtUp c) {reply : Bytes}
    (hsize : reply.length ≤ recvSize) :
    getResponse (.data reply) c =
      match findCrlf (cstr reply) with
      | none => ([], { c with parser := c.parser.append (cstr reply) })
      | some n => ((cstr reply).take (n + 2),
          { c with parser := ⟨c.parser.buffer ++ cstr reply, c.parser.buffer.length + n + 2⟩ }) := by
  have hnext := getNextMessage_append c.parser.buffer (cstr reply)
  rw [← hc.consumed] at hnext
  rw [getResponse, if_neg (by rw [hc.connected]; decide)]
  simp only [List.take_of_length_le hsize]
  show ((c.parser.append (cstr reply)).getNextMessage.1, _) = _
  rw [RespParser.append, hnext]
  cases findCrlf (cstr reply) with
  | none => rfl
  | some n => rw [hc.consumed]

/-- One call on one reply: it returns the first line of it, up to a NUL. -/
theorem getResponse_line {c : RedisClient} (hc : CaughtUp c) {line rest : Bytes}
    (hline : (10 : UInt8) ∉ line) (hsize : (line ++ (crlf ++ rest)).length ≤ recvSize)
    (hnul : (0 : UInt8) ∉ line ++ (crlf ++ rest)) :
    (getResponse (.data (line ++ (crlf ++ rest))) c).1 = line ++ crlf ∧
      (rest = [] → CaughtUp (getResponse (.data (line ++ (crlf ++ rest))) c).2) := by
  rw [getResponse_caughtUp hc hsize, cstr_eq_self hnul, findCrlf_line hline]
  refine ⟨?_, ?_⟩
  · show (line ++ (crlf ++ rest)).take (line.length + crlf.length) = line ++ crlf
    rw [List.take_length_add_append, List.take_left]
  · rintro rfl
    refine ⟨hc.connected, ?_⟩
    simp [crlf]
    omega

/-- It returns the reply exactly when that is one line without NUL, and is caught up again then. -/
theorem getResponse_eq_reply_iff {c : RedisClient} (hc : CaughtUp c) {reply : Bytes}
    (hreply : Complete reply) (hsize : reply.length ≤ recvSize) :
    ((getResponse (.data reply) c).1 = reply ↔ (0 : UInt8) ∉ reply ∧ SingleLine reply) ∧
      ((getResponse (.data reply) c).1 = reply → CaughtUp (getResponse (.data reply) c).2) := by
  by_cases hnul : (0 : UInt8) ∈ reply
  · have hne : (getResponse (.data reply) c).1 ≠ reply := by
      intro heq
      have hlt := length_cstr_lt hnul
      have hle : (getResponse (.data reply) c).1.length ≤ (cstr reply).length := by
        rw [getResponse_caughtUp hc hsize]
        split
        · exact Nat.zero_le _
        · exact List.length_take_le' _ _
      rw [heq] at hle
      omega
    exact ⟨iff_of_false hne fun h => h.1 hnul, fun h => absurd h hne⟩
  · obtain ⟨line, rest, rfl, hline⟩ := hreply.exists_line
    obtain ⟨hmessage, hcaught⟩ := getResponse_line hc hline hsize hnul
    have hwhole : (getResponse (.data (line ++ (crlf ++ rest))) c).1 = line ++ (crlf ++ rest) ↔
        rest = [] := by
      rw [hmessage, List.append_cancel_left_eq, List.self_eq_append_right]
    refine ⟨?_, fun h => hcaught (hwhole.mp h)⟩
    rw [hwhole, singleLine_iff hline]
    exact ⟨fun h => ⟨hnul, h⟩, fun h => h.2⟩

/-- The calls of `get_response`, each with the reply to its own command. -/
def responses (replies : List Bytes) (c : RedisClient) : List Bytes :=
  (runOps (fun reply c => getResponse (.data reply) c) replies c).1

/-- **Which replies are paired with their commands.**  From a client that has returned all it received,
over any sequence of complete replies, each received whole by the call that follows its command: the
calls return exactly the replies, **exactly when** every reply is a single line without a NUL byte. -/
theorem get_response_pairs_iff {c : RedisClient} (hc : CaughtUp c) {replies : List Bytes}
    (hreplies : ∀ reply ∈ replies, Complete reply ∧ reply.length ≤ recvSize) :
    responses replies c = replies ↔
      ∀ reply ∈ replies, (0 : UInt8) ∉ reply ∧ SingleLine reply := by
  induction replies generalizing c with
  | nil => exact iff_of_true rfl (by simp)
  | cons reply replies ih =>
    obtain ⟨hreply, hreplies⟩ := List.forall_mem_cons.mp hreplies
    obtain ⟨hiff, hcaught⟩ := getResponse_eq_reply_iff hc hreply.1 hreply.2
    show (getResponse (.data reply) c).1 :: responses replies (getResponse (.data reply) c).2 =
      reply :: replies ↔ _
    rw [List.cons_eq_cons, List.forall_mem_cons, ← hiff]
    exact and_congr_right fun h => ih (hcaught h) hreplies

/-- `SET` and `INCR` replies, on a new connection. -/
theorem get_response_pairs_lines :
    responses [str "+OK\r\n", str ":1\r\n"] { connected := true } =
      [str "+OK\r\n", str ":1\r\n"] := by
  refine (get_response_pairs_iff ⟨rfl, rfl⟩ ?_).mpr ?_
  · rintro reply (_ | ⟨_, _ | ⟨_, hnil⟩⟩)
    · exact ⟨.inl ⟨_, .simpleString (s := str "OK") (by decide) (by decide)⟩, by decide⟩
    · exact ⟨.inl ⟨_, .integer (n := 1) (paddedNat_natBytes 1) (by decide)⟩, by decide⟩
    · cases hnil
  · rintro reply (_ | ⟨_, _ | ⟨_, hnil⟩⟩)
    · exact ⟨by decide, str "+OK", by decide, by decide⟩
    · exact ⟨by decide, str ":1", by decide, by decide⟩
    · cases hnil

/-- A bulk string comes in two calls: the second command is answered with the first one's value. -/
theorem bulk_reply_shifts_pairing :
    let replies := [str "$3\r\nfoo\r\n", str "+OK\r\n"]
    (∀ reply ∈ replies, Complete reply ∧ reply.length ≤ recvSize) ∧
      CaughtUp { connected := true } ∧
      responses replies { connected := true } = [str "$3\r\n", str "foo\r\n"] ∧
      responses replies { connected := true } ≠ replies := by
  refine ⟨?_, ⟨rfl, rfl⟩, by decide, by decide⟩
  rintro reply (_ | ⟨_, _ | ⟨_, hnil⟩⟩)
  · exact ⟨.inl ⟨_, wire_bulkReply (str "foo")⟩, by decide⟩
  · exact ⟨.inl ⟨_, .simpleString (s := str "OK") (by decide) (by decide)⟩, by decide⟩
  · cases hnil

end Client

end MinimalRedis
