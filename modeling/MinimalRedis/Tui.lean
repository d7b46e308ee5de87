import Mathlib.Data.List.Chain
import MinimalRedis.ClientLines
import MinimalRedis.Lib.Traces

/-!
# The terminal interface (`clients/tui/redis_tui.cpp`)

One object holds the client, what the screens show, and three histories; `run` reads the terminal line by
line and calls the screen chosen.  A step is one turn of the menu or one round of the monitor, which calls
itself until `b` is entered.

* `browser_stays_empty` — the data browser never shows a key: `get_response` returns one line and the
  browser looks for the key behind the length **in the same message**;
* `histories_are_recent` — the command history is the last hundred commands entered, the other two have at
  most twenty entries;
* `end_of_input_never_returns` — at the end of the terminal's input `run` does not return, and nothing more
  is entered: the menu spins, and the monitor calls itself until the stack is exhausted.

What is printed is left out, but for the exceptions that end the program: a memory size that is no number
and a bar of negative length.  How deep the monitor's calls can go is up to the surroundings.
-/

namespace MinimalRedis

namespace Client

open Lib

/-! ### Input streams -/

/-- `std::cin`: what is still to come, and whether no flag is set. -/
structure Stream where
  rest : Bytes
  good : Bool := true
deriving DecidableEq, Repr

namespace Stream

/-- `std::getline` into an empty string. -/
def getline (s : Stream) : Bytes × Stream :=
  if s.good = false then ([], s)
  else if 10 ∈ s.rest then
    (s.rest.takeWhile (· ≠ 10), { s with rest := (s.rest.dropWhile (· ≠ 10)).tail })
  else (s.rest, ⟨[], false⟩)

/-- `std::cin.get()`, and `std::cin.ignore()`. -/
def get (s : Stream) : Stream :=
  if s.good = false then s
  else
    match s.rest with
    | [] => ⟨[], false⟩
    | _ :: bs => ⟨bs, true⟩

/-- `std::cin >> cmd`; `none` leaves the variable alone. -/
def readChar (s : Stream) : Option UInt8 × Stream :=
  if s.good = false then (none, s)
  else
    match s.rest.dropWhile isBlank with
    | [] => (none, ⟨[], false⟩)
    | b :: bs => (some b, ⟨bs, true⟩)

end Stream

/-- The lines that `std::getline` reads of a text. -/
def textLines (text : Bytes) : List Bytes :=
  let pieces := text.splitOn 10
  if pieces.getLast? = some [] then pieces.dropLast else pieces

/-! ### State -/

/-- What the code does with `double`, beside `std::stod`. -/
structure Doubles (S : Type) where
  /-- `x / 1024.0 / 1024.0`. -/
  megabytes : S → S
  /-- `(x / max) * 30` as an `int`. -/
  bars : S → S → ℤ

/-- Where `run` stands. -/
inductive Place where
  | menu
  | monitor
  /-- `running` is false. -/
  | ended
  /-- An exception has reached `main`. -/
  | failed
  /-- The stack is exhausted: the process is gone. -/
  | crashed
deriving DecidableEq, Repr

structure EnhancedRedisTUI (S : Type) where
  client : RedisClient := {}
  keyValuePairs : List (Bytes × Bytes) := []
  currentPage : ℕ := 0
  serverInfo : UMap Bytes Bytes := ∅
  memoryHistory : List S := []
  connectionsHistory : List ℤ := []
  commandHistory : List Bytes := []
  responseHistory : List Bytes := []
  stdin : Stream
  place : Place := .menu

/-- What the surroundings answer during a step: to the `i`-th command `send` returns the first part and
`select` and `recv` bring the second; `connect` succeeds or not; an unset `char` has this value; there is
stack left for one more call. -/
structure Outside where
  net : ℕ → ℤ × Arrival
  connects : Bool
  unset : UInt8
  stackLeft : Bool := true

def pageSize : ℕ := 20
def maxHistory : ℕ := 20
def maxHistoryCmds : ℕ := 100

/-- `push_back`, and the oldest entry goes when there are too many. -/
def pushBounded {α : Type} (bound : ℕ) (history : List α) (x : α) : List α :=
  let history := history ++ [x]
  if history.length > bound then history.tail else history

def pushFound {α : Type} (bound : ℕ) (history : List α) : Option α → List α
  | none => history
  | some x => pushBounded bound history x

/-- `send_command` and, if it succeeds, `get_response`. -/
def ask (x : ℤ × Arrival) (command : Bytes) (c : RedisClient) : Option Bytes × RedisClient :=
  if (sendCommand x.1 command c).1 then
    let r := getResponse x.2 c
    (some r.1, r.2)
  else (none, c)

/-! ### Screens -/

/-- A line that announces a length. -/
def lengthLine (line : Bytes) : Bool := decide (line.length > 1) && line.head? == some 36

/-- The loop of `refresh_data` over the lines.  The line behind a length is a key.  When there is none,
`std::getline` empties the string, unless the stream had ended with the line before (`open'`). -/
def keyLines (open' : Bool) : List Bytes → List Bytes
  | [] => []
  | [line] => if lengthLine line && open' then [line] else []
  | line :: key :: lines =>
      if lengthLine line then
        if key ≠ [] then key :: keyLines open' lines else keyLines open' lines
      else keyLines open' (key :: lines)

def keysOf (response : Bytes) : List Bytes :=
  keyLines (decide (response.getLast? ≠ some 10)) (textLines response)

/-- The values of the keys, the first of which is the `i`-th. -/
def fetchValues (net : ℕ → ℤ × Arrival) : ℕ → List Bytes → RedisClient →
    List (Bytes × Bytes) × RedisClient
  | _, [], c => ([], c)
  | i, key :: keys, c =>
      let x := ask (net (i + 1)) (str "GET " ++ key) c
      let r := fetchValues net (i + 1) keys x.2
      match x.1 with
      | none => r
      | some value => if value ≠ [] ∧ value.head? ≠ some 45 then ((key, value) :: r.1, r.2) else r

namespace EnhancedRedisTUI

variable {S : Type}

def handleCommandInterface (o : Outside) (t : EnhancedRedisTUI S) : EnhancedRedisTUI S :=
  let line := t.stdin.getline
  if line.1 = str "back" ∨ line.1 = [] then { t with stdin := line.2 }
  else
    let x := ask (o.net 0) line.1 t.client
    let response := x.1.getD []
    { t with
      client := x.2
      commandHistory := pushBounded maxHistoryCmds t.commandHistory line.1
      responseHistory := if response ≠ [] then t.responseHistory ++ [response] else t.responseHistory
      -- a command that could not be sent is not waited for
      stdin := if x.1.isSome then line.2.get else line.2 }

/-- No response, or an empty one, has no keys. -/
def refreshData (o : Outside) (t : EnhancedRedisTUI S) : EnhancedRedisTUI S :=
  let x := ask (o.net 0) (str "KEYS *") t.client
  let r := fetchValues o.net 0 ((keysOf (x.1.getD [])).take 50) x.2
  { t with client := r.2, keyValuePairs := r.1 }

def turnPage (cmd : UInt8) (size page : ℕ) : ℕ :=
  if cmd = 110 then (if (page + 1) * pageSize < size then page + 1 else page)
  else if cmd = 112 then page - 1
  else page

def handleDataBrowser (o : Outside) (t : EnhancedRedisTUI S) : EnhancedRedisTUI S :=
  let t := t.refreshData o
  let x := t.stdin.readChar
  { t with
    currentPage := turnPage (x.1.getD o.unset) t.keyValuePairs.length t.currentPage
    stdin := x.2.get }

/-- One line of the server's report. -/
def infoLine (info : UMap Bytes Bytes) (line : Bytes) : UMap Bytes Bytes :=
  if line = [] ∨ line.head? = some 35 then info
  else if 58 ∈ line then
    info.set (line.takeWhile (· ≠ 58)) (line.dropWhile (· ≠ 58)).tail
  else info

def fetchServerInfo (o : Outside) (t : EnhancedRedisTUI S) : EnhancedRedisTUI S :=
  let x := ask (o.net 0) (str "INFO") t.client
  { t with client := x.2, serverInfo := (textLines (x.1.getD [])).foldl infoLine ∅ }

def updateMonitoringData [Score S] (doubles : Doubles S) (t : EnhancedRedisTUI S) :
    EnhancedRedisTUI S :=
  let used := (t.serverInfo.find? (str "used_memory")).bind Score.stod
  let clients := (t.serverInfo.find? (str "connected_clients")).bind stoi
  { t with
    memoryHistory := pushFound maxHistory t.memoryHistory (used.map doubles.megabytes)
    connectionsHistory := pushFound maxHistory t.connectionsHistory clients }

/-- A bar of negative length is asked for. -/
def barFails {α : Type} [LinearOrder α] [Zero α] (bars : α → α → ℤ) (history : List α) : Bool :=
  match history.max? with
  | none => false
  | some top => decide (0 < top) && history.any fun x => decide (bars x top < 0)

/-- `(x * 30) / top`, the product in an `int`. -/
def connectionBars (x top : ℤ) : ℤ := (wrap32 (x * 30)).tdiv top

/-- The printing throws. -/
def displayFails [Score S] (doubles : Doubles S) (t : EnhancedRedisTUI S) : Bool :=
  let used := (t.serverInfo.find? (str "used_memory")).getD []
  decide (t.serverInfo.size ≠ 0) &&
    ((decide (used ≠ []) && (Score.stod (S := S) used).isNone) ||
      barFails doubles.bars t.memoryHistory ||
      barFails connectionBars t.connectionsHistory)

/-- One round of `handle_server_monitor`. -/
def handleServerMonitor [Score S] (doubles : Doubles S) (o : Outside) (t : EnhancedRedisTUI S) :
    EnhancedRedisTUI S :=
  let t := (t.fetchServerInfo o).updateMonitoringData doubles
  let line := t.stdin.getline
  if t.displayFails doubles then { t with place := .failed }
  else
    { t with
      stdin := line.2
      place := if line.1 = str "b" then .menu else if o.stackLeft then .monitor else .crashed }

def handleConnection (o : Outside) (t : EnhancedRedisTUI S) : EnhancedRedisTUI S :=
  let line := t.stdin.getline
  let connected :=
    if t.client.connected then decide (line.1 ≠ str "disconnect")
    else decide (line.1 = str "connect") && o.connects
  { t with client := { t.client with connected := connected }, stdin := line.2.get }

/-- The command entered in the command interface. -/
def entered (t : EnhancedRedisTUI S) : Option Bytes :=
  let line := t.stdin.getline
  if line.1 = str "back" ∨ line.1 = [] then none else some line.1

/-- One turn of the menu, once the choice is read. -/
def choose (o : Outside) (choice : Option UInt8) (t : EnhancedRedisTUI S) :
    Option Bytes × EnhancedRedisTUI S :=
  if choice = none then (none, t)
  else if choice = some 49 then (t.entered, t.handleCommandInterface o)
  else if choice = some 50 then (none, t.handleDataBrowser o)
  else if choice = some 51 then (none, { t with place := .monitor })
  else if choice = some 52 then (none, t.handleConnection o)
  else if choice = some 53 then (none, { t with stdin := t.stdin.get })
  else if choice = some 48 then (none, { t with place := .ended })
  else (none, { t with stdin := t.stdin.get })

def menuStep (o : Outside) (t : EnhancedRedisTUI S) : Option Bytes × EnhancedRedisTUI S :=
  let line := t.stdin.getline
  choose o line.1.head? { t with stdin := line.2 }

def step? [Score S] (doubles : Doubles S) (o : Outside) (t : EnhancedRedisTUI S) :
    Option (Option Bytes × EnhancedRedisTUI S) :=
  match t.place with
  | .menu => some (t.menuStep o)
  | .monitor => some (none, t.handleServerMonitor doubles o)
  | .ended => none
  | .failed => none
  | .crashed => none

/-- Behind the welcome. -/
def start (input : Bytes) : EnhancedRedisTUI S := { stdin := Stream.get ⟨input, true⟩ }

end EnhancedRedisTUI

/-! ### Histories -/

theorem pushBounded_drop {α : Type} (bound : ℕ) (xs : List α) (x : α) :
    pushBounded bound (xs.drop (xs.length - bound)) x =
      (xs ++ [x]).drop ((xs ++ [x]).length - bound) := by
  have hle : xs.length - bound ≤ xs.length := Nat.sub_le _ _
  simp only [pushBounded, ← List.drop_append_of_le_length hle, List.length_drop, List.length_append,
    List.length_singleton]
  split
  · rw [← List.drop_one, List.drop_drop]
    congr 1
    omega
  · congr 1
    omega

theorem length_pushBounded_le {α : Type} {bound : ℕ} {history : List α} (x : α)
    (h : history.length ≤ bound) : (pushBounded bound history x).length ≤ bound := by
  simp only [pushBounded]
  split
  · rw [List.length_tail, List.length_append, List.length_singleton]
    omega
  · omega

theorem length_pushFound_le {α : Type} {bound : ℕ} {history : List α} (x? : Option α)
    (h : history.length ≤ bound) : (pushFound bound history x?).length ≤ bound := by
  cases x? with
  | none => exact h
  | some x => exact length_pushBounded_le x h

/-! ### What the browser finds in a message -/

/-- Every line feed but a first one is part of a CR LF, or stands behind another line feed. -/
def TidyLineEnds (bs : Bytes) : Prop := bs.IsChain fun a b => b = 10 → a = 13 ∨ a = 10

instance (bs : Bytes) : Decidable (TidyLineEnds bs) :=
  inferInstanceAs (Decidable (bs.IsChain fun a b => b = 10 → a = 13 ∨ a = 10))

theorem TidyLineEnds.earlier {bs bs' : Bytes} (h : TidyLineEnds bs') (hfront : bs <+: bs') :
    TidyLineEnds bs := List.IsChain.prefix h hfront

/-- Before a line feed inside of a message stand line feeds only. -/
theorem TidyLineEnds.leading {before line rest : Bytes}
    (h : TidyLineEnds (before ++ (line ++ (crlf ++ rest))))
    (hfirst : ∀ x y, line ++ (crlf ++ rest) = x ++ (crlf ++ y) → line.length ≤ x.length) :
    ∀ x y, line = x ++ 10 :: y → ∀ b ∈ x, b = 10 := by
  intro x
  induction x using List.reverseRecOn with
  | nil =>
    intro y _ b hb
    cases hb
  | append_singleton x c ih =>
    intro y hline b hb
    have hpair : [c, 10] <:+: before ++ (line ++ (crlf ++ rest)) :=
      ⟨before ++ x, y ++ (crlf ++ rest), by rw [hline]; simp⟩
    have hchain := List.IsChain.infix h hpair
    rcases List.isChain_pair.mp hchain rfl with rfl | rfl
    · -- a CR LF before the first one
      have hle := hfirst x (y ++ (crlf ++ rest)) (by rw [hline]; simp [crlf])
      simp only [hline, List.length_append, List.length_cons, List.length_nil] at hle
      omega
    · rcases List.mem_append.mp hb with hb | hb
      · exact ih (10 :: y) (by rw [hline, List.append_assoc, List.singleton_append]) b hb
      · exact List.mem_singleton.mp hb

theorem keyLines_cons {line : Bytes} (h : lengthLine line = false) (lines : List Bytes) :
    keyLines false (line :: lines) = keyLines false lines := by
  cases lines with
  | nil => simp [keyLines, h]
  | cons key lines => simp [keyLines, h]

theorem keyLines_leading {line : Bytes} (h : ∀ x y, line = x ++ 10 :: y → ∀ b ∈ x, b = 10) :
    keyLines false ((line ++ [13]).splitOn 10) = [] := by
  induction line with
  | nil => rfl
  | cons b line ih =>
    by_cases hb : b = 10
    · rw [List.cons_append, List.splitOn_cons_eq_if_modifyHead, if_pos (beq_iff_eq.mpr hb),
        keyLines_cons rfl]
      refine ih fun x y hline c hc => h (b :: x) y ?_ c (List.mem_cons_of_mem _ hc)
      rw [hline, List.cons_append]
    · have hnot : 10 ∉ b :: line ++ [13] := by
        intro hmem
        rcases List.mem_append.mp hmem with hmem | hmem
        · obtain ⟨x, y, hline⟩ := List.append_of_mem hmem
          cases x with
          | nil => exact hb (List.cons.inj hline).1
          | cons c x =>
            have hc : b = c := (List.cons.inj hline).1
            exact hb (hc.trans (h (c :: x) y hline c List.mem_cons_self))
        · exact absurd (List.mem_singleton.mp hmem) (by decide)
      rw [List.splitOn_eq_singleton hnot, keyLines, Bool.and_false]
      rfl

theorem keysOf_message {line : Bytes} (h : ∀ x y, line = x ++ 10 :: y → ∀ b ∈ x, b = 10) :
    keysOf (line ++ crlf) = [] := by
  have hcrlf : line ++ crlf = (line ++ [13]) ++ 10 :: [] := by simp [crlf]
  have hlines : textLines (line ++ crlf) = (line ++ [13]).splitOn 10 := by
    rw [textLines, hcrlf, List.splitOn_append_cons_self, List.splitOn_nil]
    simp
  have hclosed : decide ((line ++ crlf).getLast? ≠ some 10) = false := by
    rw [hcrlf, List.getLast?_concat]
    rfl
  rw [keysOf, hlines, hclosed]
  exact keyLines_leading h

theorem buffer_getNextMessage (p : RespParser) : p.getNextMessage.2.buffer = p.buffer := by
  rw [RespParser.getNextMessage_eq]
  cases nextLine p.unread <;> rfl

theorem keysOf_getNextMessage {p : RespParser} (h : TidyLineEnds p.buffer) :
    keysOf p.getNextMessage.1 = [] := by
  rw [RespParser.getNextMessage_eq]
  cases hnext : nextLine p.unread with
  | none => rfl
  | some x =>
    obtain ⟨m, rest⟩ := x
    obtain ⟨line, rfl, hunread, hfirst⟩ := nextLine_eq_some hnext
    rw [List.append_assoc] at hunread
    have hbuffer : p.buffer = p.buffer.take p.pos ++ (line ++ (crlf ++ rest)) := by
      rw [← hunread]
      exact (List.take_append_drop _ _).symm
    rw [hbuffer] at h
    refine keysOf_message (h.leading fun x y hxy => hfirst x y ?_)
    rw [hunread, hxy]

/-! ### Asking -/

/-- What a call of the client does to its buffer, and what the browser finds in the answer. -/
theorem getResponse_spec (arrival : Arrival) (c : RedisClient) :
    c.parser.buffer <+: (getResponse arrival c).2.parser.buffer ∧
      (TidyLineEnds (getResponse arrival c).2.parser.buffer →
        keysOf (getResponse arrival c).1 = []) := by
  by_cases hc : c.connected = false
  · have hsame : getResponse arrival c = ([], c) := if_pos hc
    rw [hsame]
    exact ⟨List.prefix_refl _, fun _ => rfl⟩
  · cases arrival with
    | timeout =>
      have hsame : getResponse .timeout c = ([], c) := if_neg hc
      rw [hsame]
      exact ⟨List.prefix_refl _, fun _ => rfl⟩
    | hangup =>
      have hclosed : getResponse .hangup c = ([], { c with connected := false }) := if_neg hc
      rw [hclosed]
      exact ⟨List.prefix_refl _, fun _ => rfl⟩
    | data available =>
      let p := c.parser.append (cstr (available.take recvSize))
      have hdata : getResponse (.data available) c =
          (p.getNextMessage.1, { c with parser := p.getNextMessage.2 }) := if_neg hc
      rw [hdata]
      show _ <+: p.getNextMessage.2.buffer ∧ (TidyLineEnds p.getNextMessage.2.buffer → _)
      rw [buffer_getNextMessage]
      exact ⟨List.prefix_append _ _, keysOf_getNextMessage⟩

theorem ask_spec (x : ℤ × Arrival) (command : Bytes) (c : RedisClient) :
    c.parser.buffer <+: (ask x command c).2.parser.buffer ∧
      (TidyLineEnds (ask x command c).2.parser.buffer →
        keysOf ((ask x command c).1.getD []) = []) := by
  rw [ask]
  split
  · exact getResponse_spec x.2 c
  · exact ⟨List.prefix_refl _, fun _ => rfl⟩

theorem buffer_fetchValues (net : ℕ → ℤ × Arrival) (i : ℕ) (keys : List Bytes) (c : RedisClient) :
    c.parser.buffer <+: (fetchValues net i keys c).2.parser.buffer := by
  induction keys generalizing i c with
  | nil => exact List.prefix_refl _
  | cons key keys ih =>
    have hask := (ask_spec (net (i + 1)) (str "GET " ++ key) c).1
    have hrest := hask.trans (ih (i + 1) _)
    rw [fetchValues]
    split
    · exact hrest
    · split
      · exact hrest
      · exact hrest

namespace EnhancedRedisTUI

variable {S : Type} {doubles : Doubles S} {o : Outside} {t t' : EnhancedRedisTUI S}
  {commands : List Bytes}

/-! ### Steps -/

/-- What holds between two steps; `commands` are the ones entered so far. -/
structure Inv (commands : List Bytes) (t : EnhancedRedisTUI S) : Prop where
  commandHistory : t.commandHistory = commands.drop (commands.length - maxHistoryCmds)
  memoryHistory : t.memoryHistory.length ≤ maxHistory
  connectionsHistory : t.connectionsHistory.length ≤ maxHistory
  browser : TidyLineEnds t.client.parser.buffer → t.keyValuePairs = [] ∧ t.currentPage = 0

theorem inv_start (input : Bytes) : Inv [] (start input : EnhancedRedisTUI S) where
  commandHistory := rfl
  memoryHistory := Nat.zero_le _
  connectionsHistory := Nat.zero_le _
  browser _ := ⟨rfl, rfl⟩

theorem Inv.commandInterface (h : Inv commands t) :
    Inv (commands ++ t.entered.toList) (t.handleCommandInterface o) := by
  rw [entered, handleCommandInterface]
  by_cases hcmd : t.stdin.getline.1 = str "back" ∨ t.stdin.getline.1 = []
  · rw [if_pos hcmd, if_pos hcmd, Option.toList_none, List.append_nil]
    exact ⟨h.commandHistory, h.memoryHistory, h.connectionsHistory, h.browser⟩
  · rw [if_neg hcmd, if_neg hcmd, Option.toList_some]
    refine ⟨?_, h.memoryHistory, h.connectionsHistory, fun htidy => ?_⟩
    · show pushBounded maxHistoryCmds t.commandHistory _ = _
      rw [h.commandHistory, pushBounded_drop]
    · exact h.browser (htidy.earlier (ask_spec _ _ _).1)

theorem Inv.dataBrowser (h : Inv commands t) : Inv commands (t.handleDataBrowser o) := by
  refine ⟨h.commandHistory, h.memoryHistory, h.connectionsHistory, fun htidy => ?_⟩
  let x := ask (o.net 0) (str "KEYS *") t.client
  let keys := (keysOf (x.1.getD [])).take 50
  obtain ⟨hfront, hkeys⟩ := ask_spec (o.net 0) (str "KEYS *") t.client
  have htidy' : TidyLineEnds x.2.parser.buffer := htidy.earlier (buffer_fetchValues o.net 0 keys x.2)
  have hnil : keys = [] := by
    show (keysOf (x.1.getD [])).take 50 = []
    rw [hkeys htidy', List.take_nil]
  have hvalues : (t.refreshData o).keyValuePairs = [] := by
    show (fetchValues o.net 0 keys x.2).1 = []
    rw [hnil]
    rfl
  have hpage : t.currentPage = 0 := (h.browser (htidy'.earlier hfront)).2
  refine ⟨hvalues, ?_⟩
  show turnPage _ (t.refreshData o).keyValuePairs.length t.currentPage = 0
  rw [hvalues, hpage, turnPage]
  split
  · rfl
  · split
    · rfl
    · rfl

theorem Inv.serverMonitor [Score S] (h : Inv commands t) :
    Inv commands (t.handleServerMonitor doubles o) := by
  have hupdate : Inv commands ((t.fetchServerInfo o).updateMonitoringData doubles) := by
    refine ⟨h.commandHistory, ?_, ?_, fun htidy => h.browser (htidy.earlier (ask_spec _ _ _).1)⟩
    · exact length_pushFound_le _ h.memoryHistory
    · exact length_pushFound_le _ h.connectionsHistory
  rw [handleServerMonitor]
  split
  · exact ⟨hupdate.commandHistory, hupdate.memoryHistory, hupdate.connectionsHistory, hupdate.browser⟩
  · exact ⟨hupdate.commandHistory, hupdate.memoryHistory, hupdate.connectionsHistory, hupdate.browser⟩

theorem Inv.choose (h : Inv commands t) (choice : Option UInt8) :
    Inv (commands ++ (t.choose o choice).1.toList) (t.choose o choice).2 := by
  have hsame : ∀ t' : EnhancedRedisTUI S, Inv commands t' →
      Inv (commands ++ (none : Option Bytes).toList) t' := by
    intro t' h'
    rwa [Option.toList_none, List.append_nil]
  have hkept : ∀ (c : RedisClient) (stdin : Stream) (place : Place), c.parser = t.client.parser →
      Inv commands { t with client := c, stdin := stdin, place := place } := by
    intro c stdin place hc
    exact ⟨h.commandHistory, h.memoryHistory, h.connectionsHistory, hc ▸ h.browser⟩
  unfold EnhancedRedisTUI.choose
  by_cases hnone : choice = none
  · rw [if_pos hnone]
    exact hsame _ h
  rw [if_neg hnone]
  by_cases hcommand : choice = some 49
  · rw [if_pos hcommand]
    exact h.commandInterface
  rw [if_neg hcommand]
  by_cases hdata : choice = some 50
  · rw [if_pos hdata]
    exact hsame _ h.dataBrowser
  rw [if_neg hdata]
  split
  · exact hsame _ (hkept _ _ _ rfl)
  split
  · exact hsame _ (hkept { t.client with connected := _ } _ _ rfl)
  split
  · exact hsame _ (hkept _ _ _ rfl)
  split
  · exact hsame _ (hkept _ _ _ rfl)
  · exact hsame _ (hkept _ _ _ rfl)

theorem Inv.step [Score S] {e : Option Bytes} (h : Inv commands t)
    (hstep : step? doubles o t = some (e, t')) : Inv (commands ++ e.toList) t' := by
  rw [step?] at hstep
  split at hstep
  · have hline : Inv commands { t with stdin := t.stdin.getline.2 } :=
      ⟨h.commandHistory, h.memoryHistory, h.connectionsHistory, h.browser⟩
    have hmenu := hline.choose (o := o) t.stdin.getline.1.head?
    have hpair : t.menuStep o = (e, t') := Option.some.inj hstep
    rw [menuStep] at hpair
    rw [hpair] at hmenu
    exact hmenu
  · cases hstep
    rw [Option.toList_none, List.append_nil]
    exact h.serverMonitor
  · cases hstep
  · cases hstep
  · cases hstep

/-! ### Runs -/

variable [Score S] {os : List Outside} {input : Bytes}

/-- **The data browser shows no key.**  Over every run: as long as in what came from the server each line
feed belongs to a CR LF or follows another line feed (so are all replies but those with such a byte in their
data), there is nothing to show, on the first page. -/
theorem browser_stays_empty
    (hrun : Machine.run? (step? doubles) os (start input) = some (commands, t))
    (htidy : TidyLineEnds t.client.parser.buffer) : t.keyValuePairs = [] ∧ t.currentPage = 0 :=
  (Machine.run_inv_nil Inv.step (inv_start input) hrun).browser htidy

/-- Sizes that are printed without bars. -/
def flatDoubles : Doubles NatScore := ⟨id, fun _ _ => 0⟩

/-- `send` takes the 21 bytes of `KEYS *`, and one chunk comes. -/
def answering (chunk : Bytes) : Outside := ⟨fun _ => (21, .data chunk), true, 0, true⟩

/-- The user connects and opens the browser twice; the server has one key. -/
def browsing : List Outside :=
  [answering [], answering (str "*1\r\n$1\r\nk\r\n"), answering (str "*1\r\n$1\r\nk\r\n")]

theorem browser_stays_empty_one_key :
    ∃ commands t, Machine.run? (step? flatDoubles) browsing
        (start (str "\n4\nconnect\n\n2\nr\n2\nr\n") : EnhancedRedisTUI NatScore) = some (commands, t) ∧
      t.client.parser.pos = 8 ∧ t.keyValuePairs = [] ∧ t.currentPage = 0 := by
  obtain ⟨x, hx, hcheck⟩ := (Option.any_eq_true _ _).mp (show ((Machine.run? (step? flatDoubles) browsing
    (start (str "\n4\nconnect\n\n2\nr\n2\nr\n") : EnhancedRedisTUI NatScore)).any fun x =>
      decide (x.2.client.parser.pos = 8 ∧ TidyLineEnds x.2.client.parser.buffer)) = true from by
        decide +kernel)
  obtain ⟨hpos, htidy⟩ := of_decide_eq_true hcheck
  exact ⟨x.1, x.2, hx, hpos, browser_stays_empty hx htidy⟩

/-- **Histories are recent.**  Over every run the command history is the last hundred commands entered, in
order, and the two histories of the monitor have at most twenty entries. -/
theorem histories_are_recent
    (hrun : Machine.run? (step? doubles) os (start input) = some (commands, t)) :
    t.commandHistory = commands.drop (commands.length - maxHistoryCmds) ∧
      t.memoryHistory.length ≤ maxHistory ∧ t.connectionsHistory.length ≤ maxHistory := by
  have h := Machine.run_inv_nil Inv.step (inv_start input) hrun
  exact ⟨h.commandHistory, h.memoryHistory, h.connectionsHistory⟩

theorem histories_are_recent_browsing :
    ∃ commands t, Machine.run? (step? flatDoubles) browsing
        (start (str "\n4\nconnect\n\n1\nKEYS *\n\n1\nback\n") : EnhancedRedisTUI NatScore) =
          some (commands, t) ∧
      commands = [str "KEYS *"] ∧
      t.commandHistory = commands.drop (commands.length - maxHistoryCmds) ∧
      t.memoryHistory.length ≤ maxHistory ∧ t.connectionsHistory.length ≤ maxHistory := by
  obtain ⟨x, hx, hcheck⟩ := (Option.any_eq_true _ _).mp (show ((Machine.run? (step? flatDoubles) browsing
    (start (str "\n4\nconnect\n\n1\nKEYS *\n\n1\nback\n") : EnhancedRedisTUI NatScore)).any fun x =>
      x.1 == [str "KEYS *"]) = true from by decide +kernel)
  exact ⟨x.1, x.2, hx, beq_iff_eq.mp hcheck, histories_are_recent hx⟩

/-! ### The end of the input -/

/-- The monitor is on, or has brought the program down. -/
def Place.OfMonitor (place : Place) : Prop := place = .monitor ∨ place = .failed ∨ place = .crashed

/-- Where a state without input comes to: the menu stays as it is, the monitor goes on or fails. -/
structure Spins (t t' : EnhancedRedisTUI S) : Prop where
  input : t'.stdin.good = false
  place : t' = t ∨ t.place = .monitor ∧ Place.OfMonitor t'.place

omit [Score S] in
theorem menuStep_of_end (h : t.stdin.good = false) : t.menuStep o = (none, t) := by
  have hline : t.stdin.getline = ([], t.stdin) := if_pos h
  rw [menuStep, hline]
  exact if_pos rfl

theorem serverMonitor_of_end (doubles : Doubles S) (o : Outside) (h : t.stdin.good = false) :
    (t.handleServerMonitor doubles o).stdin.good = false ∧
      Place.OfMonitor (t.handleServerMonitor doubles o).place := by
  have hline : ((t.fetchServerInfo o).updateMonitoringData doubles).stdin.getline = ([], t.stdin) :=
    if_pos h
  rw [handleServerMonitor, hline]
  split
  · exact ⟨h, .inr (.inl rfl)⟩
  · refine ⟨h, ?_⟩
    show Place.OfMonitor (if o.stackLeft then .monitor else .crashed)
    split
    · exact .inl rfl
    · exact .inr (.inr rfl)

theorem Spins.step {t'' : EnhancedRedisTUI S} {e : Option Bytes} (h : Spins t t')
    (hstep : step? doubles o t' = some (e, t'')) : e = none ∧ Spins t t'' := by
  rw [step?] at hstep
  split at hstep
  · rw [menuStep_of_end h.input] at hstep
    cases hstep
    exact ⟨rfl, h⟩
  · rename_i hmonitor
    cases hstep
    have hstart : t.place = .monitor := by
      rcases h.place with rfl | ⟨hstart, -⟩
      · exact hmonitor
      · exact hstart
    obtain ⟨hinput, hplace⟩ := serverMonitor_of_end doubles o h.input
    exact ⟨rfl, hinput, .inr ⟨hstart, hplace⟩⟩
  · cases hstep
  · cases hstep
  · cases hstep

/-- **At the end of the input `run` does not return.**  Once the terminal has nothing more to give and `0`
was not chosen, nothing more is entered: the menu comes again and again in the same state, and the monitor
calls itself again, until the printing throws or the stack is exhausted. -/
theorem end_of_input_never_returns (hinput : t.stdin.good = false) (hplace : t.place ≠ .ended)
    (hrun : Machine.run? (step? doubles) os t = some (commands, t')) :
    commands = [] ∧ t'.place ≠ .ended ∧ (t.place = .menu → t' = t) ∧
      (t.place = .monitor → t'.place = .monitor ∨ t'.place = .failed ∨ t'.place = .crashed) := by
  obtain ⟨hnone, hspins⟩ : commands = [] ∧ Spins t t' :=
    Machine.run_inv_nil (I := fun past t' => past = [] ∧ Spins t t')
      (fun h hstep => by
        obtain ⟨rfl, hspins⟩ := h.2.step hstep
        exact ⟨by rw [h.1]; rfl, hspins⟩)
      ⟨rfl, hinput, .inl rfl⟩ hrun
  refine ⟨hnone, fun hended => ?_, fun hmenu => ?_, fun hmonitor => ?_⟩
  · rcases hspins.place with rfl | ⟨-, hmoved⟩
    · exact hplace hended
    · rw [hended] at hmoved
      rcases hmoved with heq | heq | heq
      · cases heq
      · cases heq
      · cases heq
  · rcases hspins.place with hsame | ⟨hmonitor, -⟩
    · exact hsame
    · rw [hmenu] at hmonitor
      cases hmonitor
  · rcases hspins.place with rfl | ⟨-, hmoved⟩
    · exact .inl hmonitor
    · exact hmoved

/-- Nothing is entered at all. -/
theorem end_of_input_never_returns_empty :
    ∃ commands t', Machine.run? (step? flatDoubles) browsing
        (start [] : EnhancedRedisTUI NatScore) = some (commands, t') ∧ t' = start [] := by
  obtain ⟨x, hx⟩ := Option.isSome_iff_exists.mp (show (Machine.run? (step? flatDoubles) browsing
    (start [] : EnhancedRedisTUI NatScore)).isSome = true from by decide +kernel)
  obtain ⟨-, -, hmenu, -⟩ := end_of_input_never_returns rfl (by decide) hx
  exact ⟨x.1, x.2, hx, hmenu rfl⟩

end EnhancedRedisTUI

end Client

end MinimalRedis
