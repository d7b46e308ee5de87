import MinimalRedis.Processor

/-!
# The connection loop (`main.cpp`, `handle_client`)

One connection owns a read buffer of `BUFFER_SIZE` bytes; `buf` is its filled part `buf[0..buf_pos)`
(`ReadBuffer` has the area itself, with the positions in it).  Each turn of the loop is an event of
`select`:

* `notified` — one byte is taken from the notify pipe and all queued messages are written;
* `readable chunk` — `read` delivered `chunk` (nothing means end of file), every complete command in
  the buffer is executed and its reply written, the rest is moved to the front.

The read branch is generic in the command step (`exec i`, the `i`-th command of the connection), so
that the clock may differ from command to command.  Writes to the client are taken to succeed.
-/

namespace MinimalRedis

open Lib

def bufferSize : ℕ := 8192

inductive Status where
  | reading
  | closed
  /-- An exception escaped `handle_client`: the process is gone. -/
  | terminated
deriving DecidableEq, Repr

structure Connection (σ : Type) where
  state : σ
  buf : Bytes := []
  executed : ℕ := 0
  written : List Bytes := []
  status : Status := .reading

section ReadBranch

variable {σ : Type} (grants : ℕ) (exec : ℕ → RespValue → σ → Bytes × σ)

/-- What the catch clause does with a message: wait for more bytes, or answer and hang up. -/
def onRuntimeError (msg : ParseMessage) (c : Connection σ) : Connection σ :=
  if msg.what = str "Incomplete command" then c
  else { c with written := c.written ++ [str "-ERR " ++ msg.what ++ crlf], status := .closed }

/-- Execute the complete commands at the front of the buffer.  `fuel` bounds the rounds; each takes
at least one byte. -/
def commandLoop : ℕ → Connection σ → Connection σ
  | 0, c => c
  | fuel + 1, c =>
      if c.buf = [] then c
      else
        match RespParser.parse grants c.buf with
        | .ok (command, consumed) =>
            let x := exec c.executed command c.state
            commandLoop fuel
              { c with
                state := x.2
                buf := c.buf.drop consumed
                executed := c.executed + 1
                written := c.written ++ [x.1] }
        | .error (.runtimeError msg) => onRuntimeError msg c
        | .error _ => { c with status := .terminated }

/-- The cutoff for a buffer that is nearly full. -/
def closeIfFull (c : Connection σ) : Connection σ :=
  if c.status = .reading ∧ c.buf.length ≥ bufferSize - 1024 then
    { c with written := c.written ++ [str "-ERR Command too large\r\n"], status := .closed }
  else c

def onReadable (chunk : Bytes) (c : Connection σ) : Connection σ :=
  if c.status ≠ .reading then c
  else if chunk = [] then { c with status := .closed }
  else
    let c := { c with buf := c.buf ++ chunk }
    closeIfFull (commandLoop grants exec c.buf.length c)

/-- A sequence of reads. -/
def feed (chunks : List Bytes) (c : Connection σ) : Connection σ :=
  chunks.foldl (fun c chunk => onReadable grants exec chunk c) c

end ReadBranch

inductive Event where
  | notified
  | readable (chunk : Bytes)

variable {S : Type} [Score S] {Λ : Type}

/-- Take one byte from the pipe and write every message queued for this client. -/
def onNotified (c : Connection (Session S Λ)) : Connection (Session S Λ) :=
  if c.status ≠ .reading then c
  else
    let fd := c.state.self.clientFd
    match c.state.world.clientProcessors.find? fd with
    | none => c
    | some mailbox =>
        let emptied := { mailbox with
          pubsubMessages := [], notifyBytes := mailbox.notifyBytes - 1 }
        { c with
          state := { c.state with world := { c.state.world with
            clientProcessors := c.state.world.clientProcessors.set fd emptied } }
          written := c.written ++ mailbox.pubsubMessages }

/-- `handle_client` over a sequence of `select` results; `clock i` is the time at which the
connection's `i`-th command runs. -/
def handleClient (env : Env Λ) (grants : ℕ) (clock : ℕ → ℤ) (events : List Event)
    (c : Connection (Session S Λ)) : Connection (Session S Λ) :=
  events.foldl (fun c event =>
    match event with
    | .notified => onNotified c
    | .readable chunk =>
        onReadable grants (fun i command s => processCommand env (clock i) command s) chunk c) c

end MinimalRedis
