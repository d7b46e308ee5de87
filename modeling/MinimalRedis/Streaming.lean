import MinimalRedis.CommandBytes
import MinimalRedis.Connection

/-!
# Commands that arrive in pieces

The read loop waits for more bytes only on the message `Incomplete command`, which the parser throws
when the buffer ends **between** elements.  A buffer that ends inside a length line or a payload gives
`Incomplete line` or `Incomplete bulk string`, and the loop answers and hangs up.

* `feed_stream` — over any chunks: every cut at a boundary, and the commands are executed one by one; a
  cut anywhere else, and the connection is closed;
* `streaming_iff` — so chunks do what whole commands do exactly when every cut is at a `Boundary`.
-/

namespace MinimalRedis

open Lib RespParser

variable {σ : Type} {grants : ℕ} {exec : ℕ → RespValue → σ → Bytes × σ}

/-! ### Streams of commands -/

/-- The bytes of commands sent one after the other. -/
def stream (cmds : List (List Bytes)) : Bytes := cmds.flatMap arrayReply

/-- The bytes `x` of the stream stop between commands or between elements of a command. -/
def Boundary (cmds : List (List Bytes)) (x : Bytes) : Prop :=
  ∃ done todo v, cmds = done ++ todo ∧ x = stream done ++ v ∧
    (v = [] ∨ ∃ cmd more, todo = cmd :: more ∧ AtElement cmd v)

/-- `v` is not yet the whole first command. -/
def Unfinished (todo : List (List Bytes)) (v : Bytes) : Prop :=
  v = [] ∨ ∃ cmd more, todo = cmd :: more ∧ v.length < (arrayReply cmd).length

theorem stream_append (xs ys : List (List Bytes)) : stream (xs ++ ys) = stream xs ++ stream ys :=
  List.flatMap_append

theorem arrayReply_ne_nil (cmd : List Bytes) : arrayReply cmd ≠ [] := by simp [arrayReply]

theorem RespParser.AtElement.length_lt {cmd : List Bytes} {v : Bytes} (h : AtElement cmd v) :
    v.length < (arrayReply cmd).length := by
  obtain ⟨done, s, todo, hcmd, rfl⟩ := h
  have hpos : 0 < (bulkReply s).length := by simp [bulkReply]
  rw [arrayReply_eq]
  nth_rewrite 3 [hcmd]
  simp only [List.length_append, List.flatMap_append, List.flatMap_cons]
  omega

theorem unfinished_of_atElement {todo : List (List Bytes)} {v : Bytes}
    (h : v = [] ∨ ∃ cmd more, todo = cmd :: more ∧ AtElement cmd v) : Unfinished todo v := by
  rcases h with hnil | ⟨cmd, more, htodo, hat⟩
  · exact .inl hnil
  · exact .inr ⟨cmd, more, htodo, hat.length_lt⟩

/-- A later cut cannot lie before a whole command. -/
theorem Unfinished.not_command {todo more : List (List Bytes)} {v x : Bytes} (cmd : List Bytes)
    (h : Unfinished todo v) (htodo : todo = cmd :: more) (hv : v = arrayReply cmd ++ x) : False := by
  rcases h with rfl | ⟨cmd', more', htodo', hlt⟩
  · exact arrayReply_ne_nil cmd (List.append_eq_nil_iff.mp hv.symm).1
  · obtain ⟨rfl, -⟩ := List.cons.inj (htodo.symm.trans htodo')
    rw [hv, List.length_append] at hlt
    omega

/-- The finished commands and the rest are determined by the bytes. -/
theorem unfinished_unique {done todo done' todo' : List (List Bytes)} {v v' : Bytes}
    (hcmds : done ++ todo = done' ++ todo') (hbytes : stream done ++ v = stream done' ++ v')
    (hv : Unfinished todo v) (hv' : Unfinished todo' v') : done = done' ∧ v = v' := by
  rcases List.append_eq_append_iff.mp hcmds with ⟨more, rfl, rfl⟩ | ⟨more, rfl, rfl⟩
  · cases more with
    | nil => exact ⟨by simp, by simpa using hbytes⟩
    | cons cmd more =>
      rw [stream_append, List.append_assoc, List.append_cancel_left_eq] at hbytes
      refine (hv.not_command cmd rfl (x := stream more ++ v') ?_).elim
      rw [hbytes]
      simp [stream]
  · cases more with
    | nil => exact ⟨by simp, by simpa using hbytes⟩
    | cons cmd more =>
      rw [stream_append, List.append_assoc, List.append_cancel_left_eq] at hbytes
      refine (hv'.not_command cmd rfl (x := stream more ++ v) ?_).elim
      rw [← hbytes]
      simp [stream]

/-- Any beginning of a stream: whole commands and an unfinished one. -/
theorem stream_cut {cmds : List (List Bytes)} {y z : Bytes} (h : y ++ z = stream cmds) :
    ∃ done todo v, cmds = done ++ todo ∧ y = stream done ++ v ∧
      (v = [] ∨ ∃ cmd more w, todo = cmd :: more ∧ v ++ w = arrayReply cmd ∧ w ≠ []) := by
  by_cases hz : z = []
  · subst hz
    exact ⟨cmds, [], [], by simp, by simpa using h, .inl rfl⟩
  · obtain ⟨done, cmd, todo, v, w, rfl, rfl, hv, hw⟩ := cut_flatMap arrayReply h hz
    exact ⟨done, cmd :: todo, v, rfl, rfl, .inr ⟨cmd, todo, w, rfl, hv, hw⟩⟩

theorem boundary_append_iff {done todo : List (List Bytes)} {x : Bytes} :
    Boundary (done ++ todo) (stream done ++ x) ↔ Boundary todo x := by
  constructor
  · intro h
    obtain ⟨done', todo', v, hcmds, hbytes, hv⟩ := h
    rcases List.append_eq_append_iff.mp hcmds with ⟨more, rfl, rfl⟩ | ⟨more, rfl, rfl⟩
    · rw [stream_append, List.append_assoc, List.append_cancel_left_eq] at hbytes
      exact ⟨more, todo', v, rfl, hbytes, hv⟩
    · cases more with
      | nil => exact ⟨[], todo, v, rfl, by simpa [stream] using hbytes, by simpa using hv⟩
      | cons cmd more =>
        rw [stream_append, List.append_assoc, List.append_cancel_left_eq] at hbytes
        refine ((unfinished_of_atElement hv).not_command cmd rfl
          (x := stream more ++ x) ?_).elim
        rw [← hbytes]
        simp [stream]
  · intro h
    obtain ⟨done', todo', v, rfl, rfl, hv⟩ := h
    exact ⟨done ++ done', todo', v, by simp, by simp [stream_append], hv⟩

/-! ### The loop over a stream -/

/-- Execute one command of the connection. -/
def executeOne (exec : ℕ → RespValue → σ → Bytes × σ) (c : Connection σ) (cmd : List Bytes) :
    Connection σ :=
  let x := exec c.executed (.array (cmd.map .bulkString)) c.state
  { c with state := x.2, executed := c.executed + 1, written := c.written ++ [x.1] }

def executeAll (exec : ℕ → RespValue → σ → Bytes × σ) (cmds : List (List Bytes))
    (c : Connection σ) : Connection σ := cmds.foldl (executeOne exec) c

/-- The buffer is replaced, nothing else. -/
def Connection.setBuf (c : Connection σ) (buf : Bytes) : Connection σ := { c with buf := buf }

theorem Connection.setBuf_self {c : Connection σ} {buf : Bytes} (h : c.buf = buf) :
    c.setBuf buf = c := by
  rw [← h]
  rfl

theorem executeAll_setBuf (cmds : List (List Bytes)) (c : Connection σ) (buf : Bytes) :
    executeAll exec cmds (c.setBuf buf) = (executeAll exec cmds c).setBuf buf := by
  induction cmds generalizing c with
  | nil => rfl
  | cons cmd cmds ih => exact ih (executeOne exec c cmd)

theorem status_executeAll (cmds : List (List Bytes)) (c : Connection σ) :
    (executeAll exec cmds c).status = c.status := by
  induction cmds generalizing c with
  | nil => rfl
  | cons cmd cmds ih => exact ih (executeOne exec c cmd)

theorem commandLoop_nil {c : Connection σ} (h : c.buf = []) (fuel : ℕ) :
    commandLoop grants exec fuel c = c := by
  cases fuel with
  | zero => rfl
  | succ fuel => rw [commandLoop, if_pos h]

theorem closeIfFull_of_lt {c : Connection σ} (h : c.buf.length < bufferSize - 1024) :
    closeIfFull c = c := by
  rw [closeIfFull, if_neg]
  omega

theorem closeIfFull_of_closed {c : Connection σ} (h : c.status = .closed) : closeIfFull c = c := by
  rw [closeIfFull, if_neg]
  simp [h]

/-- Every command takes a byte. -/
theorem length_le_stream (cmds : List (List Bytes)) : cmds.length ≤ (stream cmds).length := by
  induction cmds with
  | nil => exact le_rfl
  | cons cmd cmds ih =>
    have hpos := List.length_pos_iff.mpr (arrayReply_ne_nil cmd)
    have hcons : stream (cmd :: cmds) = arrayReply cmd ++ stream cmds := rfl
    rw [hcons, List.length_append, List.length_cons]
    omega

section Loop

variable (hgrants : bufferSize ≤ grants)

include hgrants

/-- Whole commands at the front of the buffer are executed, a round each. -/
theorem commandLoop_stream {done : List (List Bytes)} {v : Bytes} {c : Connection σ}
    (hbuf : c.buf = stream done ++ v) (hlen : c.buf.length < bufferSize) (fuel : ℕ) :
    commandLoop grants exec (done.length + fuel) c =
      commandLoop grants exec fuel ((executeAll exec done c).setBuf v) := by
  induction done generalizing c with
  | nil =>
    show commandLoop grants exec (0 + fuel) c = commandLoop grants exec fuel (c.setBuf v)
    rw [Connection.setBuf_self (by simpa [stream] using hbuf), Nat.zero_add]
  | cons cmd done ih =>
    have hbuf' : c.buf = arrayReply cmd ++ (stream done ++ v) := by
      rw [hbuf]
      simp [stream]
    have hsum : (arrayReply cmd).length + (stream done ++ v).length < bufferSize := by
      rwa [← List.length_append, ← hbuf']
    have hparse : parse grants (arrayReply cmd ++ (stream done ++ v)) =
        .ok (.array (cmd.map .bulkString), (arrayReply cmd).length) := by
      unfold bufferSize at hsum hgrants
      apply parse_command <;> omega
    have hne : c.buf ≠ [] := by
      rw [hbuf']
      simp [arrayReply]
    have hrest := ih (c := (executeOne exec c cmd).setBuf (stream done ++ v)) rfl
      (show (stream done ++ v).length < bufferSize by omega)
    rw [List.length_cons, show done.length + 1 + fuel = done.length + fuel + 1 by omega, commandLoop,
      if_neg hne, hbuf', hparse]
    simp only [List.drop_left]
    rw [executeAll_setBuf] at hrest
    exact hrest

/-- The loop at an unfinished command: it waits at an element boundary and hangs up inside. -/
theorem commandLoop_cut {cmd : List Bytes} {w : Bytes} {c : Connection σ} (hne : c.buf ≠ [])
    (hcut : c.buf ++ w = arrayReply cmd) (hw : w ≠ []) (hcmd : (arrayReply cmd).length < bufferSize)
    (fuel : ℕ) :
    (AtElement cmd c.buf → commandLoop grants exec (fuel + 1) c = c) ∧
      (¬ AtElement cmd c.buf → (commandLoop grants exec (fuel + 1) c).status = .closed) := by
  have hlen : c.buf.length < bufferSize := by
    have := congrArg List.length hcut
    rw [List.length_append] at this
    omega
  unfold bufferSize at hgrants hcmd hlen
  constructor
  · intro hat
    rw [commandLoop, if_neg hne, parse_boundary (by omega) (by omega) (by omega) (by omega) hat]
    rfl
  · intro hat
    obtain ⟨msg, hmsg, hparse⟩ : ∃ msg, msg ≠ .incompleteCommand ∧
        parse grants c.buf = .error (.runtimeError msg) :=
      parse_inside (by omega) (by omega) hcut hne hw hat
    have hwhat : msg.what ≠ str "Incomplete command" := by
      cases msg with
      | incompleteCommand => exact absurd rfl hmsg
      | _ => decide
    rw [commandLoop, if_neg hne, hparse]
    simp only [onRuntimeError, if_neg hwhat]

/-- One read: the commands it completes are executed; what is left waits or closes. -/
theorem onReadable_stream {done todo : List (List Bytes)} {chunk v : Bytes} {c : Connection σ}
    (hstatus : c.status = .reading) (hchunk : chunk ≠ [])
    (hbuf : c.buf ++ chunk = stream done ++ v) (hlen : (c.buf ++ chunk).length < bufferSize)
    (hshort : ∀ cmd ∈ todo, (arrayReply cmd).length < bufferSize - 1024)
    (hv : v = [] ∨ ∃ cmd more w, todo = cmd :: more ∧ v ++ w = arrayReply cmd ∧ w ≠ []) :
    ((v = [] ∨ ∃ cmd more, todo = cmd :: more ∧ AtElement cmd v) →
        onReadable grants exec chunk c = (executeAll exec done c).setBuf v) ∧
      (¬ (v = [] ∨ ∃ cmd more, todo = cmd :: more ∧ AtElement cmd v) →
        (onReadable grants exec chunk c).status = .closed) := by
  have hcount := length_le_stream done
  -- the rounds that are left when the whole commands are done
  obtain ⟨fuel, hfuel, hleft⟩ : ∃ fuel, (c.buf ++ chunk).length = done.length + fuel ∧
      v.length ≤ fuel := by
    refine ⟨(c.buf ++ chunk).length - done.length, ?_, ?_⟩
    · rw [hbuf, List.length_append]
      omega
    · rw [hbuf, List.length_append]
      omega
  have hread : onReadable grants exec chunk c =
      closeIfFull (commandLoop grants exec fuel ((executeAll exec done c).setBuf v)) := by
    rw [onReadable, if_neg (by simp [hstatus]), if_neg hchunk]
    show closeIfFull (commandLoop grants exec (c.buf ++ chunk).length (c.setBuf (c.buf ++ chunk))) = _
    rw [hfuel, commandLoop_stream hgrants hbuf hlen, executeAll_setBuf]
    rfl
  rw [hread]
  by_cases hnil : v = []
  · refine ⟨fun _ => ?_, fun h => absurd (.inl hnil) h⟩
    rw [commandLoop_nil hnil]
    apply closeIfFull_of_lt
    rw [show ((executeAll exec done c).setBuf v).buf = [] from hnil]
    decide
  · obtain ⟨cmd, more, w, rfl, hcut, hw⟩ := hv.resolve_left hnil
    have hcmd := hshort cmd (by simp)
    have hvlen : v.length < bufferSize - 1024 := by
      have := congrArg List.length hcut
      rw [List.length_append] at this
      omega
    have hpos := List.length_pos_iff.mpr hnil
    obtain ⟨fuel, rfl⟩ : ∃ n, fuel = n + 1 := ⟨fuel - 1, by omega⟩
    obtain ⟨hwaits, hcloses⟩ := commandLoop_cut hgrants
      (c := (executeAll exec done c).setBuf v) hnil hcut hw (by omega) fuel
    constructor
    · intro hat
      obtain ⟨cmd', more', hmore, hat⟩ := hat.resolve_left hnil
      obtain ⟨rfl, -⟩ := List.cons.inj hmore
      rw [hwaits hat]
      exact closeIfFull_of_lt hvlen
    · intro hat
      have hclosed := hcloses fun h => hat (.inr ⟨cmd, more, rfl, h⟩)
      rw [closeIfFull_of_closed hclosed]
      exact hclosed

end Loop

/-! ### Chunks -/

/-- Each read delivers no more than the space `handle_client` offers. -/
def Fits (grants : ℕ) (exec : ℕ → RespValue → σ → Bytes × σ) :
    List Bytes → Connection σ → Prop
  | [], _ => True
  | chunk :: chunks, c =>
      chunk.length ≤ bufferSize - c.buf.length - 1 ∧
        Fits grants exec chunks (onReadable grants exec chunk c)

theorem feed_cons (chunk : Bytes) (chunks : List Bytes) (c : Connection σ) :
    feed grants exec (chunk :: chunks) c =
      feed grants exec chunks (onReadable grants exec chunk c) := rfl

/-- A closed connection stays closed. -/
theorem status_feed_of_closed {c : Connection σ} (h : c.status = .closed) (chunks : List Bytes) :
    (feed grants exec chunks c).status = .closed := by
  induction chunks generalizing c with
  | nil => exact h
  | cons chunk chunks ih =>
    rw [feed_cons]
    apply ih
    rw [onReadable, if_pos (by simp [h])]
    exact h

section Chunks

variable (hgrants : bufferSize ≤ grants)

include hgrants

/-- Over any chunks of a stream, from a buffer `u` that is itself cut at a boundary: executed one by
one, or closed. -/
theorem feed_stream {chunks : List Bytes} {cmds : List (List Bytes)} {c : Connection σ}
    (hstatus : c.status = .reading)
    (hshort : ∀ cmd ∈ cmds, (arrayReply cmd).length < bufferSize - 1024)
    (hne : ∀ chunk ∈ chunks, chunk ≠ [])
    (hstart : c.buf = [] ∨ ∃ cmd more, cmds = cmd :: more ∧ AtElement cmd c.buf)
    (hbytes : c.buf ++ chunks.flatten = stream cmds)
    (hfit : Fits grants exec chunks c) :
    ((∀ i, Boundary cmds (c.buf ++ (chunks.take i).flatten)) →
        feed grants exec chunks c = (executeAll exec cmds c).setBuf []) ∧
      ((¬ ∀ i, Boundary cmds (c.buf ++ (chunks.take i).flatten)) →
        (feed grants exec chunks c).status = .closed) := by
  induction chunks generalizing cmds c with
  | nil =>
    rw [List.flatten_nil, List.append_nil] at hbytes
    cases cmds with
    | nil =>
      refine ⟨fun _ => (Connection.setBuf_self hbytes).symm, fun h => absurd (fun i => ?_) h⟩
      exact ⟨[], [], [], rfl, by simpa [stream] using hbytes, .inl rfl⟩
    | cons cmd cmds => exact ((unfinished_of_atElement hstart).not_command cmd rfl hbytes).elim
  | cons chunk chunks ih =>
    have hchunk : chunk ≠ [] := hne chunk (by simp)
    have hpos := List.length_pos_iff.mpr hchunk
    obtain ⟨hfits, hfit⟩ := hfit
    have hlen : (c.buf ++ chunk).length < bufferSize := by
      rw [List.length_append]
      omega
    rw [List.flatten_cons, ← List.append_assoc] at hbytes
    obtain ⟨done, todo, v, rfl, hread, hv⟩ := stream_cut hbytes
    obtain ⟨hwait, hclose⟩ := onReadable_stream hgrants hstatus hchunk hread hlen
      (fun cmd hcmd => hshort cmd (by simp [hcmd])) hv
    have hleft : Unfinished todo v := by
      rcases hv with rfl | ⟨cmd, more, w, rfl, hcut, hw⟩
      · exact .inl rfl
      · refine .inr ⟨cmd, more, rfl, ?_⟩
        have hpos := List.length_pos_iff.mpr hw
        have := congrArg List.length hcut
        rw [List.length_append] at this
        omega
    rw [feed_cons]
    by_cases hat : v = [] ∨ ∃ cmd more, todo = cmd :: more ∧ AtElement cmd v
    · -- the cut is at a boundary: go on with the commands that are left
      rw [hwait hat] at hfit ⊢
      have hrest : v ++ chunks.flatten = stream todo := by
        rw [hread, stream_append, List.append_assoc, List.append_cancel_left_eq] at hbytes
        exact hbytes
      obtain ⟨hgood, hbad⟩ := ih (c := (executeAll exec done c).setBuf v)
        (by rw [← hstatus]; exact status_executeAll done c)
        (fun cmd hcmd => hshort cmd (by simp [hcmd])) (fun x hx => hne x (by simp [hx])) hat hrest hfit
      have hboundary : (∀ i, Boundary (done ++ todo) (c.buf ++ ((chunk :: chunks).take i).flatten)) ↔
          ∀ i, Boundary todo (v ++ (chunks.take i).flatten) := by
        have hmove : ∀ i, c.buf ++ ((chunk :: chunks).take (i + 1)).flatten =
            stream done ++ (v ++ (chunks.take i).flatten) := by
          intro i
          rw [List.take_succ_cons, List.flatten_cons, ← List.append_assoc, hread, List.append_assoc]
        constructor
        · intro h i
          rw [← boundary_append_iff, ← hmove]
          exact h (i + 1)
        · intro h i
          cases i with
          | zero => exact ⟨[], done ++ todo, c.buf, rfl, by simp [stream], hstart⟩
          | succ i =>
            rw [hmove, boundary_append_iff]
            exact h i
      rw [hboundary]
      refine ⟨fun h => ?_, hbad⟩
      rw [hgood h, executeAll_setBuf]
      show ((executeAll exec todo (executeAll exec done c)).setBuf []) = _
      rw [executeAll, executeAll, executeAll, List.foldl_append]
    · refine ⟨fun h => absurd ?_ hat, fun _ => status_feed_of_closed (hclose hat) chunks⟩
      obtain ⟨done', todo', v', hcmds, hbytes', hv'⟩ := h 1
      have hread' : stream done ++ v = stream done' ++ v' := by
        rw [← hread, ← hbytes']
        simp
      obtain ⟨rfl, rfl⟩ := unfinished_unique hcmds hread' hleft (unfinished_of_atElement hv')
      obtain rfl := List.append_cancel_left hcmds
      exact hv'

/-- Whole commands, each in its own read. -/
theorem feed_whole {cmds : List (List Bytes)} {c : Connection σ} (hstatus : c.status = .reading)
    (hbuf : c.buf = []) (hshort : ∀ cmd ∈ cmds, (arrayReply cmd).length < bufferSize - 1024) :
    feed grants exec (cmds.map arrayReply) c = (executeAll exec cmds c).setBuf [] := by
  induction cmds generalizing c with
  | nil => exact (Connection.setBuf_self hbuf).symm
  | cons cmd cmds ih =>
    have hcmd := hshort cmd (by simp)
    have hread : c.buf ++ arrayReply cmd = stream [cmd] ++ [] := by simp [hbuf, stream]
    have hnone : ∀ x ∈ ([] : List (List Bytes)), (arrayReply x).length < bufferSize - 1024 := by simp
    have hone : onReadable grants exec (arrayReply cmd) c = (executeAll exec [cmd] c).setBuf [] :=
      (onReadable_stream hgrants hstatus (arrayReply_ne_nil cmd) hread
        (by rw [hbuf, List.nil_append]; omega) hnone (.inl rfl)).1 (.inl rfl)
    have hopen : ((executeAll exec [cmd] c).setBuf []).status = .reading := by
      show (executeAll exec [cmd] c).status = .reading
      rw [status_executeAll, hstatus]
    rw [List.map_cons, feed_cons, hone, ih hopen rfl fun x hx => hshort x (by simp [hx]),
      executeAll_setBuf]
    rfl

end Chunks

/-! ### Exactly when pieces do what whole commands do -/

section Clients

variable {S : Type} [Score S] {Λ : Type}

/-- The command step of a client; `clock i` is the time of its `i`-th command. -/
def execAt (env : Env Λ) (clock : ℕ → ℤ) (i : ℕ) (command : RespValue) (s : Session S Λ) :
    Bytes × Session S Λ := processCommand env (clock i) command s

theorem handleClient_readable (env : Env Λ) (grants : ℕ) (clock : ℕ → ℤ) (chunks : List Bytes)
    (c : Connection (Session S Λ)) :
    handleClient env grants clock (chunks.map .readable) c =
      feed grants (execAt env clock) chunks c := by
  unfold handleClient feed
  rw [List.foldl_map]
  rfl

/-- The chunks do what the whole commands do, and the connection stays open. -/
structure Streams (env : Env Λ) (grants : ℕ) (clock : ℕ → ℤ) (cmds : List (List Bytes))
    (chunks : List Bytes) (c : Connection (Session S Λ)) : Prop where
  written : (handleClient env grants clock (chunks.map .readable) c).written =
    (handleClient env grants clock ((cmds.map arrayReply).map .readable) c).written
  state : (handleClient env grants clock (chunks.map .readable) c).state =
    (handleClient env grants clock ((cmds.map arrayReply).map .readable) c).state
  status : (handleClient env grants clock (chunks.map .readable) c).status = .reading

/-- Commands shorter than 7168 bytes, cut anyhow into chunks that fit: replies, final state and the open
connection are those of whole commands exactly when every cut is between commands or between
elements. -/
theorem streaming_iff (env : Env Λ) (grants : ℕ) (clock : ℕ → ℤ) (cmds : List (List Bytes))
    (chunks : List Bytes) (c : Connection (Session S Λ)) (hgrants : bufferSize ≤ grants)
    (hfresh : c.status = .reading ∧ c.buf = [])
    (hshort : ∀ cmd ∈ cmds, (arrayReply cmd).length < 7168)
    (hne : ∀ chunk ∈ chunks, chunk ≠ []) (hcut : chunks.flatten = stream cmds)
    (hfit : Fits grants (execAt env clock) chunks c) :
    Streams env grants clock cmds chunks c ↔ ∀ i, Boundary cmds (chunks.take i).flatten := by
  obtain ⟨hstatus, hbuf⟩ := hfresh
  have hwhole : handleClient env grants clock ((cmds.map arrayReply).map .readable) c =
      (executeAll (execAt env clock) cmds c).setBuf [] := by
    rw [handleClient_readable]
    exact feed_whole hgrants hstatus hbuf hshort
  obtain ⟨hgood, hbad⟩ := feed_stream hgrants hstatus hshort hne (.inl hbuf)
    (by rw [hbuf, List.nil_append]; exact hcut) hfit
  rw [← handleClient_readable] at hgood hbad
  simp only [hbuf, List.nil_append] at hgood hbad
  constructor
  · intro h
    by_contra hcuts
    have hopen := h.status
    rw [hbad hcuts] at hopen
    cases hopen
  · intro h
    refine ⟨by rw [hgood h, hwhole], by rw [hgood h, hwhole], ?_⟩
    rw [hgood h]
    show (executeAll (execAt env clock) cmds c).status = .reading
    rw [status_executeAll, hstatus]

/-- A new connection to an empty server. -/
def Connection.fresh : Connection (Session NatScore Unit) where
  state := .fresh ∅

/-- `GET k` cut behind its first element is answered as a whole one. -/
theorem streaming_cut_between_elements :
    Streams .standalone 8192 (fun _ => 0) [[str "GET", str "k"]]
      [str "*2\r\n$3\r\nGET\r\n", str "$1\r\nk\r\n"] .fresh := by
  refine (streaming_iff .standalone 8192 (fun _ => 0) [[str "GET", str "k"]]
    [str "*2\r\n$3\r\nGET\r\n", str "$1\r\nk\r\n"] .fresh (by decide) ⟨rfl, rfl⟩ (by decide)
    (by decide) (by decide) ⟨by decide, by decide, trivial⟩).mpr ?_
  intro i
  match i with
  | 0 => exact ⟨[], [[str "GET", str "k"]], [], rfl, rfl, .inl rfl⟩
  | 1 =>
    exact ⟨[], [[str "GET", str "k"]], _, rfl, rfl,
      .inr ⟨_, [], rfl, [str "GET"], str "k", [], rfl, by decide⟩⟩
  | i + 2 =>
    refine ⟨[[str "GET", str "k"]], [], [], rfl, ?_, .inl rfl⟩
    rw [List.take_of_length_le (by simp)]
    decide

/-- The same command cut inside the payload `GET` is refused, and the connection closed. -/
theorem streaming_cut_in_payload :
    (str "*2\r\n$3\r\nGE" ++ str "T\r\n$1\r\nk\r\n" = stream [[str "GET", str "k"]]) ∧
      (handleClient .standalone 8192 (fun _ => 0)
        [.readable (str "*2\r\n$3\r\nGE"), .readable (str "T\r\n$1\r\nk\r\n")]
        Connection.fresh).written = [str "-ERR Incomplete bulk string\r\n"] ∧
      (handleClient .standalone 8192 (fun _ => 0)
        [.readable (str "*2\r\n$3\r\nGE"), .readable (str "T\r\n$1\r\nk\r\n")]
        Connection.fresh).status = .closed ∧
      ¬ Streams .standalone 8192 (fun _ => 0) [[str "GET", str "k"]]
        [str "*2\r\n$3\r\nGE", str "T\r\n$1\r\nk\r\n"] Connection.fresh := by
  refine ⟨by decide, by decide, by decide, ?_⟩
  intro h
  exact absurd h.status (by decide)

end Clients

end MinimalRedis
