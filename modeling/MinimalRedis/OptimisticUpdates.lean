import MinimalRedis.Lib.Optimistic
import MinimalRedis.Linearizable
import MinimalRedis.SlotOwnership

/-!
# Updates with `WATCH`, `MULTI` and `EXEC`

A client updates the string at a key without locking it: `WATCH`, `GET`, `MULTI`, `SET` with what it
makes of the reply, `EXEC`.  Any number of clients do so over and over, in any order, and others do what
they like as long as they leave the key alone.

* `Matches` — the server is an optimistic cell: the counter of the key is the tag, the string the value;
* `optimistic_updates_serialize` — the string behind a run is what the updates whose `EXEC` was not
  refused make of the first one, **each of the string that the one before it left**; and an `EXEC` is
  refused only when another update came in since its `WATCH`.

A turn is a **whole command**: no two commands overlap.  The threads of the code interleave their
`Database` calls, and then the check of an `EXEC` can come before a write that is under way is counted
(`exec_misses_unfinished_set`), so nothing of this carries over to them.
-/

namespace MinimalRedis

open Lib Session

variable {S : Type} [Score S] {Λ : Type}

/-! ### The clients -/

def watchCommand (key : Bytes) : RespValue := .array [.bulkString (str "WATCH"), .bulkString key]

def getCommand (key : Bytes) : RespValue := .array [.bulkString (str "GET"), .bulkString key]

/-- Where a client stands; `reply` is what `GET` answered. -/
inductive UpdateAt where
  | idle
  | watched
  | read (reply : Bytes)
  | opened (reply : Bytes)
  | queued (reply : Bytes)

namespace UpdateAt

/-- What the client sends next; `update` makes the new string of the reply. -/
def command (key : Bytes) (update : Bytes → Bytes) : UpdateAt → RespValue
  | idle => watchCommand key
  | watched => getCommand key
  | read _ => multiCommand
  | opened reply => setCommand key (update reply)
  | queued _ => execCommand

/-- Where it stands behind the reply. -/
def next (reply : Bytes) : UpdateAt → UpdateAt
  | idle => watched
  | watched => read reply
  | read r => opened r
  | opened r => queued r
  | queued _ => idle

/-- What the reply tells it. -/
def event? (i : ℕ) (reply : Bytes) : UpdateAt → Option (Optimistic.Event ℕ)
  | idle => some (.noted i)
  | queued _ => if reply = execAbortReply then some (.lost i) else some (.won i)
  | _ => none

end UpdateAt

/-- The server with its clients. -/
structure Updating (S Λ : Type) [Score S] where
  system : System S Λ
  places : ℕ → UpdateAt := fun _ => .idle

inductive Turn where
  /-- An updating client sends its next command. -/
  | update (i : ℕ) (now : ℤ)
  /-- Another client sends a command. -/
  | other (r : Request)

/-- What is seen of the key: type, string, counter and deadline. -/
def cellAt (key : Bytes) (d : Data S) : Option (RedisType × Bytes × UInt64 × ℤ) :=
  (d.find? key).map fun v => (v.type, v.strVal, v.modCount, v.expiryTime)

/-- The client `i` sends its next command. -/
def Updating.advance (env : Env Λ) (key : Bytes) (i : ℕ) (now : ℤ) (update : Bytes → Bytes)
    (u : Updating S Λ) : Option (Optimistic.Event ℕ) × Updating S Λ :=
  let x := u.system.step env ⟨i, now, (u.places i).command key update⟩
  ((u.places i).event? i x.1,
    { system := x.2, places := Function.update u.places i ((u.places i).next x.1) })

/-- `updates i` is what the client `i` makes of a reply, `none` for one that does not update.  The
commands of those leave the key alone.  A turn is a whole command. -/
def Updating.step? (env : Env Λ) (key : Bytes) (updates : ℕ → Option (Bytes → Bytes)) (turn : Turn)
    (u : Updating S Λ) : Option (Option (Optimistic.Event ℕ) × Updating S Λ) :=
  match turn with
  | .update i now => (updates i).map fun update => u.advance env key i now update
  | .other r =>
      let x := u.system.step env r
      if updates r.client = none ∧ cellAt key x.2.world.data = cellAt key u.system.world.data then
        some (none, { u with system := x.2 })
      else none

/-! ### The key as a cell -/

/-- The string at the key. -/
def textAt (key : Bytes) (d : Data S) : Option Bytes :=
  (d.find? key).bind fun v => if v.type = .string then some v.strVal else none

/-- What `GET` answers for it. -/
def readReply : Option Bytes → Bytes
  | none => nullBulk
  | some text => bulkReply text

/-- The key has no deadline. -/
def Lasting (key : Bytes) (d : Data S) : Prop := ∀ v, d.find? key = some v → v.expiryTime = 0

/-- The update of a client, as one of the string. -/
def updateText (updates : ℕ → Option (Bytes → Bytes)) (i : ℕ) (text : Option Bytes) : Option Bytes :=
  match updates i with
  | none => text
  | some update => some (update (readReply text))

/-- The counter behind `n` updates. -/
def countAfter (c : UInt64) (n : ℕ) : UInt64 := c + UInt64.ofNat n

theorem countAfter_injective {c : UInt64} {m n : ℕ} (hm : m < 2 ^ 64) (hn : n < 2 ^ 64)
    (h : countAfter c m = countAfter c n) : m = n := by
  have hnat := congrArg UInt64.toNat ((UInt64.add_right_inj c).mp h)
  rw [UInt64.toNat_ofNat_of_lt' hm, UInt64.toNat_ofNat_of_lt' hn] at hnat
  exact hnat

section Cell

variable {key : Bytes} {d d' : Data S}

theorem textAt_congr (h : cellAt key d' = cellAt key d) : textAt key d' = textAt key d := by
  unfold cellAt at h
  unfold textAt
  cases hv : d.find? key with
  | none =>
    rw [hv, Option.map_none, Option.map_eq_none_iff] at h
    rw [h]
  | some v =>
    rw [hv, Option.map_some] at h
    obtain ⟨v', hv', heq⟩ := Option.map_eq_some_iff.mp h
    simp only [Prod.mk.injEq] at heq
    rw [hv', Option.bind_some, Option.bind_some, heq.1, heq.2.1]

theorem lasting_congr (h : cellAt key d' = cellAt key d) (hd : Lasting key d) : Lasting key d' := by
  intro v hv
  unfold cellAt at h
  rw [hv, Option.map_some] at h
  obtain ⟨w, hw, heq⟩ := Option.map_eq_some_iff.mp h.symm
  simp only [Prod.mk.injEq] at heq
  rw [← heq.2.2.2]
  exact hd w hw

theorem getModCount_of_cellAt (h : cellAt key d' = cellAt key d) :
    Database.getModCount key d' = Database.getModCount key d := by
  have hcount : ∀ d : Data S, Database.getModCount key d = ((cellAt key d).map fun x => x.2.2.1).getD 0 := by
    intro d
    unfold cellAt Database.getModCount
    cases d.find? key with
    | none => rfl
    | some v => rfl
  rw [hcount, hcount, h]

/-- `GET` of a key without a deadline. -/
theorem handleGet_of_lasting (hd : Lasting key d) (now : ℤ) (name : RespValue) :
    handleGet now [name, .bulkString key] d = (readReply (textAt key d), d) := by
  simp only [handleGet, withKey, RespValue.bulk?]
  cases hv : d.find? key with
  | none => simp [keyExists_of_none hv, textAt, hv, readReply]
  | some v =>
    have hlive := RedisValue.isExpired_of_expiryTime_zero (hd v hv) now
    rw [keyExists_of_live hv hlive]
    simp only [Bool.not_true, Bool.false_eq_true, if_false, Database.type, Database.ifLive, hv, hlive]
    by_cases htype : v.type = .string
    · simp [htype, Database.get, Database.ifTypedLive, hv, hlive, textAt, readReply]
    · simp [htype, textAt, hv, readReply]

/-- The queued `SET`. -/
theorem handleSet_cell (hd : Lasting key d) (name : RespValue) (value : Bytes) :
    textAt key (handleSet [name, .bulkString key, .bulkString value] d).2 = some value ∧
      Lasting key (handleSet [name, .bulkString key, .bulkString value] d).2 ∧
      Database.getModCount key (handleSet [name, .bulkString key, .bulkString value] d).2 =
        Database.getModCount key d + 1 := by
  have hfind := find?_handleSet name key value key d
  rw [if_pos rfl] at hfind
  refine ⟨?_, ?_, ?_⟩
  · rw [textAt, hfind]
    rfl
  · intro v hv
    rw [hfind] at hv
    cases hv
    cases hw : d.find? key with
    | none => rfl
    | some w => exact hd w hw
  · rw [getModCount_of_find? hfind]
    unfold Database.getModCount
    cases d.find? key with
    | none => rfl
    | some w => rfl

end Cell

/-! ### The commands of an update -/

section Commands

variable (env : Env Λ) {key : Bytes} {s : Session S Λ}

theorem processCommand_watch (key : Bytes) (now : ℤ) (hidle : s.self.inTransaction = false) :
    processCommand env now (watchCommand key) s =
      (okReply, { s with self := { s.self with
        watchedKeys := s.self.watchedKeys.set key (Database.getModCount key s.world.data) } }) := by
  have hname : (watchCommand key).command? = some .watch :=
    show Command.ofName (str "WATCH") = some .watch from by decide
  rw [processCommand_direct env now hname rfl (.inl hidle)]
  show handleWatch [.bulkString (str "WATCH"), .bulkString key] s = _
  simp [handleWatch, hidle, watchLoop, RespValue.bulk?]

theorem processCommand_get (hown : env.owns key = true) (hd : Lasting key s.world.data) (now : ℤ)
    (hidle : s.self.inTransaction = false) :
    processCommand env now (getCommand key) s = (readReply (textAt key s.world.data), s) := by
  have hname : Command.ofName (str "GET") = some .get := by decide
  rw [getCommand, processCommand_own hname hown hidle]
  show liftData (handleGet now [.bulkString (str "GET"), .bulkString key]) s = _
  rw [liftData, handleGet_of_lasting hd]
  rfl

/-- What `EXEC` runs. -/
def queuedSet (key value : Bytes) : TransactionCommand where
  commandName := str "SET"
  args := [.bulkString (str "SET"), .bulkString key, .bulkString value]

theorem processCommand_queued_set (key : Bytes) (now : ℤ) (value : Bytes)
    (hin : s.self.inTransaction = true) :
    processCommand env now (setCommand key value) s =
      (queuedReply, { s with self :=
        { s.self with transactionQueue := s.self.transactionQueue ++ [queuedSet key value] } }) := by
  have hname : Command.ofName (str "SET") = some .set := by decide
  have hupper : (str "SET").map toupper = str "SET" := by decide
  simp [processCommand, setCommand, hname, hin, hupper, queuedSet]

theorem executeFunc_queuedSet (key : Bytes) (now : ℤ) (value : Bytes) (s : Session S Λ) :
    executeFunc now (queuedSet key value) s =
      liftData (handleSet [.bulkString (str "SET"), .bulkString key, .bulkString value]) s := by
  have hlookup : commandTable.lookup (str "SET") = some .set := by decide
  rw [executeFunc, queuedSet, hlookup]

/-- `EXEC` of a queued `SET` whose key was not changed since. -/
theorem processCommand_exec_set (now : ℤ) (value : Bytes) (hin : s.self.inTransaction = true)
    (hqueue : s.self.transactionQueue = [queuedSet key value])
    (hhold : watchesHold s.self.watchedKeys s.world.data = true) :
    processCommand env now execCommand s =
      (execReply [okReply], (s.setData (handleSet
        [.bulkString (str "SET"), .bulkString key, .bulkString value] s.world.data).2).endTransaction) := by
  have hname : execCommand.command? = some .exec := by decide
  rw [processCommand_direct env now hname rfl (.inr (.inl rfl))]
  show handleExec now [.bulkString (str "EXEC")] s = _
  simp only [handleExec, hin, hhold, hqueue, execLoop, executeFunc_queuedSet, liftData]
  rfl

end Commands

/-! ### The server as an optimistic cell -/

/-- The processor of an updating client, the place where the client stands, and the phase of the cell's
client that they stand for. -/
inductive Stands (key : Bytes) (update : Bytes → Bytes) (p : Processor Λ) :
    UpdateAt → Optimistic.Phase UInt64 (Option Bytes) → Prop
  | idle : p.inTransaction = false → p.watchedKeys = ∅ → Stands key update p .idle .idle
  | watched (c : UInt64) : p.inTransaction = false → p.watchedKeys = (∅ : UMap Bytes UInt64).set key c →
      Stands key update p .watched (.noted c)
  | read (c : UInt64) (text : Option Bytes) : p.inTransaction = false →
      p.watchedKeys = (∅ : UMap Bytes UInt64).set key c →
      Stands key update p (.read (readReply text)) (.loaded c text)
  | opened (c : UInt64) (text : Option Bytes) : p.inTransaction = true → p.transactionQueue = [] →
      p.watchedKeys = (∅ : UMap Bytes UInt64).set key c →
      Stands key update p (.opened (readReply text)) (.loaded c text)
  | queued (c : UInt64) (text : Option Bytes) : p.inTransaction = true →
      p.transactionQueue = [queuedSet key (update (readReply text))] →
      p.watchedKeys = (∅ : UMap Bytes UInt64).set key c →
      Stands key update p (.queued (readReply text)) (.loaded c text)

/-- The key is the cell: its string the value, its counter the tag. -/
structure Matches (key : Bytes) (updates : ℕ → Option (Bytes → Bytes)) (c : UInt64) (u : Updating S Λ)
    (s : Optimistic.State ℕ UInt64 (Option Bytes)) : Prop where
  lasting : Lasting key u.system.world.data
  value : s.value = textAt key u.system.world.data
  count : Database.getModCount key u.system.world.data = countAfter c s.version
  clients : ∀ i update, updates i = some update →
    Stands key update (u.system.clients i) (u.places i) (s.phases i)

section Steps

variable {env : Env Λ} {key : Bytes} {updates : ℕ → Option (Bytes → Bytes)} {c : UInt64}
  {u u' : Updating S Λ} {s : Optimistic.State ℕ UInt64 (Option Bytes)} {i : ℕ} {update : Bytes → Bytes}

theorem watchesHold_single (key : Bytes) (n : UInt64) (d : Data S) :
    watchesHold ((∅ : UMap Bytes UInt64).set key n) d = (Database.getModCount key d == n) := by
  show List.all [(key, n)] _ = _
  simp

/-- One client moves, and the key is as it was. -/
theorem Matches.move {x : Session S Λ} {place : UpdateAt} {phase : Optimistic.Phase UInt64 (Option Bytes)}
    (h : Matches key updates c u s) (hi : updates i = some update)
    (hdata : x.world.data = u.system.world.data) (hstands : Stands key update x.self place phase) :
    Matches key updates c
      { system := ⟨x.world, Function.update u.system.clients i x.self⟩
        places := Function.update u.places i place } (s.move i phase) where
  lasting := hdata ▸ h.lasting
  value := h.value.trans (congrArg (textAt key) hdata.symm)
  count := (congrArg (Database.getModCount key) hdata).trans h.count
  clients j update' hj := by
    show Stands key update' (Function.update u.system.clients i x.self j) (Function.update u.places i place j)
      (Function.update s.phases i phase j)
    by_cases hij : j = i
    · subst hij
      cases hi.symm.trans hj
      rwa [Function.update_self, Function.update_self, Function.update_self]
    · rw [Function.update_of_ne hij, Function.update_of_ne hij, Function.update_of_ne hij]
      exact h.clients j update' hj

/-- A command of an updating client is a step of the cell, or none. -/
theorem matches_advance (hown : env.owns key = true) (h : Matches key updates c u s)
    (hi : updates i = some update) (now : ℤ) :
    ((u.advance env key i now update).1 = none ∧
        Matches key updates c (u.advance env key i now update).2 s) ∨
      ∃ b s', Optimistic.step? (countAfter c) (updateText updates) b s =
          some ((u.advance env key i now update).1, s') ∧
        Matches key updates c (u.advance env key i now update).2 s' := by
  have hstands := h.clients i update hi
  let x : Session S Λ := u.system.session i
  unfold Updating.advance
  generalize hplace : u.places i = place at hstands
  generalize hphase : s.phases i = phase at hstands
  cases hstands with
  | idle hout hnone =>
    have hcommand := processCommand_watch env key (s := x) now hout
    right
    refine ⟨.note i, s.move i (.noted (countAfter c s.version)), ?_, ?_⟩
    · rw [Optimistic.step?, hphase]
      rfl
    · show Matches key updates c { system := ⟨(processCommand env now (watchCommand key) x).2.world,
        Function.update _ i (processCommand env now (watchCommand key) x).2.self⟩, places := _ } _
      rw [hcommand]
      refine h.move hi rfl (.watched _ hout ?_)
      show UMap.set (u.system.clients i).watchedKeys _ _ = _
      rw [hnone]
      exact congrArg _ h.count
  | watched c' hout hwatched =>
    have hcommand := processCommand_get env (s := x) hown h.lasting now hout
    right
    refine ⟨.load i, s.move i (.loaded c' s.value), ?_, ?_⟩
    · rw [Optimistic.step?, hphase]
      rfl
    · show Matches key updates c { system := ⟨(processCommand env now (getCommand key) x).2.world,
        Function.update _ i (processCommand env now (getCommand key) x).2.self⟩
                                   places := Function.update u.places i
                                    (.read (processCommand env now (getCommand key) x).1) } _
      rw [hcommand, h.value]
      exact h.move hi rfl (.read c' _ hout hwatched)
  | read c' text hout hwatched =>
    have hcommand := processCommand_multi env now (s := x) hout
    refine .inl ⟨rfl, ?_⟩
    rw [← s.move_self i, hphase]
    show Matches key updates c { system := ⟨(processCommand env now multiCommand x).2.world,
      Function.update _ i (processCommand env now multiCommand x).2.self⟩, places := _ } _
    rw [hcommand]
    exact h.move hi rfl (.opened c' text rfl rfl hwatched)
  | opened c' text hin hqueue hwatched =>
    have hcommand := processCommand_queued_set env key (s := x) now (update (readReply text)) hin
    refine .inl ⟨rfl, ?_⟩
    rw [← s.move_self i, hphase]
    show Matches key updates c { system :=
      ⟨(processCommand env now (setCommand key (update (readReply text))) x).2.world,
        Function.update _ i (processCommand env now (setCommand key (update (readReply text))) x).2.self⟩
                                 places := _ } _
    rw [hcommand]
    refine h.move hi rfl (.queued c' text hin ?_ hwatched)
    show (u.system.clients i).transactionQueue ++ _ = _
    rw [hqueue]
    rfl
  | queued c' text hin hqueue hwatched =>
    right
    have hhold : watchesHold x.self.watchedKeys x.world.data = (countAfter c s.version == c') := by
      show watchesHold (u.system.clients i).watchedKeys u.system.world.data = _
      rw [hwatched, watchesHold_single, h.count]
    by_cases htag : c' = countAfter c s.version
    · have hcommand := processCommand_exec_set env (s := x) now _ hin hqueue
        (hhold.trans (beq_iff_eq.mpr htag.symm))
      obtain ⟨htext, hlasting, hcount⟩ :=
        handleSet_cell h.lasting (.bulkString (str "SET")) (update (readReply text))
      have hother := h.move hi (x := x.endTransaction) rfl (.idle rfl rfl)
      refine ⟨.commit i, { s.move i .idle with
        value := updateText updates i text, version := s.version + 1 }, ?_, ?_⟩
      · rw [Optimistic.step?, hphase]
        simp only [if_pos htag]
        show some (some _, _) = some ((UpdateAt.queued (readReply text)).event? i
          (processCommand env now execCommand x).1, _)
        rw [hcommand]
        rfl
      · show Matches key updates c { system := ⟨(processCommand env now execCommand x).2.world,
          Function.update _ i (processCommand env now execCommand x).2.self⟩, places := _ } _
        rw [hcommand]
        refine ⟨hlasting, ?_, ?_, hother.clients⟩
        · show updateText updates i text = textAt key _
          rw [updateText, hi]
          exact htext.symm
        · show Database.getModCount key _ = countAfter c (s.version + 1)
          rw [countAfter, UInt64.ofNat_add, ← UInt64.add_assoc]
          exact hcount.trans (congrArg (· + 1) h.count)
    · have hcommand := processCommand_exec_abort env now (s := x)
        (show Command.ofName (str "EXEC") = some .exec from by decide) hin
        (hhold.trans (beq_eq_false_iff_ne.mpr (Ne.symm htag)))
      refine ⟨.commit i, s.move i .idle, ?_, ?_⟩
      · rw [Optimistic.step?, hphase]
        simp only [if_neg htag]
        show some (some _, _) = some ((UpdateAt.queued (readReply text)).event? i
          (processCommand env now execCommand x).1, _)
        rw [execCommand, hcommand]
        rfl
      · show Matches key updates c { system := ⟨(processCommand env now execCommand x).2.world,
          Function.update _ i (processCommand env now execCommand x).2.self⟩, places := _ } _
        rw [execCommand, hcommand]
        exact h.move hi rfl (.idle rfl rfl)

theorem matches_step {turn : Turn} {e : Option (Optimistic.Event ℕ)} (hown : env.owns key = true)
    (h : Matches key updates c u s) (hstep : u.step? env key updates turn = some (e, u')) :
    (e = none ∧ Matches key updates c u' s) ∨
      ∃ b s', Optimistic.step? (countAfter c) (updateText updates) b s = some (e, s') ∧
        Matches key updates c u' s' := by
  cases turn with
  | update i now =>
    obtain ⟨update, hi, heq⟩ := Option.map_eq_some_iff.mp hstep
    have hadvance := matches_advance hown h hi now
    rw [heq] at hadvance
    exact hadvance
  | other r =>
    simp only [Updating.step?] at hstep
    split at hstep
    · rename_i hguard
      obtain ⟨hr, hcell⟩ := hguard
      cases hstep
      refine .inl ⟨rfl, lasting_congr hcell h.lasting, h.value.trans (textAt_congr hcell).symm,
        (getModCount_of_cellAt hcell).trans h.count, fun i update hi => ?_⟩
      have hne : i ≠ r.client := by
        intro heq
        rw [heq, hr] at hi
        cases hi
      show Stands key update (Function.update u.system.clients r.client _ i) _ _
      rw [Function.update_of_ne hne]
      exact h.clients i update hi
    · cases hstep

end Steps

/-- **No update is lost** by whole commands.  On a key of this node that has no deadline, over every run
of fewer than `2 ^ 64` turns: the string at the key is what the updates whose `EXEC` was not refused make
of the first one, in the order of their `EXEC`s, each of the string that the one before it left; and an
`EXEC` is refused only if another update came in since the client's last `WATCH`. -/
theorem optimistic_updates_serialize (env : Env Λ) (key : Bytes) (updates : ℕ → Option (Bytes → Bytes))
    (hown : env.owns key = true) {start : System S Λ} (hlasting : Lasting key start.world.data)
    (hidle : ∀ i, updates i ≠ none →
      (start.clients i).inTransaction = false ∧ (start.clients i).watchedKeys = ∅)
    {turns : List Turn} (hlen : turns.length < 2 ^ 64) {trace : List (Optimistic.Event ℕ)}
    {u : Updating S Λ}
    (hrun : Machine.run? (Updating.step? env key updates) turns { system := start } = some (trace, u)) :
    textAt key u.system.world.data =
        Optimistic.replay (updateText updates) (Optimistic.winners trace) (textAt key start.world.data) ∧
      Always Optimistic.Fair trace := by
  let c := Database.getModCount key start.world.data
  have hstart : Matches key updates c ({ system := start } : Updating S Λ)
      { value := textAt key start.world.data } :=
    { lasting := hlasting
      value := rfl
      count := (UInt64.add_zero c).symm
      clients := fun i update hi => .idle (hidle i (by simp [hi])).1 (hidle i (by simp [hi])).2 }
  obtain ⟨bs, s, hcell, hmatches⟩ := Machine.run?_simulates (R := Matches key updates c)
    (fun h hstep => matches_step hown h hstep) hstart hrun
  have htrace := Machine.length_trace_le hrun
  obtain ⟨hvalue, hfair⟩ := Optimistic.serializes hcell fun m n hm hn heq =>
    countAfter_injective (by omega) (by omega) heq
  exact ⟨hmatches.value.symm.trans hvalue, hfair⟩

/-- Clients 0 and 1 append a letter to what they read. -/
def appending (i : ℕ) : Option (Bytes → Bytes) := if i < 2 then some fun reply => reply ++ [65] else none

/-- Both read, 0 commits first, and another client reads in between. -/
def racingTurns : List Turn :=
  [.update 0 0, .update 1 0, .update 0 0, .update 1 0, .update 0 0, .update 1 0, .update 0 0, .update 1 0,
    .update 0 0, .other ⟨2, 0, getCommand [107]⟩, .update 1 0]

theorem optimistic_updates_serialize_race :
    ∃ trace u, Machine.run? (Updating.step? Env.standalone [107] appending) racingTurns
        { system := { world := {}, clients := fun _ => { engine := { state := () } } } } =
          some (trace, (u : Updating NatScore Unit)) ∧
      Optimistic.winners trace = [0] ∧
      textAt [107] u.system.world.data =
        Optimistic.replay (updateText appending) (Optimistic.winners trace)
          (textAt [107] (∅ : Data NatScore)) ∧
      Always Optimistic.Fair trace := by
  obtain ⟨x, hx, hwinners⟩ := (Option.any_eq_true _ _).mp (show ((Machine.run?
    (Updating.step? Env.standalone [107] appending) racingTurns
    ({ system := { world := {}, clients := fun _ => { engine := { state := () } } } } :
      Updating NatScore Unit)).any fun x => Optimistic.winners x.1 == [0]) = true from by decide +kernel)
  exact ⟨x.1, x.2, hx, beq_iff_eq.mp hwinners, optimistic_updates_serialize Env.standalone [107] appending
    rfl (fun _ hv => by cases hv) (fun _ _ => ⟨rfl, rfl⟩) (by decide) hx⟩

end MinimalRedis
