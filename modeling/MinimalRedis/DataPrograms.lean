import MinimalRedis.Lib.Threads
import MinimalRedis.Watch

/-!
# Handlers as programs of `Database` calls

A handler makes several calls on the shared `Database` and holds no lock from one to the next.
`dataProg` writes out, command by command, which methods a handler calls and in which order; what a
handler does before its first call (the argument checks) only decides whether it calls at all.

* `guarded` — the arguments, or the reply that refuses them before any call;
* `keyArg?`, `twoArgs?`, … — what the argument checks read, and `withKey_of_some` and its like, which
  bring the handlers into that form;
* `dataProg` — the programs of the commands on the data.

Each call of a method is taken as one step.  Nothing in the code makes it one: the class has no mutex.
Two calls that run at the same time are outside the model, in every result about these programs.
-/

namespace MinimalRedis

open Lib

variable {S : Type} [Score S] {Λ : Type}

abbrev DataProg (S : Type) [Score S] (α : Type) := Prog ℤ (Data S) α

/-! ### Calls -/

section Calls

variable {α : Type}

/-- A method that looks at the clock. -/
def callAt (m : ℤ → Data S → α × Data S) : DataProg S α := .lift m

def callUpdate (m : Data S → α × Data S) : DataProg S α := .lift fun _ d => m d

def callWrite (m : Data S → Data S) : DataProg S Unit := .lift fun _ d => ((), m d)

def callRead (m : Data S → α) : DataProg S α := .lift fun _ d => (m d, d)

/-- The arguments, or the reply that refuses them before any call. -/
def guarded (parsed : Option α) (refusal : Bytes) (body : α → DataProg S Bytes) : DataProg S Bytes :=
  match parsed with
  | none => .ret refusal
  | some a => body a

theorem run_guarded {parsed : Option α} {refusal : Bytes} {body : α → DataProg S Bytes} {now : ℤ}
    {d : Data S} {x : Bytes × Data S} (hnone : parsed = none → x = (refusal, d))
    (hsome : ∀ a, parsed = some a → x = (body a).run now d) :
    (guarded parsed refusal body).run now d = x := by
  cases parsed with
  | none => exact (hnone rfl).symm
  | some a => exact (hsome a rfl).symm

theorem isCall_guarded {parsed : Option α} {refusal : Bytes} {body : α → DataProg S Bytes}
    (h : ∀ a, (body a).isCall = true) : (guarded parsed refusal body).isCall = parsed.isSome := by
  cases parsed with
  | none => rfl
  | some a => exact h a

end Calls

/-! ### Argument shapes -/

def keyArg? : Args → Option Bytes
  | [_, key] => key.bulk?
  | _ => none

def twoArgs? : Args → Option (Bytes × Bytes)
  | [_, key, arg] => key.bulk?.bind fun key => arg.bulk?.map fun arg => (key, arg)
  | _ => none

def keyAndRest? : Args → Option (Bytes × List Bytes)
  | _ :: key :: v :: vs => key.bulk?.bind fun key => (allBulk (v :: vs)).map fun vs => (key, vs)
  | _ => none

def keyArgs? : Args → Option (List Bytes)
  | _ :: key :: keys => allBulk (key :: keys)
  | _ => none

def rangeArgs? (accepts : ℕ → Bool) : Args → Option (Bytes × ℤ × ℤ)
  | name :: key :: start :: stop :: more =>
      if accepts (name :: key :: start :: stop :: more).length then
        key.bulk?.bind fun key => (stoi start.strVal).bind fun start =>
          (stoi stop.strVal).map fun stop => (key, start, stop)
      else none
  | _ => none

def durationArgs? (args : Args) : Option (Bytes × ℤ) :=
  (twoArgs? args).bind fun x => (stoll x.2).map fun n => (x.1, n)

def indexArgs? : Args → Option (Bytes × ℤ)
  | [_, key, index] => key.bulk?.bind fun key => (stoi index.strVal).map fun index => (key, index)
  | _ => none

/-- The key of `HSET` and `ZADD`. -/
def pairsKey? (args : Args) : Option Bytes :=
  if args.length < 4 ∨ args.length % 2 ≠ 0 then none else (args.getD 1 default).bulk?

def zaddArgs? (args : Args) : Option (Bytes × List (S × Bytes)) :=
  (pairsKey? args).bind fun key => (zaddPairs (args.drop 2)).toOption.map fun ps => (key, ps)

section Shapes

variable {args : Args} {d d' : Data S}

theorem withKey_of_none {arity notBulk : String} {run run' : Bytes → Data S → Bytes × Data S}
    (h : keyArg? args = none) :
    withKey arity notBulk run args d = ((withKey arity notBulk run' args d').1, d) := by
  unfold withKey
  split
  · rename_i name key
    have hkey : key.bulk? = none := h
    rw [hkey]
  · rfl

theorem withKey_of_some {arity notBulk : String} {run : Bytes → Data S → Bytes × Data S}
    {key : Bytes} (h : keyArg? args = some key) : withKey arity notBulk run args d = run key d := by
  unfold keyArg? at h
  split at h
  · simp only [withKey, h]
  · cases h

theorem withTwo_of_none {arity notBulk : String} {run run' : Bytes → Bytes → Data S → Bytes × Data S}
    (h : twoArgs? args = none) :
    withTwo arity notBulk run args d = ((withTwo arity notBulk run' args d').1, d) := by
  unfold withTwo
  split
  · rename_i name key arg
    cases hkey : key.bulk? with
    | none => rfl
    | some k =>
      cases harg : arg.bulk? with
      | none => rfl
      | some a => simp [twoArgs?, hkey, harg] at h
  · rfl

theorem withTwo_of_some {arity notBulk : String} {run : Bytes → Bytes → Data S → Bytes × Data S}
    {x : Bytes × Bytes} (h : twoArgs? args = some x) :
    withTwo arity notBulk run args d = run x.1 x.2 d := by
  unfold twoArgs? at h
  split at h
  · obtain ⟨key, hkey, h⟩ := Option.bind_eq_some_iff.mp h
    obtain ⟨arg, harg, rfl⟩ := Option.map_eq_some_iff.mp h
    simp only [withTwo, hkey, harg]
  · cases h

theorem withKeyAndRest_of_none {arity notBulkKey notBulkRest : String}
    {run run' : Bytes → List Bytes → Data S → Bytes × Data S} (h : keyAndRest? args = none) :
    withKeyAndRest arity notBulkKey notBulkRest run args d =
      ((withKeyAndRest arity notBulkKey notBulkRest run' args d').1, d) := by
  unfold withKeyAndRest
  split
  · rename_i name key v vs
    cases hkey : key.bulk? with
    | none => rfl
    | some k =>
      cases hall : allBulk (v :: vs) with
      | none => rfl
      | some values => simp [keyAndRest?, hkey, hall] at h
  · rfl

theorem withKeyAndRest_of_some {arity notBulkKey notBulkRest : String}
    {run : Bytes → List Bytes → Data S → Bytes × Data S} {x : Bytes × List Bytes}
    (h : keyAndRest? args = some x) :
    withKeyAndRest arity notBulkKey notBulkRest run args d = run x.1 x.2 d := by
  unfold keyAndRest? at h
  split at h
  · obtain ⟨key, hkey, h⟩ := Option.bind_eq_some_iff.mp h
    obtain ⟨values, hall, rfl⟩ := Option.map_eq_some_iff.mp h
    simp only [withKeyAndRest, hkey, hall]
  · cases h

theorem withKeys_of_none {arity notBulk : String} {read read' : List Bytes → Data S → Bytes}
    (h : keyArgs? args = none) :
    withKeys arity notBulk read args d = ((withKeys arity notBulk read' args d').1, d) := by
  unfold withKeys
  split
  · rename_i name key keys
    have hall : allBulk (key :: keys) = none := h
    rw [hall]
  · rfl

theorem withKeys_of_some {arity notBulk : String} {read : List Bytes → Data S → Bytes}
    {keys : List Bytes} (h : keyArgs? args = some keys) :
    withKeys arity notBulk read args d = (read keys d, d) := by
  unfold keyArgs? at h
  split at h
  · simp only [withKeys, h]
  · cases h

theorem withRange_of_none {accepts : ℕ → Bool} {arity notBulk notInt : String}
    {read read' : Bytes → ℤ → ℤ → Data S → Bytes} (h : rangeArgs? accepts args = none) :
    withRange accepts arity notBulk notInt read args d =
      ((withRange accepts arity notBulk notInt read' args d').1, d) := by
  unfold withRange
  split
  · rename_i name key start stop more
    simp only [rangeArgs?] at h
    split
    · rename_i haccepts
      rw [if_pos haccepts] at h
      cases hkey : key.bulk? with
      | none => rfl
      | some k =>
        cases hstart : stoi start.strVal with
        | none => rfl
        | some i =>
          cases hstop : stoi stop.strVal with
          | none => rfl
          | some j => simp [hkey, hstart, hstop] at h
    · rfl
  · rfl

theorem withRange_of_some {accepts : ℕ → Bool} {arity notBulk notInt : String}
    {read : Bytes → ℤ → ℤ → Data S → Bytes} {x : Bytes × ℤ × ℤ}
    (h : rangeArgs? accepts args = some x) :
    withRange accepts arity notBulk notInt read args d = (read x.1 x.2.1 x.2.2 d, d) := by
  unfold rangeArgs? at h
  split at h
  · split at h
    · rename_i haccepts
      obtain ⟨key, hkey, h⟩ := Option.bind_eq_some_iff.mp h
      obtain ⟨start, hstart, h⟩ := Option.bind_eq_some_iff.mp h
      obtain ⟨stop, hstop, rfl⟩ := Option.map_eq_some_iff.mp h
      simp only [withRange, if_pos haccepts, hkey, hstart, hstop]
    · cases h
  · cases h

theorem withDuration_of_none {arity notBulk notInt : String}
    {run run' : Bytes → ℤ → Data S → Bytes × Data S} (h : durationArgs? args = none) :
    withDuration arity notBulk notInt run args d =
      ((withDuration arity notBulk notInt run' args d').1, d) := by
  cases htwo : twoArgs? args with
  | none => exact withTwo_of_none htwo
  | some x =>
    have hstoll : stoll x.2 = none := by simpa [durationArgs?, htwo] using h
    unfold withDuration
    rw [withTwo_of_some htwo, withTwo_of_some htwo]
    simp only [hstoll]

theorem withDuration_of_some {arity notBulk notInt : String}
    {run : Bytes → ℤ → Data S → Bytes × Data S} {x : Bytes × ℤ} (h : durationArgs? args = some x) :
    withDuration arity notBulk notInt run args d = run x.1 x.2 d := by
  obtain ⟨y, hy, h⟩ := Option.bind_eq_some_iff.mp h
  obtain ⟨n, hn, rfl⟩ := Option.map_eq_some_iff.mp h
  unfold withDuration
  rw [withTwo_of_some hy]
  simp only [hn]

end Shapes

/-! ### Handlers -/

/-- A write that is counted. -/
def countedProg (key : Bytes) (count : Bool) (reply : Bytes) : DataProg S Bytes := do
  if count then callWrite (Database.incrementModCount key)
  return reply

/-- The common end of `LPOP` and `RPOP`. -/
def popProg (key value : Bytes) : DataProg S Bytes := do
  if value = [] then
    let found ← callAt fun now => Database.keyExists now key
    if !found then return nullBulk
    callWrite (Database.incrementModCount key)
    return bulkReply value
  else
    callWrite (Database.incrementModCount key)
    return bulkReply value

/-- The loop of `HSET`. -/
def hsetLoopProg (key : Bytes) : List RespValue → ℕ → DataProg S (Option ℕ)
  | field :: value :: rest, fieldsSet =>
      match field.bulk?, value.bulk? with
      | some field, some value =>
          (callWrite (Database.hset key field value)).bind fun _ =>
            hsetLoopProg key rest (fieldsSet + 1)
      | _, _ => .ret none
  | _, fieldsSet => .ret (some fieldsSet)

/-- The handlers that work on the data; `writable` says whether the RDB file opens for writing.  A
refused command gets the same reply from every store. -/
def dataProg (writable : Bool) (cmd : Command) (args : Args) : DataProg S Bytes :=
  match cmd with
  | .set => guarded (twoArgs? args) (handleSet (S := S) args ∅).1 fun x => do
      callWrite (Database.set x.1 x.2)
      callWrite (Database.incrementModCount x.1)
      return okReply
  | .get => guarded (keyArg? args) (handleGet (S := S) 0 args ∅).1 fun key => do
      let found ← callAt fun now => Database.keyExists now key
      if !found then return nullBulk
      let type ← callAt fun now => Database.type now key
      if type ≠ .string then return nullBulk
      let value ← callAt fun now => Database.get now key
      return bulkReply value
  | .del => guarded (keyArg? args) (handleDel (S := S) 0 args ∅).1 fun key => do
      let found ← callAt fun now => Database.keyExists now key
      if found then callWrite (Database.incrementModCount key)
      let deleted ← callUpdate (Database.del key)
      return boolReply deleted
  | .existsKey => guarded (keyArg? args) (handleExists (S := S) 0 args ∅).1 fun key => do
      let found ← callAt fun now => Database.keyExists now key
      return boolReply found
  | .keys => guarded (if args.length = 1 then some () else none) (handleKeys (S := S) args ∅).1
      fun _ => do
        let keys ← callRead Database.keys
        return arrayReply keys
  | .save => guarded (if args.length = 1 then some () else none)
      (errReply "ERR SAVE requires no arguments") fun _ => do
        let _ ← callRead saveRdb
        return if writable then okReply else errReply "ERR Failed to save database"
  | .type => guarded (keyArg? args) (handleType (S := S) 0 args ∅).1 fun key => do
      let found ← callAt fun now => Database.keyExists now key
      if !found then return 43 :: (str "none" ++ crlf)
      let type ← callAt fun now => Database.type now key
      return 43 :: (typeText type ++ crlf)
  | .lpush => guarded (keyAndRest? args) (handleLpush (S := S) args ∅).1 fun x => do
      let length ← callUpdate (Database.lpush x.1 x.2)
      countedProg x.1 true (intReply length)
  | .rpush => guarded (keyAndRest? args) (handleRpush (S := S) args ∅).1 fun x => do
      let length ← callUpdate (Database.rpush x.1 x.2)
      countedProg x.1 true (intReply length)
  | .lpop => guarded (keyArg? args) (handleLpop (S := S) 0 args ∅).1 fun key => do
      let value ← callUpdate (Database.lpop key)
      popProg key value
  | .rpop => guarded (keyArg? args) (handleRpop (S := S) 0 args ∅).1 fun key => do
      let value ← callUpdate (Database.rpop key)
      popProg key value
  | .llen => guarded (keyArg? args) (handleLlen (S := S) 0 args ∅).1 fun key => do
      let length ← callAt fun now => Database.llen now key
      return intReply length
  | .lrange => guarded (rangeArgs? (· == 4) args) (handleLrange (S := S) args ∅).1 fun x => do
      let range ← callRead (Database.lrange x.1 x.2.1 x.2.2)
      return arrayReply range
  | .lindex => guarded (indexArgs? args) (handleLindex (S := S) 0 args ∅).1 fun x => do
      let value ← callRead (Database.lindex x.1 x.2)
      if value = [] then
        let _ ← callAt fun now => Database.keyExists now x.1
        return nullBulk
      else return bulkReply value
  | .sadd => guarded (keyAndRest? args) (handleSadd (S := S) args ∅).1 fun x => do
      let added ← callUpdate (Database.sadd x.1 x.2)
      countedProg x.1 (added > 0) (intReply added)
  | .srem => guarded (keyAndRest? args) (handleSrem (S := S) args ∅).1 fun x => do
      let removed ← callUpdate (Database.srem x.1 x.2)
      countedProg x.1 (removed > 0) (intReply removed)
  | .sismember => guarded (twoArgs? args) (handleSismember (S := S) args ∅).1 fun x => do
      let found ← callRead (Database.sismember x.1 x.2)
      return boolReply found
  | .scard => guarded (keyArg? args) (handleScard (S := S) args ∅).1 fun key => do
      let size ← callRead (Database.scard key)
      return intReply size
  | .smembers => guarded (keyArg? args) (handleSmembers (S := S) args ∅).1 fun key => do
      let members ← callRead (Database.smembers key)
      return arrayReply members
  | .sinter => guarded (keyArgs? args) (handleSinter (S := S) args ∅).1 fun keys => do
      let members ← callRead (Database.sinter keys)
      return arrayReply members
  | .sunion => guarded (keyArgs? args) (handleSunion (S := S) args ∅).1 fun keys => do
      let members ← callRead (Database.sunion keys)
      return arrayReply members
  | .sdiff => guarded (keyArgs? args) (handleSdiff (S := S) args ∅).1 fun keys => do
      let members ← callRead (Database.sdiff keys)
      return arrayReply members
  | .hset => guarded (pairsKey? args) (handleHset (S := S) args ∅).1 fun key => do
      let fieldsSet ← hsetLoopProg key (args.drop 2) 0
      match fieldsSet with
      | none => return errReply "ERR HSET field and value must be bulk strings"
      | some fieldsSet => countedProg key (fieldsSet > 0) (intReply fieldsSet)
  | .hget => guarded (twoArgs? args) (handleHget (S := S) 0 args ∅).1 fun x => do
      let value ← callRead (Database.hget x.1 x.2)
      if value = [] then
        let found ← callAt fun now => Database.keyExists now x.1
        if found then
          let _ ← callAt fun now => Database.type now x.1
        return nullBulk
      else return bulkReply value
  | .hdel => guarded (keyAndRest? args) (handleHdel (S := S) args ∅).1 fun x => do
      let deleted ← callUpdate (Database.hdel x.1 x.2)
      countedProg x.1 deleted (boolReply deleted)
  | .hlen => guarded (keyArg? args) (handleHlen (S := S) args ∅).1 fun key => do
      let size ← callRead (Database.hlen key)
      return intReply size
  | .hkeys => guarded (keyArg? args) (handleHkeys (S := S) args ∅).1 fun key => do
      let keys ← callRead (Database.hkeys key)
      return arrayReply keys
  | .hvals => guarded (keyArg? args) (handleHvals (S := S) args ∅).1 fun key => do
      let values ← callRead (Database.hvals key)
      return arrayReply values
  | .hgetall => guarded (keyArg? args) (handleHgetall (S := S) args ∅).1 fun key => do
      let hash ← callRead (Database.hgetall key)
      return hashReply hash
  | .zadd => guarded (zaddArgs? args) (handleZadd (S := S) args ∅).1 fun x => do
      let added ← callUpdate (Database.zadd x.1 x.2)
      countedProg x.1 added (boolReply added)
  | .zrem => guarded (keyAndRest? args) (handleZrem (S := S) args ∅).1 fun x => do
      let removed ← callUpdate (Database.zrem x.1 x.2)
      countedProg x.1 removed (boolReply removed)
  | .zcard => guarded (keyArg? args) (handleZcard (S := S) args ∅).1 fun key => do
      let size ← callRead (Database.zcard key)
      return intReply size
  | .zrange => guarded (rangeArgs? (fun _ => true) args) (handleZrange (S := S) args ∅).1 fun x => do
      let range ← callRead (Database.zrange x.1 x.2.1 x.2.2)
      return arrayReply range
  | .zrevrange => guarded (rangeArgs? (fun _ => true) args) (handleZrevrange (S := S) args ∅).1
      fun x => do
        let range ← callRead (Database.zrevrange x.1 x.2.1 x.2.2)
        return arrayReply range
  | .zscore => guarded (twoArgs? args) (handleZscore (S := S) 0 args ∅).1 fun x => do
      let score ← callRead (Database.zscore x.1 x.2)
      if score = 0 then
        let found ← callAt fun now => Database.keyExists now x.1
        if !found then return nullBulk
        let size ← callRead (Database.zcard x.1)
        if size == 0 then return nullBulk
        return bulkReply (trimScore (Score.toText score))
      else return bulkReply (trimScore (Score.toText score))
  | .zrank => guarded (twoArgs? args) (handleZrank (S := S) args ∅).1 fun x => do
      let rank ← callRead (Database.zrank x.1 x.2)
      if rank < 0 then return nullBulk
      return intReply rank
  | .expire => guarded (durationArgs? args) (handleExpire (S := S) 0 args ∅).1 fun x => do
      let result ← callAt fun now => Database.expire now x.1 x.2
      countedProg x.1 result (boolReply result)
  | .pexpire => guarded (durationArgs? args) (handlePexpire (S := S) 0 args ∅).1 fun x => do
      let result ← callAt fun now => Database.pexpire now x.1 x.2
      countedProg x.1 result (boolReply result)
  | .ttl => guarded (keyArg? args) (handleTtl (S := S) 0 args ∅).1 fun key => do
      let ttl ← callAt fun now => Database.ttl now key
      return intReply ttl
  | .pttl => guarded (keyArg? args) (handlePttl (S := S) 0 args ∅).1 fun key => do
      let pttl ← callAt fun now => Database.pttl now key
      return intReply pttl
  | .persist => guarded (keyArg? args) (handlePersist (S := S) 0 args ∅).1 fun key => do
      let result ← callAt fun now => Database.persist now key
      countedProg key result (boolReply result)
  | _ => .ret (errReply "ERR Unknown command")

end MinimalRedis
