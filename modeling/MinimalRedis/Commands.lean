import MinimalRedis.Database
import MinimalRedis.Resp

/-!
# Data command handlers (`commands.cpp`, lines 276–1085 and 1180–1277)

A handler takes the argument array (index 0 is the command name) and returns the reply bytes beside
the data after the call.  These handlers touch nothing but the data, which their type says.

The argument checks come in a few shapes, each written once with its error texts as parameters
(`withKey`, `withTwo`, `withKeyAndRest`, `withKeys`, `withRange`, `withDuration`).  `handleHset`
and `handleZadd` check inside a loop over pairs and keep their own bodies: `HSET` **enters each pair
before it looks at the next**, `ZADD` collects all pairs first.
-/

namespace MinimalRedis

open Lib

abbrev Args := List RespValue

/-! ### Replies -/

/-- An error line; the texts are given without the leading minus and the line end. -/
def errReply (msg : String) : Bytes := 45 :: (str msg ++ crlf)

def okReply : Bytes := str "+OK\r\n"

def nullBulk : Bytes := str "$-1\r\n"

def intReply (z : ℤ) : Bytes := 58 :: (intBytes z ++ crlf)

def bulkReply (s : Bytes) : Bytes := 36 :: (natBytes s.length ++ (crlf ++ (s ++ crlf)))

def arrayReply (items : List Bytes) : Bytes :=
  42 :: (natBytes items.length ++ (crlf ++ items.flatMap bulkReply))

def boolReply (b : Bool) : Bytes := intReply (if b then 1 else 0)

/-! ### Argument shapes -/

/-- The contents of bulk strings, `none` as soon as one is of another type. -/
def allBulk : List RespValue → Option (List Bytes)
  | [] => some []
  | v :: vs => v.bulk?.bind fun s => (allBulk vs).map (s :: ·)

theorem allBulk_eq_some_iff {vs : List RespValue} {values : List Bytes} :
    allBulk vs = some values ↔ vs = values.map .bulkString := by
  induction vs generalizing values with
  | nil =>
    constructor
    · intro h
      cases h
      rfl
    · intro h
      rw [List.map_eq_nil_iff.mp h.symm]
      rfl
  | cons v vs ih =>
    constructor
    · intro h
      obtain ⟨s, hs, h⟩ := Option.bind_eq_some_iff.mp h
      obtain ⟨rest, hrest, rfl⟩ := Option.map_eq_some_iff.mp h
      cases v <;> cases hs
      rw [List.map_cons, ih.mp hrest]
    · intro h
      obtain ⟨s, rest, rfl, rfl, hrest⟩ := List.map_eq_cons_iff.mp h.symm
      show (allBulk vs).map (s :: ·) = some (s :: rest)
      rw [ih.mpr hrest.symm, Option.map_some]

variable {S : Type} [Score S]

/-- Exactly one argument, the key. -/
def withKey (arity notBulk : String) (run : Bytes → Data S → Bytes × Data S) (args : Args)
    (d : Data S) : Bytes × Data S :=
  match args with
  | [_, key] =>
      match key.bulk? with
      | none => (errReply notBulk, d)
      | some key => run key d
  | _ => (errReply arity, d)

/-- Exactly two arguments. -/
def withTwo (arity notBulk : String) (run : Bytes → Bytes → Data S → Bytes × Data S) (args : Args)
    (d : Data S) : Bytes × Data S :=
  match args with
  | [_, key, arg] =>
      match key.bulk?, arg.bulk? with
      | some key, some arg => run key arg d
      | _, _ => (errReply notBulk, d)
  | _ => (errReply arity, d)

/-- A key and at least one further bulk string. -/
def withKeyAndRest (arity notBulkKey notBulkRest : String)
    (run : Bytes → List Bytes → Data S → Bytes × Data S) (args : Args) (d : Data S) :
    Bytes × Data S :=
  match args with
  | _ :: key :: v :: vs =>
      match key.bulk? with
      | none => (errReply notBulkKey, d)
      | some key =>
          match allBulk (v :: vs) with
          | none => (errReply notBulkRest, d)
          | some values => run key values d
  | _ => (errReply arity, d)

/-- At least one key; the reply alone, these commands only read. -/
def withKeys (arity notBulk : String) (read : List Bytes → Data S → Bytes) (args : Args)
    (d : Data S) : Bytes × Data S :=
  match args with
  | _ :: key :: keys =>
      match allBulk (key :: keys) with
      | none => (errReply notBulk, d)
      | some keys => (read keys d, d)
  | _ => (errReply arity, d)

/-- A key and two 32-bit bounds.  `args[2]` and `args[3]` are read through `str_val`, whatever their
type; `accepts` is the test on the number of arguments. -/
def withRange (accepts : ℕ → Bool) (arity notBulk notInt : String)
    (read : Bytes → ℤ → ℤ → Data S → Bytes) (args : Args) (d : Data S) : Bytes × Data S :=
  match args with
  | _ :: key :: start :: stop :: _ =>
      if accepts args.length then
        match key.bulk? with
        | none => (errReply notBulk, d)
        | some key =>
            match stoi start.strVal, stoi stop.strVal with
            | some start, some stop => (read key start stop d, d)
            | _, _ => (errReply notInt, d)
      else (errReply arity, d)
  | _ => (errReply arity, d)

/-- A key and a 64-bit duration. -/
def withDuration (arity notBulk notInt : String) (run : Bytes → ℤ → Data S → Bytes × Data S) :
    Args → Data S → Bytes × Data S :=
  withTwo arity notBulk fun key arg d =>
    match stoll arg with
    | none => (errReply notInt, d)
    | some n => run key n d

/-! ### Accepted or refused

Each shape either refuses its arguments, with one of its error texts and the data untouched, or
hands the parts over. -/

/-- The handler answers every store with the same error, one of `msgs`, and leaves it alone. -/
def Refuses (msgs : List String) (h : Data S → Bytes × Data S) : Prop :=
  ∃ msg ∈ msgs, ∀ d, h d = (errReply msg, d)

theorem bulk?_eq_some {v : RespValue} {s : Bytes} (h : v.bulk? = some s) : v = .bulkString s := by
  cases v <;> simp [RespValue.bulk?] at h
  rw [h]

theorem withKey_cases (arity notBulk : String) (run : Bytes → Data S → Bytes × Data S)
    (args : Args) :
    Refuses [arity, notBulk] (withKey arity notBulk run args) ∨
      ∃ name key, args = [name, .bulkString key] ∧ withKey arity notBulk run args = run key := by
  unfold withKey
  split
  · rename_i name key
    cases hkey : key.bulk? with
    | none => exact .inl ⟨notBulk, by simp, fun d => rfl⟩
    | some k => exact .inr ⟨name, k, by rw [bulk?_eq_some hkey], rfl⟩
  · exact .inl ⟨arity, by simp, fun d => rfl⟩

theorem withTwo_cases (arity notBulk : String) (run : Bytes → Bytes → Data S → Bytes × Data S)
    (args : Args) :
    Refuses [arity, notBulk] (withTwo arity notBulk run args) ∨
      ∃ name key arg, args = [name, .bulkString key, .bulkString arg] ∧
        withTwo arity notBulk run args = run key arg := by
  unfold withTwo
  split
  · rename_i name key arg
    cases hkey : key.bulk? with
    | none => exact .inl ⟨notBulk, by simp, fun d => rfl⟩
    | some k =>
      cases harg : arg.bulk? with
      | none => exact .inl ⟨notBulk, by simp, fun d => rfl⟩
      | some a =>
        exact .inr ⟨name, k, a, by rw [bulk?_eq_some hkey, bulk?_eq_some harg], rfl⟩
  · exact .inl ⟨arity, by simp, fun d => rfl⟩

theorem withKeyAndRest_cases (arity notBulkKey notBulkRest : String)
    (run : Bytes → List Bytes → Data S → Bytes × Data S) (args : Args) :
    Refuses [arity, notBulkKey, notBulkRest]
        (withKeyAndRest arity notBulkKey notBulkRest run args) ∨
      ∃ name key v vs values, args = name :: .bulkString key :: v :: vs ∧
        allBulk (v :: vs) = some values ∧
        withKeyAndRest arity notBulkKey notBulkRest run args = run key values := by
  unfold withKeyAndRest
  split
  · rename_i name key v vs
    cases hkey : key.bulk? with
    | none => exact .inl ⟨notBulkKey, by simp, fun d => rfl⟩
    | some k =>
      cases hall : allBulk (v :: vs) with
      | none => exact .inl ⟨notBulkRest, by simp, fun d => rfl⟩
      | some values =>
        exact .inr ⟨name, k, v, vs, values, by rw [bulk?_eq_some hkey], hall, rfl⟩
  · exact .inl ⟨arity, by simp, fun d => rfl⟩

/-- `withKeys` and `withRange` only read. -/
theorem withKeys_snd (arity notBulk : String) (read : List Bytes → Data S → Bytes) (args : Args)
    (d : Data S) : (withKeys arity notBulk read args d).2 = d := by
  unfold withKeys
  split
  · split <;> rfl
  · rfl

theorem withRange_snd (accepts : ℕ → Bool) (arity notBulk notInt : String)
    (read : Bytes → ℤ → ℤ → Data S → Bytes) (args : Args) (d : Data S) :
    (withRange accepts arity notBulk notInt read args d).2 = d := by
  unfold withRange
  split
  · split
    · split
      · rfl
      · split <;> rfl
    · rfl
  · rfl

/-! ### String and generic commands -/

def handleSet : Args → Data S → Bytes × Data S :=
  withTwo "ERR SET requires exactly 2 arguments" "ERR SET arguments must be bulk strings"
    fun key value d => (okReply, Database.incrementModCount key (Database.set key value d))

def handleGet (now : ℤ) : Args → Data S → Bytes × Data S :=
  withKey "ERR GET requires exactly 1 argument" "ERR GET argument must be a bulk string"
    fun key d =>
      let found := Database.keyExists now key d
      if !found.1 then (nullBulk, found.2)
      else
        let type := Database.type now key found.2
        if type.1 ≠ .string then (nullBulk, type.2)
        else
          let value := Database.get now key type.2
          (bulkReply value.1, value.2)

def handleDel (now : ℤ) : Args → Data S → Bytes × Data S :=
  withKey "ERR DEL requires exactly 1 argument" "ERR DEL argument must be a bulk string"
    fun key d =>
      let found := Database.keyExists now key d
      let d := if found.1 then Database.incrementModCount key found.2 else found.2
      let deleted := Database.del key d
      (boolReply deleted.1, deleted.2)

def handleExists (now : ℤ) : Args → Data S → Bytes × Data S :=
  withKey "ERR EXISTS requires exactly 1 argument" "ERR EXISTS argument must be a bulk string"
    fun key d =>
      let found := Database.keyExists now key d
      (boolReply found.1, found.2)

def handleKeys (args : Args) (d : Data S) : Bytes × Data S :=
  if args.length ≠ 1 then (errReply "ERR KEYS requires no arguments", d)
  else (arrayReply (Database.keys d), d)

def typeText : RedisType → Bytes
  | .string => str "string"
  | .list => str "list"
  | .set => str "set"
  | .hash => str "hash"
  | .zset => str "zset"

def handleType (now : ℤ) : Args → Data S → Bytes × Data S :=
  withKey "ERR TYPE requires exactly 1 argument" "ERR TYPE argument must be a bulk string"
    fun key d =>
      let found := Database.keyExists now key d
      if !found.1 then (43 :: (str "none" ++ crlf), found.2)
      else
        let type := Database.type now key found.2
        (43 :: (typeText type.1 ++ crlf), type.2)

/-! ### List commands -/

def handleLpush : Args → Data S → Bytes × Data S :=
  withKeyAndRest "ERR LPUSH requires at least 2 arguments" "ERR LPUSH key must be a bulk string"
    "ERR LPUSH values must be bulk strings" fun key values d =>
      let pushed := Database.lpush key values d
      (intReply pushed.1, Database.incrementModCount key pushed.2)

def handleRpush : Args → Data S → Bytes × Data S :=
  withKeyAndRest "ERR RPUSH requires at least 2 arguments" "ERR RPUSH key must be a bulk string"
    "ERR RPUSH values must be bulk strings" fun key values d =>
      let pushed := Database.rpush key values d
      (intReply pushed.1, Database.incrementModCount key pushed.2)

/-- The common end of `LPOP` and `RPOP`: an empty value of a missing key is the null reply. -/
def popReply (now : ℤ) (key : Bytes) (popped : Bytes × Data S) : Bytes × Data S :=
  if popped.1 = [] then
    let found := Database.keyExists now key popped.2
    if !found.1 then (nullBulk, found.2)
    else (bulkReply popped.1, Database.incrementModCount key found.2)
  else (bulkReply popped.1, Database.incrementModCount key popped.2)

def handleLpop (now : ℤ) : Args → Data S → Bytes × Data S :=
  withKey "ERR LPOP requires exactly 1 argument" "ERR LPOP key must be a bulk string"
    fun key d => popReply now key (Database.lpop key d)

def handleRpop (now : ℤ) : Args → Data S → Bytes × Data S :=
  withKey "ERR RPOP requires exactly 1 argument" "ERR RPOP key must be a bulk string"
    fun key d => popReply now key (Database.rpop key d)

def handleLlen (now : ℤ) : Args → Data S → Bytes × Data S :=
  withKey "ERR LLEN requires exactly 1 argument" "ERR LLEN key must be a bulk string"
    fun key d =>
      let length := Database.llen now key d
      (intReply length.1, length.2)

def handleLrange : Args → Data S → Bytes × Data S :=
  withRange (· == 4) "ERR LRANGE requires exactly 3 arguments" "ERR LRANGE key must be a bulk string"
    "ERR LRANGE start and end must be integers"
    fun key start stop d => arrayReply (Database.lrange key start stop d)

def handleLindex (now : ℤ) (args : Args) (d : Data S) : Bytes × Data S :=
  match args with
  | [_, key, index] =>
      match key.bulk? with
      | none => (errReply "ERR LINDEX key must be a bulk string", d)
      | some key =>
          match stoi index.strVal with
          | none => (errReply "ERR LINDEX index must be an integer", d)
          | some index =>
              let value := Database.lindex key index d
              -- an empty value is the null reply, whether or not the key exists
              if value = [] then (nullBulk, (Database.keyExists now key d).2)
              else (bulkReply value, d)
  | _ => (errReply "ERR LINDEX requires exactly 2 arguments", d)

/-! ### Set commands -/

def handleSadd : Args → Data S → Bytes × Data S :=
  withKeyAndRest "ERR SADD requires at least 2 arguments" "ERR SADD key must be a bulk string"
    "ERR SADD members must be bulk strings" fun key members d =>
      let added := Database.sadd key members d
      (intReply added.1,
        if added.1 > 0 then Database.incrementModCount key added.2 else added.2)

def handleSrem : Args → Data S → Bytes × Data S :=
  withKeyAndRest "ERR SREM requires at least 2 arguments" "ERR SREM key must be a bulk string"
    "ERR SREM members must be bulk strings" fun key members d =>
      let removed := Database.srem key members d
      (intReply removed.1,
        if removed.1 > 0 then Database.incrementModCount key removed.2 else removed.2)

def handleSismember : Args → Data S → Bytes × Data S :=
  withTwo "ERR SISMEMBER requires exactly 2 arguments" "ERR SISMEMBER arguments must be bulk strings"
    fun key member d => (boolReply (Database.sismember key member d), d)

def handleScard : Args → Data S → Bytes × Data S :=
  withKey "ERR SCARD requires exactly 1 argument" "ERR SCARD key must be a bulk string"
    fun key d => (intReply (Database.scard key d), d)

def handleSmembers : Args → Data S → Bytes × Data S :=
  withKey "ERR SMEMBERS requires exactly 1 argument" "ERR SMEMBERS key must be a bulk string"
    fun key d => (arrayReply (Database.smembers key d), d)

def handleSinter : Args → Data S → Bytes × Data S :=
  withKeys "ERR SINTER requires at least 1 argument" "ERR SINTER keys must be bulk strings"
    fun keys d => arrayReply (Database.sinter keys d)

def handleSunion : Args → Data S → Bytes × Data S :=
  withKeys "ERR SUNION requires at least 1 argument" "ERR SUNION keys must be bulk strings"
    fun keys d => arrayReply (Database.sunion keys d)

def handleSdiff : Args → Data S → Bytes × Data S :=
  withKeys "ERR SDIFF requires at least 1 argument" "ERR SDIFF keys must be bulk strings"
    fun keys d => arrayReply (Database.sdiff keys d)

/-! ### Hash commands -/

/-- The loop of `HSET`: the number of fields set, `none` at the first pair that is not two bulk
strings; the pairs before it are entered by then. -/
def hsetLoop (key : Bytes) : List RespValue → ℕ → Data S → Option ℕ × Data S
  | field :: value :: rest, fieldsSet, d =>
      match field.bulk?, value.bulk? with
      | some field, some value =>
          hsetLoop key rest (fieldsSet + 1) (Database.hset key field value d)
      | _, _ => (none, d)
  | _, fieldsSet, d => (some fieldsSet, d)

def handleHset (args : Args) (d : Data S) : Bytes × Data S :=
  if args.length < 4 ∨ args.length % 2 ≠ 0 then
    (errReply "ERR HSET requires an even number of arguments (at least key, field, value)", d)
  else
    match (args.getD 1 default).bulk? with
    | none => (errReply "ERR HSET key must be a bulk string", d)
    | some key =>
        match hsetLoop key (args.drop 2) 0 d with
        | (none, d) => (errReply "ERR HSET field and value must be bulk strings", d)
        | (some fieldsSet, d) =>
            (intReply fieldsSet, if fieldsSet > 0 then Database.incrementModCount key d else d)

def handleHget (now : ℤ) : Args → Data S → Bytes × Data S :=
  withTwo "ERR HGET requires exactly 2 arguments" "ERR HGET key and field must be bulk strings"
    fun key field d =>
      let value := Database.hget key field d
      if value = [] then
        let found := Database.keyExists now key d
        (nullBulk, if found.1 then (Database.type now key found.2).2 else found.2)
      else (bulkReply value, d)

def handleHdel : Args → Data S → Bytes × Data S :=
  withKeyAndRest "ERR HDEL requires at least 2 arguments" "ERR HDEL key must be a bulk string"
    "ERR HDEL fields must be bulk strings" fun key fields d =>
      let deleted := Database.hdel key fields d
      (boolReply deleted.1,
        if deleted.1 then Database.incrementModCount key deleted.2 else deleted.2)

def handleHlen : Args → Data S → Bytes × Data S :=
  withKey "ERR HLEN requires exactly 1 argument" "ERR HLEN key must be a bulk string"
    fun key d => (intReply (Database.hlen key d), d)

def handleHkeys : Args → Data S → Bytes × Data S :=
  withKey "ERR HKEYS requires exactly 1 argument" "ERR HKEYS key must be a bulk string"
    fun key d => (arrayReply (Database.hkeys key d), d)

def handleHvals : Args → Data S → Bytes × Data S :=
  withKey "ERR HVALS requires exactly 1 argument" "ERR HVALS key must be a bulk string"
    fun key d => (arrayReply (Database.hvals key d), d)

/-- Fields and values alternate under twice the number of fields. -/
def hashReply (hash : UMap Bytes Bytes) : Bytes :=
  42 :: (natBytes (hash.size * 2) ++ (crlf ++
    hash.entries.flatMap fun pair => bulkReply pair.1 ++ bulkReply pair.2))

def handleHgetall : Args → Data S → Bytes × Data S :=
  withKey "ERR HGETALL requires exactly 1 argument" "ERR HGETALL key must be a bulk string"
    fun key d => (hashReply (Database.hgetall key d), d)

/-! ### Sorted set commands -/

/-- The loop of `ZADD`: the pairs, or the error text of the first bad one. -/
def zaddPairs : List RespValue → Except String (List (S × Bytes))
  | score :: member :: rest =>
      match score.bulk?, member.bulk? with
      | some score, some member =>
          match Score.stod score with
          | none => .error "ERR ZADD score must be a valid number"
          | some score => (zaddPairs rest).map ((score, member) :: ·)
      | _, _ => .error "ERR ZADD score and member must be bulk strings"
  | _ => .ok []

def handleZadd (args : Args) (d : Data S) : Bytes × Data S :=
  if args.length < 4 ∨ args.length % 2 ≠ 0 then
    (errReply "ERR ZADD requires an even number of arguments (at least key, score, member)", d)
  else
    match (args.getD 1 default).bulk? with
    | none => (errReply "ERR ZADD key must be a bulk string", d)
    | some key =>
        match zaddPairs (args.drop 2) with
        | .error msg => (errReply msg, d)
        | .ok members =>
            let added := Database.zadd key members d
            (boolReply added.1,
              if added.1 then Database.incrementModCount key added.2 else added.2)

def handleZrem : Args → Data S → Bytes × Data S :=
  withKeyAndRest "ERR ZREM requires at least 2 arguments" "ERR ZREM key must be a bulk string"
    "ERR ZREM members must be bulk strings" fun key members d =>
      let removed := Database.zrem key members d
      (boolReply removed.1,
        if removed.1 then Database.incrementModCount key removed.2 else removed.2)

def handleZcard : Args → Data S → Bytes × Data S :=
  withKey "ERR ZCARD requires exactly 1 argument" "ERR ZCARD key must be a bulk string"
    fun key d => (intReply (Database.zcard key d), d)

def handleZrange : Args → Data S → Bytes × Data S :=
  withRange (fun _ => true) "ERR ZRANGE requires at least 3 arguments"
    "ERR ZRANGE key must be a bulk string" "ERR ZRANGE start and end must be integers"
    fun key start stop d => arrayReply (Database.zrange key start stop d)

def handleZrevrange : Args → Data S → Bytes × Data S :=
  withRange (fun _ => true) "ERR ZREVRANGE requires at least 3 arguments"
    "ERR ZREVRANGE key must be a bulk string" "ERR ZREVRANGE start and end must be integers"
    fun key start stop d => arrayReply (Database.zrevrange key start stop d)

/-- Trailing zeros of the decimal text go, and the dot with them when nothing is left behind it. -/
def trimScore (text : Bytes) : Bytes :=
  if 46 ∈ text then
    let dotPos := text.idxOf 46
    let lastNonZero := text.length - 1 - text.reverse.findIdx (· ≠ 48)
    if lastNonZero > dotPos then text.take (lastNonZero + 1) else text.take dotPos
  else text

def handleZscore (now : ℤ) : Args → Data S → Bytes × Data S :=
  withTwo "ERR ZSCORE requires exactly 2 arguments" "ERR ZSCORE key and member must be bulk strings"
    fun key member d =>
      let score := Database.zscore key member d
      if score = 0 then
        let found := Database.keyExists now key d
        if !found.1 || Database.zcard key found.2 == 0 then (nullBulk, found.2)
        else (bulkReply (trimScore (Score.toText score)), found.2)
      else (bulkReply (trimScore (Score.toText score)), d)

def handleZrank : Args → Data S → Bytes × Data S :=
  withTwo "ERR ZRANK requires exactly 2 arguments" "ERR ZRANK key and member must be bulk strings"
    fun key member d =>
      let rank := Database.zrank key member d
      if rank < 0 then (nullBulk, d) else (intReply rank, d)

/-! ### Key and pairs

`HSET` and `ZADD` check the number of their arguments and the key in the same way. -/

/-- A key followed by pairs, at least one. -/
def PairArgs (key : Bytes) (rest : List RespValue) (args : Args) : Prop :=
  ∃ name, args = name :: .bulkString key :: rest ∧ 2 ≤ rest.length ∧ rest.length % 2 = 0

theorem PairArgs.arity {key : Bytes} {rest : List RespValue} {args : Args}
    (h : PairArgs key rest args) : ¬ (args.length < 4 ∨ args.length % 2 ≠ 0) := by
  obtain ⟨name, rfl, hlen, heven⟩ := h
  simp only [List.length_cons]
  omega

theorem pairArgs_iff (name : RespValue) (key : Bytes) (rest : List RespValue) :
    (∃ key' rest', PairArgs key' rest' (name :: .bulkString key :: rest)) ↔
      2 ≤ rest.length ∧ rest.length % 2 = 0 := by
  constructor
  · intro h
    obtain ⟨key', rest', name', heq, hlen, heven⟩ := h
    obtain rfl := (List.cons.inj (List.cons.inj heq).2).2
    exact ⟨hlen, heven⟩
  · intro h
    exact ⟨key, rest, name, rfl, h⟩

/-- Other arguments fail one of the two checks. -/
theorem not_pairArgs {args : Args} (h : ¬ ∃ key rest, PairArgs key rest args) :
    (args.length < 4 ∨ args.length % 2 ≠ 0) ∨ (args.getD 1 default).bulk? = none := by
  by_cases harity : args.length < 4 ∨ args.length % 2 ≠ 0
  · exact .inl harity
  · right
    cases args with
    | nil => simp at harity
    | cons name args =>
      cases args with
      | nil => simp at harity
      | cons v rest =>
        show v.bulk? = none
        cases hkey : v.bulk? with
        | none => rfl
        | some key =>
          obtain rfl := bulk?_eq_some hkey
          simp only [List.length_cons] at harity
          exact absurd ⟨key, rest, name, rfl, by omega, by omega⟩ h

theorem handleHset_refuses {args : Args} (h : ¬ ∃ key rest, PairArgs key rest args) :
    Refuses (S := S) ["ERR HSET requires an even number of arguments (at least key, field, value)",
      "ERR HSET key must be a bulk string"] (handleHset args) := by
  by_cases harity : args.length < 4 ∨ args.length % 2 ≠ 0
  · exact ⟨_, List.mem_cons_self, fun d => if_pos harity⟩
  · have hkey := (not_pairArgs h).resolve_left harity
    exact ⟨_, List.mem_cons_of_mem _ List.mem_cons_self, fun d => by
      rw [handleHset, if_neg harity, hkey]⟩

theorem handleZadd_refuses {args : Args} (h : ¬ ∃ key rest, PairArgs key rest args) :
    Refuses (S := S) ["ERR ZADD requires an even number of arguments (at least key, score, member)",
      "ERR ZADD key must be a bulk string"] (handleZadd args) := by
  by_cases harity : args.length < 4 ∨ args.length % 2 ≠ 0
  · exact ⟨_, List.mem_cons_self, fun d => if_pos harity⟩
  · have hkey := (not_pairArgs h).resolve_left harity
    exact ⟨_, List.mem_cons_of_mem _ List.mem_cons_self, fun d => by
      rw [handleZadd, if_neg harity, hkey]⟩

theorem handleZadd_of_error {key : Bytes} {rest : List RespValue} {args : Args}
    (h : PairArgs key rest args) {msg : String}
    (hpairs : (zaddPairs rest : Except String (List (S × Bytes))) = .error msg) (d : Data S) :
    handleZadd args d = (errReply msg, d) := by
  rw [handleZadd, if_neg h.arity]
  obtain ⟨name, rfl, -, -⟩ := h
  simp only [List.getD_cons_succ, List.getD_cons_zero, RespValue.bulk?, List.drop_succ_cons,
    List.drop_zero, hpairs]

theorem zaddPairs_ne_nil {rest : List RespValue} {ps : List (S × Bytes)} (hlen : 2 ≤ rest.length)
    (h : zaddPairs rest = .ok ps) : ps ≠ [] := by
  cases rest with
  | nil => simp at hlen
  | cons a rest =>
    cases rest with
    | nil => simp at hlen
    | cons b rest =>
      rw [zaddPairs] at h
      split at h
      · split at h
        · simp at h
        · cases hrest : (zaddPairs rest : Except String (List (S × Bytes))) with
          | error msg => simp [hrest, Except.map] at h
          | ok qs =>
            simp only [hrest, Except.map, Except.ok.injEq] at h
            simp [← h]
      · simp at h

theorem handleZadd_of_ok {key : Bytes} {rest : List RespValue} {args : Args}
    (h : PairArgs key rest args) {ps : List (S × Bytes)} (hpairs : zaddPairs rest = .ok ps)
    (d : Data S) :
    handleZadd args d =
      (boolReply true, Database.incrementModCount key (Database.zadd key ps d).2) := by
  rw [handleZadd, if_neg h.arity]
  obtain ⟨name, rfl, hlen, -⟩ := h
  have hadded : (Database.zadd key ps d).1 = true := by
    simp [Database.zadd, zaddPairs_ne_nil hlen hpairs]
  simp only [List.getD_cons_succ, List.getD_cons_zero, RespValue.bulk?, List.drop_succ_cons,
    List.drop_zero, hpairs, hadded, if_true]

/-! ### Expiration commands -/

def handleExpire (now : ℤ) : Args → Data S → Bytes × Data S :=
  withDuration "ERR EXPIRE requires exactly 2 arguments" "ERR EXPIRE arguments must be bulk strings"
    "ERR EXPIRE seconds must be an integer" fun key seconds d =>
      let result := Database.expire now key seconds d
      (boolReply result.1,
        if result.1 then Database.incrementModCount key result.2 else result.2)

def handlePexpire (now : ℤ) : Args → Data S → Bytes × Data S :=
  withDuration "ERR PEXPIRE requires exactly 2 arguments"
    "ERR PEXPIRE arguments must be bulk strings" "ERR PEXPIRE milliseconds must be an integer"
    fun key milliseconds d =>
      let result := Database.pexpire now key milliseconds d
      (boolReply result.1,
        if result.1 then Database.incrementModCount key result.2 else result.2)

def handleTtl (now : ℤ) : Args → Data S → Bytes × Data S :=
  withKey "ERR TTL requires exactly 1 argument" "ERR TTL key must be a bulk string"
    fun key d =>
      let ttl := Database.ttl now key d
      (intReply ttl.1, ttl.2)

def handlePttl (now : ℤ) : Args → Data S → Bytes × Data S :=
  withKey "ERR PTTL requires exactly 1 argument" "ERR PTTL key must be a bulk string"
    fun key d =>
      let pttl := Database.pttl now key d
      (intReply pttl.1, pttl.2)

def handlePersist (now : ℤ) : Args → Data S → Bytes × Data S :=
  withKey "ERR PERSIST requires exactly 1 argument" "ERR PERSIST key must be a bulk string"
    fun key d =>
      let result := Database.persist now key d
      (boolReply result.1,
        if result.1 then Database.incrementModCount key result.2 else result.2)

end MinimalRedis
