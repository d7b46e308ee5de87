import MinimalRedis.Calls

/-!
# Persistence (`db.cpp`, lines 573–851)

`saveRdb` is the byte content `save_rdb` writes, `loadRdb` the reader run over a byte content.  The
writer emits

    "REDIS" version FE 00 record* FF

and the reader is a separate opcode loop.  Reads are modelled on the remaining bytes: `readN n`
is `file.read(.., n)`, `none` a short read.  What the reader reads never depends on the store, so its
effect is the list of `Database` calls it makes, in order; a `return false` keeps the calls made
before it.

`saveToFile` / `loadTextCalls` are the older text format.
-/

namespace MinimalRedis

open Lib

variable {S : Type} [Score S]

def rdbOpcodeSelectdb : UInt8 := 0xFE
def rdbOpcodeEof : UInt8 := 0xFF
def rdbTypeString : UInt8 := 0x00
def rdbTypeList : UInt8 := 0x01
def rdbTypeSet : UInt8 := 0x02
def rdbTypeZset : UInt8 := 0x03
def rdbTypeHash : UInt8 := 0x04
def rdbOpcodeExpiretimeMs : UInt8 := 0xFC
def rdbMagic : Bytes := str "REDIS"
def rdbVersion : UInt8 := 9

/-! ### Writing -/

/-- One byte of length below 64, otherwise the flag byte and four bytes of length. -/
def writeLengthEncoded (s : Bytes) : Bytes :=
  let len := s.length % 2 ^ 32
  if len < 64 then UInt8.ofNat len :: s.take len
  else 0x80 :: (leBytes 4 len ++ s.take len)

/-- The switch on the value's type. -/
def saveRecord (key : Bytes) (v : RedisValue S) : Bytes :=
  match v.type with
  | .string => rdbTypeString :: (writeLengthEncoded key ++ writeLengthEncoded v.strVal)
  | .list =>
      rdbTypeList :: (writeLengthEncoded key ++ (leBytes 4 v.listVal.length ++
        v.listVal.flatMap writeLengthEncoded))
  | .set =>
      rdbTypeSet :: (writeLengthEncoded key ++ (leBytes 4 v.setVal.size ++
        v.setVal.keys.flatMap writeLengthEncoded))
  | .zset =>
      rdbTypeZset :: (writeLengthEncoded key ++ (leBytes 4 v.zsetMemberToScore.size ++
        v.zsetScoreToMember.entries.flatMap fun p =>
          writeLengthEncoded p.2 ++ Score.toBytes p.1))
  | .hash =>
      rdbTypeHash :: (writeLengthEncoded key ++ (leBytes 4 v.hashVal.size ++
        v.hashVal.entries.flatMap fun kv => writeLengthEncoded kv.1 ++ writeLengthEncoded kv.2))

/-- The expiry opcode, written for positive timestamps only. -/
def saveExpiry (v : RedisValue S) : Bytes :=
  if v.expiryTime > 0 then rdbOpcodeExpiretimeMs :: leBytes 8 (v.expiryTime % 2 ^ 64).toNat else []

def saveEntry (e : Bytes × RedisValue S) : Bytes := saveExpiry e.2 ++ saveRecord e.1 e.2

def saveRdb (d : Data S) : Bytes :=
  rdbMagic ++ rdbVersion :: rdbOpcodeSelectdb :: 0 ::
    (d.entries.flatMap saveEntry ++ [rdbOpcodeEof])

/-! ### Reading -/

def readN (n : ℕ) (bs : Bytes) : Option (Bytes × Bytes) :=
  if n ≤ bs.length then some (bs.take n, bs.drop n) else none

def readLengthEncoded (bs : Bytes) : Option (Bytes × Bytes) :=
  match bs with
  | [] => none
  | firstByte :: bs =>
      if firstByte &&& 0xC0 = 0 then readN (firstByte &&& 0x3F).toNat bs
      else if firstByte &&& 0xC0 = 0x80 then
        (readN 4 bs).bind fun x => readN (ofLE x.1) x.2
      else none

/-- The loops that collect `size` strings. -/
def readStrings : ℕ → Bytes → Option (List Bytes × Bytes)
  | 0, bs => some ([], bs)
  | size + 1, bs =>
      (readLengthEncoded bs).bind fun x =>
        (readStrings size x.2).map fun y => (x.1 :: y.1, y.2)

/-- The loop that collects `size` members with their scores. -/
def readMembers : ℕ → Bytes → Option (List (S × Bytes) × Bytes)
  | 0, bs => some ([], bs)
  | size + 1, bs =>
      (readLengthEncoded bs).bind fun x =>
        (readN 8 x.2).bind fun score =>
          (readMembers size score.2).map fun y => ((Score.ofBytes score.1, x.1) :: y.1, y.2)

/-- The hash loop enters each pair as it is read. -/
def readFields (key : Bytes) : ℕ → Bytes → List (Call S) × Option Bytes
  | 0, bs => ([], some bs)
  | size + 1, bs =>
      match readLengthEncoded bs with
      | none => ([], none)
      | some (field, bs) =>
          match readLengthEncoded bs with
          | none => ([], none)
          | some (value, bs) =>
              let x := readFields key size bs
              (.hset key field value :: x.1, x.2)

/-- A four-byte count and what follows it. -/
def readCount (bs : Bytes) : Option (ℕ × Bytes) := (readN 4 bs).map fun x => (ofLE x.1, x.2)

/-- The switch on the record type; `none` is `return false`. -/
def loadRecord (type : UInt8) (expiryMs : ℤ) (key : Bytes) (bs : Bytes) :
    List (Call S) × Option Bytes :=
  if type = rdbTypeString then
    match readLengthEncoded bs with
    | none => ([], none)
    | some (value, bs) =>
        (.set key value :: if expiryMs > 0 then [.setExpiryTime key expiryMs] else [], some bs)
  else if type = rdbTypeList then
    match (readCount bs).bind fun x => readStrings x.1 x.2 with
    | none => ([], none)
    | some (values, bs) => (values.map fun val => .rpush key [val], some bs)
  else if type = rdbTypeSet then
    match (readCount bs).bind fun x => readStrings x.1 x.2 with
    | none => ([], none)
    | some (members, bs) => ([.sadd key members], some bs)
  else if type = rdbTypeZset then
    match (readCount bs).bind fun x => readMembers x.1 x.2 with
    | none => ([], none)
    | some (members, bs) => ([.zadd key members], some bs)
  else if type = rdbTypeHash then
    match readCount bs with
    | none => ([], none)
    | some (size, bs) => readFields key size bs
  else if type = rdbOpcodeSelectdb then
    match bs with
    | [] => ([], none)
    | dbNum :: bs => if dbNum ≠ 0 then ([], none) else ([], some bs)
  else ([], some bs)

/-- The key is read **before** the switch, for every opcode. -/
def loadTyped (type : UInt8) (expiryMs : ℤ) (bs : Bytes) : List (Call S) × Option Bytes :=
  match readLengthEncoded bs with
  | none => ([], none)
  | some (key, bs) => loadRecord type expiryMs key bs

/-- The body of the opcode loop, after the test for `RDB_OPCODE_EOF`. -/
def loadEntry (opcode : UInt8) (bs : Bytes) : List (Call S) × Option Bytes :=
  if opcode = rdbOpcodeExpiretimeMs then
    match readN 8 bs with
    | none => ([], none)
    | some (_, []) => ([], none)
    | some (timestamp, opcode :: bs) => loadTyped opcode (wrap64 (ofLE timestamp)) bs
  else loadTyped opcode (-1) bs

/-- The opcode loop.  It ends with success at the EOF opcode **and** when no byte is left; `fuel`
bounds the iterations, each of which takes at least one byte. -/
def loadLoop : ℕ → Bytes → Bool × List (Call S)
  | 0, _ => (true, [])
  | _ + 1, [] => (true, [])
  | fuel + 1, opcode :: bs =>
      if opcode = rdbOpcodeEof then (true, [])
      else
        match loadEntry opcode bs with
        | (calls, none) => (false, calls)
        | (calls, some bs) =>
            let x := loadLoop fuel bs
            (x.1, calls ++ x.2)

/-- The result of `load_rdb` and the calls it makes. -/
def loadCalls (file : Bytes) : Bool × List (Call S) :=
  match readN 5 file with
  | none => (false, [])
  | some (magic, bs) =>
      if magic ≠ rdbMagic then (false, [])
      else
        match bs with
        | [] => (false, [])
        | _ :: bs => loadLoop bs.length bs

def loadRdb (file : Bytes) (d : Data S) : Bool × Data S :=
  let x := loadCalls file
  (x.1, Call.run x.2 d)

/-! ### The text format -/

def saveToFile (d : Data S) : Bytes :=
  d.entries.flatMap fun e =>
    if e.2.type = .string then str "string:" ++ e.1 ++ str "=" ++ e.2.strVal ++ str "\n" else []

/-- `std::getline` up to a separator that must be present for the next `getline` to succeed. -/
def splitFirst (sep : UInt8) (line : Bytes) : Option (Bytes × Bytes) :=
  if sep ∈ line then some (line.takeWhile (· ≠ sep), (line.dropWhile (· ≠ sep)).tail) else none

def loadLine (line : Bytes) : List (Call S) :=
  match splitFirst 58 line with
  | none => []
  | some (typeStr, rest) =>
      match splitFirst 61 rest with
      | none => []
      | some (key, value) =>
          if value ≠ [] ∧ typeStr = str "string" then [.set key value] else []

/-- The calls of `load_from_file`, line by line. -/
def loadTextCalls (file : Bytes) : List (Call S) := (file.splitOn 10).flatMap loadLine

end MinimalRedis
