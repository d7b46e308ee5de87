import MinimalRedis.Lib.Bytes

/-!
# RESP values and the server's parser (`resp.h`, `resp.cpp`)

`RespParser` walks a byte buffer with a position.  Positions and lengths are `size_t`, so the two
places that combine them are modelled modulo `2 ^ 64`:

* `read_line` computes `pos - start - 1`, which wraps for a line whose first byte is LF;
* `read_bulk_string` tests `pos + length + 2 > len`, which wraps for lengths near `2 ^ 64`.

Building a `std::string` or reserving a `std::vector` above its `max_size` throws
`std::length_error`; `grants` is the largest request the allocator serves, above it `std::bad_alloc`
is thrown.  Both limits count **elements**: the bytes of a string, the pointers of a vector, which take
sixteen bytes each, so that `reserve(n)` asks for `16 * n` bytes.  Exceptions are the `Except` error:
`runtimeError` is the one kind `handle_client` catches.

Array counts are unrelated to the buffer, so the mutual recursion `parse` / `parse_array` carries
fuel.  `fuelFor` is enough for every buffer (`RespParser.reads_parse`).
-/

namespace MinimalRedis

open Lib

/-- A value as the parser builds it. -/
inductive RespValue where
  | simpleString (str : Bytes)
  | error (str : Bytes)
  | integer (int : ℤ)
  | bulkString (str : Bytes)
  | array (elems : List RespValue)
deriving Inhabited, Repr

namespace RespValue

/-- The `str_val` member: empty unless the type has a string. -/
def strVal : RespValue → Bytes
  | .simpleString s => s
  | .error s => s
  | .bulkString s => s
  | .integer _ => []
  | .array _ => []

/-- The content of a bulk string; `none` for the other types. -/
def bulk? : RespValue → Option Bytes
  | .bulkString s => some s
  | _ => none

end RespValue

/-- The messages of the parser's `std::runtime_error`s. -/
inductive ParseMessage where
  | incompleteCommand
  | unknownRespType
  | invalidIntegerFormat
  | invalidBulkStringLength
  | invalidArrayLength
  | incompleteLine
  | incompleteBulkString
deriving DecidableEq, Repr

def ParseMessage.what : ParseMessage → Bytes
  | .incompleteCommand => str "Incomplete command"
  | .unknownRespType => str "Unknown RESP type"
  | .invalidIntegerFormat => str "Invalid integer format"
  | .invalidBulkStringLength => str "Invalid bulk string length"
  | .invalidArrayLength => str "Invalid array length"
  | .incompleteLine => str "Incomplete line"
  | .incompleteBulkString => str "Incomplete bulk string"

inductive ParseException where
  | runtimeError (msg : ParseMessage)
  | lengthError
  | badAlloc
  | outOfFuel
deriving DecidableEq, Repr

namespace RespParser

/-- `max_size` of `std::string`, in bytes. -/
def stringMaxSize : ℕ := 2 ^ 63 - 1

/-- `max_size` of `std::vector<std::shared_ptr<RespValue>>`, in elements of sixteen bytes. -/
def vectorMaxSize : ℕ := 2 ^ 59 - 1

/-- A request for `n` elements of a container with the given `max_size`, whatever the bytes of one. -/
def allocate (maxSize grants n : ℕ) : Except ParseException Unit :=
  if maxSize < n then .error .lengthError
  else if grants < n then .error .badAlloc
  else .ok ()

/-- `std::string(buf + start, n)`. -/
def makeString (grants : ℕ) (buf : Bytes) (start n : ℕ) : Except ParseException Bytes :=
  (allocate stringMaxSize grants n).map fun _ => (buf.drop start).take n

/-- The position of the first LF at or after `pos`. -/
def findLF (buf : Bytes) (pos : ℕ) : Option ℕ :=
  ((buf.drop pos).findIdx? (· = 10)).map (pos + ·)

/-- The line without its last byte (the CR), and the position behind the LF. -/
def readLine (grants : ℕ) (buf : Bytes) (start : ℕ) : Except ParseException (Bytes × ℕ) :=
  match findLF buf start with
  | none => .error (.runtimeError .incompleteLine)
  | some pos =>
      let lineLen := (pos + 2 ^ 64 - start - 1) % 2 ^ 64
      (makeString grants buf start lineLen).map fun line => (line, pos + 1)

def readBulkString (grants : ℕ) (buf : Bytes) (pos length : ℕ) :
    Except ParseException (Bytes × ℕ) :=
  if (pos + length + 2) % 2 ^ 64 > buf.length then .error (.runtimeError .incompleteBulkString)
  else (makeString grants buf pos length).map fun s => (s, (pos + length + 2) % 2 ^ 64)

/-- Drop one trailing CR, as `parse_simple_string` and `parse_error` do. -/
def popCR (line : Bytes) : Bytes := if line.getLast? = some 13 then line.dropLast else line

def parseSimpleString (grants : ℕ) (buf : Bytes) (pos : ℕ) :
    Except ParseException (RespValue × ℕ) :=
  (readLine grants buf pos).map fun x => (.simpleString (popCR x.1), x.2)

def parseError (grants : ℕ) (buf : Bytes) (pos : ℕ) : Except ParseException (RespValue × ℕ) :=
  (readLine grants buf pos).map fun x => (.error (popCR x.1), x.2)

def parseInteger (grants : ℕ) (buf : Bytes) (pos : ℕ) : Except ParseException (RespValue × ℕ) :=
  (readLine grants buf pos).bind fun x =>
    match stoll x.1 with
    | none => .error (.runtimeError .invalidIntegerFormat)
    | some n => .ok (.integer n, x.2)

/-- The null bulk string `-1` is read as the empty string. -/
def parseBulkString (grants : ℕ) (buf : Bytes) (pos : ℕ) : Except ParseException (RespValue × ℕ) :=
  (readLine grants buf pos).bind fun x =>
    if x.1 = str "-1" then .ok (.bulkString [], x.2)
    else
      match stoul x.1 with
      | none => .error (.runtimeError .invalidBulkStringLength)
      | some length =>
          (readBulkString grants buf x.2 length).map fun y => (.bulkString y.1, y.2)

/-- The head of `parse_array`: the count, once the vector is reserved. -/
def readArrayCount (grants : ℕ) (buf : Bytes) (pos : ℕ) : Except ParseException (ℕ × ℕ) :=
  (readLine grants buf pos).bind fun x =>
    match stoul x.1 with
    | none => .error (.runtimeError .invalidArrayLength)
    | some count => (allocate vectorMaxSize grants count).map fun _ => (count, x.2)

mutual

/-- `parse` from position `pos`. -/
def parseFrom (grants : ℕ) (buf : Bytes) : ℕ → ℕ → Except ParseException (RespValue × ℕ)
  | 0, _ => .error .outOfFuel
  | fuel + 1, pos =>
      match buf[pos]? with
      | none => .error (.runtimeError .incompleteCommand)
      | some typeChar =>
          if typeChar = 43 then parseSimpleString grants buf (pos + 1)
          else if typeChar = 45 then parseError grants buf (pos + 1)
          else if typeChar = 58 then parseInteger grants buf (pos + 1)
          else if typeChar = 36 then parseBulkString grants buf (pos + 1)
          else if typeChar = 42 then
            (readArrayCount grants buf (pos + 1)).bind fun x =>
              (parseElems grants buf fuel x.1 x.2).map fun y => (.array y.1, y.2)
          else .error (.runtimeError .unknownRespType)

/-- The loop of `parse_array`: `count` further elements. -/
def parseElems (grants : ℕ) (buf : Bytes) :
    ℕ → ℕ → ℕ → Except ParseException (List RespValue × ℕ)
  | 0, _, _ => .error .outOfFuel
  | _ + 1, 0, pos => .ok ([], pos)
  | fuel + 1, count + 1, pos =>
      (parseFrom grants buf fuel pos).bind fun x =>
        (parseElems grants buf fuel count x.2).map fun y => (x.1 :: y.1, y.2)

end

/-- Twice the bytes, and two: an element takes a byte and a round of the loop. -/
def fuelFor (buf : Bytes) : ℕ := 2 * buf.length + 2

/-- `parse` on a fresh parser: the value and `get_consumed_bytes`. -/
def parse (grants : ℕ) (buf : Bytes) : Except ParseException (RespValue × ℕ) :=
  parseFrom grants buf (fuelFor buf) 0

end RespParser

end MinimalRedis
