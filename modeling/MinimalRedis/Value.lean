import MinimalRedis.Lib.Bytes
import MinimalRedis.Lib.UMap
import MinimalRedis.Lib.Multimap

/-!
# Values (`redis_value.h`)

A `RedisValue` carries a type tag, an expiry timestamp, a modification counter and **all five
payloads at once**; only the tag says which payload is in use.

Conventions of the whole model:

* byte strings are `List UInt8`, enumeration order of the unordered containers is the order of the
  entry list (`Lib.UMap`);
* the wall clock is a parameter `now`, in milliseconds;
* `int64_t` values are integers, with `wrap64` where the code computes on them;
* scores range over a type with a `Score` instance: a linear order with zero (no NaN), the text
  conversions `std::stod` and `std::to_string(double)`, and the eight bytes of the stored double.
-/

namespace MinimalRedis

open Lib

inductive RedisType where
  | string
  | list
  | set
  | hash
  | zset
deriving DecidableEq, Repr, Inhabited

/-- What the code uses of `double`.  The scores are linearly ordered, so NaN is none of them; `std::stod`
accepts it, and what a sorted set does with it is outside the model. -/
class Score (S : Type) extends LinearOrder S, Zero S where
  stod : Bytes → Option S
  toText : S → Bytes
  toBytes : S → Bytes
  ofBytes : Bytes → S
  length_toBytes : ∀ s, (toBytes s).length = 8
  ofBytes_toBytes : ∀ s, ofBytes (toBytes s) = s

/-- Natural scores below `2 ^ 64`, on which the model can be run. -/
abbrev NatScore := Fin (2 ^ 64)

instance : Score NatScore where
  toLinearOrder := inferInstance
  toZero := ⟨⟨0, by decide⟩⟩
  stod s := (readInteger s).bind fun x =>
    if h : x.1 = false ∧ x.2 < 2 ^ 64 then some ⟨x.2, h.2⟩ else none
  toText s := natBytes s.val ++ str ".000000"
  toBytes s := leBytes 8 s.val
  ofBytes bs := Fin.ofNat _ (ofLE bs)
  length_toBytes := by simp
  ofBytes_toBytes s := by
    rw [ofLE_leBytes (show s.val < 256 ^ 8 from s.isLt)]
    exact Fin.ofNat_val_eq_self s

/-- Two's complement reduction to 64 bits. -/
def wrap64 (z : ℤ) : ℤ := z.bmod (2 ^ 64)

/-- Two's complement reduction to 32 bits. -/
def wrap32 (z : ℤ) : ℤ := z.bmod (2 ^ 32)

structure RedisValue (S : Type) [Score S] where
  type : RedisType := .string
  expiryTime : ℤ := 0
  modCount : UInt64 := 0
  strVal : Bytes := []
  listVal : List Bytes := []
  setVal : USet Bytes := ∅
  hashVal : UMap Bytes Bytes := ∅
  zsetScoreToMember : Multimap S Bytes := ∅
  zsetMemberToScore : UMap Bytes S := ∅
deriving DecidableEq

namespace RedisValue

variable {S : Type} [Score S]

instance : Inhabited (RedisValue S) := ⟨{}⟩

/-- A zero timestamp means no expiry. -/
def isExpired (now : ℤ) (v : RedisValue S) : Bool :=
  if v.expiryTime = 0 then false else decide (now ≥ v.expiryTime)

def setExpirySeconds (now seconds : ℤ) (v : RedisValue S) : RedisValue S :=
  { v with expiryTime := wrap64 (now + wrap64 (seconds * 1000)) }

def setExpiryMilliseconds (now milliseconds : ℤ) (v : RedisValue S) : RedisValue S :=
  { v with expiryTime := wrap64 (now + milliseconds) }

def ttlSeconds (now : ℤ) (v : RedisValue S) : ℤ :=
  if v.expiryTime = 0 then -1
  else if now ≥ v.expiryTime then -2
  else (v.expiryTime - now).tdiv 1000

def ttlMilliseconds (now : ℤ) (v : RedisValue S) : ℤ :=
  if v.expiryTime = 0 then -1
  else if now ≥ v.expiryTime then -2
  else v.expiryTime - now

def persist (v : RedisValue S) : RedisValue S := { v with expiryTime := 0 }

/-- `mod_count++`, modulo `2 ^ 64`. -/
def bump (v : RedisValue S) : RedisValue S := { v with modCount := v.modCount + 1 }

theorem isExpired_congr {v w : RedisValue S} (h : v.expiryTime = w.expiryTime) (now : ℤ) :
    v.isExpired now = w.isExpired now := by simp only [isExpired, h]

theorem isExpired_of_expiryTime_zero {v : RedisValue S} (h : v.expiryTime = 0) (now : ℤ) :
    v.isExpired now = false := by simp [isExpired, h]

end RedisValue

/-- The `data` member of `Database`. -/
abbrev Data (S : Type) [Score S] := UMap Bytes (RedisValue S)

end MinimalRedis
