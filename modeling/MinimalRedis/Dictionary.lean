import Mathlib.Data.Set.Card
import MinimalRedis.ListQueue

/-!
# A dictionary of typed objects

What the store is for: every key stands for an object of one type, or for nothing.  A string is a byte
string, a list a sequence, a set a set, a hash a partial function, a sorted set a partial function to
the scores.  An operation on an object belongs to its type, so that none can be applied to another.

* `StoreOp.effect` — what an operation does to the dictionary;
* `StoreOp.Answers` — what it may answer; where the order is open, every order is an answer.
-/

namespace MinimalRedis

open Lib

/-- The objects of a type. -/
abbrev Object (S : Type) : RedisType → Type
  | .string => Bytes
  | .list => List Bytes
  | .set => Set Bytes
  | .hash => Bytes → Option Bytes
  | .zset => Bytes → Option S

/-- What a missing key counts as. -/
def Object.empty {S : Type} : (t : RedisType) → Object S t
  | .string => []
  | .list => []
  | .set => ∅
  | .hash => fun _ => none
  | .zset => fun _ => none

/-- The operations of a type. -/
inductive ObjectOp (S : Type) : RedisType → Type where
  | set (value : Bytes) : ObjectOp S .string
  | get : ObjectOp S .string
  | list (op : ListOp) : ObjectOp S .list
  | sadd (members : List Bytes) : ObjectOp S .set
  | srem (members : List Bytes) : ObjectOp S .set
  | sismember (member : Bytes) : ObjectOp S .set
  | scard : ObjectOp S .set
  | smembers : ObjectOp S .set
  | hset (field value : Bytes) : ObjectOp S .hash
  | hget (field : Bytes) : ObjectOp S .hash
  | hdel (fields : List Bytes) : ObjectOp S .hash
  | hlen : ObjectOp S .hash
  | hkeys : ObjectOp S .hash
  | hvals : ObjectOp S .hash
  | hgetall : ObjectOp S .hash
  | zadd (members : List (S × Bytes)) : ObjectOp S .zset
  | zrem (members : List Bytes) : ObjectOp S .zset
  | zcard : ObjectOp S .zset
  | zrange (start stop : Int32) : ObjectOp S .zset
  | zrevrange (start stop : Int32) : ObjectOp S .zset
  | zscore (member : Bytes) : ObjectOp S .zset
  | zrank (member : Bytes) : ObjectOp S .zset

/-- What an operation answers. -/
inductive Out (S : Type) where
  | done
  | flag (b : Bool)
  | count (n : ℕ)
  | time (z : ℤ)
  | type (t : RedisType)
  | element (s : Bytes)
  | elements (l : List Bytes)
  | pairs (l : List (Bytes × Bytes))
  | score (s : S)
  | rank (z : ℤ)
  | list (out : ListOut)

/-! ### Objects -/

section Objects

variable {S : Type} [Score S] {α V : Type}

/-- The list has each element of the set once. -/
def Lists (m : Set α) (l : List α) : Prop := l.Nodup ∧ ∀ x, x ∈ l ↔ x ∈ m

/-- The list has each pair of the partial function once. -/
def Graph (h : α → Option V) (l : List (α × V)) : Prop :=
  (l.map Prod.fst).Nodup ∧ ∀ k v, (k, v) ∈ l ↔ h k = some v

/-- The pairs of a score and a member by ascending scores; members with one score come in any order. -/
def Ranking (z : Bytes → Option S) (l : List (S × Bytes)) : Prop :=
  Graph z (l.map Prod.swap) ∧ l.Pairwise fun p q => p.1 ≤ q.1

/-- The partial function without some of its keys. -/
def without [DecidableEq α] (ks : List α) (h : α → Option V) (k : α) : Option V :=
  if k ∈ ks then none else h k

def contents {t : RedisType} (x : Option (Object S t)) : Object S t := x.getD (.empty t)

namespace ObjectOp

/-- The object after the operation.  Writes make a missing object; removals do not, and leave an empty
one where they take the last element. -/
def effect : {t : RedisType} → ObjectOp S t → Option (Object S t) → Option (Object S t)
  | _, .set value, _ => some value
  | _, .list (.lpush values), x => some ((ListOp.lpush values).apply (contents x)).2
  | _, .list (.rpush values), x => some ((ListOp.rpush values).apply (contents x)).2
  | _, .list op, x => x.map fun q => (op.apply q).2
  | _, .sadd members, x => some (contents x ∪ {m | m ∈ members})
  | _, .srem members, x => x.map fun m => m \ {x | x ∈ members}
  | _, .hset field value, x =>
      some (Function.update (contents x) field (some value))
  | _, .hdel fields, x => x.map (without fields)
  | _, .zadd members, x =>
      some (members.foldl (fun z p => Function.update z p.2 (some p.1))
        (contents x))
  | _, .zrem members, x => x.map (without members)
  | _, _, x => x

/-- What the operation may answer when the object has these contents.  A rank is the number of pairs
before the member in some ranking, without those of its own score that have a greater name. -/
def Answers : {t : RedisType} → ObjectOp S t → Object S t → Out S → Prop
  | _, .set _, _, out => out = .done
  | _, .get, s, out => out = .element s
  | _, .list op, q, out => q.length < 2 ^ 31 → out = .list (op.apply q).1
  | _, .sadd members, m, out => out = .count ({x | x ∈ members} \ m).ncard
  | _, .srem members, m, out => out = .count (m ∩ {x | x ∈ members}).ncard
  | _, .sismember x, m, out => ∃ b, out = .flag b ∧ (b = true ↔ x ∈ m)
  | _, .scard, m, out => out = .count m.ncard
  | _, .smembers, m, out => ∃ l, out = .elements l ∧ Lists m l
  | _, .hset _ _, _, out => out = .done
  | _, .hget f, h, out => out = .element ((h f).getD [])
  | _, .hdel fields, h, out =>
      ∃ b, out = .flag b ∧ (b = true ↔ ∃ f ∈ fields, (h f).isSome = true)
  | _, .hlen, h, out => out = .count {f | (h f).isSome = true}.ncard
  | _, .hkeys, h, out => ∃ l, out = .elements (l.map Prod.fst) ∧ Graph h l
  | _, .hvals, h, out => ∃ l, out = .elements (l.map Prod.snd) ∧ Graph h l
  | _, .hgetall, h, out => ∃ l, out = .pairs l ∧ Graph h l
  | _, .zadd members, _, out => out = .flag (!members.isEmpty)
  | _, .zrem members, z, out =>
      ∃ b, out = .flag b ∧ (b = true ↔ ∃ m ∈ members, (z m).isSome = true)
  | _, .zcard, z, out => out = .count {m | (z m).isSome = true}.ncard
  | _, .zrange start stop, z, out => ∃ l, Ranking z l ∧ (l.length < 2 ^ 31 → out = .elements
      (between (position l.length start.toInt) (position l.length stop.toInt) (l.map Prod.snd)))
  | _, .zrevrange start stop, z, out => ∃ l, Ranking z l ∧ (l.length < 2 ^ 31 → out = .elements
      (between (position l.length start.toInt) (position l.length stop.toInt) (l.map Prod.snd).reverse))
  | _, .zscore member, z, out => out = .score ((z member).getD 0)
  | _, .zrank member, z, out => (z member = none ∧ out = .rank (-1)) ∨
      ∃ score before after, Ranking z (before ++ (score, member) :: after) ∧
        out = .rank (before.countP fun p => p.1 < score ∨ p.1 = score ∧ p.2 < member)

end ObjectOp

end Objects

/-! ### The dictionary -/

/-- A dictionary whose keys have the types that `Γ` says. -/
abbrev Dict (S : Type) (Γ : Bytes → RedisType) : Type := (key : Bytes) → Option (Object S (Γ key))

/-- An operation on the object of a key, or one that any key allows. -/
inductive StoreOp (S : Type) (Γ : Bytes → RedisType) where
  | on (key : Bytes) (op : ObjectOp S (Γ key))
  | del (key : Bytes)
  | keyExists (key : Bytes)
  | type (key : Bytes)
  | ttl (key : Bytes)
  | pttl (key : Bytes)
  | persist (key : Bytes)
  | keys
  | sinter (key : Bytes) (others : List Bytes)
  | sunion (key : Bytes) (others : List Bytes)
  | sdiff (key : Bytes) (others : List Bytes)

section Dict

variable {S : Type} [Score S] {Γ : Bytes → RedisType}

/-- The set an object is; the objects of another type count as none. -/
def Object.asSet : (t : RedisType) → Object S t → Set Bytes
  | .set, m => m
  | _, _ => ∅

def Dict.setAt (x : Dict S Γ) (key : Bytes) : Set Bytes := Object.asSet (Γ key) (contents (x key))

namespace StoreOp

def effect (op : StoreOp S Γ) (x : Dict S Γ) : Dict S Γ :=
  match op with
  | .on key op => Function.update x key (op.effect (x key))
  | .del key => Function.update x key none
  | _ => x

/-- Nothing expires: what is there has no time to live, and `PERSIST` finds it. -/
def Answers (op : StoreOp S Γ) (x : Dict S Γ) (out : Out S) : Prop :=
  match op with
  | .on key op => op.Answers (contents (x key)) out
  | .del key | .keyExists key | .persist key => out = .flag (x key).isSome
  | .type key => out = .type (if (x key).isSome = true then Γ key else .string)
  | .ttl key | .pttl key => out = .time (if (x key).isSome = true then -1 else -2)
  | .keys => ∃ l, out = .elements l ∧ Lists {key | (x key).isSome = true} l
  | .sinter key others => ∃ l, out = .elements l ∧ Lists (⋂ k ∈ key :: others, x.setAt k) l
  | .sunion key others => ∃ l, out = .elements l ∧ Lists (⋃ k ∈ key :: others, x.setAt k) l
  | .sdiff key others => ∃ l, out = .elements l ∧ Lists (x.setAt key \ ⋃ k ∈ others, x.setAt k) l

end StoreOp

end Dict

end MinimalRedis
