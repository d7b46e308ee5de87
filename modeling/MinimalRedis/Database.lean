import MinimalRedis.Value

/-!
# The store (`db.cpp`, lines 16–570)

The methods of `Database` on its `data` member, as functions of the data that return the C++ result
beside the data after the call.  Four access patterns cover the methods:

* `ifLive` — find the entry, **erase it when expired**, otherwise use it (`exists`, `type`,
  `expire`, `pexpire`, `ttl`, `pttl`, `persist`);
* `ifTypedLive` — test the type first and the expiry second (`get`, `llen`);
* `readTyped`, `updateTyped` — test the type **only** (every other reader, the pops and removals);
* `writeThrough` — `auto& val = data[key]`, which creates a missing entry and inherits everything an
  old one holds (`set`, the pushes, `sadd`, `hset`, `zadd`).
-/

namespace MinimalRedis

open Lib

namespace Database

variable {S : Type} [Score S] {α : Type}

/-! ### Access patterns -/

def ifLive (now : ℤ) (absent : α) (live : RedisValue S → α × Data S) (key : Bytes) (d : Data S) :
    α × Data S :=
  match d.find? key with
  | none => (absent, d)
  | some v => if v.isExpired now then (absent, d.erase key) else live v

def ifTypedLive (now : ℤ) (type : RedisType) (absent : α) (live : RedisValue S → α) (key : Bytes)
    (d : Data S) : α × Data S :=
  match d.find? key with
  | none => (absent, d)
  | some v =>
      if v.type = type then
        if v.isExpired now then (absent, d.erase key) else (live v, d)
      else (absent, d)

def readTyped (type : RedisType) (absent : α) (read : RedisValue S → α) (key : Bytes)
    (d : Data S) : α :=
  match d.find? key with
  | none => absent
  | some v => if v.type = type then read v else absent

section ReadTyped

variable {type : RedisType} {absent : α} {read : RedisValue S → α} {key : Bytes} {d : Data S}

theorem readTyped_of_find? {v : RedisValue S} (hv : d.find? key = some v) (htype : v.type = type) :
    readTyped type absent read key d = read v := by
  rw [readTyped, hv]
  exact if_pos htype

theorem readTyped_of_other (h : ∀ v, d.find? key = some v → v.type ≠ type) :
    readTyped type absent read key d = absent := by
  rw [readTyped]
  split
  · rfl
  · rename_i v hv
    exact if_neg (h v hv)

/-- A read finds an entry of its type, or answers for a missing one. -/
theorem readTyped_cases (type : RedisType) (absent : α) (read : RedisValue S → α) (key : Bytes)
    (d : Data S) :
    (∃ v, d.find? key = some v ∧ v.type = type ∧ readTyped type absent read key d = read v) ∨
      ((∀ v, d.find? key = some v → v.type ≠ type) ∧ readTyped type absent read key d = absent) := by
  by_cases h : ∃ v, d.find? key = some v ∧ v.type = type
  · obtain ⟨v, hv, htype⟩ := h
    exact .inl ⟨v, hv, htype, readTyped_of_find? hv htype⟩
  · have hother : ∀ v, d.find? key = some v → v.type ≠ type := fun v hv htype => h ⟨v, hv, htype⟩
    exact .inr ⟨hother, readTyped_of_other hother⟩

/-- An answer other than the one for a missing key is read from an entry of the type. -/
theorem readTyped_eq_iff {x : α} (hx : x ≠ absent) :
    readTyped type absent read key d = x ↔ ∃ v, d.find? key = some v ∧ v.type = type ∧ read v = x := by
  obtain ⟨v, hv, htype, hread⟩ | ⟨hother, hread⟩ := readTyped_cases type absent read key d
  · rw [hread]
    constructor
    · intro h
      exact ⟨v, hv, htype, h⟩
    · rintro ⟨w, hw, -, h⟩
      rwa [Option.some.inj (hv.symm.trans hw)]
  · rw [hread]
    refine iff_of_false hx.symm ?_
    rintro ⟨w, hw, htype, -⟩
    exact hother w hw htype

/-- What is done with the answer can be done while reading. -/
theorem apply_readTyped {β : Type} (f : α → β) :
    f (readTyped type absent read key d) = readTyped type (f absent) (fun v => f (read v)) key d := by
  rw [readTyped, readTyped]
  split
  · rfl
  · exact apply_ite f _ _ _

end ReadTyped

def updateTyped (type : RedisType) (absent : α) (update : RedisValue S → α × RedisValue S)
    (key : Bytes) (d : Data S) : α × Data S :=
  match d.find? key with
  | none => (absent, d)
  | some v => if v.type = type then ((update v).1, d.set key (update v).2) else (absent, d)

def writeThrough (write : RedisValue S → RedisValue S) (key : Bytes) (d : Data S) : Data S :=
  d.set key (write ((d.find? key).getD default))

/-! ### String and generic operations -/

def set (key value : Bytes) (d : Data S) : Data S :=
  writeThrough (fun val => { val with type := .string, strVal := value }) key d

/-- The empty string stands for "not found". -/
def get (now : ℤ) (key : Bytes) (d : Data S) : Bytes × Data S :=
  ifTypedLive now .string [] (fun v => v.strVal) key d

def del (key : Bytes) (d : Data S) : Bool × Data S := ((d.find? key).isSome, d.erase key)

/-- `Database::exists`. -/
def keyExists (now : ℤ) (key : Bytes) (d : Data S) : Bool × Data S :=
  ifLive now false (fun _ => (true, d)) key d

/-- `String` is also the answer for a missing key. -/
def type (now : ℤ) (key : Bytes) (d : Data S) : RedisType × Data S :=
  ifLive now .string (fun v => (v.type, d)) key d

def keys (d : Data S) : List Bytes := d.keys

/-! ### Expiration -/

def expire (now : ℤ) (key : Bytes) (seconds : ℤ) (d : Data S) : Bool × Data S :=
  ifLive now false (fun v => (true, d.set key (v.setExpirySeconds now seconds))) key d

def pexpire (now : ℤ) (key : Bytes) (milliseconds : ℤ) (d : Data S) : Bool × Data S :=
  ifLive now false (fun v => (true, d.set key (v.setExpiryMilliseconds now milliseconds))) key d

def ttl (now : ℤ) (key : Bytes) (d : Data S) : ℤ × Data S :=
  ifLive now (-2) (fun v => (v.ttlSeconds now, d)) key d

def pttl (now : ℤ) (key : Bytes) (d : Data S) : ℤ × Data S :=
  ifLive now (-2) (fun v => (v.ttlMilliseconds now, d)) key d

def persist (now : ℤ) (key : Bytes) (d : Data S) : Bool × Data S :=
  ifLive now false (fun v => (true, d.set key v.persist)) key d

/-! ### Modification counters -/

def getModCount (key : Bytes) (d : Data S) : UInt64 :=
  match d.find? key with
  | some v => v.modCount
  | none => 0

/-- An absent key gets an empty string entry with counter one. -/
def incrementModCount (key : Bytes) (d : Data S) : Data S :=
  match d.find? key with
  | some v => d.set key v.bump
  | none => d.set key { type := .string, modCount := 1 }

/-! ### Lists -/

def lpush (key : Bytes) (values : List Bytes) (d : Data S) : ℕ × Data S :=
  let d' := writeThrough
    (fun val => { val with type := .list, listVal := values.reverse ++ val.listVal }) key d
  (((d'.find? key).getD default).listVal.length, d')

def rpush (key : Bytes) (values : List Bytes) (d : Data S) : ℕ × Data S :=
  let d' := writeThrough
    (fun val => { val with type := .list, listVal := val.listVal ++ values }) key d
  (((d'.find? key).getD default).listVal.length, d')

def lpop (key : Bytes) (d : Data S) : Bytes × Data S :=
  updateTyped .list [] (fun v => (v.listVal.headD [], { v with listVal := v.listVal.tail })) key d

def rpop (key : Bytes) (d : Data S) : Bytes × Data S :=
  updateTyped .list []
    (fun v => (v.listVal.getLastD [], { v with listVal := v.listVal.dropLast })) key d

def llen (now : ℤ) (key : Bytes) (d : Data S) : ℕ × Data S :=
  ifTypedLive now .list 0 (fun v => v.listVal.length) key d

/-- The index arithmetic shared by `lrange`, `zrange` and `zrevrange`: negative bounds count from the
end (`size_t` and `int` mixed, so modulo `2 ^ 32` once back in an `int`), then both are clamped. -/
def slice (l : List α) (start stop : ℤ) : List α :=
  let start := if start < 0 then wrap32 (l.length + start) else start
  let stop := if stop < 0 then wrap32 (l.length + stop) else stop
  let start := max 0 start
  let stop := min (wrap32 l.length - 1) stop
  if start ≤ stop then (l.drop start.toNat).take (stop - start + 1).toNat else []

def lrange (key : Bytes) (start stop : ℤ) (d : Data S) : List Bytes :=
  readTyped .list [] (fun v => slice v.listVal start stop) key d

/-- The element at `index`, or the empty string out of range. -/
def elementAt (l : List Bytes) (index : ℤ) : Bytes :=
  let index := if index < 0 then wrap32 (l.length + index) else index
  if 0 ≤ index ∧ index < l.length then l.getD index.toNat [] else []

def lindex (key : Bytes) (index : ℤ) (d : Data S) : Bytes :=
  readTyped .list [] (fun v => elementAt v.listVal index) key d

/-! ### Sets -/

def sadd (key : Bytes) (members : List Bytes) (d : Data S) : ℕ × Data S :=
  let before := ((d.find? key).getD default).setVal.size
  let d' := writeThrough
    (fun val => { val with type := .set, setVal := USet.insertMany val.setVal members }) key d
  (((d'.find? key).getD default).setVal.size - before, d')

def srem (key : Bytes) (members : List Bytes) (d : Data S) : ℕ × Data S :=
  updateTyped .set 0 (fun v =>
    let after := v.setVal.eraseMany members
    (v.setVal.size - after.size, { v with setVal := after })) key d

def sismember (key member : Bytes) (d : Data S) : Bool :=
  readTyped .set false (fun v => v.setVal.contains member) key d

def scard (key : Bytes) (d : Data S) : ℕ := readTyped .set 0 (fun v => v.setVal.size) key d

def smembers (key : Bytes) (d : Data S) : List Bytes :=
  readTyped .set [] (fun v => v.setVal.keys) key d

/-- The set stored at `key`; `none` for a missing key or another type. -/
def setAt (key : Bytes) (d : Data S) : Option (USet Bytes) :=
  readTyped .set none (fun v => some v.setVal) key d

def sinterLoop (d : Data S) : List Bytes → List Bytes → List Bytes
  | [], result => result
  | key :: keys, result =>
      match setAt key d with
      | none => []
      | some set2 => sinterLoop d keys (result.filter set2.contains)

def sinter (keys : List Bytes) (d : Data S) : List Bytes :=
  match keys with
  | [] => []
  | key :: keys =>
      match setAt key d with
      | none => []
      | some set1 => sinterLoop d keys set1.keys

/-- The loop of `sunion` over the sets found. -/
def unionOf (sets : List (USet Bytes)) : USet Bytes :=
  sets.foldl (fun union s => USet.insertMany union s.keys) ∅

def sunion (keys : List Bytes) (d : Data S) : List Bytes :=
  (unionOf (keys.filterMap fun key => setAt key d)).keys

def sdiff (keys : List Bytes) (d : Data S) : List Bytes :=
  match keys with
  | [] => []
  | key :: keys =>
      match setAt key d with
      | none => []
      | some first =>
          (keys.foldl (fun (diff : USet Bytes) key =>
            match setAt key d with
            | none => diff
            | some s => diff.eraseMany s.keys) first).keys

/-! ### Hashes -/

def hset (key field value : Bytes) (d : Data S) : Data S :=
  writeThrough (fun val => { val with type := .hash, hashVal := val.hashVal.set field value }) key d

def hget (key field : Bytes) (d : Data S) : Bytes :=
  readTyped .hash [] (fun v => (v.hashVal.find? field).getD []) key d

/-- A flag, not a count. -/
def hdel (key : Bytes) (fields : List Bytes) (d : Data S) : Bool × Data S :=
  updateTyped .hash false (fun v =>
    let after := v.hashVal.eraseMany fields
    (decide (after.size < v.hashVal.size), { v with hashVal := after })) key d

def hlen (key : Bytes) (d : Data S) : ℕ := readTyped .hash 0 (fun v => v.hashVal.size) key d

def hkeys (key : Bytes) (d : Data S) : List Bytes :=
  readTyped .hash [] (fun v => v.hashVal.keys) key d

def hvals (key : Bytes) (d : Data S) : List Bytes :=
  readTyped .hash [] (fun v => v.hashVal.values) key d

def hgetall (key : Bytes) (d : Data S) : UMap Bytes Bytes :=
  readTyped .hash ∅ (fun v => v.hashVal) key d

/-! ### Sorted sets -/

/-- One iteration of the `zadd` loop: drop the member's old pair, then enter it in both indexes. -/
def zaddOne (v : RedisValue S) (p : S × Bytes) : RedisValue S :=
  let byScore :=
    match v.zsetMemberToScore.find? p.2 with
    | some old => v.zsetScoreToMember.erase old p.2
    | none => v.zsetScoreToMember
  { v with
    zsetMemberToScore := v.zsetMemberToScore.set p.2 p.1
    zsetScoreToMember := byScore.insert p.1 p.2 }

/-- What one iteration keeps, the loop keeps: it touches the two indexes only. -/
theorem foldl_zaddOne_keeps (get : RedisValue S → α)
    (hget : ∀ v p, get (zaddOne v p) = get v) (ps : List (S × Bytes)) (v : RedisValue S) :
    get (ps.foldl zaddOne v) = get v := by
  induction ps generalizing v with
  | nil => rfl
  | cons p ps ih => rw [List.foldl_cons, ih, hget]

/-- The flag says that the list of pairs was not empty. -/
def zadd (key : Bytes) (members : List (S × Bytes)) (d : Data S) : Bool × Data S :=
  (!members.isEmpty,
    writeThrough (fun val => members.foldl zaddOne { val with type := .zset }) key d)

/-- One iteration of the `zrem` loop. -/
def zremOne (x : Bool × RedisValue S) (member : Bytes) : Bool × RedisValue S :=
  match x.2.zsetMemberToScore.find? member with
  | none => x
  | some score =>
      (true, { x.2 with
        zsetMemberToScore := x.2.zsetMemberToScore.erase member
        zsetScoreToMember := x.2.zsetScoreToMember.erase score member })

def zrem (key : Bytes) (members : List Bytes) (d : Data S) : Bool × Data S :=
  updateTyped .zset false (fun v => members.foldl zremOne (false, v)) key d

def zcard (key : Bytes) (d : Data S) : ℕ :=
  readTyped .zset 0 (fun v => v.zsetMemberToScore.size) key d

def zrange (key : Bytes) (start stop : ℤ) (d : Data S) : List Bytes :=
  readTyped .zset [] (fun v => slice (v.zsetScoreToMember.entries.map Prod.snd) start stop) key d

def zrevrange (key : Bytes) (start stop : ℤ) (d : Data S) : List Bytes :=
  readTyped .zset []
    (fun v => slice (v.zsetScoreToMember.entries.map Prod.snd).reverse start stop) key d

/-- Zero also stands for "no such member". -/
def zscore (key member : Bytes) (d : Data S) : S :=
  readTyped .zset 0 (fun v => (v.zsetMemberToScore.find? member).getD 0) key d

/-- The counting loop of `zrank`, which stops at the member itself. -/
def zrankLoop (score : S) (member : Bytes) : List (S × Bytes) → ℤ
  | [] => 0
  | p :: l =>
      if p.1 < score then zrankLoop score member l + 1
      else if p.1 = score ∧ p.2 < member then zrankLoop score member l + 1
      else if p.1 = score ∧ p.2 = member then 0
      else zrankLoop score member l

theorem zrankLoop_nonneg (score : S) (member : Bytes) (l : List (S × Bytes)) :
    0 ≤ zrankLoop score member l := by
  induction l with
  | nil => exact le_refl _
  | cons p l ih =>
    rw [zrankLoop]
    split
    · omega
    · split
      · omega
      · split
        · exact le_refl _
        · exact ih

def zrank (key member : Bytes) (d : Data S) : ℤ :=
  readTyped .zset (-1) (fun v =>
    match v.zsetMemberToScore.find? member with
    | none => -1
    | some score => zrankLoop score member v.zsetScoreToMember.entries) key d

end Database

end MinimalRedis
