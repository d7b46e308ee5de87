import MinimalRedis.Database

/-!
# Runs of `Database` calls

A `Call` is one call of a `Database` method that can change the data (`query` stands for the
methods that only return a value).  `run` performs a list of calls in order: the RDB reader is
modelled by the calls it makes, and a reachable store is one that a list of calls builds from the
empty one.
-/

namespace MinimalRedis

open Lib

inductive Call (S : Type) [Score S] where
  | set (key value : Bytes)
  | get (now : ℤ) (key : Bytes)
  | del (key : Bytes)
  | keyExists (now : ℤ) (key : Bytes)
  | type (now : ℤ) (key : Bytes)
  | expire (now : ℤ) (key : Bytes) (seconds : ℤ)
  | pexpire (now : ℤ) (key : Bytes) (milliseconds : ℤ)
  | ttl (now : ℤ) (key : Bytes)
  | pttl (now : ℤ) (key : Bytes)
  | persist (now : ℤ) (key : Bytes)
  | incrementModCount (key : Bytes)
  | lpush (key : Bytes) (values : List Bytes)
  | rpush (key : Bytes) (values : List Bytes)
  | lpop (key : Bytes)
  | rpop (key : Bytes)
  | llen (now : ℤ) (key : Bytes)
  | sadd (key : Bytes) (members : List Bytes)
  | srem (key : Bytes) (members : List Bytes)
  | hset (key field value : Bytes)
  | hdel (key : Bytes) (fields : List Bytes)
  | zadd (key : Bytes) (members : List (S × Bytes))
  | zrem (key : Bytes) (members : List Bytes)
  /-- The assignment to `expiry_time` inside the RDB reader. -/
  | setExpiryTime (key : Bytes) (expiry : ℤ)
  | query

variable {S : Type} [Score S]

/-- `it->second.expiry_time = expiry_ms` on a found entry. -/
def Database.setExpiryTime (key : Bytes) (expiry : ℤ) (d : Data S) : Data S :=
  match d.find? key with
  | none => d
  | some v => d.set key { v with expiryTime := expiry }

namespace Call

def apply (d : Data S) : Call S → Data S
  | .set key value => Database.set key value d
  | .get now key => (Database.get now key d).2
  | .del key => (Database.del key d).2
  | .keyExists now key => (Database.keyExists now key d).2
  | .type now key => (Database.type now key d).2
  | .expire now key seconds => (Database.expire now key seconds d).2
  | .pexpire now key milliseconds => (Database.pexpire now key milliseconds d).2
  | .ttl now key => (Database.ttl now key d).2
  | .pttl now key => (Database.pttl now key d).2
  | .persist now key => (Database.persist now key d).2
  | .incrementModCount key => Database.incrementModCount key d
  | .lpush key values => (Database.lpush key values d).2
  | .rpush key values => (Database.rpush key values d).2
  | .lpop key => (Database.lpop key d).2
  | .rpop key => (Database.rpop key d).2
  | .llen now key => (Database.llen now key d).2
  | .sadd key members => (Database.sadd key members d).2
  | .srem key members => (Database.srem key members d).2
  | .hset key field value => Database.hset key field value d
  | .hdel key fields => (Database.hdel key fields d).2
  | .zadd key members => (Database.zadd key members d).2
  | .zrem key members => (Database.zrem key members d).2
  | .setExpiryTime key expiry => Database.setExpiryTime key expiry d
  | .query => d

/-- Perform the calls in order. -/
def run (calls : List (Call S)) (d : Data S) : Data S := calls.foldl apply d

@[simp] theorem run_nil (d : Data S) : run [] d = d := rfl

@[simp] theorem run_cons (c : Call S) (calls : List (Call S)) (d : Data S) :
    run (c :: calls) d = run calls (apply d c) := rfl

@[simp] theorem run_append (xs ys : List (Call S)) (d : Data S) :
    run (xs ++ ys) d = run ys (run xs d) := List.foldl_append

end Call

end MinimalRedis
