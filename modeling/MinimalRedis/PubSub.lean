import MinimalRedis.Lib.Bytes
import MinimalRedis.Lib.UMap

/-!
# Publish/subscribe registry (`PubSubManager`, `db.cpp` lines 853–889)

The registry maps a channel to the vector of subscribed file descriptors, in subscription order and
with repetitions.  The mutex makes each method one atomic step.
-/

namespace MinimalRedis

open Lib

structure PubSubManager where
  subscribers : UMap Bytes (List ℤ) := ∅
deriving DecidableEq

namespace PubSubManager

def subscribe (clientFd : ℤ) (channel : Bytes) (r : PubSubManager) : PubSubManager :=
  ⟨r.subscribers.set channel ((r.subscribers.find? channel).getD [] ++ [clientFd])⟩

/-- `subscribers[channel]` creates the entry; an empty vector is erased again. -/
def unsubscribe (clientFd : ℤ) (channel : Bytes) (r : PubSubManager) : PubSubManager :=
  let subs := ((r.subscribers.find? channel).getD []).filter (· ≠ clientFd)
  if subs = [] then ⟨(r.subscribers.set channel subs).erase channel⟩
  else ⟨r.subscribers.set channel subs⟩

/-- The client leaves every vector; then the empty vectors are erased. -/
def unsubscribeAll (clientFd : ℤ) (r : PubSubManager) : PubSubManager :=
  ⟨(r.subscribers.mapValues fun subs => subs.filter (· ≠ clientFd)).filter fun _ subs => subs ≠ []⟩

def getSubscribers (channel : Bytes) (r : PubSubManager) : List ℤ :=
  (r.subscribers.find? channel).getD []

end PubSubManager

end MinimalRedis
