import MinimalRedis.Lib.Bytes
import MinimalRedis.Value

/-!
# Cluster configuration (`cluster.h`, `cluster.cpp`)

The configuration is global and read-only once `initialize_cluster_mvc` has run; `hash` stands for
`std::hash<std::string>`.  A slot is computed from an unsigned hash modulo a signed count, so the
count is first converted to `size_t` and the result back to `int`.
-/

namespace MinimalRedis

open Lib

structure ClusterNode where
  nodeId : Bytes
  ipAddress : Bytes
  port : ℤ
  isMaster : Bool
  assignedSlots : List ℤ
deriving DecidableEq

structure ClusterConfig where
  enabled : Bool := false
  myNodeId : Bytes := []
  nodes : List ClusterNode := []
  totalSlots : ℤ := 4

namespace ClusterConfig

/-- `std::hash(key) % total_slots`, unsigned.  With a slot count of zero the C++ remainder is undefined
where Lean's is the hash; `processCommand?` ends there. -/
def hashSlot (cfg : ClusterConfig) (hash : Bytes → UInt64) (key : Bytes) : ℕ :=
  (hash key).toNat % (cfg.totalSlots % 2 ^ 64).toNat

/-- The first node that lists the slot, the first node of all when none does. -/
def getNodeForKey (cfg : ClusterConfig) (hash : Bytes → UInt64) (key : Bytes) :
    Option ClusterNode :=
  if cfg.enabled then
    let slot := wrap32 (cfg.hashSlot hash key)
    match cfg.nodes.find? fun node => node.assignedSlots.contains slot with
    | some node => some node
    | none => cfg.nodes.head?
  else none

end ClusterConfig

def initializeClusterMvc : ClusterConfig where
  enabled := true
  myNodeId := str "node1"
  totalSlots := 4
  nodes :=
    [{ nodeId := str "node1", ipAddress := str "127.0.0.1", port := 6379, isMaster := true,
       assignedSlots := [0, 1] },
     { nodeId := str "node2", ipAddress := str "127.0.0.1", port := 6380, isMaster := false,
       assignedSlots := [2, 3] }]

end MinimalRedis
