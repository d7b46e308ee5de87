import MinimalRedis.Processor

/-!
# Slot map and routing

Who owns a slot is computed in three places: `get_node_for_key` looks the slot up in the nodes'
`assigned_slots`, `CLUSTER SLOTS` deals the slots out **in turn, whatever was assigned**, and the
`MOVED` reply names the node that `get_node_for_key` returned.

* `getNodeForKey_eq` — with every slot assigned once, the node that lists the slot;
* `processCommand_foreign` — a routed command on another node's key is answered with that node;
* `slots_route_iff` — the slot map and the routing name one node exactly when the slot was assigned to
  the node whose turn it is.
-/

namespace MinimalRedis

open Lib

variable {S : Type} [Score S] {Λ : Type}

namespace ClusterConfig

/-- Every slot is assigned to exactly one of the nodes. -/
def SlotsAssigned (cfg : ClusterConfig) : Prop :=
  ∀ slot : ℤ, 0 ≤ slot → slot < cfg.totalSlots → ∃ i : ℕ,
    (∃ node, cfg.nodes[i]? = some node ∧ slot ∈ node.assignedSlots) ∧
    ∀ j node, cfg.nodes[j]? = some node → slot ∈ node.assignedSlots → j = i

/-- The node `CLUSTER SLOTS` reports for a slot. -/
def reportedNode (cfg : ClusterConfig) (slot : ℕ) : Option ClusterNode :=
  cfg.nodes[slot % cfg.nodes.length]?

section Slots

variable {cfg : ClusterConfig} (hpos : 0 < cfg.totalSlots) (hint : cfg.totalSlots < 2 ^ 31)

include hpos hint

theorem hashSlot_lt (hash : Bytes → UInt64) (key : Bytes) :
    (cfg.hashSlot hash key : ℤ) < cfg.totalSlots := by
  have hmod : cfg.totalSlots % 2 ^ 64 = cfg.totalSlots := Int.emod_eq_of_lt hpos.le (by omega)
  have hlt : cfg.hashSlot hash key < cfg.totalSlots.toNat := by
    rw [hashSlot, hmod]
    exact Nat.mod_lt _ (by omega)
  omega

/-- The slot survives the conversion to `int`. -/
theorem wrap32_hashSlot (hash : Bytes → UInt64) (key : Bytes) :
    wrap32 (cfg.hashSlot hash key) = cfg.hashSlot hash key := by
  have hlt := hashSlot_lt hpos hint hash key
  exact Int.bmod_eq_of_le (by omega) (by omega)

/-- A node that lists the key's slot is the node of the key. -/
theorem getNodeForKey_eq (henabled : cfg.enabled = true) (hslots : cfg.SlotsAssigned)
    {hash : Bytes → UInt64} {key : Bytes} {i : ℕ} {node : ClusterNode}
    (hnode : cfg.nodes[i]? = some node)
    (hmem : (cfg.hashSlot hash key : ℤ) ∈ node.assignedSlots) :
    cfg.getNodeForKey hash key = some node := by
  have hlt := hashSlot_lt hpos hint hash key
  obtain ⟨i', -, huniq⟩ := hslots _ (by omega) hlt
  unfold getNodeForKey
  rw [if_pos henabled, wrap32_hashSlot hpos hint]
  cases hfind : cfg.nodes.find? fun node => node.assignedSlots.contains (cfg.hashSlot hash key : ℤ) with
  | none =>
    have hnone := List.find?_eq_none.mp hfind node (List.mem_of_getElem? hnode)
    rw [List.contains_iff_mem] at hnone
    exact absurd hmem hnone
  | some found =>
    obtain ⟨j, hj⟩ := List.mem_iff_getElem?.mp (List.mem_of_find?_eq_some hfind)
    have hlists : (cfg.hashSlot hash key : ℤ) ∈ found.assignedSlots := by
      have hp := List.find?_some hfind
      rwa [List.contains_iff_mem] at hp
    have hij : j = i := (huniq j found hj hlists).trans (huniq i node hnode hmem).symm
    rw [hij, hnode] at hj
    simp only [hfind]
    exact hj.symm

/-- The node of the key lists its slot. -/
theorem exists_getNodeForKey (henabled : cfg.enabled = true) (hslots : cfg.SlotsAssigned)
    (hash : Bytes → UInt64) (key : Bytes) :
    ∃ node, cfg.getNodeForKey hash key = some node ∧
      (cfg.hashSlot hash key : ℤ) ∈ node.assignedSlots := by
  obtain ⟨i, ⟨node, hnode, hmem⟩, -⟩ := hslots _ (by omega) (hashSlot_lt hpos hint hash key)
  exact ⟨node, getNodeForKey_eq hpos hint henabled hslots hnode hmem, hmem⟩

end Slots

end ClusterConfig

/-! ### The replies -/

/-- The entry of `CLUSTER SLOTS` for one slot and its node. -/
def slotEntry (slot : ℕ) (node : ClusterNode) : Bytes :=
  str "*3\r\n" ++ intReply slot ++ intReply slot ++ str "*3\r\n" ++ bulkReply node.ipAddress ++
    intReply node.port ++ bulkReply node.nodeId

theorem slotLine_of_reportedNode {cfg : ClusterConfig} {slot : ℕ} {node : ClusterNode}
    (h : cfg.reportedNode slot = some node) : slotLine cfg slot = slotEntry slot node := by
  unfold slotLine
  rw [ClusterConfig.reportedNode] at h
  rw [h]
  rfl

/-- A routed command on a key of another node, sent outside a transaction: the reply names that node
and nothing happens. -/
theorem processCommand_foreign {env : Env Λ} {s : Session S Λ} {name key : Bytes} {cmd : Command}
    {node : ClusterNode} (now : ℤ) (rest : Args) (henabled : env.cluster.enabled = true)
    (hidle : s.self.inTransaction = false) (hcmd : Command.ofName name = some cmd)
    (hrouted : cmd.routed = true) (hnode : env.cluster.getNodeForKey env.hash key = some node)
    (hother : node.nodeId ≠ env.cluster.myNodeId) :
    processCommand env now (.array (.bulkString name :: .bulkString key :: rest)) s =
      (movedReply env key node, s) := by
  simp [processCommand, hidle, routeAndDispatch, redirect, hcmd, hrouted, henabled, RespValue.bulk?,
    hnode, hother]

/-! ### Agreement -/

/-- One node is reported for the key's slot, routed to and named by every `MOVED` reply. -/
def SlotMapAgrees (S : Type) [Score S] (env : Env Λ) (key : Bytes) : Prop :=
  let slot := env.cluster.hashSlot env.hash key
  ∃ node, (env.cluster.reportedNode slot = some node ∧
      slotLine env.cluster slot = slotEntry slot node) ∧
    env.cluster.getNodeForKey env.hash key = some node ∧
    ∀ (now : ℤ) (name : Bytes) (cmd : Command) (rest : Args) (s : Session S Λ),
      s.self.inTransaction = false → Command.ofName name = some cmd → cmd.routed = true →
      node.nodeId ≠ env.cluster.myNodeId →
        processCommand env now (.array (.bulkString name :: .bulkString key :: rest)) s =
          (movedReply env key node, s)

/-- Slot map and routing agree on a key **exactly when** its slot is assigned to the node whose turn
it is. -/
theorem slots_route_iff (env : Env Λ) (key : Bytes) (henabled : env.cluster.enabled = true)
    (hpos : 0 < env.cluster.totalSlots) (hint : env.cluster.totalSlots < 2 ^ 31)
    (hslots : env.cluster.SlotsAssigned) :
    SlotMapAgrees S env key ↔
      ∃ node, env.cluster.nodes[env.cluster.hashSlot env.hash key % env.cluster.nodes.length]? =
        some node ∧ (env.cluster.hashSlot env.hash key : ℤ) ∈ node.assignedSlots := by
  constructor
  · rintro ⟨node, ⟨hreported, -⟩, hnode, -⟩
    obtain ⟨node', hnode', hmem⟩ :=
      ClusterConfig.exists_getNodeForKey hpos hint henabled hslots env.hash key
    rw [hnode, Option.some.injEq] at hnode'
    exact ⟨node, hreported, hnode' ▸ hmem⟩
  · rintro ⟨node, hreported, hmem⟩
    have hnode := ClusterConfig.getNodeForKey_eq hpos hint henabled hslots hreported hmem
    refine ⟨node, ⟨hreported, slotLine_of_reportedNode hreported⟩, hnode, ?_⟩
    intro now name cmd rest s hidle hcmd hrouted hother
    exact processCommand_foreign now rest henabled hidle hcmd hrouted hnode hother

/-- The demo cluster with a hash that puts a key into the slot of its first byte. -/
def demoEnv : Env Unit where
  cluster := initializeClusterMvc
  hash key := (key.headD 0).toUInt64
  vm := Env.standalone.vm

theorem demo_slotsAssigned : initializeClusterMvc.SlotsAssigned := by
  intro slot hpos hlt
  replace hlt : slot < 4 := hlt
  have hnodes : ∀ j node, initializeClusterMvc.nodes[j]? = some node → slot ∈ node.assignedSlots →
      (j = 0 ∧ slot < 2) ∨ (j = 1 ∧ 2 ≤ slot) := by
    intro j node hj hmem
    rcases j with _ | _ | j
    · obtain rfl := Option.some.inj hj
      have hslot : slot ∈ [(0 : ℤ), 1] := hmem
      simp at hslot
      omega
    · obtain rfl := Option.some.inj hj
      have hslot : slot ∈ [(2 : ℤ), 3] := hmem
      simp at hslot
      omega
    · cases hj
  by_cases hfirst : slot < 2
  · refine ⟨0, ⟨_, rfl, ?_⟩, fun j node hj hmem => ?_⟩
    · show slot ∈ [(0 : ℤ), 1]
      simp
      omega
    · have := hnodes j node hj hmem
      omega
  · refine ⟨1, ⟨_, rfl, ?_⟩, fun j node hj hmem => ?_⟩
    · show slot ∈ [(2 : ℤ), 3]
      simp
      omega
    · have := hnodes j node hj hmem
      omega

/-- A key in slot 0 of the demo cluster. -/
theorem slots_route_slot_zero : SlotMapAgrees NatScore demoEnv [0] :=
  (slots_route_iff demoEnv [0] rfl (by decide) (by decide) demo_slotsAssigned).mpr
    ⟨_, rfl, by decide⟩

/-- A key in slot 1 of the demo cluster: routed to `node1`, reported at `node2`. -/
theorem slots_report_other_node :
    demoEnv.cluster.hashSlot demoEnv.hash [1] = 1 ∧
    (demoEnv.cluster.getNodeForKey demoEnv.hash [1]).map ClusterNode.nodeId = some (str "node1") ∧
    (demoEnv.cluster.reportedNode 1).map ClusterNode.nodeId = some (str "node2") ∧
    ¬ SlotMapAgrees NatScore demoEnv [1] := by
  refine ⟨by decide, by decide, by decide, ?_⟩
  rintro ⟨node, ⟨hreported, -⟩, hnode, -⟩
  have hne : demoEnv.cluster.reportedNode 1 ≠ demoEnv.cluster.getNodeForKey demoEnv.hash [1] := by
    decide
  exact hne (hreported.trans hnode.symm)

end MinimalRedis
