/-
  Cluster membership of one VM: the nodes it knows, the epoch in which it last accepted each
  of them, and the ten calls that change them.

  The calls are translated one by one and then described once, from the point of view of a
  single node: `NodeStep` lists everything that one call can do to a node, and `call_step`
  proves it of all ten. Every result below is read off `NodeStep`.

  * `call_wellFormed`, `run_wellFormed`: the nodes and the epochs have the same keys.
  * `run_fenced`: a fenced node stays fenced for good.
  * `run_advances`: while a node is not pruned, its accepted epochs are strictly increasing
    and it is never seen earlier than before.

  Pruning forgets the epoch of a node together with its snapshot. A node that is joined
  again afterwards starts over with any epoch (`pruned_node_rejoins_earlier`), so the
  last result cannot be extended over a pruning of the node.
-/
import Terlan.Lib.Replay
import Terlan.Lib.TreeMap
import Terlan.Coordination.Profile

namespace Terlan.Coordination

open Terlan.Lib List
open Std (ExtTreeMap ExtTreeSet)

/-! ## The membership view -/

inductive VmClusterNodeState where
  | active
  | left
  | unreachable
  | fenced
deriving DecidableEq

structure VmClusterNodeSnapshot where
  appId : String
  vmId : String
  nodeId : String
  state : VmClusterNodeState
  lastSeenTick : Nat
  roleTags : List String

/-- Role tags are kept sorted and without repetition. -/
def VmClusterNodeSnapshot.fromProfile (profile : VmCoordinationProfile)
    (state : VmClusterNodeState) (lastSeenTick : Nat) (roleTags : List String) :
    VmClusterNodeSnapshot where
  appId := profile.appId
  vmId := profile.vmId
  nodeId := profile.nodeId
  state := state
  lastSeenTick := lastSeenTick
  roleTags := (ExtTreeSet.ofList roleTags).toList

structure VmClusterMembership where
  localProfile : VmCoordinationProfile
  heartbeatTimeoutTicks : Nat
  nodes : ExtTreeMap String VmClusterNodeSnapshot
  nodeEpochs : ExtTreeMap String UInt64

namespace VmClusterMembership

def new (localProfile : VmCoordinationProfile) (heartbeatTimeoutTicks : Nat) :
    Except String VmClusterMembership :=
  if heartbeatTimeoutTicks = 0 then
    .error "error[vm_cluster_membership]: heartbeat timeout ticks must be non-zero"
  else
    .ok
      { localProfile
        heartbeatTimeoutTicks
        nodes := (∅ : ExtTreeMap _ _).insert localProfile.nodeId
          (VmClusterNodeSnapshot.fromProfile localProfile .active 0 ["local"])
        nodeEpochs := (∅ : ExtTreeMap _ _).insert localProfile.nodeId localProfile.epoch }

/-- Stores a snapshot and an accepted epoch under one node id. -/
def accept (membership : VmClusterMembership) (nodeId : String) (node : VmClusterNodeSnapshot)
    (epoch : UInt64) : VmClusterMembership :=
  { membership with
    nodes := membership.nodes.insert nodeId node
    nodeEpochs := membership.nodeEpochs.insert nodeId epoch }

/-- Writes through the reference that `nodes.get_mut(node_id)` found. -/
def setNode (membership : VmClusterMembership) (nodeId : String)
    (node : VmClusterNodeSnapshot) : VmClusterMembership :=
  { membership with nodes := membership.nodes.insert nodeId node }

def joinPeer (membership : VmClusterMembership) (peer : VmCoordinationProfile) (tick : Nat)
    (roleTags : List String) : VmClusterMembership × Except String Unit :=
  if ¬ membership.localProfile.canCoordinateWith peer then
    (membership,
      .error "error[vm_cluster_membership]: incompatible VM coordination profile")
  else if (membership.nodes[peer.nodeId]?).map (·.state) = some .fenced then
    (membership,
      .error s!"error[vm_cluster_membership]: fenced node `{peer.nodeId}` cannot rejoin")
  else if membership.nodes.contains peer.nodeId then
    (membership, .error (s!"error[vm_cluster_membership]: node `{peer.nodeId}` is already known; "
      ++ "use restart with a newer epoch"))
  else
    (membership.accept peer.nodeId (.fromProfile peer .active tick roleTags) peer.epoch, .ok ())

def restartPeer (membership : VmClusterMembership) (peer : VmCoordinationProfile) (tick : Nat) :
    VmClusterMembership × Except String Unit :=
  if ¬ membership.localProfile.canCoordinateWith peer then
    (membership,
      .error "error[vm_cluster_membership]: incompatible restart VM coordination profile")
  else
    match membership.nodes[peer.nodeId]? with
    | none =>
      (membership,
        .error s!"error[vm_cluster_membership]: cannot restart unknown node `{peer.nodeId}`")
    | some node =>
      if node.state = .fenced then
        (membership,
          .error s!"error[vm_cluster_membership]: fenced node `{peer.nodeId}` cannot restart")
      else if node.appId ≠ peer.appId ∨ node.vmId ≠ peer.vmId then
        (membership, .error
          s!"error[vm_cluster_membership]: restart identity mismatch for node `{peer.nodeId}`")
      else
        match membership.nodeEpochs[peer.nodeId]? with
        | none =>
          (membership, .error
            s!"error[vm_cluster_membership]: node `{peer.nodeId}` is missing epoch state")
        | some currentEpoch =>
          if peer.epoch ≤ currentEpoch then
            (membership, .error
              (s!"error[vm_cluster_membership]: stale restart epoch `{peer.epoch}` for node "
                ++ s!"`{peer.nodeId}`; current epoch is `{currentEpoch}`"))
          else
            (membership.accept peer.nodeId
              { node with
                lastSeenTick := max tick node.lastSeenTick
                state := .active }
              peer.epoch, .ok ())

def unknownNode (nodeId : String) : String :=
  s!"error[vm_cluster_membership]: unknown node `{nodeId}`"

def recordHeartbeat (membership : VmClusterMembership) (nodeId : String) (tick : Nat) :
    VmClusterMembership × Except String VmClusterNodeState :=
  match membership.nodes[nodeId]? with
  | none => (membership, .error (unknownNode nodeId))
  | some node =>
    if tick < node.lastSeenTick then
      (membership, .error s!"error[vm_cluster_membership]: stale heartbeat for node `{nodeId}`")
    else if node.state = .left ∨ node.state = .fenced then
      (membership,
        .error s!"error[vm_cluster_membership]: node `{nodeId}` is not heartbeat-eligible")
    else
      (membership.setNode nodeId { node with lastSeenTick := tick, state := .active }, .ok .active)

def partitionNode (membership : VmClusterMembership) (nodeId : String) (tick : Nat) :
    VmClusterMembership × Except String Unit :=
  if nodeId = membership.localProfile.nodeId then
    (membership, .error ("error[vm_cluster_membership]: local node cannot be partitioned "
      ++ "through a peer view"))
  else
    match membership.nodes[nodeId]? with
    | none => (membership, .error (unknownNode nodeId))
    | some node =>
      if tick < node.lastSeenTick then
        (membership,
          .error s!"error[vm_cluster_membership]: stale partition tick for node `{nodeId}`")
      else
        match node.state with
        | .active =>
          (membership.setNode nodeId { node with lastSeenTick := tick, state := .unreachable },
            .ok ())
        | .unreachable =>
          (membership,
            .error s!"error[vm_cluster_membership]: node `{nodeId}` is already partitioned")
        | .left | .fenced =>
          (membership,
            .error s!"error[vm_cluster_membership]: node `{nodeId}` is not partition-eligible")

def healNode (membership : VmClusterMembership) (nodeId : String) (tick : Nat) :
    VmClusterMembership × Except String Unit :=
  match membership.nodes[nodeId]? with
  | none => (membership, .error (unknownNode nodeId))
  | some node =>
    if tick < node.lastSeenTick then
      (membership, .error s!"error[vm_cluster_membership]: stale heal tick for node `{nodeId}`")
    else if node.state ≠ .unreachable then
      (membership,
        .error s!"error[vm_cluster_membership]: node `{nodeId}` is not heal-eligible")
    else
      (membership.setNode nodeId { node with lastSeenTick := tick, state := .active }, .ok ())

def markLeft (membership : VmClusterMembership) (nodeId : String) (tick : Nat) :
    VmClusterMembership × Except String Unit :=
  match membership.nodes[nodeId]? with
  | none => (membership, .error (unknownNode nodeId))
  | some node =>
    if node.state = .fenced then
      (membership,
        .error s!"error[vm_cluster_membership]: fenced node `{nodeId}` cannot leave")
    else
      (membership.setNode nodeId
        { node with lastSeenTick := max tick node.lastSeenTick, state := .left }, .ok ())

def fenceNode (membership : VmClusterMembership) (nodeId : String) (tick : Nat) :
    VmClusterMembership × Except String Unit :=
  match membership.nodes[nodeId]? with
  | none => (membership, .error (unknownNode nodeId))
  | some node =>
    (membership.setNode nodeId
      { node with lastSeenTick := max tick node.lastSeenTick, state := .fenced }, .ok ())

/-- The node is remote, active and unseen for longer than the heartbeat timeout. -/
def expires (membership : VmClusterMembership) (currentTick : Nat)
    (node : VmClusterNodeSnapshot) : Bool :=
  node.nodeId ≠ membership.localProfile.nodeId ∧ node.state = .active ∧
    currentTick - node.lastSeenTick > membership.heartbeatTimeoutTicks

def expireStaleNodes (membership : VmClusterMembership) (currentTick : Nat) :
    VmClusterMembership × List String :=
  ({ membership with
      nodes := membership.nodes.map fun _ node =>
        if membership.expires currentTick node then { node with state := .unreachable } else node },
    ((valuesOf membership.nodes).filter (membership.expires currentTick)).map (·.nodeId))

/-- The node is remote, left or unreachable, and unseen for longer than the retention. -/
def removable (membership : VmClusterMembership) (currentTick retentionTicks : Nat)
    (node : VmClusterNodeSnapshot) : Bool :=
  node.nodeId ≠ membership.localProfile.nodeId ∧
    (node.state = .left ∨ node.state = .unreachable) ∧
      currentTick - node.lastSeenTick > retentionTicks

/-- `nodes.remove(node_id)` and `node_epochs.remove(node_id)`. -/
def forget (membership : VmClusterMembership) (nodeId : String) : VmClusterMembership :=
  { membership with
    nodes := membership.nodes.erase nodeId
    nodeEpochs := membership.nodeEpochs.erase nodeId }

def pruneStaleNodes (membership : VmClusterMembership) (currentTick retentionTicks : Nat) :
    VmClusterMembership × Except String (List String) :=
  if retentionTicks = 0 then
    (membership,
      .error "error[vm_cluster_membership]: stale retention ticks must be non-zero")
  else
    let removable :=
      ((valuesOf membership.nodes).filter (membership.removable currentTick retentionTicks)).map
        (·.nodeId)
    (removable.foldl forget membership, .ok removable)

end VmClusterMembership

/-! ## Runs -/

inductive MembershipCall where
  | joinPeer (peer : VmCoordinationProfile) (tick : Nat) (roleTags : List String)
  | restartPeer (peer : VmCoordinationProfile) (tick : Nat)
  | recordHeartbeat (nodeId : String) (tick : Nat)
  | partitionNode (nodeId : String) (tick : Nat)
  | healNode (nodeId : String) (tick : Nat)
  | markLeft (nodeId : String) (tick : Nat)
  | fenceNode (nodeId : String) (tick : Nat)
  | expireStaleNodes (currentTick : Nat)
  | pruneStaleNodes (currentTick retentionTicks : Nat)

inductive MembershipReply where
  | done (result : Except String Unit)
  | heartbeat (result : Except String VmClusterNodeState)
  | expired (nodeIds : List String)
  | pruned (result : Except String (List String))

def VmClusterMembership.call (membership : VmClusterMembership) :
    MembershipCall → VmClusterMembership × MembershipReply
  | .joinPeer peer tick roleTags => (membership.joinPeer peer tick roleTags).map id .done
  | .restartPeer peer tick => (membership.restartPeer peer tick).map id .done
  | .recordHeartbeat nodeId tick => (membership.recordHeartbeat nodeId tick).map id .heartbeat
  | .partitionNode nodeId tick => (membership.partitionNode nodeId tick).map id .done
  | .healNode nodeId tick => (membership.healNode nodeId tick).map id .done
  | .markLeft nodeId tick => (membership.markLeft nodeId tick).map id .done
  | .fenceNode nodeId tick => (membership.fenceNode nodeId tick).map id .done
  | .expireStaleNodes currentTick => (membership.expireStaleNodes currentTick).map id .expired
  | .pruneStaleNodes currentTick retentionTicks =>
    (membership.pruneStaleNodes currentTick retentionTicks).map id .pruned

/-- The epoch in which this exchange accepted node `nodeId`. -/
def acceptedEpoch (nodeId : String) : MembershipCall × MembershipReply → Option UInt64
  | (.joinPeer peer _ _, .done (.ok ())) => if peer.nodeId = nodeId then some peer.epoch else none
  | (.restartPeer peer _, .done (.ok ())) => if peer.nodeId = nodeId then some peer.epoch else none
  | _ => none

/-- Every epoch in which the history accepted node `nodeId`, oldest first. -/
def acceptedEpochs (nodeId : String) (history : List (MembershipCall × MembershipReply)) :
    List UInt64 :=
  history.filterMap (acceptedEpoch nodeId)

/-- This exchange pruned node `nodeId`. -/
def Pruned (nodeId : String) : MembershipCall × MembershipReply → Prop
  | (_, .pruned (.ok nodeIds)) => nodeId ∈ nodeIds
  | _ => False

instance (nodeId : String) : DecidablePred (Pruned nodeId)
  | (_, .pruned (.ok nodeIds)) => inferInstanceAs (Decidable (nodeId ∈ nodeIds))
  | (_, .pruned (.error _)) | (_, .done _) | (_, .heartbeat _) | (_, .expired _) => .isFalse id

/-! ## What one call can do to one node -/

/-- The node is unknown, or known under its own id with an accepted epoch. -/
def NodeWellFormed (nodeId : String) : Option VmClusterNodeSnapshot → Option UInt64 → Prop
  | none, none => True
  | some node, some _ => node.nodeId = nodeId
  | _, _ => False

def WellFormed (membership : VmClusterMembership) : Prop :=
  ∀ nodeId, NodeWellFormed nodeId membership.nodes[nodeId]? membership.nodeEpochs[nodeId]?

/-- The snapshot `node` may become `node'` without a new incarnation. -/
structure NodeUpdate (node node' : VmClusterNodeSnapshot) : Prop where
  nodeId : node'.nodeId = node.nodeId
  seen : node.lastSeenTick ≤ node'.lastSeenTick
  fenced : node.state = .fenced → node'.state = .fenced

/-- Everything that one call can do to node `nodeId`: the epoch it accepted the node in, and
whether it pruned the node. -/
inductive NodeStep (membership membership' : VmClusterMembership) (nodeId : String)
    (pruned : Prop) : Option UInt64 → Prop
  | unchanged (kept : ¬ pruned) (nodes : membership'.nodes[nodeId]? = membership.nodes[nodeId]?)
      (epochs : membership'.nodeEpochs[nodeId]? = membership.nodeEpochs[nodeId]?) :
      NodeStep membership membership' nodeId pruned none
  | joined (kept : ¬ pruned) (node : VmClusterNodeSnapshot) (epoch : UInt64)
      (unknown : membership.nodes[nodeId]? = none)
      (nodes : membership'.nodes[nodeId]? = some node) (own : node.nodeId = nodeId)
      (epochs : membership'.nodeEpochs[nodeId]? = some epoch) :
      NodeStep membership membership' nodeId pruned (some epoch)
  | restarted (kept : ¬ pruned) (node node' : VmClusterNodeSnapshot) (current epoch : UInt64)
      (known : membership.nodes[nodeId]? = some node) (notFenced : node.state ≠ .fenced)
      (currentEpoch : membership.nodeEpochs[nodeId]? = some current) (newer : current < epoch)
      (nodes : membership'.nodes[nodeId]? = some node') (own : node'.nodeId = node.nodeId)
      (seen : node.lastSeenTick ≤ node'.lastSeenTick)
      (epochs : membership'.nodeEpochs[nodeId]? = some epoch) :
      NodeStep membership membership' nodeId pruned (some epoch)
  | updated (kept : ¬ pruned) (node node' : VmClusterNodeSnapshot)
      (known : membership.nodes[nodeId]? = some node)
      (nodes : membership'.nodes[nodeId]? = some node') (update : NodeUpdate node node')
      (epochs : membership'.nodeEpochs[nodeId]? = membership.nodeEpochs[nodeId]?) :
      NodeStep membership membership' nodeId pruned none
  | forgotten (gone : pruned) (node : VmClusterNodeSnapshot)
      (known : membership.nodes[nodeId]? = some node)
      (stale : node.state = .left ∨ node.state = .unreachable)
      (nodes : membership'.nodes[nodeId]? = none)
      (epochs : membership'.nodeEpochs[nodeId]? = none) :
      NodeStep membership membership' nodeId pruned none

section Step

variable {membership : VmClusterMembership} {nodeId : String}

theorem refused_step : NodeStep membership membership nodeId False none :=
  .unchanged id rfl rfl

theorem checked_step {ε α : Type} {c : Prop} [Decidable c] {e : ε}
    {rest : VmClusterMembership × Except ε α}
    (passed : ¬ c → NodeStep membership rest.1 nodeId False none) :
    NodeStep membership (if c then (membership, .error e) else rest).1 nodeId False none := by
  split
  next => exact refused_step
  next holds => exact passed holds

theorem setNode_step {target : String} {node node' : VmClusterNodeSnapshot}
    (known : membership.nodes[target]? = some node) (update : NodeUpdate node node') :
    NodeStep membership (membership.setNode target node') nodeId False none := by
  by_cases own : target = nodeId
  · subst own
    exact .updated id node node' known (getElem?_insert_self_eq _ _ _) update rfl
  · exact .unchanged id (getElem?_insert_of_ne _ _ own) rfl

variable (membership nodeId)

theorem joinPeer_step (peer : VmCoordinationProfile) (tick : Nat) (roleTags : List String) :
    NodeStep membership (membership.joinPeer peer tick roleTags).1 nodeId False
      (acceptedEpoch nodeId (.joinPeer peer tick roleTags,
        .done (membership.joinPeer peer tick roleTags).2)) := by
  unfold VmClusterMembership.joinPeer
  split
  · exact refused_step
  split
  · exact refused_step
  split
  next => exact refused_step
  next unknown =>
    have unknown : membership.nodes[peer.nodeId]? = none := by
      simpa using unknown
    by_cases own : peer.nodeId = nodeId
    · subst own
      simp only [acceptedEpoch, if_true]
      exact .joined id _ _ unknown (getElem?_insert_self_eq _ _ _) rfl
        (getElem?_insert_self_eq _ _ _)
    · simp only [acceptedEpoch, if_neg own]
      exact .unchanged id (getElem?_insert_of_ne _ _ own) (getElem?_insert_of_ne _ _ own)

theorem restartPeer_step (peer : VmCoordinationProfile) (tick : Nat) :
    NodeStep membership (membership.restartPeer peer tick).1 nodeId False
      (acceptedEpoch nodeId (.restartPeer peer tick,
        .done (membership.restartPeer peer tick).2)) := by
  unfold VmClusterMembership.restartPeer
  split
  · exact refused_step
  cases known : membership.nodes[peer.nodeId]? with
  | none => exact refused_step
  | some node =>
    dsimp only
    split
    next => exact refused_step
    next notFenced =>
      split
      · exact refused_step
      cases currentEpoch : membership.nodeEpochs[peer.nodeId]? with
      | none => exact refused_step
      | some current =>
        dsimp only
        split
        next => exact refused_step
        next newer =>
          by_cases own : peer.nodeId = nodeId
          · subst own
            simp only [acceptedEpoch, if_true]
            exact .restarted id node _ current peer.epoch known notFenced currentEpoch
              (UInt64.not_le.mp newer) (getElem?_insert_self_eq _ _ _) rfl (Nat.le_max_right _ _)
              (getElem?_insert_self_eq _ _ _)
          · simp only [acceptedEpoch, if_neg own]
            exact .unchanged id (getElem?_insert_of_ne _ _ own)
              (getElem?_insert_of_ne _ _ own)

variable (target : String) (tick : Nat)

theorem recordHeartbeat_step :
    NodeStep membership (membership.recordHeartbeat target tick).1 nodeId False none := by
  unfold VmClusterMembership.recordHeartbeat
  cases known : membership.nodes[target]? with
  | none => exact refused_step
  | some node =>
    exact checked_step fun onTime => checked_step fun eligible => setNode_step known
      ⟨rfl, Nat.le_of_not_lt onTime, fun fenced => absurd (.inr fenced) eligible⟩

theorem partitionNode_step :
    NodeStep membership (membership.partitionNode target tick).1 nodeId False none := by
  unfold VmClusterMembership.partitionNode
  split
  · exact refused_step
  cases known : membership.nodes[target]? with
  | none => exact refused_step
  | some node =>
    refine checked_step fun onTime => ?_
    split
    next active =>
      exact setNode_step known
        ⟨rfl, Nat.le_of_not_lt onTime, fun fenced => by cases active.symm.trans fenced⟩
    next => exact refused_step
    next => exact refused_step
    next => exact refused_step

theorem healNode_step :
    NodeStep membership (membership.healNode target tick).1 nodeId False none := by
  unfold VmClusterMembership.healNode
  cases known : membership.nodes[target]? with
  | none => exact refused_step
  | some node =>
    exact checked_step fun onTime => checked_step fun unreachable => setNode_step known
      ⟨rfl, Nat.le_of_not_lt onTime, fun fenced => by simp [fenced] at unreachable⟩

theorem markLeft_step :
    NodeStep membership (membership.markLeft target tick).1 nodeId False none := by
  unfold VmClusterMembership.markLeft
  cases known : membership.nodes[target]? with
  | none => exact refused_step
  | some node =>
    exact checked_step fun notFenced => setNode_step known
      ⟨rfl, Nat.le_max_right _ _, fun fenced => absurd fenced notFenced⟩

theorem fenceNode_step :
    NodeStep membership (membership.fenceNode target tick).1 nodeId False none := by
  unfold VmClusterMembership.fenceNode
  cases known : membership.nodes[target]? with
  | none => exact refused_step
  | some node =>
    exact setNode_step known ⟨rfl, Nat.le_max_right _ _, fun _ => rfl⟩

theorem expireStaleNodes_step (currentTick : Nat) :
    NodeStep membership (membership.expireStaleNodes currentTick).1 nodeId False none := by
  have nodes : (membership.expireStaleNodes currentTick).1.nodes[nodeId]? =
      membership.nodes[nodeId]?.map fun node =>
        if membership.expires currentTick node then { node with state := .unreachable } else node :=
    ExtTreeMap.getElem?_map
  cases known : membership.nodes[nodeId]? with
  | none => exact .unchanged id (by rw [nodes, known]; rfl) rfl
  | some node =>
    rw [known, Option.map_some] at nodes
    refine .updated id node _ known nodes ?_ rfl
    split
    next expires =>
      refine ⟨rfl, Nat.le_refl _, ?_⟩
      intro fenced
      simp [VmClusterMembership.expires, fenced] at expires
    next => exact ⟨rfl, Nat.le_refl _, id⟩

theorem foldl_forget_nodes (nodeIds : List String) :
    (nodeIds.foldl VmClusterMembership.forget membership).nodes =
      nodeIds.foldl (fun nodes nodeId => nodes.erase nodeId) membership.nodes := by
  induction nodeIds generalizing membership with
  | nil => rfl
  | cons nodeId nodeIds ih => exact ih (membership.forget nodeId)

theorem foldl_forget_nodeEpochs (nodeIds : List String) :
    (nodeIds.foldl VmClusterMembership.forget membership).nodeEpochs =
      nodeIds.foldl (fun epochs nodeId => epochs.erase nodeId) membership.nodeEpochs := by
  induction nodeIds generalizing membership with
  | nil => rfl
  | cons nodeId nodeIds ih => exact ih (membership.forget nodeId)

/-- A pruned id belongs to a left or unreachable node that is known under it. -/
theorem mem_removable {membership : VmClusterMembership} (wellFormed : WellFormed membership)
    {currentTick retentionTicks : Nat} {nodeId : String}
    (h : nodeId ∈ ((valuesOf membership.nodes).filter
      (membership.removable currentTick retentionTicks)).map (·.nodeId)) :
    ∃ node, membership.nodes[nodeId]? = some node ∧
      (node.state = .left ∨ node.state = .unreachable) := by
  obtain ⟨node, mem, rfl⟩ := mem_map.mp h
  obtain ⟨listed, removable⟩ := mem_filter.mp mem
  obtain ⟨key, known⟩ := mem_valuesOf.mp listed
  have own := wellFormed key
  rw [known] at own
  cases epoch : membership.nodeEpochs[key]? with
  | none => rw [epoch] at own; exact absurd own id
  | some _ =>
    rw [epoch] at own
    have own : node.nodeId = key := own
    refine ⟨node, own ▸ known, ?_⟩
    simp only [VmClusterMembership.removable, decide_eq_true_eq] at removable
    exact removable.2.1

theorem pruneStaleNodes_step (wellFormed : WellFormed membership)
    (currentTick retentionTicks : Nat) :
    NodeStep membership (membership.pruneStaleNodes currentTick retentionTicks).1 nodeId
      (Pruned nodeId (.pruneStaleNodes currentTick retentionTicks,
        .pruned (membership.pruneStaleNodes currentTick retentionTicks).2)) none := by
  unfold VmClusterMembership.pruneStaleNodes
  split
  · exact refused_step
  by_cases listed : nodeId ∈ ((valuesOf membership.nodes).filter
      (membership.removable currentTick retentionTicks)).map (·.nodeId)
  · obtain ⟨node, known, stale⟩ := mem_removable wellFormed listed
    refine .forgotten listed node known stale ?_ ?_
    · rw [foldl_forget_nodes, getElem?_foldl_erase, if_pos listed]
    · rw [foldl_forget_nodeEpochs, getElem?_foldl_erase, if_pos listed]
  · refine .unchanged listed ?_ ?_
    · rw [foldl_forget_nodes, getElem?_foldl_erase, if_neg listed]
    · rw [foldl_forget_nodeEpochs, getElem?_foldl_erase, if_neg listed]

/-- Step lemma of the module. -/
theorem call_step (wellFormed : WellFormed membership) (call : MembershipCall) :
    NodeStep membership (membership.call call).1 nodeId
      (Pruned nodeId (call, (membership.call call).2))
      (acceptedEpoch nodeId (call, (membership.call call).2)) := by
  cases call with
  | joinPeer peer tick roleTags => exact joinPeer_step membership nodeId peer tick roleTags
  | restartPeer peer tick => exact restartPeer_step membership nodeId peer tick
  | recordHeartbeat target tick => exact recordHeartbeat_step membership nodeId target tick
  | partitionNode target tick => exact partitionNode_step membership nodeId target tick
  | healNode target tick => exact healNode_step membership nodeId target tick
  | markLeft target tick => exact markLeft_step membership nodeId target tick
  | fenceNode target tick => exact fenceNode_step membership nodeId target tick
  | expireStaleNodes currentTick => exact expireStaleNodes_step membership nodeId currentTick
  | pruneStaleNodes currentTick retentionTicks =>
    exact pruneStaleNodes_step membership nodeId wellFormed currentTick retentionTicks

end Step

/-! ## Runs -/

variable {accepted : Option UInt64} {nodeId : String}

theorem nodeStep_wellFormed {membership membership' : VmClusterMembership} {pruned : Prop}
    (step : NodeStep membership membership' nodeId pruned accepted)
    (h : NodeWellFormed nodeId membership.nodes[nodeId]? membership.nodeEpochs[nodeId]?) :
    NodeWellFormed nodeId membership'.nodes[nodeId]? membership'.nodeEpochs[nodeId]? := by
  cases step with
  | unchanged kept nodes epochs => rwa [nodes, epochs]
  | joined kept node epoch unknown nodes own epochs =>
    rw [nodes, epochs]
    exact own
  | restarted kept node node' current epoch known notFenced currentEpoch newer nodes own seen epochs =>
    rw [known, currentEpoch] at h
    rw [nodes, epochs]
    exact own.trans h
  | updated kept node node' known nodes update epochs =>
    rw [known] at h
    rw [nodes, epochs]
    cases epoch : membership.nodeEpochs[nodeId]? with
    | none => rw [epoch] at h; exact h
    | some _ =>
      rw [epoch] at h
      exact update.nodeId.trans h
  | forgotten gone node known stale nodes epochs =>
    rw [nodes, epochs]
    trivial

variable {membership : VmClusterMembership}

theorem call_wellFormed (wellFormed : WellFormed membership)
    (call : MembershipCall) : WellFormed (membership.call call).1 := fun nodeId =>
  nodeStep_wellFormed (call_step membership nodeId wellFormed call) (wellFormed nodeId)

theorem new_wellFormed {localProfile : VmCoordinationProfile} {timeout : Nat}
    (h : VmClusterMembership.new localProfile timeout = .ok membership) : WellFormed membership := by
  unfold VmClusterMembership.new at h
  split at h
  · cases h
  cases h
  intro nodeId
  simp only [getElem?_insert_eq]
  split
  next own => exact own
  next => simp only [ExtTreeMap.getElem?_empty]; trivial

/-- The nodes and the epochs of every reachable membership have the same keys. -/
theorem run_wellFormed (wellFormed : WellFormed membership) (calls : List MembershipCall) :
    WellFormed (replay VmClusterMembership.call membership calls).1 :=
  replay_state VmClusterMembership.call WellFormed (fun _ call h => call_wellFormed h call)
    membership calls wellFormed

theorem wellFormed_keys (wellFormed : WellFormed membership)
    (nodeId : String) : membership.nodes.contains nodeId = membership.nodeEpochs.contains nodeId := by
  have h := wellFormed nodeId
  rw [ExtTreeMap.contains_eq_isSome_getElem?, ExtTreeMap.contains_eq_isSome_getElem?]
  cases nodes : membership.nodes[nodeId]? <;> cases epochs : membership.nodeEpochs[nodeId]? <;>
    rw [nodes, epochs] at h <;> first | rfl | exact absurd h id

theorem acceptedEpochs_cons (nodeId : String) (exchange : MembershipCall × MembershipReply)
    (history : List (MembershipCall × MembershipReply)) :
    acceptedEpochs nodeId (exchange :: history) =
      (acceptedEpoch nodeId exchange).toList ++ acceptedEpochs nodeId history := by
  unfold acceptedEpochs
  rw [filterMap_cons]
  cases acceptedEpoch nodeId exchange <;> rfl

theorem nodeStep_fenced {membership membership' : VmClusterMembership} {pruned : Prop}
    (step : NodeStep membership membership' nodeId pruned accepted) {node : VmClusterNodeSnapshot}
    (known : membership.nodes[nodeId]? = some node) (fenced : node.state = .fenced) :
    accepted = none ∧ ∃ node', membership'.nodes[nodeId]? = some node' ∧ node'.state = .fenced := by
  cases step with
  | unchanged kept nodes epochs => exact ⟨rfl, node, nodes.trans known, fenced⟩
  | joined kept node' epoch unknown nodes own epochs =>
    rw [known] at unknown
    cases unknown
  | restarted kept before node' current epoch before_known notFenced =>
    rw [known] at before_known
    cases before_known
    exact absurd fenced notFenced
  | updated kept before node' before_known nodes update epochs =>
    rw [known] at before_known
    cases before_known
    exact ⟨rfl, node', nodes, update.fenced fenced⟩
  | forgotten gone before before_known stale nodes epochs =>
    rw [known] at before_known
    cases before_known
    rw [fenced] at stale
    rcases stale with h | h <;> cases h

/-- A fenced node stays fenced, and no call accepts it in another epoch. -/
theorem run_fenced (wellFormed : WellFormed membership) {node : VmClusterNodeSnapshot}
    (known : membership.nodes[nodeId]? = some node) (fenced : node.state = .fenced)
    (calls : List MembershipCall) :
    acceptedEpochs nodeId (replay VmClusterMembership.call membership calls).2 = [] ∧
    ∃ node', (replay VmClusterMembership.call membership calls).1.nodes[nodeId]? = some node' ∧
      node'.state = .fenced := by
  induction calls generalizing membership node with
  | nil => exact ⟨rfl, node, known, fenced⟩
  | cons call calls ih =>
    obtain ⟨none, node', known', fenced'⟩ :=
      nodeStep_fenced (call_step membership nodeId wellFormed call) known fenced
    have later := ih (call_wellFormed wellFormed call) known' fenced'
    rw [replay_cons_fst, replay_cons_snd, acceptedEpochs_cons, none]
    exact later

/-- What holds of a node over a stretch of a run that does not prune it: `start` and `final`
are its ends, `accepted` the epochs accepted on the way. -/
structure NodeAdvances (start final : VmClusterMembership) (nodeId : String)
    (accepted : List UInt64) : Prop where
  increasing : accepted.Pairwise (· < ·)
  newer : ∀ current, start.nodeEpochs[nodeId]? = some current → ∀ epoch ∈ accepted, current < epoch
  seen : ∀ node, start.nodes[nodeId]? = some node →
    ∃ node', final.nodes[nodeId]? = some node' ∧ node.lastSeenTick ≤ node'.lastSeenTick

theorem nodeStep_advances {membership membership' final : VmClusterMembership}
    {pruned : Prop} {rest : List UInt64}
    (wellFormed : NodeWellFormed nodeId membership.nodes[nodeId]? membership.nodeEpochs[nodeId]?)
    (step : NodeStep membership membership' nodeId pruned accepted) (kept : ¬ pruned)
    (later : NodeAdvances membership' final nodeId rest) :
    NodeAdvances membership final nodeId (accepted.toList ++ rest) := by
  cases step with
  | unchanged _ nodes epochs =>
    exact ⟨later.increasing, fun current h => later.newer current (epochs.trans h),
      fun node h => later.seen node (nodes.trans h)⟩
  | joined _ node epoch unknown nodes own epochs =>
    refine ⟨pairwise_cons.mpr ⟨later.newer epoch epochs, later.increasing⟩, ?_, ?_⟩
    · intro current h
      rw [unknown, h] at wellFormed
      exact absurd wellFormed id
    · intro node' h
      rw [unknown] at h
      cases h
  | restarted _ node node' current epoch known notFenced currentEpoch newer nodes own seen epochs =>
    refine ⟨pairwise_cons.mpr ⟨later.newer epoch epochs, later.increasing⟩, ?_, ?_⟩
    · intro other h
      rw [currentEpoch] at h
      cases h
      intro next mem
      rcases mem_cons.mp mem with rfl | mem
      · exact newer
      · exact UInt64.lt_trans newer (later.newer epoch epochs next mem)
    · intro other h
      rw [known] at h
      cases h
      obtain ⟨last, lastKnown, lastSeen⟩ := later.seen node' nodes
      exact ⟨last, lastKnown, Nat.le_trans seen lastSeen⟩
  | updated _ node node' known nodes update epochs =>
    refine ⟨later.increasing, fun current h => later.newer current (epochs.trans h), ?_⟩
    intro other h
    rw [known] at h
    cases h
    obtain ⟨last, lastKnown, lastSeen⟩ := later.seen node' nodes
    exact ⟨last, lastKnown, Nat.le_trans update.seen lastSeen⟩
  | forgotten gone => exact absurd gone kept

/-- Run lemma: a node that is not pruned only advances. -/
theorem run_advances (wellFormed : WellFormed membership)
    (nodeId : String) (calls : List MembershipCall)
    (kept : ∀ exchange ∈ (replay VmClusterMembership.call membership calls).2,
      ¬ Pruned nodeId exchange) :
    NodeAdvances membership (replay VmClusterMembership.call membership calls).1 nodeId
      (acceptedEpochs nodeId (replay VmClusterMembership.call membership calls).2) := by
  induction calls generalizing membership with
  | nil =>
    refine ⟨.nil, ?_, fun node known => ⟨node, known, Nat.le_refl _⟩⟩
    intro current known epoch mem
    cases mem
  | cons call calls ih =>
    rw [replay_cons_snd] at kept
    have later := ih (call_wellFormed wellFormed call) fun exchange mem =>
      kept exchange (mem_cons_of_mem _ mem)
    rw [replay_cons_fst, replay_cons_snd, acceptedEpochs_cons]
    exact nodeStep_advances (wellFormed nodeId) (call_step membership nodeId wellFormed call)
      (kept _ mem_cons_self) later

/-- **Membership only advances between prunings.** Split a run of a membership view anywhere.
The nodes and the epochs have the same keys at the split. A node that is fenced there is
fenced at the end, and no epoch is accepted for it any more. A node that is not pruned
after the split is accepted in strictly increasing epochs, all above the one it has at
the split, and is not seen earlier at the end than at the split. -/
theorem membership_advances {localProfile : VmCoordinationProfile} {timeout : Nat}
    {membership : VmClusterMembership}
    (created : VmClusterMembership.new localProfile timeout = .ok membership)
    (earlier later : List MembershipCall) (nodeId : String) :
    let start := (replay VmClusterMembership.call membership earlier).1
    let run := replay VmClusterMembership.call start later
    start.nodes.contains nodeId = start.nodeEpochs.contains nodeId ∧
    (∀ node, start.nodes[nodeId]? = some node → node.state = .fenced →
      acceptedEpochs nodeId run.2 = [] ∧
        ∃ node', run.1.nodes[nodeId]? = some node' ∧ node'.state = .fenced) ∧
    ((∀ exchange ∈ run.2, ¬ Pruned nodeId exchange) →
      NodeAdvances start run.1 nodeId (acceptedEpochs nodeId run.2)) := by
  intro start run
  have wellFormed : WellFormed start := run_wellFormed (new_wellFormed created) earlier
  exact ⟨wellFormed_keys wellFormed nodeId,
    fun node known fenced => run_fenced wellFormed known fenced later,
    run_advances wellFormed nodeId later⟩

/-- A profile of one small cluster. -/
def clusterProfile (nodeId : String) (epoch : UInt64) (named : isBlank nodeId = false)
    (nonzero : epoch ≠ 0) : VmCoordinationProfile where
  appId := "app"
  vmId := "vm"
  nodeId := nodeId
  clusterId := "cluster"
  epoch := epoch
  runtimeVersion := "1"
  capabilities := ∅
  fields_nonblank := by
    have fixed : ∀ value ∈ ["app", "vm", "cluster", "1"], isBlank value = false := by decide
    simp only [forall_mem_cons] at fixed ⊢
    exact ⟨fixed.1, fixed.2.1, named, fixed.2.2.1, fixed.2.2.2.1, by simp⟩
  epoch_nonzero := nonzero
  capabilities_nonblank := by simp

theorem membership_advances_restart :
    let b := clusterProfile "node-b" 1 (by decide) (by decide)
    let b' := clusterProfile "node-b" 2 (by decide) (by decide)
    ∃ membership,
      VmClusterMembership.new (clusterProfile "node-a" 1 (by decide) (by decide)) 5 =
        .ok membership ∧
      let run := replay VmClusterMembership.call membership
        [.joinPeer b 1 [], .markLeft "node-b" 2, .restartPeer b' 3]
      NodeAdvances membership run.1 "node-b" (acceptedEpochs "node-b" run.2) ∧
        acceptedEpochs "node-b" run.2 = [1, 2] := by
  intro b b'
  refine ⟨_, rfl, ?_, by decide⟩
  exact (@membership_advances (clusterProfile "node-a" 1 _ _) 5 _ rfl []
    [.joinPeer b 1 [], .markLeft "node-b" 2, .restartPeer b' 3] "node-b").2.2 (by decide)

/-- Pruning forgets the epoch: the node joins again in an earlier one and is seen earlier. -/
theorem pruned_node_rejoins_earlier :
    (¬ ∀ localProfile timeout membership calls nodeId,
      VmClusterMembership.new localProfile timeout = .ok membership →
        (acceptedEpochs nodeId (replay VmClusterMembership.call membership calls).2).Pairwise
          (· < ·)) ∧
    (¬ ∀ localProfile timeout membership earlier later, ∀ nodeId : String,
      VmClusterMembership.new localProfile timeout = .ok membership →
        let start := (replay VmClusterMembership.call membership earlier).1
        let final := (replay VmClusterMembership.call start later).1
        ∀ seen seen', start.nodes[nodeId]?.map (·.lastSeenTick) = some seen →
          final.nodes[nodeId]?.map (·.lastSeenTick) = some seen' → seen ≤ seen') := by
  let b := clusterProfile "node-b" 2 (by decide) (by decide)
  let b' := clusterProfile "node-b" 1 (by decide) (by decide)
  constructor
  · intro h
    have increasing := h (clusterProfile "node-a" 1 (by decide) (by decide)) 5 _
      [.joinPeer b 9 [], .markLeft "node-b" 9, .pruneStaleNodes 12 2, .joinPeer b' 3 []]
      "node-b" rfl
    exact absurd increasing (by decide)
  · intro h
    have seen := h (clusterProfile "node-a" 1 (by decide) (by decide)) 5 _
      [.joinPeer b 9 [], .markLeft "node-b" 9] [.pruneStaleNodes 12 2, .joinPeer b' 3 []]
      "node-b" rfl 9 3 (by decide) (by decide)
    exact absurd seen (by decide)

end Terlan.Coordination
