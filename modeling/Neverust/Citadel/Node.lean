import Neverust.Citadel.Op
import Neverust.Lib.Rust

/-!
# Citadel: the defederation node

A node keeps, for each origin, how far it has applied the origin's operations (`frontier`), the
operations themselves (`opLog`) and those that came too early (`pending`). `ingestBatch` takes
operations from peers: the guard refuses some, the others are applied in the order of their
counters.

A call that does not return has the value `none`: an emit whose nonce does not exist, and a reply
to a peer whose loop has used up the given bound.
-/

namespace Citadel

open Std (ExtTreeMap ExtTreeSet)
open Rust

structure DefederationGuardConfig where
  basePowBits : UInt8 := 8
  trustedPowBits : UInt8 := 4
  maxOpsPerOriginPerRound : UInt32 := 96
  maxNewOriginsPerHostPerRound : UInt32 := 12
  maxPendingPerOrigin : Nat := 512
  deriving Repr, DecidableEq

structure DefederationNodeStats where
  acceptedOps : UInt64 := 0
  rejectedOldOrDuplicate : UInt64 := 0
  rejectedPow : UInt64 := 0
  rejectedRateLimit : UInt64 := 0
  rejectedSybil : UInt64 := 0
  queuedReordered : UInt64 := 0
  deriving Repr, DecidableEq

structure DefederationGuardState where
  round : UInt64 := 0
  perOriginCounts : ExtTreeMap NodeId UInt32 := ∅
  perHostNewOrigins : ExtTreeMap UInt8 UInt32 := ∅
  deriving DecidableEq

def DefederationGuardState.rollTo (g : DefederationGuardState) (round : UInt64) :
    DefederationGuardState :=
  if g.round = round then g else { round }

structure DefederationNode where
  nodeId : NodeId
  hostId : UInt8
  localSiteId : SiteId
  localCounter : UInt64
  trustedOrigins : ExtTreeSet NodeId
  knownOrigins : ExtTreeSet NodeId
  frontier : ExtTreeMap NodeId UInt64
  pending : ExtTreeMap NodeId (ExtTreeMap UInt64 LensOp)
  graph : LensGraph
  guardCfg : DefederationGuardConfig
  opLog : ExtTreeMap NodeId (List LensOp)
  guardState : DefederationGuardState
  stats : DefederationNodeStats
  deriving DecidableEq

namespace DefederationNode

def new (nodeId : NodeId) (hostId : UInt8) (localSiteId : SiteId)
    (trustedOrigins : ExtTreeSet NodeId) (guardCfg : DefederationGuardConfig) :
    DefederationNode where
  nodeId
  hostId
  localSiteId
  localCounter := 0
  trustedOrigins := trustedOrigins.insert nodeId
  knownOrigins := (∅ : ExtTreeSet NodeId).insert nodeId
  frontier := ∅
  pending := ∅
  graph := ∅
  guardCfg
  opLog := ∅
  guardState := {}
  stats := {}

def requiredPowBitsFor (n : DefederationNode) (origin : NodeId) : UInt8 :=
  if n.trustedOrigins.contains origin then n.guardCfg.trustedPowBits else n.guardCfg.basePowBits

def trustOrigin (n : DefederationNode) (origin : NodeId) (trusted : Bool) : DefederationNode :=
  { n with trustedOrigins :=
      if trusted then n.trustedOrigins.insert origin else n.trustedOrigins.erase origin }

def frontierFor (n : DefederationNode) (origin : NodeId) : UInt64 := n.frontier.getD origin 0

/-- The log of an origin. -/
def logFor (n : DefederationNode) (origin : NodeId) : List LensOp := n.opLog.getD origin []

/-- The operations of an origin that came too early, under their counters. -/
def pendingFor (n : DefederationNode) (origin : NodeId) : ExtTreeMap UInt64 LensOp :=
  n.pending.getD origin ∅

/-! ## Applying operations -/

def applyKind (n : DefederationNode) (op : LensOp) : DefederationNode :=
  let ts : Lamport := { counter := op.counter, origin := op.origin }
  match op.kind with
  | .follow siteId targetSiteId enabled =>
    { n with graph := n.graph.updateFollow siteId targetSiteId ts enabled }
  | .content siteId contentSlot present =>
    { n with graph := n.graph.updateContent siteId contentSlot ts present }
  | .trustOrigin origin trusted => n.trustOrigin origin trusted

def applyOrderedOp (n : DefederationNode) (op : LensOp) : DefederationNode :=
  let n := n.applyKind op
  let log := n.logFor op.origin
  { n with
    frontier := n.frontier.insert op.origin op.counter
    opLog := n.opLog.insert op.origin
      (if log.length = op.counter.toNat - 1 then log ++ [op] else log) }

def countAccepted (n : DefederationNode) : DefederationNode :=
  { n with stats := { n.stats with acceptedOps := saturatingAdd64 n.stats.acceptedOps 1 } }

/-- The loop that applies what waited for the operation before it. Each round takes one operation
out of the queue, which bounds the rounds. -/
def drain : Nat → DefederationNode → NodeId → DefederationNode
  | 0, n, _ => n
  | k + 1, n, origin =>
    let nextCounter := saturatingAdd64 (n.frontierFor origin) 1
    let queue := n.pendingFor origin
    match queue[nextCounter]? with
    | none => n
    | some nextOp =>
      let n := { n with pending := n.pending.insert origin (queue.erase nextCounter) }
      drain k (n.applyOrderedOp nextOp).countAccepted origin

def tryApplyWithReordering (n : DefederationNode) (op : LensOp) : DefederationNode :=
  let current := n.frontierFor op.origin
  if op.counter ≤ current then
    { n with stats := { n.stats with
        rejectedOldOrDuplicate := saturatingAdd64 n.stats.rejectedOldOrDuplicate 1 } }
  else
    let expected := saturatingAdd64 current 1
    if op.counter ≠ expected then
      let queue := n.pendingFor op.origin
      if queue.size ≥ n.guardCfg.maxPendingPerOrigin then
        { n with
          pending := n.pending.insert op.origin queue
          stats := { n.stats with
            rejectedRateLimit := saturatingAdd64 n.stats.rejectedRateLimit 1 } }
      else
        { n with
          pending := n.pending.insert op.origin (queue.insertIfNew op.counter op)
          stats := { n.stats with queuedReordered := saturatingAdd64 n.stats.queuedReordered 1 } }
    else
      drain (n.pendingFor op.origin).size (n.applyOrderedOp op).countAccepted op.origin

/-! ## Operations of peers -/

/-- Why the guard refuses an operation. -/
inductive Refusal
  | sybil
  | rateLimit
  | pow
  deriving Repr, DecidableEq

/-- An operation of an origin that is neither known nor trusted. -/
def isNewcomer (n : DefederationNode) (op : LensOp) : Bool :=
  !n.knownOrigins.contains op.origin && !n.trustedOrigins.contains op.origin

/-- The guard checks, in the order of the source. -/
def checkGuards (cr : Crates) (n : DefederationNode) (op : LensOp) : Option Refusal :=
  if n.isNewcomer op ∧
      n.guardState.perHostNewOrigins.getD op.hostId 0 ≥ n.guardCfg.maxNewOriginsPerHostPerRound then
    some .sybil
  else if n.guardState.perOriginCounts.getD op.origin 0 ≥ n.guardCfg.maxOpsPerOriginPerRound then
    some .rateLimit
  else if !op.validPow cr (n.requiredPowBitsFor op.origin) then some .pow
  else none

/-- `entry(op.host_id).or_insert(0)`, for an operation of a new origin. -/
def seeHost (n : DefederationNode) (op : LensOp) : DefederationNode :=
  if n.isNewcomer op then
    { n with guardState := { n.guardState with
        perHostNewOrigins := n.guardState.perHostNewOrigins.insertIfNew op.hostId 0 } }
  else n

def refuse (n : DefederationNode) : Refusal → DefederationNode
  | .sybil =>
    { n with stats := { n.stats with rejectedSybil := saturatingAdd64 n.stats.rejectedSybil 1 } }
  | .rateLimit =>
    { n with stats := { n.stats with
        rejectedRateLimit := saturatingAdd64 n.stats.rejectedRateLimit 1 } }
  | .pow =>
    { n with stats := { n.stats with rejectedPow := saturatingAdd64 n.stats.rejectedPow 1 } }

/-- What is recorded of an operation that passed the guard. -/
def enroll (n : DefederationNode) (op : LensOp) : DefederationNode :=
  let hosts := n.guardState.perHostNewOrigins
  let counts := n.guardState.perOriginCounts
  { n with
    knownOrigins := n.knownOrigins.insert op.origin
    guardState := { n.guardState with
      perHostNewOrigins :=
        if n.isNewcomer op then hosts.insert op.hostId (hosts.getD op.hostId 0 + 1) else hosts
      perOriginCounts := counts.insert op.origin (counts.getD op.origin 0 + 1) } }

/-- One operation of a batch, and whether it was accepted. -/
def ingestOp (cr : Crates) (n : DefederationNode) (op : LensOp) : DefederationNode × Bool :=
  match n.checkGuards cr op with
  | some refusal => ((n.seeHost op).refuse refusal, false)
  | none =>
    let n := (n.seeHost op).enroll op
    let after := n.tryApplyWithReordering op
    (after, after.stats.acceptedOps > n.stats.acceptedOps)

/-- The operations of a batch, in their order, and how many were accepted. -/
def ingestOps (cr : Crates) : DefederationNode → List LensOp → DefederationNode × Nat
  | n, [] => (n, 0)
  | n, op :: ops =>
    let (n, accepted) := n.ingestOp cr op
    let (n, rest) := ingestOps cr n ops
    (n, accepted.toNat + rest)

def rollTo (n : DefederationNode) (round : UInt64) : DefederationNode :=
  { n with guardState := n.guardState.rollTo round }

def ingestBatch (cr : Crates) (n : DefederationNode) (round : UInt64) (ops : List LensOp) :
    DefederationNode × Nat :=
  (n.rollTo round).ingestOps cr ops

/-! ## Local operations -/

/-- The next operation of the node itself, and the node with its counter advanced. -/
def nextLocalOp (cr : Crates) (n : DefederationNode) (kind : LensOpKind) :
    Option (DefederationNode × LensOp) :=
  let n := { n with localCounter := saturatingAdd64 n.localCounter 1 }
  let op : LensOp :=
    { origin := n.nodeId, counter := n.localCounter, hostId := n.hostId, kind, powNonce := 0 }
  (op.mineNonce cr n.guardCfg.basePowBits).map fun op => (n, op)

/-- What the three emits share: the next local operation is applied and returned. -/
def emitLocal (cr : Crates) (n : DefederationNode) (kind : LensOpKind) :
    Option (DefederationNode × LensOp) :=
  (n.nextLocalOp cr kind).map fun (n, op) => (n.applyOrderedOp op, op)

def emitLocalFollow (cr : Crates) (n : DefederationNode) (targetSiteId : SiteId) (enabled : Bool) :
    Option (DefederationNode × LensOp) :=
  n.emitLocal cr (.follow n.localSiteId targetSiteId enabled)

def emitLocalContent (cr : Crates) (n : DefederationNode) (contentSlot : ContentSlot)
    (present : Bool) : Option (DefederationNode × LensOp) :=
  n.emitLocal cr (.content n.localSiteId contentSlot present)

def emitLocalTrust (cr : Crates) (n : DefederationNode) (origin : NodeId) (trusted : Bool) :
    Option (DefederationNode × LensOp) :=
  n.emitLocal cr (.trustOrigin origin trusted)

/-! ## Replies to peers -/

def viewDigestHex (cr : Crates) (n : DefederationNode) (rootSiteId : SiteId) : String :=
  n.graph.viewDigestHex cr rootSiteId

/-- The operations of one log from the counter `c` on. The bound is on the rounds of the loop. -/
def sendLog (log : List LensOp) (src : UInt64) (maxOps : Nat) :
    Nat → UInt64 → List LensOp → Option (List LensOp)
  | 0, _, _ => none
  | k + 1, c, out =>
    if c ≤ src ∧ out.length < maxOps then
      let out :=
        match log[c.toNat - 1]? with
        | some op => out ++ [op]
        | none => out
      sendLog log src maxOps k (saturatingAdd64 c 1) out
    else some out

/-- The loop over the origins. -/
def sendLogs (n : DefederationNode) (peerFrontier : ExtTreeMap NodeId UInt64) (maxOps bound : Nat) :
    List NodeId → List LensOp → Option (List LensOp)
  | [], out => some out
  | origin :: origins, out =>
    if out.length ≥ maxOps then some out
    else
      let src := n.frontierFor origin
      let dst := peerFrontier.getD origin 0
      if src ≤ dst then sendLogs n peerFrontier maxOps bound origins out
      else
        match n.opLog[origin]? with
        | none => sendLogs n peerFrontier maxOps bound origins out
        | some log => do
          let out ← sendLog log src maxOps bound (saturatingAdd64 dst 1) out
          sendLogs n peerFrontier maxOps bound origins out

/-- The keys of a tree are in ascending order, as the source sorts them. -/
def missingOpsForFrontier (n : DefederationNode) (peerFrontier : ExtTreeMap NodeId UInt64)
    (maxOps bound : Nat) : Option (List LensOp) :=
  if maxOps = 0 then some [] else n.sendLogs peerFrontier maxOps bound n.opLog.keys []

end DefederationNode

end Citadel
