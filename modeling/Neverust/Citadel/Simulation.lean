import Neverust.Citadel.Run
import Neverust.Citadel.Topology

/-!
# Citadel: the simulation of a swarm

`runDefederationSimulation` lets a swarm of honest writers and malicious nodes gossip for a number
of rounds and observes the bytes that the honest nodes send in the settle rounds, when the swarm is
idle. The functions of the gate that compute with floating-point numbers are parameters
(`GateFunctions`); the bound is on the rounds of each loop that may not end.

A `usize` index of a node does not leave the type, because the vector of the nodes fits into memory.
-/

namespace Citadel

open Std (ExtTreeMap ExtTreeSet)
open Rust

structure IdleBandwidthGateConfig where
  maxIdleBytesPerSec : UInt64 := 100 * 1024
  beaconBytes : Nat := 96
  opBytesEstimate : Nat := 160
  minRepairPeers : Nat := 4
  maxRepairPeers : Nat := 16
  hugeSwarmThreshold : Nat := 100000
  deriving Repr, DecidableEq

/-- `repair_peers_for_swarm`, whose `clamp` may panic, and `idle_budget_for_swarm`. -/
structure GateFunctions where
  repairPeersForSwarm : IdleBandwidthGateConfig → Nat → Result Empty Nat
  idleBudgetForSwarm : IdleBandwidthGateConfig → Nat → UInt64

/-- `a.saturating_mul(n)` on `u64`. -/
def saturatingMul64 (a : UInt64) (n : Nat) : UInt64 :=
  UInt64.ofNat (min (a.toNat * n) (2 ^ 64 - 1))

/-- The functions of the source over the rounded-up logarithm of a swarm size and the logarithmic
growth of the budget. -/
def gateFunctions (log2Ceil : Nat → Nat) (growth : Nat → Nat → UInt64) : GateFunctions where
  repairPeersForSwarm gate swarmSize :=
    if swarmSize ≤ 1 then .ok 1
    else if gate.minRepairPeers ≤ gate.maxRepairPeers then
      .ok (min (max (log2Ceil swarmSize) gate.minRepairPeers) gate.maxRepairPeers)
    else .error (.panic .overflow)
  idleBudgetForSwarm gate swarmSize :=
    if swarmSize ≤ gate.hugeSwarmThreshold then gate.maxIdleBytesPerSec
    else saturatingAdd64 gate.maxIdleBytesPerSec
      (saturatingMul64 (growth swarmSize gate.hugeSwarmThreshold) (8 * 1024)).toNat

structure DefederationSimulationConfig where
  nodeCount : Nat := 10000
  writerCount : Nat := 64
  maliciousNodes : Nat := 256
  rounds : UInt64 := 18
  settleRounds : UInt64 := 10
  fanout : Nat := 8
  honestWriteOpsPerRound : Nat := 96
  spamOpsPerMaliciousRound : Nat := 2
  sybilOpsPerMaliciousRound : Nat := 1
  maxGossipBatch : Nat := 24
  targetSiteId : SiteId := 1
  trustedSeedOrigins : Nat := 16
  guard : DefederationGuardConfig := {}
  idleGate : IdleBandwidthGateConfig := {}
  deriving Repr, DecidableEq

structure DefederationSimulationResult where
  converged : Bool
  roundsExecuted : UInt64
  uniqueHonestViewDigests : Nat
  honestNodesOffMajorityView : Nat
  generatedOps : UInt64
  deliveredOps : UInt64
  repairMessages : UInt64
  totalAcceptedOps : UInt64
  totalRejectedPow : UInt64
  totalRejectedSybil : UInt64
  totalRejectedRateLimit : UInt64
  maxIdleBytesPerSecObserved : UInt64
  avgIdleBytesPerSecObserved : UInt64
  idleBudgetBytesPerSec : UInt64
  deriving Repr, DecidableEq

/-- `a.saturating_add(b)` on `u32`. -/
def saturatingAdd32 (a b : UInt32) : UInt32 := UInt32.ofNat (min (a.toNat + b.toNat) (2 ^ 32 - 1))

/-- `a.saturating_mul(n)` on `u32`. -/
def saturatingMul32 (a : UInt32) (n : Nat) : UInt32 :=
  UInt32.ofNat (min (a.toNat * n) (2 ^ 32 - 1))

/-- `a.saturating_add(b)` on `u128`. -/
def saturatingAdd128 (a b : Nat) : Nat := min (a + b) (2 ^ 128 - 1)

def makeInvalidSpamOp (origin : NodeId) (counter : UInt64) (hostId : UInt8)
    (targetSiteId : SiteId) : LensOp :=
  { origin, counter, hostId, kind := .content targetSiteId 0 true, powNonce := 0 }

def makeSybilOp (cr : Crates) (origin : NodeId) (counter : UInt64) (hostId : UInt8)
    (siteId : SiteId) (bits : UInt8) : Option LensOp :=
  LensOp.mineNonce cr { origin, counter, hostId, kind := .follow siteId 1 true, powNonce := 0 } bits

/-! ## What a simulation carries -/

/-- The constants of a simulation. -/
structure Setup where
  cfg : DefederationSimulationConfig
  honestCount : Nat
  writerCount : Nat
  topology : List (List Nat)
  repairPeers : Nat
  idleBudget : UInt64
  bound : Nat

def Setup.writerOrigins (u : Setup) : List NodeId := (List.range u.writerCount).map UInt32.ofNat

/-- `idle_mode`. -/
def Setup.idleMode (u : Setup) (round : UInt64) : Bool := round ≥ u.cfg.rounds

structure Swarm where
  nodes : List DefederationNode
  opStore : ExtTreeMap NodeId (List LensOp)
  generatedOps : UInt64
  deliveredOps : UInt64
  repairMessages : UInt64

/-- A swarm in a round. -/
structure Round where
  swarm : Swarm
  bytesSent : List UInt64
  inboxes : List (List LensOp)

/-- What is observed of the idle rounds. -/
structure Observed where
  maxIdleBytesPerSec : UInt64 := 0
  idleBytesAccum : Nat := 0
  idleRounds : UInt64 := 0
  deriving Repr, DecidableEq

namespace Swarm

/-- An emit of a writer, which goes into the store. -/
def emit (cr : Crates) (s : Swarm) (writer : Nat) (e : Emit) : Result Empty Swarm := do
  let node ← index s.nodes writer
  match node.emit cr e with
  | some (node, op) =>
    return { s with
      nodes := s.nodes.set writer node
      opStore := s.opStore.insert op.origin (s.opStore.getD op.origin [] ++ [op]) }
  | none => .error .fuel

def countGenerated (s : Swarm) (n : Nat) : Swarm :=
  { s with generatedOps := saturatingAdd64 s.generatedOps n }

end Swarm

namespace Setup

variable (cr : Crates) (u : Setup)

/-- The first operations of a writer. -/
def bootstrap (s : Swarm) (writer : Nat) : Result Empty Swarm := do
  let target := UInt64.ofNat ((writer + 1) % u.writerCount) + 1
  let s ← s.emit cr writer (.follow target true)
  let s ← s.emit cr writer (.content 0 true)
  return s.countGenerated 2

def honestWrite (round : UInt64) (s : Swarm) (opIdx : Nat) : Result Empty Swarm := do
  let offset ← usizeMul opIdx 131
  let writer := (round * 4099 + UInt64.ofNat offset).toNat % u.writerCount
  let target :=
    UInt64.ofNat ((writer + round.toNat % u.writerCount + 1) % u.writerCount) + 1
  let number ← usizeAdd round.toNat opIdx
  let s ← s.emit cr writer
    (if number % 5 = 0 then .follow target true else .content 0 (number % 7 ≠ 0))
  return s.countGenerated 1

end Setup

namespace Round

/-- `inboxes[dst].push(op)`. -/
def push (r : Round) (dst : Nat) (op : LensOp) : Result Empty Round := do
  let inbox ← index r.inboxes dst
  return { r with inboxes := r.inboxes.set dst (inbox ++ [op]) }

/-- `bytes_sent_this_round[src]` grows. -/
def charge (r : Round) (src bytes : Nat) : Result Empty Round := do
  let sent ← index r.bytesSent src
  return { r with bytesSent := r.bytesSent.set src (saturatingAdd64 sent bytes) }

end Round

namespace Setup

variable (cr : Crates) (u : Setup)

/-! ## Malicious traffic -/

/-- What the two loops of a malicious node share: an operation goes to a node and is charged. -/
def attack (r : Round) (idx target : Nat) (op : LensOp) : Result Empty Round := do
  let r ← r.push target op
  let r ← r.charge idx u.cfg.idleGate.opBytesEstimate
  return { r with swarm := r.swarm.countGenerated 1 }

def spam (round : UInt64) (idx : Nat) (hostId : UInt8) (siteId : SiteId) (r : Round) (i : Nat) :
    Result Empty Round := do
  let base ← usizeAdd idx i
  let shift ← usizeMul round.toNat 3
  let sum ← usizeAdd base shift
  let op := makeInvalidSpamOp (UInt32.ofNat idx)
    (saturatingAdd64 (saturatingMul64 round 1000) (i + 1)) hostId siteId
  u.attack r idx (sum % u.cfg.nodeCount) op

def sybil (round : UInt64) (m idx : Nat) (hostId : UInt8) (siteId : SiteId) (r : Round) (i : Nat) :
    Result Empty Round := do
  let base ← usizeAdd idx i
  let shift ← usizeMul round.toNat 11
  let sum ← usizeAdd base shift
  let sybilOrigin := saturatingAdd32 (saturatingAdd32
    (saturatingAdd32 1000000 (saturatingMul32 (UInt32.ofNat m) 10000))
    (UInt32.ofNat round.toNat)) (UInt32.ofNat i)
  match makeSybilOp cr sybilOrigin 1 hostId siteId u.cfg.guard.basePowBits with
  | some op => u.attack r idx (sum % u.cfg.nodeCount) op
  | none => .error .fuel

def pressure (round : UInt64) (r : Round) (m : Nat) : Result Empty Round := do
  let idx := u.honestCount + m
  let node ← index r.swarm.nodes idx
  let r ← (List.range u.cfg.spamOpsPerMaliciousRound).foldlM
    (u.spam round idx node.hostId node.localSiteId) r
  (List.range u.cfg.sybilOpsPerMaliciousRound).foldlM
    (u.sybil cr round m idx node.hostId node.localSiteId) r

/-! ## Repair gossip -/

/-- Whether a charge would exceed the budget of an idle round. -/
def exceeds (round : UInt64) (sent : UInt64) (bytes : Nat) : Bool :=
  u.idleMode round && saturatingAdd64 sent bytes > u.idleBudget

/-- The loop over the operations of a log that a peer lacks. -/
def gossipOps (round : UInt64) (src dst : Nat) (log : List LensOp) (srcCtr : UInt64) :
    Nat → UInt64 → Round × Bool → Result Empty (Round × Bool)
  | 0, _, _ => .error .fuel
  | k + 1, next, (r, missingAny) => do
    let inbox ← index r.inboxes dst
    if next ≤ srcCtr ∧ inbox.length < u.cfg.maxGossipBatch then
      let opBytes := u.cfg.idleGate.opBytesEstimate
      let sent ← index r.bytesSent src
      if u.exceeds round sent opBytes then return (r, missingAny)
      match log[next.toNat - 1]? with
      | some op => do
        let r ← r.push dst op
        let r ← r.charge src opBytes
        let r := { r with swarm := { r.swarm with
          deliveredOps := saturatingAdd64 r.swarm.deliveredOps 1 } }
        gossipOps round src dst log srcCtr k (saturatingAdd64 next 1) (r, true)
      | none => gossipOps round src dst log srcCtr k (saturatingAdd64 next 1) (r, missingAny)
    else return (r, missingAny)

/-- The loop over the writers, each with its place in the snapshot. -/
def gossipWriters (round : UInt64) (src dst : Nat) (snapshot : List (List UInt64)) :
    List (NodeId × Nat) → Round × Bool → Result Empty (Round × Bool)
  | [], acc => .ok acc
  | (origin, wIdx) :: writers, (r, missingAny) => do
    let inbox ← index r.inboxes dst
    if inbox.length ≥ u.cfg.maxGossipBatch then return (r, missingAny)
    let srcCtr ← index (← index snapshot src) wIdx
    let dstCtr ← index (← index snapshot dst) wIdx
    if srcCtr ≤ dstCtr then gossipWriters round src dst snapshot writers (r, missingAny)
    else
      match r.swarm.opStore[origin]? with
      | none => gossipWriters round src dst snapshot writers (r, missingAny)
      | some log => do
        let acc ← u.gossipOps round src dst log srcCtr u.bound (saturatingAdd64 dstCtr 1)
          (r, missingAny)
        gossipWriters round src dst snapshot writers acc

/-- One probe of a peer. -/
def probe (round : UInt64) (snapshot : List (List UInt64)) (src : Nat) (peers : List Nat)
    (start : Nat) (r : Round) (step : Nat) : Result Empty Round := do
  let dst ← index peers ((start + step) % peers.length)
  let beaconBytes := u.cfg.idleGate.beaconBytes
  let sent ← index r.bytesSent src
  if u.exceeds round sent beaconBytes then return r
  let r ← r.charge src beaconBytes
  let (r, missingAny) ← u.gossipWriters round src dst snapshot u.writerOrigins.zipIdx (r, false)
  if missingAny then
    return { r with swarm := { r.swarm with
      repairMessages := saturatingAdd64 r.swarm.repairMessages 1 } }
  return r

/-- The repair gossip of a node. -/
def gossip (round : UInt64) (snapshot : List (List UInt64)) (r : Round) (src : Nat) :
    Result Empty Round := do
  let peers ← index u.topology src
  if peers.isEmpty then return r
  let stride := max peers.length 1
  let start := (UInt64.ofNat src * 17 + round * 31).toNat % stride
  let toProbe := min u.repairPeers peers.length
  (List.range toProbe).foldlM (u.probe round snapshot src peers start) r

/-! ## Rounds -/

/-- The round's traffic, after the honest writes. -/
def traffic (round : UInt64) (s : Swarm) : Result Empty Round := do
  let r : Round :=
    { swarm := s
      bytesSent := List.replicate u.cfg.nodeCount 0
      inboxes := List.replicate u.cfg.nodeCount [] }
  let r ← (List.range (u.cfg.nodeCount - u.honestCount)).foldlM (u.pressure cr round) r
  let snapshot := r.swarm.nodes.map fun node => u.writerOrigins.map node.frontierFor
  (List.range u.cfg.nodeCount).foldlM (u.gossip round snapshot) r

/-- The incoming operations are applied. -/
def deliver (round : UInt64) (r : Round) : Swarm :=
  { r.swarm with nodes := (r.swarm.nodes.zip r.inboxes).map fun (node, ops) =>
      (node.ingestBatch cr round ops).1 }

/-- What an idle round adds to the observations. -/
def observe (o : Observed) (bytesSent : List UInt64) : Observed :=
  let sent := bytesSent.take u.honestCount
  { maxIdleBytesPerSec := max o.maxIdleBytesPerSec (sent.foldl max 0)
    idleBytesAccum := sent.foldl (fun accum bytes => saturatingAdd128 accum bytes.toNat)
      o.idleBytesAccum
    idleRounds := saturatingAdd64 o.idleRounds 1 }

/-- The views of the honest nodes. -/
def honestDigests (s : Swarm) : List String :=
  (s.nodes.take u.honestCount).map fun node => node.viewDigestHex cr u.cfg.targetSiteId

/-- The honest writes of a round, none in the settle rounds. -/
def honestWrites (round : UInt64) (s : Swarm) : Result Empty Swarm :=
  if round < u.cfg.rounds then
    (List.range u.cfg.honestWriteOpsPerRound).foldlM (u.honestWrite cr round) s
  else return s

/-- One round, and whether the swarm has converged in it. -/
def runRound (round : UInt64) (s : Swarm) (o : Observed) :
    Result Empty (Swarm × Observed × Bool) := do
  let s ← u.honestWrites cr round s
  let r ← u.traffic cr round s
  let s := deliver cr round r
  if u.idleMode round then
    return (s, u.observe o r.bytesSent, (u.honestDigests cr s).dedup.length = 1)
  return (s, o, false)

/-- The rounds from `round` on, up to the one that converges. -/
def runRounds : Nat → UInt64 → Swarm → Observed → Result Empty (Swarm × Observed × Option UInt64)
  | 0, _, s, o => .ok (s, o, none)
  | k + 1, round, s, o => do
    let (s, o, converged) ← u.runRound cr round s o
    if converged then return (s, o, some round)
    runRounds k (round + 1) s o

end Setup

/-! ## The simulation -/

/-- The nodes of a new swarm. -/
def Setup.newNodes (u : Setup) : List DefederationNode :=
  (List.range u.cfg.nodeCount).map fun i =>
    let hostId := if i < u.cfg.nodeCount / 2 then 0 else 1
    let trusted := u.writerOrigins.take (min u.cfg.trustedSeedOrigins u.writerCount)
    DefederationNode.new (UInt32.ofNat i) hostId (UInt64.ofNat i + 1)
      ((ExtTreeSet.ofList trusted).insert (UInt32.ofNat i)) u.cfg.guard

/-- The average over the idle rounds and the honest nodes. -/
def Setup.average (u : Setup) (o : Observed) : UInt64 :=
  if o.idleRounds = 0 ∨ u.honestCount = 0 then 0
  else UInt64.ofNat (o.idleBytesAccum / (o.idleRounds.toNat * u.honestCount))

/-- The sum of a statistic over the nodes. -/
def Swarm.total (s : Swarm) (stat : DefederationNodeStats → UInt64) : UInt64 :=
  s.nodes.foldl (fun sum node => saturatingAdd64 sum (stat node.stats).toNat) 0

def Setup.result (cr : Crates) (u : Setup) (s : Swarm) (o : Observed)
    (convergedRound : Option UInt64) : DefederationSimulationResult :=
  let digests := u.honestDigests cr s
  let majority := (digests.map fun digest => digests.count digest).foldl max 0
  { converged := digests.dedup.length = 1
    roundsExecuted := (convergedRound.map fun round => saturatingAdd64 round 1).getD
      (saturatingAdd64 u.cfg.rounds u.cfg.settleRounds.toNat)
    uniqueHonestViewDigests := digests.dedup.length
    honestNodesOffMajorityView := u.honestCount - majority
    generatedOps := s.generatedOps
    deliveredOps := s.deliveredOps
    repairMessages := s.repairMessages
    totalAcceptedOps := s.total DefederationNodeStats.acceptedOps
    totalRejectedPow := s.total DefederationNodeStats.rejectedPow
    totalRejectedSybil := s.total DefederationNodeStats.rejectedSybil
    totalRejectedRateLimit := s.total DefederationNodeStats.rejectedRateLimit
    maxIdleBytesPerSecObserved := o.maxIdleBytesPerSec
    avgIdleBytesPerSecObserved := u.average o
    idleBudgetBytesPerSec := u.idleBudget }

/-- The result for a swarm without nodes. -/
def emptyResult (cfg : DefederationSimulationConfig) : DefederationSimulationResult :=
  { converged := true
    roundsExecuted := 0
    uniqueHonestViewDigests := 0
    honestNodesOffMajorityView := 0
    generatedOps := 0
    deliveredOps := 0
    repairMessages := 0
    totalAcceptedOps := 0
    totalRejectedPow := 0
    totalRejectedSybil := 0
    totalRejectedRateLimit := 0
    maxIdleBytesPerSecObserved := 0
    avgIdleBytesPerSecObserved := 0
    idleBudgetBytesPerSec := cfg.idleGate.maxIdleBytesPerSec }

def runDefederationSimulation (cr : Crates) (gate : GateFunctions) (order : Finset Nat → List Nat)
    (bound : Nat) (cfg : DefederationSimulationConfig) :
    Result Empty DefederationSimulationResult := do
  if cfg.nodeCount = 0 then return emptyResult cfg
  let maliciousNodes := min cfg.maliciousNodes (cfg.nodeCount - 1)
  let honestCount := cfg.nodeCount - maliciousNodes
  let writerCount := max (min cfg.writerCount honestCount) 1
  let topology ← buildTwoHostTopology order bound cfg.nodeCount cfg.fanout
  let repairPeers ← gate.repairPeersForSwarm cfg.idleGate cfg.nodeCount
  let u : Setup :=
    { cfg, honestCount, writerCount, topology, bound
      repairPeers := min repairPeers (max cfg.fanout 1)
      idleBudget := gate.idleBudgetForSwarm cfg.idleGate cfg.nodeCount }
  let s : Swarm :=
    { nodes := u.newNodes, opStore := ∅, generatedOps := 0, deliveredOps := 0, repairMessages := 0 }
  let s ← (List.range writerCount).foldlM (u.bootstrap cr) s
  let totalRounds := saturatingAdd64 cfg.rounds cfg.settleRounds.toNat
  let (s, o, convergedRound) ← u.runRounds cr totalRounds.toNat 0 s {}
  return u.result cr s o convergedRound

end Citadel
