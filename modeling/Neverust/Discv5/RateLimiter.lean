import Mathlib.Logic.Function.Basic
import Neverust.Discv5.Rpc

/-!
# The packet filter (`socket/filter/rate_limiter.rs`, `socket/filter/mod.rs`)

A rate limiter keeps for each key the time at which its bucket will be full again. The filter asks
three of them, one for all packets, one for each IP and one for each node, and bans who exceeds the
limit. Times are nanoseconds since the start of the limiter. The caches `known_addrs` and
`banned_nodes` of a third-party crate are given by their operations.
-/

namespace Discv5

structure Quota where
  replenishAllEvery : Nat
  maxTokens : Nat
  deriving Repr, DecidableEq

inductive RateLimitedErr
  | tooLarge
  | tooSoon (wait : Nat)
  deriving Repr, DecidableEq

structure Limiter (K : Type) where
  tau : Nat
  t : Nat
  tatPerKey : K → Option Nat

namespace Limiter

variable {K : Type}

def fromQuota (quota : Quota) : Except String (Limiter K) :=
  if quota.maxTokens = 0 then .error "Max number of tokens should be positive" else
  let tau := quota.replenishAllEvery
  if tau = 0 then .error "Replenish time must be positive" else
  let t := tau / quota.maxTokens
  if 2 ^ 64 ≤ t then .error "total replenish time is too long" else
  if 2 ^ 64 ≤ tau then .error "total replenish time is too long" else
  .ok { tau, t, tatPerKey := fun _ => none }

variable (l : Limiter K)

def setTat [DecidableEq K] (key : K) (tat : Nat) : Limiter K :=
  { l with tatPerKey := Function.update l.tatPerKey key (some tat) }

def allows [DecidableEq K] (timeSinceStart : Nat) (key : K) (tokens : Nat) :
    Rust.Result RateLimitedErr Unit × Limiter K :=
  let timeSinceStart := timeSinceStart % 2 ^ 64
  match Rust.usizeMul l.t tokens with
  | .error e => (.error e, l)
  | .ok additionalTime =>
    if l.tau < additionalTime then (.error (.err .tooLarge), l) else
    let tat := (l.tatPerKey key).getD timeSinceStart
    let l := l.setTat key tat
    match Rust.usizeAdd tat additionalTime with
    | .error e => (.error e, l)
    | .ok sum =>
      let earliestTime := sum - l.tau
      if timeSinceStart < earliestTime then
        (.error (.err (.tooSoon (earliestTime - timeSinceStart))), l)
      else
        match Rust.usizeAdd (max timeSinceStart tat) additionalTime with
        | .error e => (.error e, l)
        | .ok tat => (.ok (), l.setTat key tat)

def prune (timeLimit : Nat) : Limiter K :=
  { l with tatPerKey := fun k => (l.tatPerKey k).filter fun tat => timeLimit % 2 ^ 64 ≤ tat }

end Limiter

/-- A call of a limiter. -/
inductive LimiterCall (K : Type)
  | allows (now : Nat) (key : K) (tokens : Nat)
  | prune (now : Nat)

def LimiterCall.time {K : Type} : LimiterCall K → Nat
  | .allows now _ _ | .prune now => now

/-- A limiter after a history of calls, the newest first. -/
def Limiter.after {K : Type} [DecidableEq K] (l : Limiter K) : List (LimiterCall K) → Limiter K
  | [] => l
  | .allows now key tokens :: older => ((l.after older).allows now key tokens).2
  | .prune now :: older => (l.after older).prune now

/-! ## The limits of the filter -/

abbrev NodeId := BitVec 256

inductive LimitKind
  | total
  | nodeId (nodeId : NodeId)
  | ip (ip : IpAddr)

structure RateLimiter where
  totalRl : Limiter Unit
  nodeRl : Option (Limiter NodeId)
  ipRl : Option (Limiter IpAddr)

namespace RateLimiter

/-- `RateLimiterBuilder::build`. -/
def build (totalQuota nodeQuota ipQuota : Option Quota) : Except String RateLimiter := do
  let totalQuota ← totalQuota.elim (.error "Total quota not specified and must be set.") .ok
  let totalRl ← Limiter.fromQuota totalQuota
  let nodeRl ← nodeQuota.elim (.ok none) fun q => (Limiter.fromQuota q).map some
  let ipRl ← ipQuota.elim (.ok none) fun q => (Limiter.fromQuota q).map some
  .ok { totalRl, nodeRl, ipRl }

variable (r : RateLimiter)

/-- `allows`, of one token. -/
def allows (now : Nat) : LimitKind → Rust.Result RateLimitedErr Unit × RateLimiter
  | .total => let (a, l) := r.totalRl.allows now () 1; (a, { r with totalRl := l })
  | .ip ip =>
    match r.ipRl with
    | some l => let (a, l) := l.allows now ip 1; (a, { r with ipRl := some l })
    | none => (.ok (), r)
  | .nodeId nodeId =>
    match r.nodeRl with
    | some l => let (a, l) := l.allows now nodeId 1; (a, { r with nodeRl := some l })
    | none => (.ok (), r)

def prune (now : Nat) : RateLimiter :=
  { totalRl := r.totalRl.prune now
    nodeRl := r.nodeRl.map (·.prune now)
    ipRl := r.ipRl.map (·.prune now) }

end RateLimiter

/-! ## The filter -/

structure PermitBanList where
  permitIps : IpAddr → Bool
  banIps : IpAddr → Option (Option Nat)
  permitNodes : NodeId → Bool
  banNodes : NodeId → Option (Option Nat)

/-- The operations of an `LruCache` with a state `C`: `get_mut` with a change of the value, `put`,
`pop`. -/
structure LruOps (C K V : Type) where
  getMut : C → K → (V → V) → Option V × C
  put : C → K → V → C
  pop : C → K → C

/-- A cache of at most `cap` entries, the last used first. -/
def LruOps.ofList {K V : Type} [DecidableEq K] (cap : Nat) : LruOps (List (K × V)) K V where
  getMut entries k change :=
    match entries.lookup k with
    | none => (none, entries)
    | some v => (some (change v), (k, change v) :: entries.filter fun e => e.1 ≠ k)
  put entries k v := ((k, v) :: entries.filter fun e => e.1 ≠ k).take cap
  pop entries k := entries.filter fun e => e.1 ≠ k

structure NodeAddress where
  ip : IpAddr
  port : Nat
  nodeId : NodeId
  deriving DecidableEq

structure PacketFilter (C D : Type) where
  enabled : Bool
  rateLimiter : Option RateLimiter
  banDuration : Option Nat
  knownAddrs : C
  bannedNodes : D
  maxNodesPerIp : Option Nat
  maxBansPerIp : Option Nat

namespace PermitBanList

def banIp (lists : PermitBanList) (ip : IpAddr) (timeout : Option Nat) : PermitBanList :=
  { lists with banIps := Function.update lists.banIps ip (some timeout) }

def banNode (lists : PermitBanList) (nodeId : NodeId) (timeout : Option Nat) : PermitBanList :=
  { lists with banNodes := Function.update lists.banNodes nodeId (some timeout) }

end PermitBanList

/-- `is_err`, but for a panic. -/
def isErr : Rust.Result RateLimitedErr Unit → Option Bool
  | .ok () => some false
  | .error (.err _) => some true
  | .error _ => none

namespace PacketFilter

variable {C D : Type} (f : PacketFilter C D) (lists : PermitBanList)

/-- `initial_pass`; `none` is a panic. The source reads the clock for each limiter and for the end
of a ban; the readings of one call are one `now` here. -/
def initialPass (now : Nat) (src : IpAddr) : Option (Bool × PacketFilter C D × PermitBanList) :=
  if lists.permitIps src then some (true, f, lists)
  else if (lists.banIps src).isSome then some (false, f, lists)
  else if !f.enabled then some (true, f, lists)
  else
    match f.rateLimiter with
    | none => some (true, f, lists)
    | some rateLimiter => do
      let (a, rateLimiter) := rateLimiter.allows now (.ip src)
      if ← isErr a then
        let banTimeout := f.banDuration.map (now + ·)
        some (false, { f with rateLimiter := some rateLimiter }, lists.banIp src banTimeout)
      else
        let (a, rateLimiter) := rateLimiter.allows now .total
        some (!(← isErr a), { f with rateLimiter := some rateLimiter }, lists)

variable (known : LruOps C IpAddr (List NodeId)) (banned : LruOps D IpAddr Nat)

/-- The count of the nodes that are banned for an IP, which starts with 0. -/
def countBan (ip : IpAddr) (banTimeout : Option Nat) : PacketFilter C D × PermitBanList :=
  match f.maxBansPerIp with
  | none => (f, lists)
  | some maxBansPerIp =>
    match banned.getMut f.bannedNodes ip (· + 1) with
    | (some bannedCount, bannedNodes) =>
      let f := { f with bannedNodes }
      if maxBansPerIp ≤ bannedCount then (f, lists.banIp ip banTimeout) else (f, lists)
    | (none, bannedNodes) => ({ f with bannedNodes := banned.put bannedNodes ip 0 }, lists)

/-- The check of the nodes that are known for an IP. -/
def nodesPerIp (now : Nat) (address : NodeAddress) : Bool × PacketFilter C D × PermitBanList :=
  match f.maxNodesPerIp with
  | none => (true, f, lists)
  | some maxNodesPerIp =>
    let ip := address.ip
    let (knownNodes, knownAddrs) :=
      match known.getMut f.knownAddrs ip (List.insert address.nodeId) with
      | (some ids, knownAddrs) => (ids.length, knownAddrs)
      | (none, knownAddrs) => (1, known.put knownAddrs ip [address.nodeId])
    if maxNodesPerIp ≤ knownNodes then
      let banTimeout := f.banDuration.map (now + ·)
      (false, { f with knownAddrs := known.pop knownAddrs ip }, lists.banIp ip banTimeout)
    else (true, { f with knownAddrs }, lists)

/-- `final_pass`; `none` is a panic. Here too `now` stands for each reading of the clock. -/
def finalPass (now : Nat) (address : NodeAddress) :
    Option (Bool × PacketFilter C D × PermitBanList) :=
  if lists.permitNodes address.nodeId then some (true, f, lists)
  else if (lists.banNodes address.nodeId).isSome then some (false, f, lists)
  else if !f.enabled then some (true, f, lists)
  else
    match f.rateLimiter with
    | none => some (f.nodesPerIp lists known now address)
    | some rateLimiter => do
      let (a, rateLimiter) := rateLimiter.allows now (.nodeId address.nodeId)
      let f := { f with rateLimiter := some rateLimiter }
      if ← isErr a then
        let banTimeout := f.banDuration.map (now + ·)
        some (false, f.countBan (lists.banNode address.nodeId banTimeout) banned address.ip
          banTimeout)
      else some (f.nodesPerIp lists known now address)

def pruneLimiter (now : Nat) : PacketFilter C D :=
  { f with rateLimiter := f.rateLimiter.map (·.prune now) }

end PacketFilter

/-- A call of the filter, or a change of the lists by another task. -/
inductive FilterCall
  | initialPass (now : Nat) (src : IpAddr)
  | finalPass (now : Nat) (address : NodeAddress)
  | pruneLimiter (now : Nat)
  | edit (now : Nat) (change : PermitBanList → PermitBanList)

namespace FilterCall

def time : FilterCall → Nat
  | .initialPass now _ | .finalPass now _ | .pruneLimiter now | .edit now _ => now

/-- Whether what a call asks about is on a permit list. -/
def permitted (lists : PermitBanList) : FilterCall → Bool
  | .initialPass _ src => lists.permitIps src
  | .finalPass _ address => lists.permitNodes address.nodeId
  | _ => false

end FilterCall

/-- What a call has found: whether it passes, and whether it does so by a permit list. -/
structure Verdict where
  call : FilterCall
  permitted : Bool
  passes : Bool

namespace PacketFilter

variable {C D : Type} (known : LruOps C IpAddr (List NodeId)) (banned : LruOps D IpAddr Nat)

def act (f : PacketFilter C D) (lists : PermitBanList) :
    FilterCall → Option (Bool × PacketFilter C D × PermitBanList)
  | .initialPass now src => f.initialPass lists now src
  | .finalPass now address => f.finalPass lists known banned now address
  | .pruneLimiter now => some (true, f.pruneLimiter now, lists)
  | .edit _ change => some (true, f, change lists)

/-- The filter and the lists after calls, the newest first, with what each has found. -/
def after (f : PacketFilter C D) (lists : PermitBanList) :
    List FilterCall → Option (List Verdict × PacketFilter C D × PermitBanList)
  | [] => some ([], f, lists)
  | call :: older => do
    let (verdicts, f, lists) ← f.after lists older
    let (passes, f', lists') ← f.act known banned lists call
    some ({ call, permitted := call.permitted lists, passes } :: verdicts, f', lists')

end PacketFilter

end Discv5
