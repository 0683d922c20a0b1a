import Neverust.Citadel.Proof.Apply

/-!
# Runs of a node

A run is a sequence of local emits and of batches with any operations whatever, under any round
numbers. `Reachable`: the states of the runs of a new node. With a flagship the runtime also calls
`trust_origin` on its own node, at the start and every two minutes, which no operation records;
these calls are no part of a run.
-/

namespace Citadel

open Std (ExtTreeSet)

/-- The arguments of an emit. -/
inductive Emit
  | follow (targetSiteId : SiteId) (enabled : Bool)
  | content (contentSlot : ContentSlot) (present : Bool)
  | trust (origin : NodeId) (trusted : Bool)
  deriving Repr, DecidableEq

inductive Call
  | emit (e : Emit)
  | ingest (round : UInt64) (ops : List LensOp)
  deriving Repr, DecidableEq

namespace DefederationNode

/-- The kind of the operation that an emit makes. -/
def kindOf (n : DefederationNode) : Emit → LensOpKind
  | .follow targetSiteId enabled => .follow n.localSiteId targetSiteId enabled
  | .content contentSlot present => .content n.localSiteId contentSlot present
  | .trust origin trusted => .trustOrigin origin trusted

def emit (cr : Crates) (n : DefederationNode) : Emit → Option (DefederationNode × LensOp)
  | .follow targetSiteId enabled => n.emitLocalFollow cr targetSiteId enabled
  | .content contentSlot present => n.emitLocalContent cr contentSlot present
  | .trust origin trusted => n.emitLocalTrust cr origin trusted

theorem emit_eq (cr : Crates) (n : DefederationNode) (e : Emit) :
    n.emit cr e = n.emitLocal cr (n.kindOf e) := by
  cases e <;> rfl

end DefederationNode

/-- One call on a node, with the state it leaves. -/
inductive Step (cr : Crates) : DefederationNode → Call → DefederationNode → Prop
  | emit {n n' : DefederationNode} {e : Emit} {op : LensOp} (h : n.emit cr e = some (n', op)) :
      Step cr n (.emit e) n'
  | ingest (n : DefederationNode) (round : UInt64) (ops : List LensOp) :
      Step cr n (.ingest round ops) (n.ingestBatch cr round ops).1

/-- A run in which every call, with the state it is made in, is one of `Q`. -/
inductive RunWith (cr : Crates) (Q : DefederationNode → Call → Prop) :
    DefederationNode → List Call → DefederationNode → Prop
  | nil (n : DefederationNode) : RunWith cr Q n [] n
  | cons {n n' n'' : DefederationNode} {c : Call} {cs : List Call} (hq : Q n c)
      (h : Step cr n c n') (hs : RunWith cr Q n' cs n'') : RunWith cr Q n (c :: cs) n''

/-- A run with any calls. -/
abbrev Run (cr : Crates) := RunWith cr fun _ _ => True

def Reachable (cr : Crates) (n : DefederationNode) : Prop :=
  ∃ nodeId hostId localSiteId trusted cfg calls,
    Run cr (.new nodeId hostId localSiteId trusted cfg) calls n

section
variable {cr : Crates} {I : DefederationNode → Prop} {P : LensOp → Prop} {n n' : DefederationNode}

theorem PendingOk.new (P : LensOp → Prop) (nodeId : NodeId) (hostId : UInt8) (localSiteId : SiteId)
    (trusted : ExtTreeSet NodeId) (cfg : DefederationGuardConfig) :
    (DefederationNode.new nodeId hostId localSiteId trusted cfg).PendingOk P := by
  intro origin counter op h
  simp [DefederationNode.pendingFor, DefederationNode.new] at h

/-- What an emit does with the queues. -/
theorem PendingOk.emit {e : Emit} {op : LensOp} (h : n.emit cr e = some (n', op))
    (hpend : n.PendingOk P) : n'.PendingOk P := by
  rw [DefederationNode.emit_eq] at h
  rw [(DefederationNode.emitLocal_cases h).1]
  exact hpend.congr (DefederationNode.pending_applyKind _ _)

/-- **Induction over the runs of a node**: an invariant is kept by an emit, by an operation that is
next in order, and does not depend on the records of the guard and the queues. -/
theorem RunWith.induction {Q : DefederationNode → Call → Prop}
    (hkeep : ∀ n known pending guard stats, I n → I { n with
      knownOrigins := known, pending := pending, guardState := guard, stats := stats })
    (hpass : ∀ n op, I n → n.checkGuards cr op = none → P op)
    (happly : ∀ n op, I n → P op → n.Next op → I (n.applyOrderedOp op))
    (hemit : ∀ n e n' op, I n → Q n (.emit e) → n.emit cr e = some (n', op) → I n')
    {cs : List Call} (h : RunWith cr Q n cs n') (hI : I n ∧ n.PendingOk P) :
    I n' ∧ n'.PendingOk P := by
  induction h with
  | nil n => exact hI
  | cons hq hs _ ih =>
    apply ih
    cases hs with
    | emit h => exact ⟨hemit _ _ _ _ hI.1 hq h, PendingOk.emit h hI.2⟩
    | ingest round ops =>
      exact DefederationNode.ingestBatch_induction hkeep happly cr _ (fun op _ m => hpass m op) hI.2
        hI.1

theorem RunWith.snoc {Q : DefederationNode → Call → Prop} {n'' : DefederationNode} {c : Call}
    {cs : List Call} (h : RunWith cr Q n cs n') (hq : Q n' c) (hs : Step cr n' c n'') :
    RunWith cr Q n (cs ++ [c]) n'' := by
  induction h with
  | nil n => exact .cons hq hs (.nil _)
  | cons hq' hs' _ ih => exact .cons hq' hs' (ih hq hs)

theorem Reachable.step (h : Reachable cr n) {c : Call} (hs : Step cr n c n') :
    Reachable cr n' := by
  obtain ⟨nodeId, hostId, localSiteId, trusted, cfg, calls, hrun⟩ := h
  exact ⟨nodeId, hostId, localSiteId, trusted, cfg, calls ++ [c], hrun.snoc trivial hs⟩

end

end Citadel
