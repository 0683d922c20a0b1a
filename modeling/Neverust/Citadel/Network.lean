import Neverust.Citadel.Run

/-!
# A network of honest nodes

Any number of nodes with different identities. Every emitted operation goes into a pool, and at any
time a node may be given any operations of the pool, in any order and any number of times, under any
round number.
-/

namespace Citadel

structure Network (ι : Type) where
  nodes : ι → DefederationNode
  pool : List LensOp

namespace Network

variable {ι : Type}

/-- New nodes with different identities, and nothing emitted. -/
structure Initial (s : Network ι) : Prop where
  fresh : ∀ i, ∃ nodeId hostId localSiteId trusted cfg,
    s.nodes i = .new nodeId hostId localSiteId trusted cfg
  distinct : ∀ i j, (s.nodes i).nodeId = (s.nodes j).nodeId → i = j
  silent : s.pool = []

variable [DecidableEq ι]

inductive Step (cr : Crates) : Network ι → Network ι → Prop
  | emit {s : Network ι} (i : ι) (e : Emit) {n : DefederationNode} {op : LensOp}
      (h : (s.nodes i).emit cr e = some (n, op)) :
      Step cr s ⟨Function.update s.nodes i n, op :: s.pool⟩
  | ingest {s : Network ι} (i : ι) (round : UInt64) (ops : List LensOp)
      (h : ∀ op ∈ ops, op ∈ s.pool) :
      Step cr s ⟨Function.update s.nodes i ((s.nodes i).ingestBatch cr round ops).1, s.pool⟩

/-- The states of the network that follow from `s₀`. -/
inductive Reaches (cr : Crates) (s₀ : Network ι) : Network ι → Prop
  | refl : Reaches cr s₀ s₀
  | step {s s' : Network ι} (hs : Reaches cr s₀ s) (h : Step cr s s') : Reaches cr s₀ s'

/-- The identity of a node. -/
def id (s : Network ι) (i : ι) : NodeId := (s.nodes i).nodeId

/-- The log that a node has of itself. -/
def ownLog (s : Network ι) (i : ι) : List LensOp := (s.nodes i).logFor (s.id i)

/-- The number of operations that an origin has emitted. -/
def emitted (s : Network ι) (origin : NodeId) : Nat :=
  (s.pool.filter fun op => op.origin = origin).length

end Network

end Citadel
