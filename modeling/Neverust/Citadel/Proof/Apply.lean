import Neverust.Citadel.Node

/-!
# What a batch applies

`ingestBatch` changes the log, the graph and the trusted origins only through `applyOrderedOp`, and
only with an operation that is next in its origin's order. `ingestBatch_induction` is the rule the
invariants of a node are proved with: what holds before a batch, is kept by each such operation and
does not depend on the guard's and the queues' records holds after it.
-/

namespace Citadel

open Std (ExtTreeMap ExtTreeSet)
open Rust

theorem saturatingAdd64_one (a : UInt64) :
    (saturatingAdd64 a 1).toNat = min (a.toNat + 1) (2 ^ 64 - 1) := by
  rw [saturatingAdd64, UInt64.toNat_ofNat_of_lt' (show min _ _ < 2 ^ 64 by omega)]

namespace LensOp

/-- The timestamp of an operation. -/
def ts (op : LensOp) : Lamport := { counter := op.counter, origin := op.origin }

/-- What an operation does to the follow edges. -/
def followUpdate (op : LensOp) : List ((SiteId × SiteId) × LwwEntry) :=
  match op.kind with
  | .follow siteId targetSiteId enabled => [((siteId, targetSiteId), ⟨op.ts, enabled⟩)]
  | _ => []

/-- What an operation does to the content. -/
def contentUpdate (op : LensOp) : List ((SiteId × ContentSlot) × LwwEntry) :=
  match op.kind with
  | .content siteId contentSlot present => [((siteId, contentSlot), ⟨op.ts, present⟩)]
  | _ => []

/-- What an operation does to the trusted origins. -/
def trustUpdate (op : LensOp) : Option (NodeId × Bool) :=
  match op.kind with
  | .trustOrigin origin trusted => some (origin, trusted)
  | _ => none

theorem ts_followUpdate {op : LensOp} {u : (SiteId × SiteId) × LwwEntry}
    (h : u ∈ op.followUpdate) : u.2.ts = op.ts := by
  unfold followUpdate at h
  split at h
  · rw [List.mem_singleton.1 h]
  · cases h

theorem ts_contentUpdate {op : LensOp} {u : (SiteId × ContentSlot) × LwwEntry}
    (h : u ∈ op.contentUpdate) : u.2.ts = op.ts := by
  unfold contentUpdate at h
  split at h
  · rw [List.mem_singleton.1 h]
  · cases h

end LensOp

namespace DefederationNode

variable {n : DefederationNode} {op : LensOp}

/-! ## Fields of a node after an operation -/

section
variable (n op)

@[simp] theorem frontier_applyKind : (n.applyKind op).frontier = n.frontier := by
  unfold applyKind
  cases op.kind <;> rfl

@[simp] theorem opLog_applyKind : (n.applyKind op).opLog = n.opLog := by
  unfold applyKind
  cases op.kind <;> rfl

@[simp] theorem pending_applyKind : (n.applyKind op).pending = n.pending := by
  unfold applyKind
  cases op.kind <;> rfl

@[simp] theorem nodeId_applyKind : (n.applyKind op).nodeId = n.nodeId := by
  unfold applyKind
  cases op.kind <;> rfl

@[simp] theorem localCounter_applyKind : (n.applyKind op).localCounter = n.localCounter := by
  unfold applyKind
  cases op.kind <;> rfl

@[simp] theorem guardCfg_applyKind : (n.applyKind op).guardCfg = n.guardCfg := by
  unfold applyKind
  cases op.kind <;> rfl

@[simp] theorem guardState_applyKind : (n.applyKind op).guardState = n.guardState := by
  unfold applyKind
  cases op.kind <;> rfl

@[simp] theorem knownOrigins_applyKind : (n.applyKind op).knownOrigins = n.knownOrigins := by
  unfold applyKind
  cases op.kind <;> rfl

end

theorem frontierFor_applyOrderedOp (n : DefederationNode) (op : LensOp) (o : NodeId) :
    (n.applyOrderedOp op).frontierFor o = if op.origin = o then op.counter else n.frontierFor o := by
  simp [frontierFor, applyOrderedOp, ExtTreeMap.getD_insert]

theorem logFor_applyOrderedOp (n : DefederationNode) (op : LensOp) (o : NodeId) :
    (n.applyOrderedOp op).logFor o =
      if op.origin = o ∧ (n.logFor o).length = op.counter.toNat - 1 then n.logFor o ++ [op]
      else n.logFor o := by
  unfold logFor applyOrderedOp
  by_cases ho : op.origin = o
  · subst ho
    simp [logFor]
  · simp [ExtTreeMap.getD_insert, ho, logFor]

theorem pendingFor_applyOrderedOp (n : DefederationNode) (op : LensOp) (o : NodeId) :
    (n.applyOrderedOp op).pendingFor o = n.pendingFor o := by
  simp [pendingFor, applyOrderedOp]

/-! ## The graph and the trusted origins after an operation -/

theorem follows_applyOrderedOp (n : DefederationNode) (op : LensOp) :
    (n.applyOrderedOp op).graph.follows =
      Lww.updateAll LwwEntry.ts n.graph.follows op.followUpdate := by
  unfold applyOrderedOp applyKind LensOp.followUpdate
  cases op.kind with
  | follow a b enabled => exact LensGraph.lwwUpdate_eq _ _ _
  | content a b present => rfl
  | trustOrigin origin trusted => rfl

theorem content_applyOrderedOp (n : DefederationNode) (op : LensOp) :
    (n.applyOrderedOp op).graph.content =
      Lww.updateAll LwwEntry.ts n.graph.content op.contentUpdate := by
  unfold applyOrderedOp applyKind LensOp.contentUpdate
  cases op.kind with
  | follow a b enabled => rfl
  | content a b present => exact LensGraph.lwwUpdate_eq _ _ _
  | trustOrigin origin trusted => rfl

/-- Whether an origin is trusted after an operation. -/
theorem mem_trusted_applyOrderedOp (n : DefederationNode) (op : LensOp) (o : NodeId) :
    o ∈ (n.applyOrderedOp op).trustedOrigins ↔
      op.trustUpdate = some (o, true) ∨
        o ∈ n.trustedOrigins ∧ op.trustUpdate ≠ some (o, false) := by
  unfold applyOrderedOp applyKind LensOp.trustUpdate
  cases op.kind with
  | follow a b enabled => simp
  | content a b present => simp
  | trustOrigin origin trusted =>
    cases trusted with
    | true => simp [trustOrigin]
    | false =>
      simp [trustOrigin]
      tauto

/-! ## The queues -/

/-- The operation is the next one of its origin. -/
def Next (n : DefederationNode) (op : LensOp) : Prop :=
  op.counter = saturatingAdd64 (n.frontierFor op.origin) 1

/-- The operations in the queues are under their origin and counter, and each is one of `P`. -/
def PendingOk (P : LensOp → Prop) (n : DefederationNode) : Prop :=
  ∀ origin counter op, (n.pendingFor origin)[counter]? = some op →
    op.origin = origin ∧ op.counter = counter ∧ P op

variable {P : LensOp → Prop}

theorem pendingFor_insert (p : ExtTreeMap NodeId (ExtTreeMap UInt64 LensOp)) (o o' : NodeId)
    (q : ExtTreeMap UInt64 LensOp) : (p.insert o q).getD o' ∅ = if o = o' then q else p.getD o' ∅ := by
  simp [ExtTreeMap.getD_insert]

/-- A queue is replaced by one whose operations are also in order. -/
theorem PendingOk.insert {n' : DefederationNode} (h : PendingOk P n) {o : NodeId}
    {q : ExtTreeMap UInt64 LensOp} (hp : n'.pending = n.pending.insert o q)
    (hq : ∀ counter op, q[counter]? = some op → op.origin = o ∧ op.counter = counter ∧ P op) :
    PendingOk P n' := by
  intro o' counter op hop
  rw [pendingFor, hp, pendingFor_insert] at hop
  split at hop
  · rename_i ho
    subst ho
    exact hq counter op hop
  · exact h o' counter op hop

theorem PendingOk.congr {n' : DefederationNode} (h : PendingOk P n) (hp : n'.pending = n.pending) :
    PendingOk P n' := by
  unfold PendingOk pendingFor at *
  rw [hp]
  exact h

/-! ## Induction over a batch -/

section
variable {I : DefederationNode → Prop}
  (hkeep : ∀ n known pending guard stats, I n → I { n with
    knownOrigins := known, pending := pending, guardState := guard, stats := stats })
  (happly : ∀ n op, I n → P op → n.Next op → I (n.applyOrderedOp op))
include hkeep happly

theorem drain_induction (k : Nat) {origin : NodeId} (hpend : PendingOk P n) (hI : I n) :
    I (drain k n origin) ∧ PendingOk P (drain k n origin) := by
  induction k generalizing n with
  | zero => exact ⟨hI, hpend⟩
  | succ k ih =>
    rw [drain]
    dsimp only
    split
    · exact ⟨hI, hpend⟩
    · rename_i nextOp hnext
      obtain ⟨ho, hc, hP⟩ := hpend _ _ _ hnext
      have hpend' : PendingOk P { n with pending := n.pending.insert origin ((n.pendingFor origin).erase
          (saturatingAdd64 (n.frontierFor origin) 1)) } := by
        refine hpend.insert rfl fun counter op hop => ?_
        simp only [ExtTreeMap.getElem?_erase] at hop
        split at hop
        · cases hop
        · exact hpend _ _ _ hop
      refine ih ?_ (hkeep _ _ _ _ _ (happly _ nextOp (hkeep n _ _ _ _ hI) hP ?_))
      · exact hpend'.congr (pending_applyKind _ _)
      · rw [Next, hc, ho]
        rfl

theorem tryApplyWithReordering_induction (hop : P op) (hpend : PendingOk P n) (hI : I n) :
    I (n.tryApplyWithReordering op) ∧ PendingOk P (n.tryApplyWithReordering op) := by
  unfold tryApplyWithReordering
  dsimp only
  split
  · exact ⟨hkeep n _ _ _ _ hI, hpend⟩
  · split
    · split
      · exact ⟨hkeep n _ _ _ _ hI, hpend.insert rfl fun counter => hpend op.origin counter⟩
      · refine ⟨hkeep n _ _ _ _ hI, hpend.insert rfl fun counter op' hop' => ?_⟩
        rw [ExtTreeMap.getElem?_insertIfNew] at hop'
        split at hop'
        · rename_i hc
          cases hop'
          exact ⟨rfl, Std.LawfulEqCmp.eq_of_compare hc.1, hop⟩
        · exact hpend _ _ _ hop'
    · rename_i hnext
      have hnext : n.Next op := Classical.not_not.1 hnext
      refine drain_induction hkeep happly _ ?_ (hkeep _ _ _ _ _ (happly n op hI hop hnext))
      exact hpend.congr (pending_applyKind _ _)

omit happly in
theorem seeHost_induction (op : LensOp) (hpend : PendingOk P n) (hI : I n) :
    I (n.seeHost op) ∧ PendingOk P (n.seeHost op) := by
  unfold seeHost
  split
  · exact ⟨hkeep n _ _ _ _ hI, hpend⟩
  · exact ⟨hI, hpend⟩

theorem ingestOp_induction (cr : Crates) (hop : n.checkGuards cr op = none → P op)
    (hpend : PendingOk P n) (hI : I n) :
    I (n.ingestOp cr op).1 ∧ PendingOk P (n.ingestOp cr op).1 := by
  obtain ⟨hI', hpend'⟩ := seeHost_induction hkeep op hpend hI
  unfold ingestOp
  split
  · rename_i refusal _
    cases refusal <;> exact ⟨hkeep _ _ _ _ _ hI', hpend'⟩
  · rename_i hpass
    exact tryApplyWithReordering_induction hkeep happly (hop hpass) hpend' (hkeep _ _ _ _ _ hI')

theorem ingestOps_induction (cr : Crates) {ops : List LensOp}
    (hops : ∀ op ∈ ops, ∀ m, I m → m.checkGuards cr op = none → P op)
    (hpend : PendingOk P n) (hI : I n) :
    I (n.ingestOps cr ops).1 ∧ PendingOk P (n.ingestOps cr ops).1 := by
  induction ops generalizing n with
  | nil => exact ⟨hI, hpend⟩
  | cons op ops ih =>
    obtain ⟨hI', hpend'⟩ := ingestOp_induction hkeep happly cr (hops op (.head _) n hI) hpend hI
    exact ih (fun op h => hops op (.tail _ h)) hpend' hI'

/-- **Induction over a batch.** The operations that pass the guard are of `P`. -/
theorem ingestBatch_induction (cr : Crates) (round : UInt64) {ops : List LensOp}
    (hops : ∀ op ∈ ops, ∀ m, I m → m.checkGuards cr op = none → P op)
    (hpend : PendingOk P n) (hI : I n) :
    I (n.ingestBatch cr round ops).1 ∧ PendingOk P (n.ingestBatch cr round ops).1 :=
  ingestOps_induction hkeep happly cr hops hpend (hkeep n _ _ _ _ hI)

end

/-! ## Local operations -/

/-- What an emit does: the next number of the local counter, applied. -/
theorem emitLocal_cases {cr : Crates} {kind : LensOpKind} {n' : DefederationNode}
    (h : n.emitLocal cr kind = some (n', op)) :
    n' = { n with localCounter := saturatingAdd64 n.localCounter 1 }.applyOrderedOp op ∧
    op.origin = n.nodeId ∧ op.counter = saturatingAdd64 n.localCounter 1 ∧ op.kind = kind := by
  unfold emitLocal nextLocalOp at h
  obtain ⟨⟨n₁, op₁⟩, h₁, h₂⟩ := Option.map_eq_some_iff.1 h
  obtain ⟨op₂, hmine, h₃⟩ := Option.map_eq_some_iff.1 h₁
  cases h₃
  cases h₂
  have hop := LensOp.mineNonce_eq cr hmine
  refine ⟨rfl, ?_, ?_, ?_⟩
  · rw [hop]
  · rw [hop]
  · rw [hop]

end DefederationNode

end Citadel
