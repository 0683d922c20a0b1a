import Neverust.Citadel.Proof.AntiEntropy
import Neverust.Citadel.Proof.Guard

/-!
# The queues of a node

An operation waits in the queue of its origin only while an operation before it is missing: every
counter there is beyond the next one (`Waits`). An operation that comes in too early is put there
(`tryApply_waits`), and one that is next is followed by all that waited for it (`drain_after`).
The node's own origin is left out: an emit moves its frontier and leaves its queue alone.
-/

namespace Citadel

open Std (ExtTreeMap)
open Rust

namespace DefederationNode

variable {n : DefederationNode} {op : LensOp} {cr : Crates} {P : LensOp → Prop}

/-- All counters of a queue are after `c`. -/
def After (c : Nat) (queue : ExtTreeMap UInt64 LensOp) : Prop :=
  ∀ (counter : UInt64) (op : LensOp), queue[counter]? = some op → c < counter.toNat

/-- What waits for an origin cannot be applied yet, and it is not too much. -/
structure Waits (n : DefederationNode) (o : NodeId) : Prop where
  later : After ((n.frontierFor o).toNat + 1) (n.pendingFor o)
  capped : (n.pendingFor o).size ≤ n.guardCfg.maxPendingPerOrigin

theorem After.erase {c : Nat} {queue : ExtTreeMap UInt64 LensOp} (h : After c queue) {k : UInt64}
    (hk : k.toNat = c + 1) : After (c + 1) (queue.erase k) := by
  intro counter op hop
  rw [ExtTreeMap.getElem?_erase] at hop
  split at hop
  · cases hop
  · rename_i hne
    have hlt := h counter op hop
    have hcounter : k ≠ counter := fun heq => hne (heq ▸ Std.ReflCmp.compare_self)
    rw [ne_eq, ← UInt64.toNat_inj] at hcounter
    omega

/-- A counter that is not the next one is beyond it. -/
theorem After.of_next {c : UInt64} {queue : ExtTreeMap UInt64 LensOp} (h : After c.toNat queue)
    (hnone : queue[saturatingAdd64 c 1]? = none) : After (c.toNat + 1) queue := by
  intro counter op hop
  have hlt := h counter op hop
  have hbound := counter.toNat_lt
  have hne : counter ≠ saturatingAdd64 c 1 := fun heq => by simp [heq, hnone] at hop
  rw [ne_eq, ← UInt64.toNat_inj, saturatingAdd64_one] at hne
  omega

/-- The state after one operation was taken out of a queue and applied. -/
def taken (n : DefederationNode) (origin : NodeId) (queue : ExtTreeMap UInt64 LensOp)
    (op : LensOp) : DefederationNode :=
  ({ n with pending := n.pending.insert origin queue }.applyOrderedOp op).countAccepted

theorem taken_frontierFor (origin : NodeId) (queue : ExtTreeMap UInt64 LensOp) (o : NodeId) :
    (n.taken origin queue op).frontierFor o =
      if op.origin = o then op.counter else n.frontierFor o :=
  frontierFor_applyOrderedOp _ op o

theorem taken_pendingFor (origin : NodeId) (queue : ExtTreeMap UInt64 LensOp) (o : NodeId) :
    (n.taken origin queue op).pendingFor o = if origin = o then queue else n.pendingFor o :=
  (pendingFor_applyOrderedOp _ op o).trans (pendingFor_insert _ origin o queue)

theorem drain_succ (k : Nat) (n : DefederationNode) (origin : NodeId) :
    drain (k + 1) n origin =
      match (n.pendingFor origin)[saturatingAdd64 (n.frontierFor origin) 1]? with
      | none => n
      | some nextOp =>
        drain k (n.taken origin ((n.pendingFor origin).erase
          (saturatingAdd64 (n.frontierFor origin) 1)) nextOp) origin := rfl

/-- An operation taken out of the queue leaves the other operations in order. -/
theorem PendingOk.taken (h : n.PendingOk P) (origin : NodeId) (key : UInt64) (op : LensOp) :
    (n.taken origin ((n.pendingFor origin).erase key) op).PendingOk P := by
  have h' : PendingOk P { n with
      pending := n.pending.insert origin ((n.pendingFor origin).erase key) } := by
    refine h.insert rfl fun counter op' hop => ?_
    rw [ExtTreeMap.getElem?_erase] at hop
    split at hop
    · cases hop
    · exact h _ _ _ hop
  exact h'.congr (pending_applyKind _ _)

/-- Draining a queue leaves the other origins alone. -/
theorem drain_others {origin o : NodeId} (ho : origin ≠ o) : ∀ (k : Nat) {n : DefederationNode},
    n.PendingOk P → (drain k n origin).frontierFor o = n.frontierFor o ∧
      (drain k n origin).pendingFor o = n.pendingFor o
  | 0, _, _ => ⟨rfl, rfl⟩
  | k + 1, n, hpend => by
    rw [drain_succ]
    split
    · exact ⟨rfl, rfl⟩
    · rename_i nextOp hnext
      obtain ⟨hf, hp⟩ := drain_others ho k (hpend.taken origin
        (saturatingAdd64 (n.frontierFor origin) 1) nextOp)
      rw [taken_frontierFor, if_neg ((hpend _ _ _ hnext).1 ▸ ho)] at hf
      rw [taken_pendingFor, if_neg ho] at hp
      exact ⟨hf, hp⟩

/-- Draining a queue stops where an operation is missing. -/
theorem drain_after (origin : NodeId) : ∀ (k : Nat) {n : DefederationNode}, n.PendingOk P →
    After (n.frontierFor origin).toNat (n.pendingFor origin) → (n.pendingFor origin).size ≤ k →
      After (((drain k n origin).frontierFor origin).toNat + 1)
        ((drain k n origin).pendingFor origin) ∧
      ((drain k n origin).pendingFor origin).size ≤ (n.pendingFor origin).size
  | 0, n, _, _, hsize => by
    have hempty : n.pendingFor origin = ∅ :=
      ExtTreeMap.eq_empty_iff_size_eq_zero.2 (Nat.le_zero.1 hsize)
    refine ⟨?_, Nat.le_refl _⟩
    intro counter op hop
    simp [drain, hempty] at hop
  | k + 1, n, hpend, hafter, hsize => by
    rw [drain_succ]
    split
    · rename_i hnone
      exact ⟨hafter.of_next hnone, Nat.le_refl _⟩
    · rename_i nextOp hnext
      obtain ⟨horigin, hcounter, -⟩ := hpend _ _ _ hnext
      have hlt := hafter _ _ hnext
      have hkey : (saturatingAdd64 (n.frontierFor origin) 1).toNat =
          (n.frontierFor origin).toNat + 1 := by
        rw [saturatingAdd64_one] at hlt ⊢
        omega
      have hmem : saturatingAdd64 (n.frontierFor origin) 1 ∈ n.pendingFor origin :=
        ExtTreeMap.mem_iff_isSome_getElem?.2 (by simp [hnext])
      have hless := ExtTreeMap.size_erase (t := n.pendingFor origin)
        (k := saturatingAdd64 (n.frontierFor origin) 1)
      rw [if_pos (ExtTreeMap.contains_iff_mem.2 hmem)] at hless
      have hpos : 0 < (n.pendingFor origin).size := by
        refine Nat.pos_of_ne_zero fun h0 => ?_
        rw [ExtTreeMap.eq_empty_iff_size_eq_zero.2 h0] at hmem
        exact ExtTreeMap.not_mem_empty hmem
      have hrest := drain_after origin k (hpend.taken origin
        (saturatingAdd64 (n.frontierFor origin) 1) nextOp)
      rw [taken_frontierFor, if_pos horigin, taken_pendingFor, if_pos rfl, hcounter, hkey] at hrest
      obtain ⟨hend, hle⟩ := hrest (hafter.erase hkey) (by omega)
      exact ⟨hend, by omega⟩

/-! ## One operation -/

/-- The records that `Waits` is about. -/
theorem Waits.congr {n' : DefederationNode} {o : NodeId} (h : n.Waits o)
    (hf : n'.frontierFor o = n.frontierFor o) (hp : n'.pendingFor o = n.pendingFor o)
    (hc : n'.guardCfg = n.guardCfg) : n'.Waits o := by
  constructor
  · rw [hf, hp]; exact h.later
  · rw [hp, hc]; exact h.capped

theorem tryApply_waits {o : NodeId} (hpend : n.PendingOk P) (h : n.Waits o) :
    (n.tryApplyWithReordering op).Waits o := by
  unfold tryApplyWithReordering
  dsimp only
  split
  · exact h.congr rfl rfl rfl
  · rename_i hnew
    split
    · rename_i hearly
      split
      · refine h.congr rfl ?_ rfl
        rw [pendingFor, pendingFor_insert]
        split
        · rename_i ho; rw [ho]
        · rfl
      · rename_i hroom
        by_cases ho : op.origin = o
        · subst ho
          constructor
          · intro counter op' hop'
            rw [pendingFor, pendingFor_insert, if_pos rfl, ExtTreeMap.getElem?_insertIfNew] at hop'
            split at hop'
            · rename_i hc
              obtain rfl := Std.LawfulEqCmp.eq_of_compare hc.1
              have hbound := op.counter.toNat_lt
              rw [ne_eq, ← UInt64.toNat_inj, saturatingAdd64_one] at hearly
              rw [UInt64.le_iff_toNat_le] at hnew
              show (n.frontierFor op.origin).toNat + 1 < _
              omega
            · exact h.later counter op' hop'
          · rw [pendingFor, pendingFor_insert, if_pos rfl]
            have hle := ExtTreeMap.size_insertIfNew_le (t := n.pendingFor op.origin)
              (k := op.counter) (v := op)
            show _ ≤ n.guardCfg.maxPendingPerOrigin
            omega
        · refine h.congr rfl ?_ rfl
          rw [pendingFor, pendingFor_insert, if_neg ho]
          rfl
    · rename_i hnext
      have hnext : op.counter = saturatingAdd64 (n.frontierFor op.origin) 1 := not_not.1 hnext
      have hfrontier : ∀ o, (n.applyOrderedOp op).countAccepted.frontierFor o =
          if op.origin = o then op.counter else n.frontierFor o := frontierFor_applyOrderedOp n op
      have hpending : ∀ o, (n.applyOrderedOp op).countAccepted.pendingFor o = n.pendingFor o :=
        pendingFor_applyOrderedOp n op
      have hcfg : (drain (n.pendingFor op.origin).size (n.applyOrderedOp op).countAccepted
          op.origin).guardCfg = n.guardCfg :=
        (guardState_drain _ _ op.origin).2.trans (guardCfg_applyKind n op)
      have hpend' : (n.applyOrderedOp op).countAccepted.PendingOk P :=
        hpend.congr (pending_applyKind n op)
      by_cases ho : op.origin = o
      · subst ho
        have hafter : After ((n.applyOrderedOp op).countAccepted.frontierFor op.origin).toNat
            ((n.applyOrderedOp op).countAccepted.pendingFor op.origin) := by
          rw [hfrontier, if_pos rfl, hpending, hnext, saturatingAdd64_one]
          intro counter op' hop'
          have := h.later counter op' hop'
          omega
        obtain ⟨hend, hle⟩ := drain_after op.origin _ hpend' hafter (by rw [hpending])
        rw [hpending] at hle
        exact ⟨hend, hcfg ▸ hle.trans h.capped⟩
      · obtain ⟨hf, hp⟩ := drain_others ho (n.pendingFor op.origin).size hpend'
        refine h.congr (hf.trans ?_) (hp.trans (hpending o)) hcfg
        rw [hfrontier, if_neg ho]

/-! ## Batches and runs -/

theorem ingestOp_waits (cr : Crates) (op : LensOp) {o : NodeId} (hpend : n.PendingOk P)
    (h : n.Waits o) : (n.ingestOp cr op).1.Waits o := by
  have hcfg := (seeHost_fields n op).1
  cases hpass : n.checkGuards cr op with
  | none =>
    rw [ingestOp_of_pass hpass]
    exact tryApply_waits (hpend.congr (enrolled_pending n op))
      (h.congr (enrolled_frontierFor n op o) (by rw [pendingFor, enrolled_pending]; rfl) hcfg)
  | some refusal =>
    have hsame : (n.seeHost op).Waits o := by
      unfold seeHost
      split
      · exact h.congr rfl rfl rfl
      · exact h
    simp only [ingestOp, hpass]
    cases refusal <;> exact hsame.congr rfl rfl rfl

theorem ingestOps_waits (cr : Crates) {o : NodeId} : ∀ (ops : List LensOp) {n : DefederationNode},
    (n.PendingOk fun _ => True) → n.Waits o → (n.ingestOps cr ops).1.Waits o
  | [], _, _, h => h
  | op :: ops, _, hpend, h =>
    ingestOps_waits cr ops (frontierFor_le_ingestOp cr op hpend).2 (ingestOp_waits cr op hpend h)

end DefederationNode

open DefederationNode

variable {cr : Crates} {n n' : DefederationNode} {o : NodeId}

/-- A call leaves the identity of the node and the order in its queues. -/
theorem Step.kept {c : Call} (hs : Step cr n c n') (hpend : n.PendingOk fun _ => True) :
    n'.nodeId = n.nodeId ∧ n'.PendingOk fun _ => True := by
  cases hs with
  | emit he =>
    refine ⟨?_, PendingOk.emit he hpend⟩
    rw [emit_eq] at he
    rw [(emitLocal_cases he).1]
    exact nodeId_applyKind _ _
  | ingest round ops =>
    exact ingestBatch_induction (P := fun _ => True) (I := fun m => m.nodeId = n.nodeId)
      (fun _ _ _ _ _ h => h) (fun m op h _ _ => (nodeId_applyKind m op).trans h) cr round
      (fun _ _ _ _ _ => trivial) hpend rfl

/-- An emit moves the frontier of the node's own origin only. -/
theorem Step.waits {c : Call} (hs : Step cr n c n') (hpend : n.PendingOk fun _ => True)
    (ho : o ≠ n.nodeId) (h : n.Waits o) : n'.Waits o := by
  cases hs with
  | emit he =>
    rw [emit_eq] at he
    obtain ⟨rfl, horigin, -⟩ := emitLocal_cases he
    refine h.congr ?_ (pendingFor_applyOrderedOp _ _ o) (guardCfg_applyKind _ _)
    rw [frontierFor_applyOrderedOp, if_neg (horigin ▸ Ne.symm ho)]
    rfl
  | ingest round ops => exact ingestOps_waits cr ops (hpend.congr rfl) (h.congr rfl rfl rfl)

theorem Run.nodeId {cs : List Call} (hrun : Run cr n cs n') (hpend : n.PendingOk fun _ => True) :
    n'.nodeId = n.nodeId := by
  induction hrun with
  | nil n => rfl
  | cons _ hs _ ih =>
    obtain ⟨hid, hpend'⟩ := hs.kept hpend
    exact (ih hpend').trans hid

theorem Run.waits {cs : List Call} (hrun : Run cr n cs n') (hpend : n.PendingOk fun _ => True)
    (ho : o ≠ n.nodeId) (h : n.Waits o) : n'.Waits o := by
  induction hrun with
  | nil n => exact h
  | cons _ hs _ ih =>
    obtain ⟨hid, hpend'⟩ := hs.kept hpend
    exact ih hpend' (hid ▸ ho) (hs.waits hpend ho h)

/-- **No deliverable operation is stuck**: in every reachable state and for every origin but the
node's own, what waits is filed under its origin and its counter, is beyond the next counter of the
frontier, and is not more than the limit. -/
theorem none_stuck (cr : Crates) {n : DefederationNode} (h : Reachable cr n) (o : NodeId)
    (ho : o ≠ n.nodeId) :
    (∀ (counter : UInt64) (op : LensOp), (n.pendingFor o)[counter]? = some op →
      (n.frontierFor o).toNat + 1 < counter.toNat ∧ op.counter = counter ∧ op.origin = o) ∧
    (n.pendingFor o).size ≤ n.guardCfg.maxPendingPerOrigin := by
  have hfiled := h.pendingOk
  obtain ⟨nodeId, hostId, localSiteId, trusted, cfg, calls, hrun⟩ := h
  have hstart : (DefederationNode.new nodeId hostId localSiteId trusted cfg).Waits o :=
    ⟨fun counter op hop => by simp [pendingFor, DefederationNode.new] at hop,
      by simp [pendingFor, DefederationNode.new]⟩
  have hpend := PendingOk.new (fun _ => True) nodeId hostId localSiteId trusted cfg
  have hw := Run.waits hrun hpend (Run.nodeId hrun hpend ▸ ho) hstart
  refine ⟨fun counter op hop => ⟨hw.later counter op hop, ?_, ?_⟩, hw.capped⟩
  · exact (hfiled o counter op hop).2.1
  · exact (hfiled o counter op hop).1

/-- A node that got the third and the fourth operation of an origin before the second. -/
def waitingNode : DefederationNode :=
  ((DefederationNode.new 1 0 7 ∅ freeGuard).ingestBatch .standard 1
    [⟨2, 1, 0, .content 5 0 true, 0⟩, ⟨2, 4, 0, .content 5 1 true, 0⟩,
      ⟨2, 3, 0, .content 5 0 false, 0⟩]).1

theorem none_stuck_sample : Reachable .standard waitingNode ∧ (2 : NodeId) ≠ waitingNode.nodeId ∧
    (waitingNode.pendingFor 2).size = 2 ∧ (waitingNode.pendingFor 2).size ≤ 512 := by
  have hreach : Reachable .standard waitingNode :=
    ⟨1, 0, 7, ∅, freeGuard, _, .cons trivial (.ingest _ 1 [⟨2, 1, 0, .content 5 0 true, 0⟩,
      ⟨2, 4, 0, .content 5 1 true, 0⟩, ⟨2, 3, 0, .content 5 0 false, 0⟩]) (.nil _)⟩
  have hne : (2 : NodeId) ≠ waitingNode.nodeId := by decide +kernel
  have hcfg : waitingNode.guardCfg = freeGuard := by decide +kernel
  refine ⟨hreach, hne, by decide +kernel, ?_⟩
  have h := (none_stuck .standard hreach 2 hne).2
  rwa [hcfg] at h

end Citadel
