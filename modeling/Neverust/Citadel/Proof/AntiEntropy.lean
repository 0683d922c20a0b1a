import Neverust.Citadel.Proof.Converge
import Neverust.Citadel.Proof.Emit

/-!
# Anti-entropy

A reply has, for each origin, the counters after the peer's frontier without a gap, so the peer can
apply them in their order: after the batch its frontier of each origin has moved on at least by the
operations sent (`GapFree.le_ingestOps`), and exactly by them if nothing waited in its queues
(`GapFree.ingestOps_eq`).
-/

namespace Citadel

open Std (ExtTreeMap ExtTreeSet)
open Rust

namespace DefederationNode

variable {n : DefederationNode} {op : LensOp} {ops : List LensOp} {cr : Crates}

/-- The guard refuses none of the operations of a batch. -/
def Unrefused (cr : Crates) : DefederationNode → List LensOp → Prop
  | _, [] => True
  | n, op :: ops => n.checkGuards cr op = none ∧ Unrefused cr (n.ingestOp cr op).1 ops

/-- The counters of each origin follow `f` without a gap. -/
def GapFree (f : NodeId → Nat) (ops : List LensOp) : Prop :=
  ∀ o, (ofOrigin o ops).map (fun op => op.counter.toNat) =
    List.range' (f o + 1) (ofOrigin o ops).length

theorem ofOrigin_cons (o : NodeId) (op : LensOp) (ops : List LensOp) :
    ofOrigin o (op :: ops) = if op.origin = o then op :: ofOrigin o ops else ofOrigin o ops := by
  by_cases ho : op.origin = o
  · simp [ofOrigin, ho]
  · simp [ofOrigin, ho]

/-- The first operation is the next of its origin. -/
theorem GapFree.cons {f : NodeId → Nat} (h : GapFree f (op :: ops)) :
    op.counter.toNat = f op.origin + 1 ∧ GapFree (Function.update f op.origin (f op.origin + 1)) ops := by
  have hfirst := h op.origin
  rw [ofOrigin_cons, if_pos rfl, List.map_cons, List.length_cons, List.range'_succ, List.cons.injEq] at hfirst
  refine ⟨hfirst.1, fun o => ?_⟩
  by_cases ho : op.origin = o
  · subst ho
    rw [Function.update_self]
    exact hfirst.2
  · have hrest := h o
    rw [ofOrigin_cons, if_neg ho] at hrest
    rw [Function.update_of_ne (Ne.symm ho)]
    exact hrest

/-! ## One operation -/

theorem enrolled_frontierFor (n : DefederationNode) (op : LensOp) (o : NodeId) :
    ((n.seeHost op).enroll op).frontierFor o = n.frontierFor o := by
  unfold seeHost
  split
  · rfl
  · rfl

theorem enrolled_pending (n : DefederationNode) (op : LensOp) :
    ((n.seeHost op).enroll op).pending = n.pending := by
  unfold seeHost
  split
  · rfl
  · rfl

theorem ingestOp_of_pass (hpass : n.checkGuards cr op = none) :
    (n.ingestOp cr op).1 = ((n.seeHost op).enroll op).tryApplyWithReordering op := by
  rw [ingestOp, hpass]

/-- An operation that is at most one ahead is applied, if it was not before. -/
theorem le_frontierFor_tryApply (hpend : n.PendingOk fun _ => True)
    (hc : op.counter.toNat ≤ (n.frontierFor op.origin).toNat + 1) :
    op.counter ≤ (n.tryApplyWithReordering op).frontierFor op.origin := by
  unfold tryApplyWithReordering
  dsimp only
  split
  · rename_i hold
    exact hold
  · rename_i hnew
    have hnext : op.counter = saturatingAdd64 (n.frontierFor op.origin) 1 := by
      rw [UInt64.le_iff_toNat_le] at hnew
      have hlt := op.counter.toNat_lt
      rw [← UInt64.toNat_inj, saturatingAdd64_one]
      omega
    have hpend' : (n.applyOrderedOp op).countAccepted.PendingOk fun _ => True :=
      hpend.congr (pending_applyKind n op)
    have hreach : op.counter ≤ (n.applyOrderedOp op).countAccepted.frontierFor op.origin := by
      change op.counter ≤ (n.applyOrderedOp op).frontierFor op.origin
      rw [frontierFor_applyOrderedOp, if_pos rfl]
      exact UInt64.le_refl _
    rw [if_neg (not_not.2 hnext)]
    exact (drain_induction (P := fun _ => True) (I := fun m => op.counter ≤ m.frontierFor op.origin)
      (fun _ _ _ _ _ h => h) (fun _ _ h _ hop => UInt64.le_trans h (hop.frontierFor_le _)) _
      hpend' hreach).1

/-- With nothing in its queues, a node applies the next operation and nothing else. -/
theorem tryApply_of_next (hc : op.counter.toNat = (n.frontierFor op.origin).toNat + 1)
    (hempty : n.pendingFor op.origin = ∅) :
    n.tryApplyWithReordering op = (n.applyOrderedOp op).countAccepted := by
  have hnew : ¬ op.counter ≤ n.frontierFor op.origin := by
    rw [UInt64.le_iff_toNat_le]
    omega
  have hnext : op.counter = saturatingAdd64 (n.frontierFor op.origin) 1 := by
    have hlt := op.counter.toNat_lt
    rw [← UInt64.toNat_inj, saturatingAdd64_one]
    omega
  rw [tryApplyWithReordering, if_neg hnew, if_neg (not_not.2 hnext), hempty]
  rfl

/-- An operation does not move a frontier back. -/
theorem frontierFor_le_ingestOp (cr : Crates) (op : LensOp) (hpend : n.PendingOk fun _ => True) :
    (∀ o, n.frontierFor o ≤ (n.ingestOp cr op).1.frontierFor o) ∧
      (n.ingestOp cr op).1.PendingOk fun _ => True :=
  ingestOp_induction (P := fun _ => True) (I := fun m => ∀ o, n.frontierFor o ≤ m.frontierFor o)
    (fun _ _ _ _ _ h => h) (fun _ _ h _ hop o => UInt64.le_trans (h o) (hop.frontierFor_le o)) cr
    (fun _ => trivial) hpend fun _ => UInt64.le_refl _

/-! ## A batch -/

/-- The frontiers move on by the operations of the batch. -/
theorem GapFree.le_ingestOps : ∀ {ops : List LensOp} {n : DefederationNode} {f : NodeId → Nat},
    GapFree f ops → (∀ o, f o ≤ (n.frontierFor o).toNat) → (n.PendingOk fun _ => True) →
    n.Unrefused cr ops →
    ∀ o, f o + (ofOrigin o ops).length ≤ ((n.ingestOps cr ops).1.frontierFor o).toNat
  | [], n, f, _, hf, _, _, o => by simpa [ofOrigin, ingestOps] using hf o
  | op :: ops, n, f, h, hf, hpend, hpass, o => by
    obtain ⟨hc, hrest⟩ := h.cons
    obtain ⟨hmono, hpend'⟩ := frontierFor_le_ingestOp cr op hpend
    have happlied : op.counter ≤ (n.ingestOp cr op).1.frontierFor op.origin := by
      rw [ingestOp_of_pass hpass.1]
      refine le_frontierFor_tryApply (hpend.congr (enrolled_pending n op)) ?_
      rw [enrolled_frontierFor, hc]
      have := hf op.origin
      omega
    have hf' : ∀ o, Function.update f op.origin (f op.origin + 1) o ≤
        ((n.ingestOp cr op).1.frontierFor o).toNat := by
      intro o
      by_cases ho : o = op.origin
      · subst ho
        rw [Function.update_self, ← hc]
        exact UInt64.le_iff_toNat_le.1 happlied
      · rw [Function.update_of_ne ho]
        exact (hf o).trans (UInt64.le_iff_toNat_le.1 (hmono o))
    have ih := hrest.le_ingestOps hf' hpend' hpass.2 o
    rw [ofOrigin_cons]
    by_cases ho : op.origin = o
    · subst ho
      rw [Function.update_self] at ih
      rw [if_pos rfl, List.length_cons]
      refine Nat.le_trans ?_ ih
      omega
    · rw [Function.update_of_ne (Ne.symm ho)] at ih
      rw [if_neg ho]
      exact ih

/-- With nothing in the queues they move on by exactly that. -/
theorem GapFree.ingestOps_eq : ∀ {ops : List LensOp} {n : DefederationNode},
    GapFree (fun o => (n.frontierFor o).toNat) ops → (∀ o, n.pendingFor o = ∅) →
    n.Unrefused cr ops →
    ∀ o, ((n.ingestOps cr ops).1.frontierFor o).toNat =
      (n.frontierFor o).toNat + (ofOrigin o ops).length
  | [], n, _, _, _, o => by simp [ofOrigin, ingestOps]
  | op :: ops, n, h, hempty, hpass, o => by
    obtain ⟨hc, hrest⟩ := h.cons
    have hpending : ∀ o, ((n.seeHost op).enroll op).pendingFor o = ∅ := by
      intro o
      rw [pendingFor, enrolled_pending]
      exact hempty o
    have hafter : (n.ingestOp cr op).1 = (((n.seeHost op).enroll op).applyOrderedOp op).countAccepted := by
      rw [ingestOp_of_pass hpass.1]
      refine tryApply_of_next ?_ (hpending _)
      rw [enrolled_frontierFor]
      exact hc
    have hfrontier : ∀ o, ((n.ingestOp cr op).1.frontierFor o).toNat =
        Function.update (fun o => (n.frontierFor o).toNat) op.origin
          ((n.frontierFor op.origin).toNat + 1) o := by
      intro o
      rw [hafter]
      change ((((n.seeHost op).enroll op).applyOrderedOp op).frontierFor o).toNat = _
      rw [frontierFor_applyOrderedOp, enrolled_frontierFor, Function.update_apply]
      by_cases ho : op.origin = o
      · rw [if_pos ho, if_pos ho.symm, hc]
      · rw [if_neg ho, if_neg (Ne.symm ho)]
    have hempty' : ∀ o, (n.ingestOp cr op).1.pendingFor o = ∅ := by
      intro o
      rw [hafter]
      change (((n.seeHost op).enroll op).applyOrderedOp op).pendingFor o = ∅
      rw [pendingFor_applyOrderedOp]
      exact hpending o
    have hrest' : GapFree (fun o => ((n.ingestOp cr op).1.frontierFor o).toNat) ops := by
      rw [show (fun o => ((n.ingestOp cr op).1.frontierFor o).toNat) = _ from funext hfrontier]
      exact hrest
    have ih := hrest'.ingestOps_eq hempty' hpass.2 o
    change (((n.ingestOp cr op).1.ingestOps cr ops).1.frontierFor o).toNat = _
    rw [ih, hfrontier, ofOrigin_cons]
    by_cases ho : op.origin = o
    · subst ho
      rw [Function.update_self, if_pos rfl, List.length_cons]
      omega
    · rw [Function.update_of_ne (Ne.symm ho), if_neg ho]

/-! ## Sums -/

/-- The sum of the entries of the frontier. -/
def frontierSum (n : DefederationNode) : Nat := (n.frontier.toList.map fun e => e.2.toNat).sum

/-- The number of operations that `n` has applied and a node with the frontier `p` has not. -/
def missing (n : DefederationNode) (p : ExtTreeMap NodeId UInt64) : Nat :=
  (n.frontier.keys.map fun o => (n.frontierFor o).toNat - (p.getD o 0).toNat).sum

theorem frontierSum_eq {S : Finset NodeId} (hS : ∀ o ∈ n.frontier, o ∈ S) :
    n.frontierSum = ∑ o ∈ S, (n.frontierFor o).toNat := by
  have hlist : n.frontierSum = (n.frontier.keys.map fun o => (n.frontierFor o).toNat).sum := by
    rw [frontierSum, ← ExtTreeMap.map_fst_toList_eq_keys, List.map_map]
    congr 1
    refine List.map_congr_left fun e he => ?_
    have hget := ExtTreeMap.mem_toList_iff_getElem?_eq_some.1 he
    simp [frontierFor, ExtTreeMap.getD_eq_getD_getElem?, hget]
  rw [hlist, ← List.sum_toFinset _ ExtTreeMap.nodup_keys]
  refine Finset.sum_subset (fun o ho => ?_) fun o _ ho => ?_
  · rw [List.mem_toFinset, ExtTreeMap.mem_keys] at ho
    exact hS o ho
  · rw [List.mem_toFinset, ExtTreeMap.mem_keys] at ho
    rw [frontierFor, ExtTreeMap.getD_eq_fallback ho]
    rfl

theorem length_eq_sum {S : Finset NodeId} (hS : ∀ op ∈ ops, op.origin ∈ S) :
    ops.length = ∑ o ∈ S, (ofOrigin o ops).length := by
  induction ops with
  | nil => simp [ofOrigin]
  | cons op ops ih =>
    have hlen : ∀ o, (ofOrigin o (op :: ops)).length =
        (if o = op.origin then 1 else 0) + (ofOrigin o ops).length := by
      intro o
      rw [ofOrigin_cons]
      by_cases ho : op.origin = o
      · rw [if_pos ho, if_pos ho.symm, List.length_cons, Nat.add_comm]
      · rw [if_neg ho, if_neg (Ne.symm ho), Nat.zero_add]
    rw [Finset.sum_congr rfl fun o _ => hlen o, Finset.sum_add_distrib,
      Finset.sum_ite_eq_of_mem' _ _ _ (hS op List.mem_cons_self), List.length_cons,
      ih fun x hx => hS x (List.mem_cons_of_mem _ hx), Nat.add_comm]

/-- If each frontier moves on by the operations of a batch, their sum does. -/
theorem frontierSum_add_le {n' : DefederationNode}
    (h : ∀ o, (n.frontierFor o).toNat + (ofOrigin o ops).length ≤ (n'.frontierFor o).toNat) :
    n.frontierSum + ops.length ≤ n'.frontierSum := by
  let S := (n.frontier.keys ++ n'.frontier.keys ++ ops.map LensOp.origin).toFinset
  have hn : ∀ o ∈ n.frontier, o ∈ S := fun o ho => by
    simp [S, ExtTreeMap.mem_keys, ho]
  have hn' : ∀ o ∈ n'.frontier, o ∈ S := fun o ho => by
    simp [S, ExtTreeMap.mem_keys, ho]
  have hops : ∀ op ∈ ops, op.origin ∈ S := fun op hop => by
    simp only [S, List.mem_toFinset, List.mem_append, List.mem_map]
    exact .inr ⟨op, hop, rfl⟩
  rw [frontierSum_eq hn, frontierSum_eq hn', length_eq_sum hops, ← Finset.sum_add_distrib]
  exact Finset.sum_le_sum fun o _ => h o

theorem missing_pos {p : ExtTreeMap NodeId UInt64} {o : NodeId} (h : p.getD o 0 < n.frontierFor o) :
    1 ≤ n.missing p := by
  have hlt := UInt64.lt_iff_toNat_lt.1 h
  have hkey : o ∈ n.frontier := by
    by_contra hno
    rw [frontierFor, ExtTreeMap.getD_eq_fallback hno] at hlt
    exact absurd hlt (Nat.not_lt_zero _)
  refine Nat.le_trans (show 1 ≤ (n.frontierFor o).toNat - (p.getD o 0).toNat by omega) ?_
  exact List.le_sum_of_mem (List.mem_map.2 ⟨o, ExtTreeMap.mem_keys.2 hkey, rfl⟩)

/-! ## A reply -/

/-- What a reply of `a` does to `b`, which has become `n`. -/
structure Progress (a b n : DefederationNode) (maxOps : Nat) : Prop where
  grows : ∀ o, b.frontierFor o ≤ n.frontierFor o
  moves : (∃ o, b.frontierFor o < a.frontierFor o) →
    b.frontierSum < n.frontierSum ∧
      b.frontierSum + min maxOps (a.missing b.frontier) ≤ n.frontierSum
  reaches : a.missing b.frontier ≤ maxOps → ∀ o, a.frontierFor o ≤ n.frontierFor o
  max : a.missing b.frontier ≤ maxOps → (∀ o, b.pendingFor o = ∅) →
    ∀ o, n.frontierFor o = max (a.frontierFor o) (b.frontierFor o)

theorem LogsOk.progress {a b : DefederationNode} (ha : a.LogsOk) (hb : b.PendingOk fun _ => True)
    {maxOps : Nat} (hm : 1 ≤ maxOps) (round : UInt64)
    (hpass : (b.rollTo round).Unrefused cr ((a.opLog.keys.flatMap (a.owed b.frontier)).take maxOps)) :
    Progress a b (b.ingestBatch cr round ((a.opLog.keys.flatMap (a.owed b.frontier)).take maxOps)).1
      maxOps := by
  generalize hout : (a.opLog.keys.flatMap (a.owed b.frontier)).take maxOps = out at hpass ⊢
  have hgap : GapFree (fun o => (b.frontierFor o).toNat) out := by
    intro o
    rw [← hout]
    exact ha.counters_reply maxOps o
  have hlen : out.length = min maxOps (a.missing b.frontier) := by
    rw [← hout, List.length_take, ha.length_allOwed]
    rfl
  have hroll : (b.rollTo round).PendingOk fun _ => True := hb
  have hstep := hgap.le_ingestOps (n := b.rollTo round) (fun _ => Nat.le_refl _) hroll hpass
  have hsum : b.frontierSum + out.length ≤ ((b.ingestBatch cr round out).1).frontierSum :=
    frontierSum_add_le hstep
  have hall : a.missing b.frontier ≤ maxOps →
      ∀ o, (ofOrigin o out).length = (a.frontierFor o).toNat - (b.frontierFor o).toNat := by
    intro hle o
    have htake : out = a.opLog.keys.flatMap (a.owed b.frontier) := by
      rw [← hout]
      refine List.take_of_length_le ?_
      rw [ha.length_allOwed]
      exact hle
    rw [htake, ha.ofOrigin_owed, ha.length_owed]
    rfl
  refine ⟨frontierFor_le_ingestBatch cr b round out hb, fun ⟨o, ho⟩ => ?_, fun hle o => ?_,
    fun hle hempty o => ?_⟩
  · have hpos : 1 ≤ a.missing b.frontier := missing_pos ho
    rw [← hlen]
    exact ⟨by omega, hsum⟩
  · rw [UInt64.le_iff_toNat_le]
    have hto := hstep o
    rw [hall hle o] at hto
    change (b.frontierFor o).toNat + _ ≤ _ at hto
    exact Nat.le_trans (by omega) hto
  · have heq := hgap.ingestOps_eq (n := b.rollTo round) hempty hpass o
    rw [hall hle o] at heq
    change _ = (b.frontierFor o).toNat + _ at heq
    rw [← UInt64.toNat_inj, UInt64.max_def]
    refine heq.trans ?_
    split
    · rename_i hab
      have := UInt64.le_iff_toNat_le.1 hab
      omega
    · rename_i hab
      rw [UInt64.le_iff_toNat_le] at hab
      omega

end DefederationNode

open DefederationNode

/-! ## Two nodes of a network -/

variable {ι : Type} {cr : Crates} {s₀ s : Network ι}

theorem Network.Reaches.reachable [DecidableEq ι] (h : Network.Reaches cr s₀ s) (h₀ : s₀.Initial)
    (i : ι) : Reachable cr (s.nodes i) := by
  induction h with
  | refl =>
    obtain ⟨nodeId, hostId, localSiteId, trusted, cfg, hnew⟩ := h₀.fresh i
    rw [hnew]
    exact ⟨nodeId, hostId, localSiteId, trusted, cfg, [], .nil _⟩
  | step hs hstep ih =>
    cases hstep with
    | emit j e he =>
      dsimp only
      rw [Function.update_apply]
      split
      · rename_i hij
        subst hij
        exact ih.step (.emit he)
      · exact ih
    | ingest j round ops hops =>
      dsimp only
      rw [Function.update_apply]
      split
      · rename_i hij
        subst hij
        exact ih.step (.ingest _ round ops)
      · exact ih

/-- No frontier of an honest network is at the end of the counters. -/
theorem NetInv.frontier_lt (h : NetInv s₀ s) (hbound : ∀ o, s.emitted o < 2 ^ 64 - 1) (i : ι)
    (o : NodeId) : ((s.nodes i).frontierFor o).toNat < 2 ^ 64 - 1 := by
  rw [(h.follows i).frontier]
  by_cases ho : ∃ j, s.id j = o
  · obtain ⟨j, rfl⟩ := ho
    refine Nat.lt_of_le_of_lt ((h.follows i).start j).length_le ?_
    rw [← h.emitted j]
    exact hbound _
  · rw [(h.follows i).unknown o fun j hj => ho ⟨j, hj⟩]
    decide

/-- **A reply makes progress.** In an honest network one node answers another, and the guard of
the other refuses none of the operations. -/
theorem anti_entropy_progress [DecidableEq ι] (cr : Crates) {s₀ s : Network ι} (h₀ : s₀.Initial)
    (h : Network.Reaches cr s₀ s) (hbound : ∀ o, s.emitted o < 2 ^ 64 - 1) (a b : ι)
    (round : UInt64) {maxOps bound : Nat} (hm : 1 ≤ maxOps) (hb : 2 ^ 64 ≤ bound) :
    ∃ out, (s.nodes a).missingOpsForFrontier (s.nodes b).frontier maxOps bound = some out ∧
      (((s.nodes b).rollTo round).Unrefused cr out →
        Progress (s.nodes a) (s.nodes b) ((s.nodes b).ingestBatch cr round out).1 maxOps) := by
  have hinv := h.inv h₀ hbound
  have hlogs := (h.reachable h₀ a).logInv.toLogsOk
  have hpend : (s.nodes b).PendingOk fun _ => True := fun o c op hop =>
    ⟨(hinv.pending b o c op hop).1, (hinv.pending b o c op hop).2.1, trivial⟩
  exact ⟨_, missingOpsForFrontier_eq hlogs (hinv.frontier_lt hbound a) maxOps hb,
    hlogs.progress hpend hm round⟩

/-- The first of the two nodes has emitted an operation that the other does not have. -/
def aheadNodes : Network Bool :=
  ⟨Function.update twoNodes.nodes false (opinionated not false), [opinion not false]⟩

theorem reaches_aheadNodes : Network.Reaches .standard twoNodes aheadNodes :=
  .step .refl (.emit false (.trust 9 true) rfl)

theorem anti_entropy_progress_sample :
    Network.Reaches .standard twoNodes aheadNodes ∧
    ∃ out, (aheadNodes.nodes false).missingOpsForFrontier (aheadNodes.nodes true).frontier 10
        (2 ^ 64) = some out ∧
      ∀ o, ((aheadNodes.nodes true).ingestBatch .standard 1 out).1.frontierFor o =
        max ((aheadNodes.nodes false).frontierFor o) ((aheadNodes.nodes true).frontierFor o) := by
  obtain ⟨out, hout, hprogress⟩ := anti_entropy_progress .standard twoNodes_initial
    reaches_aheadNodes (fun o => Nat.lt_of_le_of_lt (List.length_filter_le _ _) (by decide)) false
    true 1 (show 1 ≤ 10 by decide) (Nat.le_refl (2 ^ 64))
  have hsent : (aheadNodes.nodes false).missingOpsForFrontier (aheadNodes.nodes true).frontier 10
      (2 ^ 64) = some [opinion not false] := by decide +kernel
  rw [hsent, Option.some.injEq] at hout
  subst hout
  refine ⟨reaches_aheadNodes, _, hsent, (hprogress ⟨by decide +kernel, trivial⟩).max ?_ fun o => ?_⟩
  · decide +kernel
  · rfl

end Citadel
