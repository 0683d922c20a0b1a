import Neverust.Citadel.Proof.Log

/-!
# Local operations

An emit takes the next number of the local counter. If the node has applied operations of its own
origin that it did not emit in this run (its own from before a restart, or forged ones), that number
is not the next one of its frontier: the frontier goes back, and the operation is neither logged
nor in force (`emit_lost`). `EmitFits` is the exact condition under which this does not happen
(`fitting_run_lossless`).
-/

namespace Citadel

open Std (ExtTreeMap ExtTreeSet)
open Rust

/-- The entry under the key of an operation. -/
def LensGraph.entryFor (g : LensGraph) : LensOpKind → Option LwwEntry
  | .follow siteId targetSiteId _ => g.follows[(siteId, targetSiteId)]?
  | .content siteId contentSlot _ => g.content[(siteId, contentSlot)]?
  | .trustOrigin _ _ => none

/-- The operation decides what holds under its key. -/
def InForce (n : DefederationNode) (op : LensOp) : Prop :=
  match op.kind with
  | .follow _ _ enabled => n.graph.entryFor op.kind = some ⟨op.ts, enabled⟩
  | .content _ _ present => n.graph.entryFor op.kind = some ⟨op.ts, present⟩
  | .trustOrigin origin trusted => n.trustedOrigins.contains origin = trusted

/-- What an emit has to do. -/
structure EmitOk (n n' : DefederationNode) (op : LensOp) : Prop where
  grows : ∀ o, n.frontierFor o ≤ n'.frontierFor o
  newer : n.frontierFor n.nodeId < op.counter
  logged : n'.logFor n.nodeId = n.logFor n.nodeId ++ [op]
  inForce : InForce n' op

/-- The next number of the local counter is free: no operation of the own origin has been applied
with it or a later one, and no entry under the operation's key is as late. -/
structure EmitFits (n : DefederationNode) (e : Emit) : Prop where
  own : n.frontierFor n.nodeId ≤ n.localCounter
  room : n.localCounter.toNat < 2 ^ 64 - 1
  latest : ∀ entry, n.graph.entryFor (n.kindOf e) = some entry →
    entry.ts < ⟨saturatingAdd64 n.localCounter 1, n.nodeId⟩

def CallFits (n : DefederationNode) : Call → Prop
  | .emit e => EmitFits n e
  | .ingest _ _ => True

namespace DefederationNode

variable {n n' : DefederationNode} {op : LensOp}

/-! ## Batches -/

theorem Next.le (h : n.Next op) : n.frontierFor op.origin ≤ op.counter := by
  rw [Next] at h
  rw [h, UInt64.le_iff_toNat_le, saturatingAdd64_one]
  have := (n.frontierFor op.origin).toNat_lt
  omega

/-- An operation that is next in order does not move a frontier back. -/
theorem Next.frontierFor_le (h : n.Next op) (o : NodeId) :
    n.frontierFor o ≤ (n.applyOrderedOp op).frontierFor o := by
  rw [frontierFor_applyOrderedOp]
  split
  · rename_i ho
    subst ho
    exact h.le
  · exact UInt64.le_refl _

/-- A batch does not move a frontier back. -/
theorem frontierFor_le_ingestBatch (cr : Crates) (n : DefederationNode) (round : UInt64)
    (ops : List LensOp) (hpend : n.PendingOk fun _ => True) (o : NodeId) :
    n.frontierFor o ≤ (n.ingestBatch cr round ops).1.frontierFor o :=
  (ingestBatch_induction (P := fun _ => True)
    (I := fun n' => n.frontierFor o ≤ n'.frontierFor o) (fun _ _ _ _ _ h => h)
    (fun _ _ h _ hop => UInt64.le_trans h (hop.frontierFor_le o)) cr round
    (fun _ _ _ _ _ => trivial) hpend (UInt64.le_refl _)).1

/-! ## The state of a fitting run -/

/-- No entry of the map is later than the frontier of its origin. -/
def Below (n : DefederationNode) (map : LwwMap) : Prop :=
  ∀ (key : UInt64 × UInt64) (entry : LwwEntry), map[key]? = some entry →
    entry.ts.counter ≤ n.frontierFor entry.ts.origin

/-- The own log ends at the frontier, and no entry of the graph is later than the frontier of its
origin. -/
structure FitInv (n : DefederationNode) : Prop where
  logs : n.LogInv
  own : (n.logFor n.nodeId).length = (n.frontierFor n.nodeId).toNat
  follows : n.Below n.graph.follows
  content : n.Below n.graph.content

/-- An update at the new frontier. -/
theorem Below.apply {map : LwwMap} (h : n.Below map) (hle : n.frontierFor op.origin ≤ op.counter)
    {us : List ((UInt64 × UInt64) × LwwEntry)} (hus : ∀ u ∈ us, u.2.ts = op.ts) :
    (n.applyOrderedOp op).Below (Lww.updateAll LwwEntry.ts map us) := by
  intro key entry hentry
  rw [frontierFor_applyOrderedOp]
  have hold : ∀ e, map[key]? = some e → entry = e →
      entry.ts.counter ≤ if op.origin = entry.ts.origin then op.counter
        else n.frontierFor entry.ts.origin := by
    intro e he heq
    have hc := h key e he
    rw [← heq] at hc
    split
    · rename_i ho
      rw [← ho] at hc
      exact UInt64.le_trans hc hle
    · exact hc
  rw [Lww.getElem?_updateAll] at hentry
  obtain ⟨hmem, -⟩ : Lww.Latest LwwEntry.ts (map[key]?.toList ++ Lww.updatesOf us key) _ := by
    refine Lww.Latest.run (r := map[key]?) ⟨?_, ?_⟩ (Lww.updatesOf us key)
    · intro e he
      simp [he]
    · intro e he
      exact ⟨e, by simpa using he, le_rfl⟩
  rcases List.mem_append.1 (hmem entry hentry) with hin | hin
  · exact hold entry (by simpa using hin) rfl
  · have hts := hus _ (Lww.mem_updatesOf.1 hin)
    simp only at hts
    rw [hts]
    simp [LensOp.ts]

theorem FitInv.next (h : n.FitInv) (hop : n.Next op) : (n.applyOrderedOp op).FitInv := by
  refine ⟨h.logs.next hop, ?_, ?_, ?_⟩
  · have hown := h.own
    have hid : (n.applyOrderedOp op).nodeId = n.nodeId := nodeId_applyKind n op
    rw [hid, logFor_applyOrderedOp, frontierFor_applyOrderedOp]
    by_cases ho : op.origin = n.nodeId
    · have hc := congrArg UInt64.toNat hop
      rw [saturatingAdd64_one, ho] at hc
      have := (n.frontierFor n.nodeId).toNat_lt
      by_cases hlen : (n.logFor n.nodeId).length = op.counter.toNat - 1
      · simp [ho, hlen]
        omega
      · simp [ho, hlen]
        omega
    · simpa [ho] using hown
  · rw [follows_applyOrderedOp]
    exact h.follows.apply hop.le fun u hu => LensOp.ts_followUpdate hu
  · rw [content_applyOrderedOp]
    exact h.content.apply hop.le fun u hu => LensOp.ts_contentUpdate hu

theorem fitInv_new (nodeId : NodeId) (hostId : UInt8) (localSiteId : SiteId)
    (trusted : ExtTreeSet NodeId) (cfg : DefederationGuardConfig) :
    (DefederationNode.new nodeId hostId localSiteId trusted cfg).FitInv where
  logs := logInv_new ..
  own := by simp [logFor, frontierFor, new]
  follows key entry h := by
    have hempty : (∅ : LwwMap)[key]? = some entry := h
    simp at hempty
  content key entry h := by
    have hempty : (∅ : LwwMap)[key]? = some entry := h
    simp at hempty

/-! ## An emit -/

/-- What holds under the key of an operation after it. -/
theorem entryFor_applyOrderedOp (n : DefederationNode) (op : LensOp) (flag : Bool)
    (h : op.trustUpdate = none)
    (hflag : op.followUpdate.map Prod.snd ++ op.contentUpdate.map Prod.snd = [⟨op.ts, flag⟩]) :
    (n.applyOrderedOp op).graph.entryFor op.kind =
      Lww.step LwwEntry.ts (n.graph.entryFor op.kind) ⟨op.ts, flag⟩ := by
  have hf := follows_applyOrderedOp n op
  have hc := content_applyOrderedOp n op
  unfold LensOp.followUpdate LensOp.contentUpdate at *
  unfold LensOp.trustUpdate at h
  cases hk : op.kind with
  | follow a b enabled =>
    simp only [hk, List.map_cons, List.map_nil, List.append_nil, List.cons.injEq, and_true] at hflag hf
    simp only [LensGraph.entryFor, hf, Lww.getElem?_updateAll]
    simp [Lww.updatesOf, Lww.run, hflag]
  | content a b present =>
    simp only [hk, List.map_cons, List.map_nil, List.nil_append, List.cons.injEq, and_true] at hflag hc
    simp only [LensGraph.entryFor, hc, Lww.getElem?_updateAll]
    simp [Lww.updatesOf, Lww.run, hflag]
  | trustOrigin origin trusted => simp [hk] at h

/-- A register takes an update iff it is later than the entry, an equal timestamp apart. -/
theorem step_eq_self_iff {cur : Option LwwEntry} {next : LwwEntry}
    (hne : ∀ e, cur = some e → e.ts ≠ next.ts) :
    Lww.step LwwEntry.ts cur next = some next ↔ ∀ e, cur = some e → e.ts < next.ts := by
  cases cur with
  | none => simp [Lww.step]
  | some prev =>
    have hne := hne prev rfl
    unfold Lww.step
    by_cases hle : next.ts ≤ prev.ts
    · have hlt : ¬ prev.ts < next.ts := not_lt.2 hle
      simp only [hle, if_true, Option.some.injEq]
      constructor
      · intro h
        exact absurd (congrArg LwwEntry.ts h) hne
      · intro h
        exact absurd (h prev rfl) hlt
    · simp [hle, not_le.1 hle]

/-- An operation is in force iff no entry under its key is as late, if none has its timestamp. -/
theorem inForce_applyOrderedOp (n : DefederationNode) (op : LensOp)
    (hne : ∀ e, n.graph.entryFor op.kind = some e → e.ts ≠ op.ts) :
    InForce (n.applyOrderedOp op) op ↔
      ∀ e, n.graph.entryFor op.kind = some e → e.ts < op.ts := by
  cases hk : op.kind with
  | follow a b enabled =>
    have hstep := entryFor_applyOrderedOp n op enabled
      (by simp [LensOp.trustUpdate, hk]) (by simp [LensOp.followUpdate, LensOp.contentUpdate, hk])
    rw [hk] at hstep hne
    simp only [InForce, hk, hstep]
    exact step_eq_self_iff hne
  | content a b present =>
    have hstep := entryFor_applyOrderedOp n op present
      (by simp [LensOp.trustUpdate, hk]) (by simp [LensOp.followUpdate, LensOp.contentUpdate, hk])
    rw [hk] at hstep hne
    simp only [InForce, hk, hstep]
    exact step_eq_self_iff hne
  | trustOrigin origin trusted =>
    have hmem := mem_trusted_applyOrderedOp n op origin
    simp only [InForce, hk, LensGraph.entryFor]
    rw [LensOp.trustUpdate, hk] at hmem
    cases trusted with
    | true => simpa [← ExtTreeSet.mem_iff_contains] using hmem
    | false =>
      rw [Bool.eq_false_iff, ne_eq, ← ExtTreeSet.mem_iff_contains]
      simpa using hmem

/-- **An emit of a fitting run does what it has to do iff it fits.** -/
theorem FitInv.emitOk_iff {cr : Crates} {e : Emit} (h : n.FitInv)
    (he : n.emit cr e = some (n', op)) : EmitOk n n' op ↔ EmitFits n e := by
  rw [emit_eq] at he
  obtain ⟨hn', ho, hc, hkind⟩ := emitLocal_cases he
  generalize hn₁ : { n with localCounter := saturatingAdd64 n.localCounter 1 } = n₁ at hn'
  have hfr : ∀ o, n₁.frontierFor o = n.frontierFor o := fun o => by subst hn₁; rfl
  have hlog : ∀ o, n₁.logFor o = n.logFor o := fun o => by subst hn₁; rfl
  have hgraph : n₁.graph = n.graph := by subst hn₁; rfl
  have hts : op.ts = ⟨saturatingAdd64 n.localCounter 1, n.nodeId⟩ := by rw [LensOp.ts, hc, ho]
  have hnat := congrArg UInt64.toNat hc
  rw [saturatingAdd64_one] at hnat
  have hlen := h.logs.counter
  have hown := h.own
  have hlt := n.localCounter.toNat_lt
  have hlog' : n'.logFor n.nodeId =
      if (n.logFor n.nodeId).length = op.counter.toNat - 1 then n.logFor n.nodeId ++ [op]
      else n.logFor n.nodeId := by
    rw [hn', logFor_applyOrderedOp, hlog]
    simp [ho]
  -- If the counter is free, no entry has the timestamp of the operation.
  have hfree : n.frontierFor n.nodeId < op.counter →
      ∀ x, n₁.graph.entryFor op.kind = some x → x.ts ≠ op.ts := by
    intro hnew x hx heq
    have hbelow : x.ts.counter ≤ n.frontierFor x.ts.origin := by
      rw [hgraph] at hx
      cases hk : op.kind with
      | follow a b enabled => exact h.follows _ _ (by simpa [hk, LensGraph.entryFor] using hx)
      | content a b present => exact h.content _ _ (by simpa [hk, LensGraph.entryFor] using hx)
      | trustOrigin origin trusted => simp [hk, LensGraph.entryFor] at hx
    rw [heq] at hbelow
    have hle : op.counter ≤ n.frontierFor n.nodeId := by
      rw [← ho]
      exact hbelow
    exact absurd hnew (UInt64.not_lt.2 hle)
  have hforce : n.frontierFor n.nodeId < op.counter →
      (InForce n' op ↔ ∀ entry, n.graph.entryFor (n.kindOf e) = some entry →
        entry.ts < ⟨saturatingAdd64 n.localCounter 1, n.nodeId⟩) := by
    intro hnew
    rw [hn', inForce_applyOrderedOp n₁ op (hfree hnew), hgraph, hkind, hts]
  constructor
  · intro hok
    have hpush : (n.logFor n.nodeId).length = op.counter.toNat - 1 := by
      by_contra hno
      have hl := hok.logged
      rw [hlog', if_neg hno] at hl
      simp at hl
    have hnew := UInt64.lt_iff_toNat_lt.1 hok.newer
    refine ⟨UInt64.le_iff_toNat_le.2 (by omega), by omega, (hforce hok.newer).1 hok.inForce⟩
  · intro hfit
    have hle := UInt64.le_iff_toNat_le.1 hfit.own
    have hroom := hfit.room
    have hnew : n.frontierFor n.nodeId < op.counter := UInt64.lt_iff_toNat_lt.2 (by omega)
    refine ⟨fun o => ?_, hnew, ?_, (hforce hnew).2 hfit.latest⟩
    · rw [hn', frontierFor_applyOrderedOp, hfr]
      split
      · rename_i hoo
        rw [← hoo, ho]
        exact UInt64.le_of_lt hnew
      · exact UInt64.le_refl _
    · rw [hlog', if_pos (by omega)]

theorem FitInv.emit {cr : Crates} {e : Emit} (h : n.FitInv) (hfit : EmitFits n e)
    (he : n.emit cr e = some (n', op)) : n'.FitInv := by
  have hok := (h.emitOk_iff he).2 hfit
  have hlogs := h.logs.emit he
  rw [emit_eq] at he
  obtain ⟨hn', ho, hc, -⟩ := emitLocal_cases he
  generalize hn₁ : { n with localCounter := saturatingAdd64 n.localCounter 1 } = n₁ at hn'
  have hle : n₁.frontierFor op.origin ≤ op.counter := by
    subst hn₁
    rw [ho]
    exact UInt64.le_of_lt hok.newer
  have hid : n'.nodeId = n.nodeId := by
    subst hn' hn₁
    exact nodeId_applyKind _ op
  have hbelow : n₁.Below n₁.graph.follows ∧ n₁.Below n₁.graph.content := by
    subst hn₁
    exact ⟨h.follows, h.content⟩
  refine ⟨hlogs, ?_, ?_, ?_⟩
  · have hfr : n'.frontierFor n.nodeId = op.counter := by rw [hn', frontierFor_applyOrderedOp, if_pos ho]
    have hown := h.own
    have hle := UInt64.le_iff_toNat_le.1 hfit.own
    have hroom := hfit.room
    have hlen := h.logs.counter
    have hnat := congrArg UInt64.toNat hc
    rw [saturatingAdd64_one] at hnat
    rw [hid, hok.logged, hfr, List.length_append, List.length_singleton]
    omega
  · rw [hn', follows_applyOrderedOp]
    exact hbelow.1.apply hle fun u hu => LensOp.ts_followUpdate hu
  · rw [hn', content_applyOrderedOp]
    exact hbelow.2.apply hle fun u hu => LensOp.ts_contentUpdate hu

end DefederationNode

/-- **Local operations.** In every run whose emits fit, no call moves a frontier back, and an emit
makes a new operation that is logged and in force; in the states of such a run, an emit does so
only if it fits. -/
theorem fitting_run_lossless (cr : Crates) {nodeId : NodeId} {hostId : UInt8} {localSiteId : SiteId}
    {trusted : ExtTreeSet NodeId} {cfg : DefederationGuardConfig} {calls : List Call}
    {n : DefederationNode}
    (hrun : RunWith cr CallFits (.new nodeId hostId localSiteId trusted cfg) calls n) :
    (∀ round ops o, n.frontierFor o ≤ (n.ingestBatch cr round ops).1.frontierFor o) ∧
    ∀ e n' op, n.emit cr e = some (n', op) → (EmitOk n n' op ↔ EmitFits n e) := by
  obtain ⟨hinv, hpend⟩ := hrun.induction (P := fun _ => True) (I := DefederationNode.FitInv)
    (fun n _ _ _ _ h => ⟨⟨⟨h.logs.isLog, h.logs.frontier, h.logs.keys⟩, h.logs.counter⟩, h.own,
      h.follows, h.content⟩)
    (fun _ _ _ _ => trivial) (fun n op h _ hop => h.next hop) (fun n e n' op h hq he => h.emit hq he)
    ⟨DefederationNode.fitInv_new .., PendingOk.new _ nodeId hostId localSiteId trusted cfg⟩
  exact ⟨fun round ops o => DefederationNode.frontierFor_le_ingestBatch cr n round ops hpend o,
    fun e n' op he => hinv.emitOk_iff he⟩

/-- The operations of a node's earlier life, sent back to it: they have its origin. -/
def echoedOps : List LensOp := [⟨1, 1, 0, .follow 7 9 true, 0⟩, ⟨1, 2, 0, .content 7 0 false, 0⟩]

/-- A node that has taken up its own operations again after a restart. -/
def restartedNode : DefederationNode :=
  ((DefederationNode.new 1 0 7 ∅ freeGuard).ingestBatch .standard 1 echoedOps).1

/-- The next emit moves the frontier back from 2 to 1, and its operation is not logged and not in
force. -/
theorem emit_lost : ∃ n' op, Reachable .standard restartedNode ∧
    restartedNode.emit .standard (.content 0 true) = some (n', op) ∧
    n'.frontierFor 1 < restartedNode.frontierFor 1 ∧ op.counter ≤ restartedNode.frontierFor 1 ∧
    op ∉ n'.logFor 1 ∧ ¬ InForce n' op := by
  refine ⟨_, _, ⟨1, 0, 7, ∅, freeGuard, [.ingest 1 echoedOps], .cons trivial (.ingest ..) (.nil _)⟩,
    rfl, ?_, ?_, ?_, ?_⟩
  · decide +kernel
  · decide +kernel
  · decide +kernel
  · change ¬ (LensGraph.entryFor _ _ = _)
    decide +kernel

theorem fitting_run_lossless_sample : ∃ n' op,
    RunWith .standard CallFits (.new 2 0 7 ∅ freeGuard) [.ingest 1 echoedOps]
      ((DefederationNode.new 2 0 7 ∅ freeGuard).ingestBatch .standard 1 echoedOps).1 ∧
    ((DefederationNode.new 2 0 7 ∅ freeGuard).ingestBatch .standard 1 echoedOps).1.emit .standard
      (.content 3 true) = some (n', op) ∧
    EmitOk ((DefederationNode.new 2 0 7 ∅ freeGuard).ingestBatch .standard 1 echoedOps).1 n' op := by
  have hrun : RunWith .standard CallFits (.new 2 0 7 ∅ freeGuard) [.ingest 1 echoedOps]
      ((DefederationNode.new 2 0 7 ∅ freeGuard).ingestBatch .standard 1 echoedOps).1 :=
    .cons trivial (.ingest ..) (.nil _)
  refine ⟨_, _, hrun, rfl, ?_⟩
  refine ((fitting_run_lossless .standard hrun).2 (.content 3 true) _ _ rfl).2 ⟨?_, ?_, ?_⟩
  · decide +kernel
  · decide +kernel
  · intro entry hentry
    have hnone : LensGraph.entryFor ((DefederationNode.new 2 0 7 ∅ freeGuard).ingestBatch .standard 1
        echoedOps).1.graph (.content 7 3 true) = none := by decide +kernel
    have hsome : LensGraph.entryFor ((DefederationNode.new 2 0 7 ∅ freeGuard).ingestBatch .standard 1
        echoedOps).1.graph (.content 7 3 true) = some entry := hentry
    rw [hnone] at hsome
    cases hsome

end Citadel
