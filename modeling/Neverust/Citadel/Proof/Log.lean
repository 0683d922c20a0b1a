import Neverust.CidForms
import Neverust.Citadel.Run

/-!
# The logs of a node

`LogInv`: whatever operations a node is sent, each log holds the operations of its origin under
the counters `1, 2, 3, ...` without a gap, and reaches at least to the frontier. So a reply to a
peer has no gap (`reply_complete`).
-/

namespace Citadel

open Std (ExtTreeMap ExtTreeSet)
open Rust

namespace DefederationNode

/-- A log of an origin: counters from 1 on, without a gap. -/
def IsLog (origin : NodeId) (log : List LensOp) : Prop :=
  ∀ i op, log[i]? = some op → op.origin = origin ∧ op.counter.toNat = i + 1

structure LogsOk (n : DefederationNode) : Prop where
  isLog : ∀ o, IsLog o (n.logFor o)
  frontier : ∀ o, (n.frontierFor o).toNat ≤ (n.logFor o).length
  keys : ∀ o, o ∈ n.frontier ↔ o ∈ n.opLog

structure LogInv (n : DefederationNode) : Prop extends n.LogsOk where
  counter : n.localCounter.toNat ≤ (n.logFor n.nodeId).length

theorem IsLog.append {o : NodeId} {log : List LensOp} {op : LensOp} (h : IsLog o log)
    (ho : op.origin = o) (hc : op.counter.toNat = log.length + 1) : IsLog o (log ++ [op]) := by
  intro i op' hi
  rw [List.getElem?_append] at hi
  split at hi
  · exact h i op' hi
  · have hlast : i = log.length := by
      have := (List.getElem?_eq_some_iff.1 hi).1
      simp at this
      omega
    subst hlast
    simp at hi
    subst hi
    exact ⟨ho, hc⟩

variable {n : DefederationNode} {op : LensOp}

/-- An operation whose counter is at most one above the length of its log is applied. -/
theorem LogsOk.apply (h : n.LogsOk) (hpos : 0 < op.counter.toNat)
    (hle : op.counter.toNat ≤ (n.logFor op.origin).length + 1) : (n.applyOrderedOp op).LogsOk where
  isLog o := by
    rw [logFor_applyOrderedOp]
    split
    · rename_i hc
      exact (h.isLog o).append hc.1 (by omega)
    · exact h.isLog o
  frontier o := by
    have hf := h.frontier o
    rw [frontierFor_applyOrderedOp, logFor_applyOrderedOp]
    by_cases ho : op.origin = o
    · subst ho
      by_cases hc : (n.logFor op.origin).length = op.counter.toNat - 1
      · simp [hc]
        omega
      · simp [hc]
        omega
    · simpa [ho] using hf
  keys o := by
    have hk := h.keys o
    simp [applyOrderedOp, hk]

theorem length_logFor_le (n : DefederationNode) (op : LensOp) (o : NodeId) :
    (n.logFor o).length ≤ ((n.applyOrderedOp op).logFor o).length := by
  rw [logFor_applyOrderedOp]
  split
  · simp
  · exact Nat.le_refl _

theorem LogInv.next (h : n.LogInv) (hop : n.Next op) : (n.applyOrderedOp op).LogInv := by
  have hf := h.frontier op.origin
  have hc := congrArg UInt64.toNat hop
  rw [saturatingAdd64_one] at hc
  have hlt := (n.frontierFor op.origin).toNat_lt
  refine ⟨h.toLogsOk.apply (by omega) (by omega), ?_⟩
  have hid : (n.applyOrderedOp op).nodeId = n.nodeId := nodeId_applyKind n op
  have hcount : (n.applyOrderedOp op).localCounter = n.localCounter := localCounter_applyKind n op
  rw [hid, hcount]
  exact h.counter.trans (length_logFor_le n op n.nodeId)

theorem LogInv.emit {cr : Crates} {e : Emit} {n' : DefederationNode} (h : n.LogInv)
    (he : n.emit cr e = some (n', op)) : n'.LogInv := by
  rw [emit_eq] at he
  obtain ⟨rfl, ho, hc, -⟩ := emitLocal_cases he
  have hlen := h.counter
  have hc' := congrArg UInt64.toNat hc
  rw [saturatingAdd64_one] at hc'
  have hlt := n.localCounter.toNat_lt
  -- The counter is advanced before the operation is applied.
  generalize hn₁ : { n with localCounter := saturatingAdd64 n.localCounter 1 } = n₁
  have hlog : ∀ o, n₁.logFor o = n.logFor o := fun o => by
    subst hn₁
    rfl
  have hok₁ : n₁.LogsOk := by
    subst hn₁
    exact ⟨h.isLog, h.frontier, h.keys⟩
  have hok : (n₁.applyOrderedOp op).LogsOk := by
    refine hok₁.apply (by omega) ?_
    rw [ho, hlog]
    omega
  refine ⟨hok, ?_⟩
  have hid : (n₁.applyOrderedOp op).nodeId = n.nodeId := by
    subst hn₁
    exact nodeId_applyKind _ op
  have hcount : (n₁.applyOrderedOp op).localCounter = op.counter := by
    subst hn₁
    rw [hc]
    exact localCounter_applyKind _ op
  have hfront := hok.frontier n.nodeId
  rw [frontierFor_applyOrderedOp, if_pos ho] at hfront
  rw [hid, hcount]
  exact hfront

theorem logInv_new (nodeId : NodeId) (hostId : UInt8) (localSiteId : SiteId)
    (trusted : ExtTreeSet NodeId) (cfg : DefederationGuardConfig) :
    (DefederationNode.new nodeId hostId localSiteId trusted cfg).LogInv where
  isLog o i op h := by simp [logFor, new] at h
  frontier o := by simp [frontierFor, logFor, new]
  counter := by simp [new]
  keys o := by simp [new]

end DefederationNode

/-- The logs of every reachable state are in order. -/
theorem Reachable.logInv {cr : Crates} {n : DefederationNode} (h : Reachable cr n) : n.LogInv := by
  obtain ⟨nodeId, hostId, localSiteId, trusted, cfg, calls, hrun⟩ := h
  refine (hrun.induction (P := fun _ => True) (I := DefederationNode.LogInv) ?_ ?_ ?_ ?_
    ⟨DefederationNode.logInv_new .., PendingOk.new _ nodeId hostId localSiteId trusted cfg⟩).1
  · exact fun n _ _ _ _ h => ⟨⟨h.isLog, h.frontier, h.keys⟩, h.counter⟩
  · exact fun _ _ _ _ => trivial
  · exact fun n op h _ hop => h.next hop
  · exact fun n e n' op h _ he => h.emit he

/-! ## Replies -/

namespace DefederationNode

variable {n : DefederationNode} {p : ExtTreeMap NodeId UInt64}

/-- What a peer with the frontier `p` lacks of one origin. -/
def owed (n : DefederationNode) (p : ExtTreeMap NodeId UInt64) (o : NodeId) : List LensOp :=
  ((n.logFor o).take (n.frontierFor o).toNat).drop (p.getD o 0).toNat

theorem sendLog_spec {log : List LensOp} {src : UInt64} (hsrc : src.toNat < 2 ^ 64 - 1)
    (hlen : src.toNat ≤ log.length) (maxOps k : Nat) {c : UInt64} (hc : 0 < c.toNat)
    (hk : src.toNat + 1 - c.toNat < k) (out : List LensOp) :
    sendLog log src maxOps k c out =
      some (out ++ ((log.take src.toNat).drop (c.toNat - 1)).take (maxOps - out.length)) := by
  induction k generalizing c out with
  | zero => omega
  | succ k ih =>
    rw [sendLog]
    split
    · rename_i hmore
      have hle : c.toNat ≤ src.toNat := UInt64.le_iff_toNat_le.1 hmore.1
      have hlt : c.toNat - 1 < (log.take src.toNat).length := by
        rw [List.length_take]
        omega
      have hnext : (saturatingAdd64 c 1).toNat = c.toNat + 1 := by
        rw [saturatingAdd64_one]
        omega
      have hget : log[c.toNat - 1]? = some (log.take src.toNat)[c.toNat - 1] := by
        rw [List.getElem_take, List.getElem?_eq_getElem]
      have hroom : maxOps - out.length = (maxOps - (out.length + 1)) + 1 := by omega
      have hpos : c.toNat - 1 + 1 = c.toNat := by omega
      simp only [hget]
      rw [ih (by omega) (by omega), hnext, List.drop_eq_getElem_cons hlt, hroom, List.take_succ_cons,
        List.length_append, List.length_singleton, Nat.add_sub_cancel, hpos]
      simp
    · rename_i hdone
      by_cases hle : c.toNat ≤ src.toNat
      · have hfull : maxOps - out.length = 0 := by
          have : ¬ out.length < maxOps := fun hlt => hdone ⟨UInt64.le_iff_toNat_le.2 hle, hlt⟩
          omega
        simp [hfull]
      · rw [List.drop_eq_nil_of_le (by rw [List.length_take]; omega)]
        simp

theorem owed_of_le {o : NodeId} (h : n.frontierFor o ≤ p.getD o 0) : n.owed p o = [] := by
  have hle := UInt64.le_iff_toNat_le.1 h
  refine List.drop_eq_nil_of_le ?_
  rw [List.length_take]
  omega

theorem sendLogs_spec (h : n.LogsOk) (hf : ∀ o, (n.frontierFor o).toNat < 2 ^ 64 - 1)
    (maxOps : Nat) {bound : Nat} (hb : 2 ^ 64 ≤ bound) (origins : List NodeId)
    (out : List LensOp) :
    n.sendLogs p maxOps bound origins out =
      some (out ++ (origins.flatMap (n.owed p)).take (maxOps - out.length)) := by
  induction origins generalizing out with
  | nil => simp [sendLogs]
  | cons o origins ih =>
    rw [sendLogs, List.flatMap_cons]
    dsimp only
    split
    · rename_i hfull
      have hzero : maxOps - out.length = 0 := by omega
      simp [hzero]
    · split
      · rename_i hle
        rw [ih, owed_of_le hle, List.nil_append]
      · rename_i hlt
        have hlt : (p.getD o 0).toNat < (n.frontierFor o).toNat := by
          rw [UInt64.le_iff_toNat_le] at hlt
          omega
        have hfo := hf o
        have hnext : (saturatingAdd64 (p.getD o 0) 1).toNat = (p.getD o 0).toNat + 1 := by
          rw [saturatingAdd64_one]
          omega
        have hlog : n.logFor o = n.opLog[o]?.getD [] := ExtTreeMap.getD_eq_getD_getElem?
        cases hget : n.opLog[o]? with
        | none =>
          have hempty : n.owed p o = [] := by simp [owed, hlog, hget]
          simp only [ih, hempty, List.nil_append]
        | some log =>
          have hl : n.logFor o = log := by simp [hlog, hget]
          have hlen := h.frontier o
          rw [hl] at hlen
          simp only
          rw [sendLog_spec hfo hlen maxOps bound (by omega) (by omega), hnext, Nat.add_sub_cancel]
          change n.sendLogs p maxOps bound origins _ = _
          have howed : (log.take (n.frontierFor o).toNat).drop (p.getD o 0).toNat = n.owed p o := by
            rw [owed, hl]
          rw [howed, ih, List.take_append, List.append_assoc, List.length_append, List.length_take]
          congr 4
          omega

/-- A reply is the start of what the peer lacks. -/
theorem missingOpsForFrontier_eq (h : n.LogsOk) (hf : ∀ o, (n.frontierFor o).toNat < 2 ^ 64 - 1)
    (maxOps : Nat) {bound : Nat} (hb : 2 ^ 64 ≤ bound) :
    n.missingOpsForFrontier p maxOps bound =
      some ((n.opLog.keys.flatMap (n.owed p)).take maxOps) := by
  unfold missingOpsForFrontier
  split
  · rename_i h0
    simp [h0]
  · rw [sendLogs_spec h hf maxOps hb]
    simp

/-- The operations of one origin. -/
def ofOrigin (o : NodeId) (ops : List LensOp) : List LensOp := ops.filter fun op => op.origin = o

theorem getElem?_owed (o : NodeId) (i : Nat) (op : LensOp) (hop : (n.owed p o)[i]? = some op) :
    (n.logFor o)[(p.getD o 0).toNat + i]? = some op := by
  rw [owed, List.getElem?_drop, List.getElem?_take] at hop
  split at hop
  · exact hop
  · cases hop

theorem LogsOk.origin_owed (h : n.LogsOk) {o : NodeId} {op : LensOp} (hop : op ∈ n.owed p o) :
    op.origin = o := by
  obtain ⟨i, hi⟩ := List.mem_iff_getElem?.1 hop
  exact (h.isLog o _ op (getElem?_owed o i op hi)).1

theorem LogsOk.counters_owed (h : n.LogsOk) (o : NodeId) :
    (n.owed p o).map (fun op => op.counter.toNat) =
      List.range' ((p.getD o 0).toNat + 1) (n.owed p o).length := by
  apply List.ext_getElem
  · simp
  · intro i h₁ h₂
    have hi : i < (n.owed p o).length := by simpa using h₁
    have hc := (h.isLog o _ _ (getElem?_owed o i _ (List.getElem?_eq_getElem hi))).2
    simp [hc]
    omega

theorem LogsOk.length_owed (h : n.LogsOk) (o : NodeId) :
    (n.owed p o).length = (n.frontierFor o).toNat - (p.getD o 0).toNat := by
  have hlen := h.frontier o
  rw [owed, List.length_drop, List.length_take]
  omega

/-- Of all that is owed, the part of one origin is what is owed of it. -/
theorem LogsOk.ofOrigin_owed (h : n.LogsOk) (o : NodeId) :
    ofOrigin o (n.opLog.keys.flatMap (n.owed p)) = n.owed p o := by
  have hpart : ∀ k, ofOrigin o (n.owed p k) = if k = o then n.owed p o else [] := by
    intro k
    split
    · rename_i hk
      subst hk
      exact List.filter_eq_self.2 fun op hop => decide_eq_true (h.origin_owed hop)
    · rename_i hk
      refine List.filter_eq_nil_iff.2 fun op hop => ?_
      rw [h.origin_owed hop]
      simpa using hk
  have hall : ∀ l : List NodeId, l.Nodup →
      ofOrigin o (l.flatMap (n.owed p)) = if o ∈ l then n.owed p o else [] := by
    intro l hl
    induction l with
    | nil => rfl
    | cons k l ih =>
      obtain ⟨hk, hl⟩ := List.nodup_cons.1 hl
      have hcons : ofOrigin o ((k :: l).flatMap (n.owed p)) =
          ofOrigin o (n.owed p k) ++ ofOrigin o (l.flatMap (n.owed p)) := by
        simp [ofOrigin]
      rw [hcons, hpart, ih hl]
      by_cases hko : k = o
      · subst hko
        simp [hk]
      · have hok : ¬ o = k := fun h => hko h.symm
        simp [hko, hok]
  rw [hall _ ExtTreeMap.nodup_keys]
  split
  · rfl
  · rename_i ho
    rw [ExtTreeMap.mem_keys] at ho
    have hempty : n.logFor o = [] := ExtTreeMap.getD_eq_fallback ho
    simp [owed, hempty]

theorem LogsOk.pairwise_owed (h : n.LogsOk) :
    (n.opLog.keys.flatMap (n.owed p)).Pairwise fun a b => a.origin ≤ b.origin := by
  rw [List.pairwise_flatMap]
  constructor
  · intro o _
    refine List.Pairwise.imp_of_mem ?_ (List.pairwise_of_forall (R := fun _ _ => True) fun _ _ => trivial)
    intro a b ha hb _
    rw [h.origin_owed ha, h.origin_owed hb]
    exact UInt32.le_refl _
  · refine ExtTreeMap.ordered_keys.imp fun {o o'} hlt a ha b hb => ?_
    rw [h.origin_owed ha, h.origin_owed hb]
    exact UInt32.le_of_lt (Std.compare_eq_lt.1 hlt)

/-- The part of one origin in a reply is the start of what is owed of it. -/
theorem LogsOk.ofOrigin_reply (h : n.LogsOk) (maxOps : Nat) (o : NodeId) :
    ofOrigin o ((n.opLog.keys.flatMap (n.owed p)).take maxOps) <+: n.owed p o := by
  rw [← h.ofOrigin_owed o]
  exact (List.take_prefix maxOps _).filter _

/-- The counters of one origin in a reply follow the peer's without a gap. -/
theorem LogsOk.counters_reply (h : n.LogsOk) (maxOps : Nat) (o : NodeId) :
    (ofOrigin o ((n.opLog.keys.flatMap (n.owed p)).take maxOps)).map (fun op => op.counter.toNat) =
      List.range' ((p.getD o 0).toNat + 1)
        (ofOrigin o ((n.opLog.keys.flatMap (n.owed p)).take maxOps)).length := by
  obtain ⟨rest, hrest⟩ := h.ofOrigin_reply (p := p) maxOps o
  have hc := h.counters_owed (p := p) o
  rw [← hrest, List.map_append, List.length_append, ← List.range'_append_1] at hc
  exact (List.append_inj hc (by simp)).1

/-- The sum of what is owed. -/
theorem LogsOk.length_allOwed (h : n.LogsOk) :
    (n.opLog.keys.flatMap (n.owed p)).length =
      (n.frontier.keys.map fun o => (n.frontierFor o).toNat - (p.getD o 0).toNat).sum := by
  have hkeys : n.opLog.keys.Perm n.frontier.keys := by
    rw [List.perm_ext_iff_of_nodup ExtTreeMap.nodup_keys ExtTreeMap.nodup_keys]
    intro o
    rw [ExtTreeMap.mem_keys, ExtTreeMap.mem_keys]
    exact (h.keys o).symm
  rw [List.length_flatMap, ← (hkeys.map _).sum_eq]
  congr 1
  exact List.map_congr_left fun o _ => h.length_owed o

end DefederationNode

open DefederationNode in
/-- **The logs of a node under any input.** In every reachable state each log holds the operations
of its origin under the counters from 1 on and reaches at least to the frontier. While no frontier
entry is the largest counter, a reply to a peer has the origins in ascending order, for each origin
the counters that follow the peer's without a gap, all of them for every origin before the last,
and as many operations as asked for and owed. -/
theorem reply_complete (cr : Crates) {n : DefederationNode} (h : Reachable cr n) :
    (∀ o i op, (n.logFor o)[i]? = some op → op.origin = o ∧ op.counter.toNat = i + 1) ∧
    (∀ o, (n.frontierFor o).toNat ≤ (n.logFor o).length) ∧
    ((∀ o, (n.frontierFor o).toNat < 2 ^ 64 - 1) →
      ∀ (p : ExtTreeMap NodeId UInt64) (maxOps bound : Nat), 2 ^ 64 ≤ bound →
      ∃ out, n.missingOpsForFrontier p maxOps bound = some out ∧
        (∀ op ∈ out, op ∈ n.logFor op.origin) ∧
        (out.Pairwise fun a b => a.origin ≤ b.origin) ∧
        (∀ o, (ofOrigin o out).map (fun op => op.counter.toNat) =
          List.range' ((p.getD o 0).toNat + 1) (ofOrigin o out).length) ∧
        (∀ o, ∀ op ∈ out, o < op.origin →
          (ofOrigin o out).length = (n.frontierFor o).toNat - (p.getD o 0).toNat) ∧
        out.length = min maxOps
          (n.frontier.keys.map fun o => (n.frontierFor o).toNat - (p.getD o 0).toNat).sum) := by
  have hinv := h.logInv.toLogsOk
  refine ⟨hinv.isLog, hinv.frontier, fun hf p maxOps bound hb => ?_⟩
  refine ⟨_, missingOpsForFrontier_eq hinv hf maxOps hb, ?_⟩
  generalize hall : n.opLog.keys.flatMap (n.owed p) = all
  have hpart : ∀ o, ofOrigin o all = n.owed p o := fun o => hall ▸ hinv.ofOrigin_owed o
  have hpair : all.Pairwise fun a b => a.origin ≤ b.origin := hall ▸ hinv.pairwise_owed
  have hlen := hinv.length_allOwed (p := p)
  rw [hall] at hlen
  have hpre : ∀ o, ofOrigin o (all.take maxOps) <+: n.owed p o :=
    fun o => hall ▸ hinv.ofOrigin_reply maxOps o
  refine ⟨fun op hop => ?_, hpair.sublist (List.take_sublist _ _), fun o => ?_,
    fun o op hop hlt => ?_, by rw [List.length_take, hlen]⟩
  · have hmem : op ∈ n.owed p op.origin :=
      (hpre op.origin).subset (List.mem_filter.2 ⟨hop, decide_eq_true rfl⟩)
    exact List.mem_of_mem_take (List.mem_of_mem_drop hmem)
  · exact hall ▸ hinv.counters_reply maxOps o
  · -- What is left out is not of an earlier origin than what is sent.
    rw [← List.take_append_drop maxOps all, List.pairwise_append] at hpair
    have hrest : ofOrigin o (all.drop maxOps) = [] := by
      refine List.filter_eq_nil_iff.2 fun x hx => ?_
      have hle := hpair.2.2 op hop x hx
      intro hxo
      rw [of_decide_eq_true hxo] at hle
      exact absurd hlt (UInt32.not_lt.2 hle)
    have hsplit : ofOrigin o all = ofOrigin o (all.take maxOps) ++ ofOrigin o (all.drop maxOps) := by
      rw [ofOrigin, ofOrigin, ofOrigin, ← List.filter_append, List.take_append_drop]
    rw [hrest, List.append_nil] at hsplit
    rw [← hsplit, hpart, hinv.length_owed]

/-- A guard that asks for no proof of work. -/
def freeGuard : DefederationGuardConfig := { basePowBits := 0, trustedPowBits := 0 }

/-- A node that has the first operation of one origin. -/
def sampleNode : DefederationNode :=
  ((DefederationNode.new 1 0 7 ∅ freeGuard).ingestBatch .standard 1
    [⟨2, 1, 0, .content 5 0 true, 0⟩]).1

theorem frontier_sampleNode : sampleNode.frontier = (∅ : ExtTreeMap NodeId UInt64).insert 2 1 := by
  decide +kernel

theorem reply_complete_sample : Reachable .standard sampleNode ∧
    (∀ o, (sampleNode.frontierFor o).toNat < 2 ^ 64 - 1) ∧
    ∃ out, sampleNode.missingOpsForFrontier ∅ 10 (2 ^ 64) = some out ∧ out.length = 1 := by
  have hreach : Reachable .standard sampleNode :=
    ⟨1, 0, 7, ∅, freeGuard, [.ingest 1 [⟨2, 1, 0, .content 5 0 true, 0⟩]], .cons trivial (.ingest ..) (.nil _)⟩
  have hf : ∀ o, (sampleNode.frontierFor o).toNat < 2 ^ 64 - 1 := by
    intro o
    rw [DefederationNode.frontierFor, frontier_sampleNode, ExtTreeMap.getD_insert]
    split
    · decide
    · simp
  obtain ⟨-, -, hreply⟩ := reply_complete .standard hreach
  obtain ⟨out, hout, -, -, -, -, hlen⟩ := hreply hf ∅ 10 (2 ^ 64) (Nat.le_refl _)
  refine ⟨hreach, hf, out, hout, ?_⟩
  rw [hlen, frontier_sampleNode]
  simp only [DefederationNode.frontierFor, frontier_sampleNode]
  decide +kernel

end Citadel
