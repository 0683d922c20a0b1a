import Neverust.Citadel.Network
import Neverust.Citadel.Proof.History

/-!
# Honest replication

`NetInv`: what a node has of another's log is a start of it, and it has applied exactly that. So
nodes with the same frontiers have the same graph (`honest_converges`).

Trust is not part of the graph: the last operation applied decides, and the nodes apply the
operations of different origins in different orders. They agree if the last word of each origin on
a subject is the same (`trust_converges`), and may disagree otherwise (`trust_diverges`).
-/

namespace Citadel

open Std (ExtTreeMap ExtTreeSet)
open Rust DefederationNode

variable {ι : Type}

/-- What holds of a node, for the logs `own` that the nodes with the identities `id` have of
themselves. -/
structure Follows (id : ι → NodeId) (own : ι → List LensOp) (trusted : ExtTreeSet NodeId)
    (n : DefederationNode) : Prop where
  frontier : ∀ o, (n.frontierFor o).toNat = (n.logFor o).length
  start : ∀ j, n.logFor (id j) <+: own j
  unknown : ∀ o, (∀ j, id j ≠ o) → n.logFor o = []
  history : ∃ hist, History trusted hist n

/-- An operation that its origin has logged. -/
def Logged (id : ι → NodeId) (own : ι → List LensOp) (op : LensOp) : Prop :=
  ∃ j, op.origin = id j ∧ 0 < op.counter.toNat ∧ (own j)[op.counter.toNat - 1]? = some op

structure NetInv (s₀ s : Network ι) : Prop where
  id : ∀ i, s.id i = s₀.id i
  follows : ∀ i, Follows s.id s.ownLog (s₀.nodes i).trustedOrigins (s.nodes i)
  isLog : ∀ i, IsLog (s.id i) (s.ownLog i)
  counter : ∀ i, (s.nodes i).localCounter.toNat = (s.ownLog i).length
  pending : ∀ i, (s.nodes i).PendingOk (· ∈ s.pool)
  pool : ∀ op ∈ s.pool, Logged s.id s.ownLog op
  emitted : ∀ i, s.emitted (s.id i) = (s.ownLog i).length

theorem prefix_append_of_getElem? {α : Type} {l L : List α} {x : α} (h : l <+: L)
    (hx : L[l.length]? = some x) : l ++ [x] <+: L := by
  obtain ⟨t, rfl⟩ := h
  cases t with
  | nil => simp at hx
  | cons y t =>
    simp at hx
    subst hx
    exact ⟨t, by simp⟩

section
variable {id : ι → NodeId} {own : ι → List LensOp} {trusted : ExtTreeSet NodeId}
  {n : DefederationNode} {op : LensOp}

/-- The logs of a node that follows the others are in order. -/
theorem Follows.isLog (h : Follows id own trusted n) (hown : ∀ j, IsLog (id j) (own j))
    (o : NodeId) : IsLog o (n.logFor o) := by
  by_cases ho : ∃ j, id j = o
  · obtain ⟨j, rfl⟩ := ho
    obtain ⟨t, ht⟩ := h.start j
    intro i op hi
    refine hown j i op ?_
    rw [← ht, List.getElem?_append_left (List.getElem?_eq_some_iff.1 hi).1]
    exact hi
  · rw [h.unknown o fun j hj => ho ⟨j, hj⟩]
    intro i op hi
    simp at hi

/-- An operation of the pool that is next in order continues the log of its origin. -/
theorem Follows.next (h : Follows id own trusted n) (hinj : ∀ i j, id i = id j → i = j)
    (hlen : ∀ j, (own j).length < 2 ^ 64 - 1) (hop : Logged id own op) (hnext : n.Next op) :
    Follows id own trusted (n.applyOrderedOp op) := by
  obtain ⟨j, ho, hpos, hget⟩ := hop
  have hf := h.frontier op.origin
  have hle := (h.start j).length_le
  have hj := hlen j
  rw [← ho] at hle
  have hc := congrArg UInt64.toNat hnext
  rw [saturatingAdd64_one] at hc
  have hpush : (n.logFor op.origin).length = op.counter.toNat - 1 := by omega
  have hlog : ∀ o, (n.applyOrderedOp op).logFor o =
      if op.origin = o then n.logFor o ++ [op] else n.logFor o := by
    intro o
    rw [logFor_applyOrderedOp]
    by_cases hoo : op.origin = o
    · subst hoo
      simp [hpush]
    · simp [hoo]
  refine ⟨fun o => ?_, fun k => ?_, fun o hno => ?_, ?_⟩
  · rw [hlog, frontierFor_applyOrderedOp]
    split
    · rename_i hoo
      subst hoo
      rw [List.length_append, List.length_singleton]
      omega
    · exact h.frontier o
  · rw [hlog]
    split
    · rename_i hoo
      have hkj : j = k := hinj j k (ho.symm.trans hoo)
      subst hkj
      refine prefix_append_of_getElem? (h.start j) ?_
      rw [← ho, hpush]
      exact hget
    · exact h.start k
  · rw [hlog, if_neg fun hoo => hno j (ho ▸ hoo)]
    exact h.unknown o hno
  · obtain ⟨hist, hh⟩ := h.history
    exact ⟨hist ++ [op], hh.apply hpush⟩

/-- An emit continues the own log. -/
theorem Follows.congr {own' : ι → List LensOp} (h : Follows id own trusted n)
    (hown : ∀ j, own j <+: own' j) : Follows id own' trusted n :=
  ⟨h.frontier, fun j => (h.start j).trans (hown j), h.unknown, h.history⟩

/-- The records of the guard, the queues and the counter play no part. -/
theorem Follows.of_fields {n' : DefederationNode} (h : Follows id own trusted n)
    (hf : n'.frontier = n.frontier) (hl : n'.opLog = n.opLog) (hg : n'.graph = n.graph)
    (ht : n'.trustedOrigins = n.trustedOrigins) : Follows id own trusted n' := by
  have hfr : ∀ o, n'.frontierFor o = n.frontierFor o := fun o => by rw [frontierFor, hf, frontierFor]
  have hlog : ∀ o, n'.logFor o = n.logFor o := fun o => by rw [logFor, hl, logFor]
  obtain ⟨hist, hh⟩ := h.history
  refine ⟨fun o => ?_, fun j => ?_, fun o ho => ?_, hist, ?_, ?_, fun o => ?_, fun o => ?_⟩
  · rw [hfr, hlog]
    exact h.frontier o
  · rw [hlog]
    exact h.start j
  · rw [hlog]
    exact h.unknown o ho
  · rw [hg]
    exact hh.follows
  · rw [hg]
    exact hh.content
  · rw [ht]
    exact hh.trust o
  · rw [hlog]
    exact hh.logs o

end

/-! ## Steps of the network -/

section
variable {cr : Crates} {s₀ s : Network ι}

theorem netInv_initial (h : s₀.Initial) : NetInv s₀ s₀ := by
  have hlog : ∀ i o, (s₀.nodes i).logFor o = [] := by
    intro i o
    obtain ⟨_, _, _, _, _, hnew⟩ := h.fresh i
    rw [hnew]
    simp [logFor, DefederationNode.new]
  have hown : ∀ i, s₀.ownLog i = [] := fun i => hlog i _
  refine ⟨fun i => rfl, fun i => ⟨fun o => ?_, fun j => ?_, fun o _ => hlog i o, [], ?_⟩, fun i => ?_,
    fun i => ?_, fun i => ?_, fun op hop => ?_, fun i => ?_⟩
  · obtain ⟨_, _, _, _, _, hnew⟩ := h.fresh i
    rw [hlog, hnew]
    simp [frontierFor, DefederationNode.new]
  · rw [hlog]
    exact List.nil_prefix
  · obtain ⟨_, _, _, _, _, hnew⟩ := h.fresh i
    rw [hnew]
    exact history_new _ _ _ _ _
  · rw [hown]
    intro k op hk
    simp at hk
  · obtain ⟨_, _, _, _, _, hnew⟩ := h.fresh i
    rw [hown, hnew]
    rfl
  · obtain ⟨_, _, _, _, _, hnew⟩ := h.fresh i
    rw [hnew]
    exact PendingOk.new _ _ _ _ _ _
  · rw [h.silent] at hop
    cases hop
  · rw [hown, Network.emitted, h.silent]
    rfl

theorem NetInv.distinct (h : NetInv s₀ s) (h₀ : s₀.Initial) {i j : ι} (hid : s.id i = s.id j) :
    i = j := by
  rw [h.id, h.id] at hid
  exact h₀.distinct i j hid

/-- Two nodes with the same frontiers have the same logs. -/
theorem NetInv.logs_eq (h : NetInv s₀ s) {i j : ι}
    (heq : ∀ o, (s.nodes i).frontierFor o = (s.nodes j).frontierFor o) (o : NodeId) :
    (s.nodes i).logFor o = (s.nodes j).logFor o := by
  have hi := h.follows i
  have hj := h.follows j
  by_cases ho : ∃ k, s.id k = o
  · obtain ⟨k, rfl⟩ := ho
    have hlen : ((s.nodes i).logFor (s.id k)).length = ((s.nodes j).logFor (s.id k)).length := by
      rw [← hi.frontier, ← hj.frontier, heq]
    exact (List.prefix_of_prefix_length_le (hi.start k) (hj.start k) (Nat.le_of_eq hlen)).eq_of_length
      hlen
  · have hno : ∀ k, s.id k ≠ o := fun k hk => ho ⟨k, hk⟩
    rw [hi.unknown o hno, hj.unknown o hno]

variable [DecidableEq ι]

/-- One node of the network changes, and its own log gets longer or stays. -/
theorem NetInv.setNode (h : NetInv s₀ s) {i : ι} {m : DefederationNode} {pool : List LensOp}
    {own : ι → List LensOp} (hown : own = Function.update s.ownLog i (m.logFor (s.id i)))
    (hid : m.nodeId = s.id i) (hgrow : s.ownLog i <+: m.logFor (s.id i))
    (hlog : IsLog (s.id i) (m.logFor (s.id i)))
    (hcount : m.localCounter.toNat = (m.logFor (s.id i)).length)
    (hfol : Follows s.id own (s₀.nodes i).trustedOrigins m)
    (hpend : m.PendingOk (· ∈ pool)) (hsub : ∀ op ∈ s.pool, op ∈ pool)
    (hpool : ∀ op ∈ pool, Logged s.id own op)
    (hemit : ∀ k, (pool.filter fun op => op.origin = s.id k).length = (own k).length) :
    NetInv s₀ ⟨Function.update s.nodes i m, pool⟩ := by
  generalize hs' : (⟨Function.update s.nodes i m, pool⟩ : Network ι) = s'
  have hnode : ∀ k, s'.nodes k = if k = i then m else s.nodes k := by
    intro k
    rw [← hs']
    simp [Function.update_apply]
  have hids : s'.id = s.id := by
    funext k
    rw [Network.id, hnode]
    split
    · rename_i hk
      subst hk
      exact hid
    · rfl
  have howns : s'.ownLog = own := by
    funext k
    rw [Network.ownLog, hids, hnode, hown, Function.update_apply]
    split
    · rename_i hk
      subst hk
      rfl
    · rfl
  have hstart : ∀ k, s.ownLog k <+: own k := by
    intro k
    rw [hown, Function.update_apply]
    split
    · rename_i hk
      subst hk
      exact hgrow
    · exact List.prefix_rfl
  have hpool' : s'.pool = pool := by rw [← hs']
  refine ⟨fun k => ?_, fun k => ?_, fun k => ?_, fun k => ?_, fun k => ?_, ?_, fun k => ?_⟩
  · rw [hids]
    exact h.id k
  · rw [hids, howns, hnode]
    split
    · rename_i hk
      subst hk
      exact hfol
    · exact (h.follows k).congr hstart
  · rw [hids, howns, hown, Function.update_apply]
    split
    · rename_i hk
      subst hk
      exact hlog
    · exact h.isLog k
  · rw [howns, hown, hnode, Function.update_apply]
    split
    · exact hcount
    · exact h.counter k
  · rw [hnode, hpool']
    split
    · exact hpend
    · intro o c op hop
      obtain ⟨ho, hc, hmem⟩ := h.pending k o c op hop
      exact ⟨ho, hc, hsub op hmem⟩
  · rw [hids, howns, hpool']
    exact hpool
  · rw [howns, Network.emitted, hids, hpool']
    exact hemit k

/-- A batch of operations of the pool. -/
theorem NetInv.ingest (h : NetInv s₀ s) (h₀ : s₀.Initial) (hlen : ∀ j, (s.ownLog j).length < 2 ^ 64 - 1)
    (i : ι) (round : UInt64) {ops : List LensOp} (hops : ∀ op ∈ ops, op ∈ s.pool) :
    NetInv s₀ ⟨Function.update s.nodes i ((s.nodes i).ingestBatch cr round ops).1, s.pool⟩ := by
  -- The own log of the node stays: of its own operations it has applied all.
  obtain ⟨⟨hid, hcount, hfol, hown⟩, hpend⟩ := ingestBatch_induction (P := (· ∈ s.pool))
    (I := fun n => n.nodeId = s.id i ∧ n.localCounter = (s.nodes i).localCounter ∧
      Follows s.id s.ownLog (s₀.nodes i).trustedOrigins n ∧ n.logFor (s.id i) = s.ownLog i)
    (fun n _ _ _ _ hn => ⟨hn.1, hn.2.1, hn.2.2.1.of_fields rfl rfl rfl rfl, hn.2.2.2⟩)
    (fun n op hn hop hnext => by
      obtain ⟨hid, hcount, hfol, hown⟩ := hn
      have hlogged := h.pool op hop
      refine ⟨(nodeId_applyKind n op).trans hid, (localCounter_applyKind n op).trans hcount,
        hfol.next (fun _ _ => h.distinct h₀) hlen hlogged hnext, ?_⟩
      rw [logFor_applyOrderedOp, if_neg, hown]
      rintro ⟨ho, hpush⟩
      obtain ⟨j, hj, -, hget⟩ := hlogged
      have hji : j = i := h.distinct h₀ (hj.symm.trans ho)
      subst hji
      rw [← hpush, hown] at hget
      simp at hget)
    cr round (fun op hop _ _ _ => hops op hop) (h.pending i) ⟨rfl, rfl, h.follows i, rfl⟩
  have hsame : s.ownLog = Function.update s.ownLog i (s.ownLog i) := (Function.update_eq_self _ _).symm
  refine h.setNode ?_ hid ?_ ?_ ?_ hfol hpend (fun _ hop => hop) h.pool h.emitted
  · rw [hown]
    exact hsame
  · rw [hown]
  · rw [hown]
    exact h.isLog i
  · rw [hown, hcount]
    exact h.counter i

/-- An emit, while the counter does not run out. -/
theorem NetInv.emit (h : NetInv s₀ s) (h₀ : s₀.Initial) {i : ι} {e : Emit} {m : DefederationNode}
    {op : LensOp} (he : (s.nodes i).emit cr e = some (m, op))
    (hlen : ∀ j, (s.ownLog j).length < 2 ^ 64 - 1) (hroom : (s.ownLog i).length + 1 < 2 ^ 64 - 1) :
    NetInv s₀ ⟨Function.update s.nodes i m, op :: s.pool⟩ := by
  have hpend := PendingOk.emit he (h.pending i)
  rw [emit_eq] at he
  obtain ⟨hm, ho, hc, -⟩ := emitLocal_cases he
  generalize hn₁ : { s.nodes i with
    localCounter := saturatingAdd64 (s.nodes i).localCounter 1 } = n₁ at hm
  have hcounter := h.counter i
  have hnat := congrArg UInt64.toNat hc
  rw [saturatingAdd64_one] at hnat
  have hcn : op.counter.toNat = (s.ownLog i).length + 1 := by omega
  have hlog₁ : ∀ o, n₁.logFor o = (s.nodes i).logFor o := fun o => by subst hn₁; rfl
  have hfr₁ : ∀ o, n₁.frontierFor o = (s.nodes i).frontierFor o := fun o => by subst hn₁; rfl
  have ho' : op.origin = s.id i := ho
  have hmlog : m.logFor (s.id i) = s.ownLog i ++ [op] := by
    have hlen' : ((s.nodes i).logFor (s.id i)).length = op.counter.toNat - 1 := by
      change (s.ownLog i).length = _
      omega
    rw [hm, logFor_applyOrderedOp, hlog₁, if_pos ⟨ho', hlen'⟩]
    rfl
  generalize hown : Function.update s.ownLog i (m.logFor (s.id i)) = own
  have howni : own i = s.ownLog i ++ [op] := by rw [← hown, Function.update_self, hmlog]
  have hstart : ∀ k, s.ownLog k <+: own k := by
    intro k
    rw [← hown, Function.update_apply]
    split
    · rename_i hk
      subst hk
      rw [hmlog]
      exact List.prefix_append _ _
    · exact List.prefix_rfl
  have hlens : ∀ j, (own j).length < 2 ^ 64 - 1 := by
    intro j
    rw [← hown, Function.update_apply]
    split
    · rw [hmlog, List.length_append, List.length_singleton]
      exact hroom
    · exact hlen j
  have hlogged : Logged s.id own op := by
    refine ⟨i, ho', by omega, ?_⟩
    rw [howni, hcn]
    simp
  -- In the order of the own origin the operation is the next one.
  have hnext : n₁.Next op := by
    have hf := (h.follows i).frontier (s.id i)
    have heq : (s.nodes i).frontierFor (s.id i) = (s.nodes i).localCounter :=
      UInt64.toNat_inj.1 (hf.trans hcounter.symm)
    rw [Next, ho', hfr₁, heq]
    exact hc
  have hfol₁ : Follows s.id own (s₀.nodes i).trustedOrigins n₁ := by
    refine ((h.follows i).congr hstart).of_fields ?_ ?_ ?_ ?_ <;> subst hn₁ <;> rfl
  refine h.setNode hown.symm ?_ ?_ ?_ ?_ ?_ ?_ (fun x hx => .tail _ hx) (fun x hx => ?_) fun k => ?_
  · subst hm hn₁
    exact nodeId_applyKind _ op
  · rw [hmlog]
    exact List.prefix_append _ _
  · rw [hmlog]
    exact (h.isLog i).append ho' hcn
  · have hmc : m.localCounter = op.counter := by
      subst hm hn₁
      rw [hc]
      exact localCounter_applyKind _ op
    rw [hmlog, hmc, hcn, List.length_append, List.length_singleton]
  · rw [hm]
    exact hfol₁.next (fun _ _ => h.distinct h₀) hlens hlogged hnext
  · intro o c x hx
    obtain ⟨h1, h2, h3⟩ := hpend o c x hx
    exact ⟨h1, h2, .tail _ h3⟩
  · rcases List.mem_cons.1 hx with rfl | hx
    · exact hlogged
    · obtain ⟨j, hj, hpos, hget⟩ := h.pool x hx
      obtain ⟨t, ht⟩ := hstart j
      refine ⟨j, hj, hpos, ?_⟩
      rw [← ht, List.getElem?_append_left (List.getElem?_eq_some_iff.1 hget).1]
      exact hget
  · have hk := h.emitted k
    rw [Network.emitted] at hk
    rw [List.filter_cons]
    by_cases hki : k = i
    · subst hki
      rw [if_pos (decide_eq_true ho'), howni, List.length_cons, hk, List.length_append,
        List.length_singleton]
    · have hne : ¬ op.origin = s.id k := by
        rw [ho']
        exact fun hid => hki (h.distinct h₀ hid).symm
      rw [if_neg (by simpa using hne), hk, ← hown, Function.update_of_ne hki]

/-- The pool only grows. -/
theorem emitted_le {s' : Network ι} (h : Network.Step cr s s') (o : NodeId) :
    s.emitted o ≤ s'.emitted o := by
  cases h with
  | emit j e he => exact (List.Sublist.filter _ (List.sublist_cons_self _ _)).length_le
  | ingest j round ops hops => exact Nat.le_refl _

theorem NetInv.step {s' : Network ι} (h : NetInv s₀ s) (h₀ : s₀.Initial)
    (hstep : Network.Step cr s s') (hbound : ∀ o, s'.emitted o < 2 ^ 64 - 1) : NetInv s₀ s' := by
  have hlen : ∀ j, (s.ownLog j).length < 2 ^ 64 - 1 := by
    intro j
    rw [← h.emitted j]
    exact Nat.lt_of_le_of_lt (emitted_le hstep _) (hbound _)
  cases hstep with
  | emit i e he =>
    refine h.emit h₀ he hlen ?_
    have hi := hbound (s.id i)
    rw [← h.emitted i]
    rw [emit_eq] at he
    have ho : _ = s.id i := (emitLocal_cases he).2.1
    simpa [Network.emitted, ho] using hi
  | ingest i round ops hops => exact h.ingest h₀ hlen i round hops

/-- **The invariant of an honest network**, by induction on the steps. -/
theorem Network.Reaches.inv (h : Network.Reaches cr s₀ s) (h₀ : s₀.Initial)
    (hbound : ∀ o, s.emitted o < 2 ^ 64 - 1) : NetInv s₀ s := by
  induction h with
  | refl => exact netInv_initial h₀
  | step hs hstep ih =>
    exact (ih fun o => Nat.lt_of_le_of_lt (emitted_le hstep o) (hbound o)).step h₀ hstep hbound

end

/-- **Honest replication converges.** However the operations are delivered, a node has applied a
start of each origin's log and nothing else; nodes with the same frontiers have the same graph and
the same digests. -/
theorem honest_converges [DecidableEq ι] (cr : Crates) {s₀ s : Network ι} (h₀ : s₀.Initial)
    (h : Network.Reaches cr s₀ s) (hbound : ∀ o, s.emitted o < 2 ^ 64 - 1) :
    (∀ i o, ((s.nodes i).frontierFor o).toNat = ((s.nodes i).logFor o).length) ∧
    (∀ i j, (s.nodes i).logFor (s.id j) <+: s.ownLog j) ∧
    (∀ i o, (∀ j, s.id j ≠ o) → (s.nodes i).logFor o = []) ∧
    ∀ i j, (∀ o, (s.nodes i).frontierFor o = (s.nodes j).frontierFor o) →
      (s.nodes i).graph = (s.nodes j).graph ∧
      ∀ root, (s.nodes i).viewDigestHex cr root = (s.nodes j).viewDigestHex cr root := by
  have hinv := h.inv h₀ hbound
  refine ⟨fun i => (hinv.follows i).frontier, fun i => (hinv.follows i).start,
    fun i => (hinv.follows i).unknown, fun i j heq => ?_⟩
  obtain ⟨histi, hi⟩ := (hinv.follows i).history
  obtain ⟨histj, hj⟩ := (hinv.follows j).history
  have hgraph : (s.nodes i).graph = (s.nodes j).graph :=
    hi.graph_congr hj ((hinv.follows i).isLog hinv.isLog) (hinv.logs_eq heq)
  refine ⟨hgraph, fun root => ?_⟩
  rw [DefederationNode.viewDigestHex, hgraph]
  rfl

/-! ## Two nodes -/

/-- Two new nodes that trust nobody else. -/
def twoNodes : Network Bool :=
  ⟨fun i => if i then .new 4 0 4 ∅ freeGuard else .new 3 0 3 ∅ freeGuard, []⟩

theorem twoNodes_initial : twoNodes.Initial where
  fresh i := by
    cases i
    · exact ⟨3, 0, 3, ∅, freeGuard, rfl⟩
    · exact ⟨4, 0, 4, ∅, freeGuard, rfl⟩
  distinct := by decide
  silent := rfl

/-- What each of the two nodes says about a third origin. -/
def opinion (view : Bool → Bool) (i : Bool) : LensOp :=
  ⟨if i then 4 else 3, 1, 0, .trustOrigin 9 (view i), 0⟩

/-- A node after its own emit. -/
def opinionated (view : Bool → Bool) (i : Bool) : DefederationNode :=
  { twoNodes.nodes i with localCounter := 1 }.applyOrderedOp (opinion view i)

/-- A node that was given the operation of the other. -/
def informed (view : Bool → Bool) (i : Bool) : DefederationNode :=
  ((opinionated view i).ingestBatch .standard 1 [opinion view !i]).1

/-- Both nodes emit an operation, and each is given that of the other. -/
def informedNodes (view : Bool → Bool) : Network Bool :=
  ⟨informed view, [opinion view true, opinion view false]⟩

theorem reaches_informedNodes (view : Bool → Bool) :
    Network.Reaches .standard twoNodes (informedNodes view) := by
  let nodes₁ := Function.update twoNodes.nodes false (opinionated view false)
  let nodes₂ := Function.update nodes₁ true (opinionated view true)
  let nodes₃ := Function.update nodes₂ false (informed view false)
  let pool := [opinion view true, opinion view false]
  have h₁ : Network.Step .standard twoNodes ⟨nodes₁, [opinion view false]⟩ :=
    .emit false (.trust 9 (view false)) rfl
  have h₂ : Network.Step .standard ⟨nodes₁, [opinion view false]⟩ ⟨nodes₂, pool⟩ :=
    .emit true (.trust 9 (view true)) rfl
  have h₃ : Network.Step .standard ⟨nodes₂, pool⟩ ⟨nodes₃, pool⟩ :=
    .ingest false 1 [opinion view true] fun op h => by
      rw [List.mem_singleton.1 h]
      exact .head _
  have h₄ : Network.Step .standard ⟨nodes₃, pool⟩
      ⟨Function.update nodes₃ true (informed view true), pool⟩ :=
    .ingest true 1 [opinion view false] fun _ h => .tail _ h
  have hnodes : informed view = Function.update nodes₃ true (informed view true) := by
    funext i
    cases i <;> rfl
  rw [informedNodes, hnodes]
  exact .step (.step (.step (.step .refl h₁) h₂) h₃) h₄

theorem emitted_informedNodes (view : Bool → Bool) (o : NodeId) :
    (informedNodes view).emitted o < 2 ^ 64 - 1 :=
  Nat.lt_of_le_of_lt (List.length_filter_le _ _) (show 2 < 2 ^ 64 - 1 by decide)

/-- The first node follows the site of the second. -/
def followOp : LensOp := ⟨3, 1, 0, .follow 3 4 true, 0⟩

/-- The first node publishes. -/
def publishOp : LensOp := ⟨3, 2, 0, .content 3 7 true, 0⟩

/-- The second node follows back. -/
def followBackOp : LensOp := ⟨4, 1, 0, .follow 4 3 true, 0⟩

/-- The first node after its two emits. -/
def author : DefederationNode :=
  { { twoNodes.nodes false with localCounter := 1 }.applyOrderedOp followOp with
    localCounter := 2 }.applyOrderedOp publishOp

/-- The second node after its emit. -/
def reader : DefederationNode :=
  { twoNodes.nodes true with localCounter := 1 }.applyOrderedOp followBackOp

/-- The second node is given the later of the two operations, which has to wait. -/
def waitingReader : DefederationNode := (reader.ingestBatch .standard 1 [publishOp]).1

/-- Both nodes are given what they lack, the second one also what it has. -/
def paired (i : Bool) : DefederationNode :=
  if i then (waitingReader.ingestBatch .standard 2 [publishOp, followOp]).1
  else (author.ingestBatch .standard 1 [followBackOp]).1

def pairedNodes : Network Bool := ⟨paired, [publishOp, followBackOp, followOp]⟩

theorem reaches_pairedNodes : Network.Reaches .standard twoNodes pairedNodes := by
  let followed := { twoNodes.nodes false with localCounter := 1 }.applyOrderedOp followOp
  let nodes₁ := Function.update twoNodes.nodes false followed
  let nodes₂ := Function.update nodes₁ true reader
  let nodes₃ := Function.update nodes₂ false author
  let nodes₄ := Function.update nodes₃ true waitingReader
  let nodes₅ := Function.update nodes₄ true (paired true)
  let pool := [publishOp, followBackOp, followOp]
  have h₁ : Network.Step .standard twoNodes ⟨nodes₁, [followOp]⟩ :=
    .emit false (.follow 4 true) rfl
  have h₂ : Network.Step .standard ⟨nodes₁, [followOp]⟩ ⟨nodes₂, [followBackOp, followOp]⟩ :=
    .emit true (.follow 3 true) rfl
  have h₃ : Network.Step .standard ⟨nodes₂, [followBackOp, followOp]⟩ ⟨nodes₃, pool⟩ :=
    .emit false (.content 7 true) rfl
  have h₄ : Network.Step .standard ⟨nodes₃, pool⟩ ⟨nodes₄, pool⟩ :=
    .ingest true 1 [publishOp] (by simp [pool])
  have h₅ : Network.Step .standard ⟨nodes₄, pool⟩ ⟨nodes₅, pool⟩ :=
    .ingest true 2 [publishOp, followOp] (by simp [pool])
  have h₆ : Network.Step .standard ⟨nodes₅, pool⟩
      ⟨Function.update nodes₅ false (paired false), pool⟩ :=
    .ingest false 1 [followBackOp] (by simp [pool])
  have hnodes : paired = Function.update nodes₅ false (paired false) := by
    funext i
    cases i <;> rfl
  rw [pairedNodes, hnodes]
  exact .step (.step (.step (.step (.step (.step .refl h₁) h₂) h₃) h₄) h₅) h₆

/-- Follows and content, delivered out of order and twice. -/
theorem honest_converges_sample : Network.Reaches .standard twoNodes pairedNodes ∧
    (waitingReader.frontierFor 3 = 0 ∧ (paired true).frontierFor 3 = 2) ∧
    ((paired true).logFor 3).length = 2 ∧ (paired true).logFor 3 <+: (paired false).logFor 3 ∧
    (paired true).logFor 9 = [] ∧ (paired true).graph = (paired false).graph ∧
    ∀ root, (paired true).viewDigestHex .standard root =
      (paired false).viewDigestHex .standard root := by
  have hbound : ∀ o, pairedNodes.emitted o < 2 ^ 64 - 1 := fun o =>
    Nat.lt_of_le_of_lt (List.length_filter_le _ _) (show 3 < 2 ^ 64 - 1 by decide)
  obtain ⟨hcount, hstart, hunknown, heq⟩ :=
    honest_converges .standard twoNodes_initial reaches_pairedNodes hbound
  have hfrontier : (paired true).frontier = (paired false).frontier := by decide +kernel
  have htwo : (paired true).frontierFor 3 = 2 := by decide +kernel
  have hsame := heq true false fun o => by
    change (paired true).frontier.getD o 0 = (paired false).frontier.getD o 0
    rw [hfrontier]
  refine ⟨reaches_pairedNodes, ⟨by decide +kernel, htwo⟩, ?_, hstart true false,
    hunknown true 9 (by decide), hsame⟩
  exact (hcount true 3).symm.trans (congrArg UInt64.toNat htwo)

/-! ## Trust -/

/-- The origins that have said something about the trust in `o` agree in their last word. -/
def Agreed (log : NodeId → List LensOp) (o : NodeId) : Prop :=
  ∀ a b x y, lastTrust (log a) o = some x → lastTrust (log b) o = some y → x = y

/-- **Trust.** Nodes with the same logs, which trusted the same origins at the start, trust the
same origins, if on each of them those who spoke agree in their last word. -/
theorem trust_converges [DecidableEq ι] (cr : Crates) {s₀ s : Network ι} (h₀ : s₀.Initial)
    (h : Network.Reaches cr s₀ s) (hbound : ∀ o, s.emitted o < 2 ^ 64 - 1) {i j : ι}
    (hlogs : ∀ o, (s.nodes i).logFor o = (s.nodes j).logFor o)
    (hstart : ∀ o, o ≠ s.id i → o ≠ s.id j →
      (o ∈ (s₀.nodes i).trustedOrigins ↔ o ∈ (s₀.nodes j).trustedOrigins))
    (hagree : ∀ o, o ≠ s.id i → o ≠ s.id j → Agreed (s.nodes i).logFor o) :
    ∀ o, o ≠ s.id i → o ≠ s.id j →
      (o ∈ (s.nodes i).trustedOrigins ↔ o ∈ (s.nodes j).trustedOrigins) := by
  intro o hoi hoj
  have hinv := h.inv h₀ hbound
  obtain ⟨histi, hi⟩ := (hinv.follows i).history
  obtain ⟨histj, hj⟩ := (hinv.follows j).history
  have hagree := hagree o hoi hoj
  -- The common last word.
  obtain ⟨word, hword, hsaid⟩ : ∃ word : Option Bool,
      (∀ a b, lastTrust ((s.nodes i).logFor a) o = some b → word = some b) ∧
      (word ≠ none → ∃ a, lastTrust ((s.nodes i).logFor a) o ≠ none) := by
    by_cases hany : ∃ a b, lastTrust ((s.nodes i).logFor a) o = some b
    · obtain ⟨a, b, hab⟩ := hany
      exact ⟨some b, fun a' b' h' => congrArg some (hagree a a' b b' hab h'),
        fun _ => ⟨a, by rw [hab]; simp⟩⟩
    · exact ⟨none, fun a b hab => absurd ⟨a, b, hab⟩ hany, fun hne => absurd rfl hne⟩
  rw [hi.mem_trusted_iff (hstart o hoi hoj) hword hsaid,
    hj.mem_trusted_iff Iff.rfl (fun a b hab => hword a b (by rw [hlogs]; exact hab))
      fun hne => by simpa [hlogs] using hsaid hne]

/-- Both nodes say the same. -/
theorem opLog_agreed (i : Bool) : (informed (fun _ => true) i).opLog =
    ((∅ : ExtTreeMap NodeId (List LensOp)).insert 3 [opinion (fun _ => true) false]).insert 4
      [opinion (fun _ => true) true] := by
  cases i <;> decide +kernel

theorem trust_converges_sample :
    Network.Reaches .standard twoNodes (informedNodes fun _ => true) ∧
    (9 ∈ (informed (fun _ => true) true).trustedOrigins ↔
      9 ∈ (informed (fun _ => true) false).trustedOrigins) := by
  have hreach := reaches_informedNodes fun _ => true
  refine ⟨hreach, trust_converges .standard twoNodes_initial hreach
    (emitted_informedNodes fun _ => true) (fun o => ?_) (fun o h₁ h₂ => ?_) (fun o _ _ => ?_) 9
    (by decide +kernel) (by decide +kernel)⟩
  · change (informed _ true).logFor o = (informed _ false).logFor o
    rw [logFor, logFor, opLog_agreed, opLog_agreed]
  · have h₁ : o ≠ 4 := h₁
    have h₂ : o ≠ 3 := h₂
    change o ∈ (∅ : ExtTreeSet NodeId).insert 4 ↔ o ∈ (∅ : ExtTreeSet NodeId).insert 3
    simp [h₁.symm, h₂.symm]
  · have hlast : ∀ a x, lastTrust ((informed (fun _ => true) true).logFor a) o = some x →
        x = true := by
      intro a x hx
      rw [logFor, opLog_agreed, ExtTreeMap.getD_insert, ExtTreeMap.getD_insert] at hx
      split at hx
      · simp [lastTrust, opinion, LensOp.trustUpdate] at hx
        exact hx.2
      · split at hx
        · simp [lastTrust, opinion, LensOp.trustUpdate] at hx
          exact hx.2
        · simp [lastTrust] at hx
    intro a b x y hx hy
    rw [hlast a x hx, hlast b y hy]

/-- Two nodes say the opposite about a third origin: each believes the other. -/
theorem trust_diverges : twoNodes.Initial ∧ Network.Reaches .standard twoNodes (informedNodes not) ∧
    (informed not true).opLog = (informed not false).opLog ∧
    (informed not true).frontier = (informed not false).frontier ∧
    9 ∈ (informed not true).trustedOrigins ∧ 9 ∉ (informed not false).trustedOrigins := by
  refine ⟨twoNodes_initial, reaches_informedNodes not, ?_, ?_, ?_, ?_⟩ <;> decide +kernel

end Citadel
