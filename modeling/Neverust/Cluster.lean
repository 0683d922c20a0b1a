import Mathlib.Data.Prod.Lex
import Mathlib.Data.String.Basic
import Neverust.Lib.Bytes
import Neverust.Lib.Ranking

/-!
# Placement of replicas (`cluster.rs`)

`select_replicas` gives each node a score for a CID and takes the nodes with the highest ones, ties
broken by id. `hash` stands for BLAKE3.

* `selectReplicas_eq_top`: the selection is the start of a ranking of the nodes.
* `selectReplicas_minimal`: the selection does not depend on the order of the nodes, and a change of
  the membership changes it as little as possible.
-/

namespace Cluster

open Bytes Ranking

structure ClusterNode where
  id : String
  baseUrl : String
  weight : UInt32
  deriving Repr, DecidableEq

section
variable (hash : Bytes → Bytes) (cidStr : String)

/-- `base`: the first sixteen bytes of the digest of a node for the CID, as a number. -/
def hashValue (node : ClusterNode) : Nat :=
  let digest :=
    hash (cidStr.toUTF8.toList ++ node.id.toUTF8.toList ++ node.baseUrl.toUTF8.toList)
  (u64OfLe (slice digest 0 8)).toNat * 2 ^ 64 + (u64OfLe (slice digest 8 8)).toNat

/-- The hash value times the weight; it stays at the largest `u128`. -/
def score (node : ClusterNode) : Nat :=
  min (hashValue hash cidStr node * max node.weight.toNat 1) (2 ^ 128 - 1)

/-- The comparison of the sort: the higher score first, then the smaller id. -/
def cmpScored (a b : Nat × ClusterNode) : Ordering :=
  (compare b.1 a.1).then (compare a.2.id b.2.id)

/-- `select_replicas`. The sort of the source is not stable, which matters only for nodes that
compare as equal; nodes with different ids do not. -/
def selectReplicas (nodes : List ClusterNode) (replicas : Nat) : List ClusterNode :=
  if nodes = [] ∨ replicas = 0 then []
  else
    let scored := nodes.map fun node => (score hash cidStr node, node)
    let sorted := scored.mergeSort fun a b => cmpScored a b ≠ .gt
    (sorted.take (min replicas nodes.length)).map Prod.snd

/-! ## The ranking -/

/-- The rank of a node: a higher score comes first, then a smaller id. -/
def rankKey (node : ClusterNode) : ℕᵒᵈ ×ₗ String :=
  toLex (OrderDual.toDual (score hash cidStr node), node.id)

variable {hash cidStr}

theorem cmpScored_ne_gt {a b : ClusterNode} :
    cmpScored (score hash cidStr a, a) (score hash cidStr b, b) ≠ .gt ↔
      rankKey hash cidStr a ≤ rankKey hash cidStr b := by
  rw [rankKey, rankKey, Prod.Lex.toLex_le_toLex, cmpScored, ne_eq, Ordering.then_eq_gt,
    compare_gt_iff_gt, compare_eq_iff_eq, compare_gt_iff_gt]
  simp only [OrderDual.toDual_lt_toDual, OrderDual.toDual_inj, not_or, not_and, not_lt]
  constructor
  · rintro ⟨hle, hid⟩
    rcases Nat.lt_or_eq_of_le hle with h | h
    · exact .inl h
    · exact .inr ⟨h.symm, hid h⟩
  · rintro (h | ⟨h, hid⟩)
    · exact ⟨Nat.le_of_lt h, fun heq => absurd heq (Nat.ne_of_lt h)⟩
    · exact ⟨Nat.le_of_eq h.symm, fun _ => hid⟩

/-- **The selection is the start of a ranking.** -/
theorem selectReplicas_eq_top (nodes : List ClusterNode) (k : Nat) :
    selectReplicas hash cidStr nodes k = top (rankKey hash cidStr) k nodes := by
  unfold selectReplicas
  split
  · rename_i h
    rw [top]
    rcases h with rfl | rfl
    · rw [rank, List.mergeSort_nil, List.take_nil]
    · rw [List.take_zero]
  · have hsort : (nodes.map fun node => (score hash cidStr node, node)).mergeSort
        (fun a b => cmpScored a b ≠ .gt) =
        (rank (rankKey hash cidStr) nodes).map fun node => (score hash cidStr node, node) := by
      rw [rank, List.map_mergeSort]
      intro a _ b _
      exact decide_eq_decide.2 cmpScored_ne_gt.symm
    dsimp only
    rw [hsort, List.map_take, List.map_map, top]
    have hid : (Prod.snd ∘ fun node : ClusterNode => (score hash cidStr node, node)) = id := rfl
    rw [hid, List.map_id, ← (rank_perm (rankKey hash cidStr) nodes).length_eq,
      ← List.take_eq_take_min]

end

theorem nodup_rankKey {hash : Bytes → Bytes} {cidStr : String} {nodes : List ClusterNode}
    (h : (nodes.map ClusterNode.id).Nodup) : (nodes.map (rankKey hash cidStr)).Nodup := by
  have hmap : nodes.map ClusterNode.id =
      (nodes.map (rankKey hash cidStr)).map fun r => (ofLex r).2 := by
    rw [List.map_map]
    rfl
  rw [hmap] at h
  exact h.of_map _

/-- The selection does not depend on how the nodes are sorted. -/
theorem selectReplicas_of_sorted {hash : Bytes → Bytes} {cidStr : String}
    {nodes : List ClusterNode} (hids : (nodes.map ClusterNode.id).Nodup) (k : Nat)
    {sorted : List (Nat × ClusterNode)}
    (hp : sorted.Perm (nodes.map fun node => (score hash cidStr node, node)))
    (hs : sorted.Pairwise fun a b => cmpScored a b ≠ .gt) :
    (sorted.take k).map Prod.snd = selectReplicas hash cidStr nodes k := by
  have hscored : ∀ p ∈ sorted, p = (score hash cidStr p.2, p.2) := by
    intro p hmem
    obtain ⟨node, -, rfl⟩ := List.mem_map.1 (hp.mem_iff.1 hmem)
    rfl
  have hperm : (sorted.map Prod.snd).Perm nodes := by
    have h := hp.map Prod.snd
    rw [List.map_map] at h
    exact h.trans (by rw [show Prod.snd ∘ (fun node => (score hash cidStr node, node)) = id from rfl,
      List.map_id])
  have hsorted : (sorted.map Prod.snd).Pairwise fun a b =>
      rankKey hash cidStr a ≤ rankKey hash cidStr b := by
    refine List.pairwise_map.2 (hs.imp_of_mem fun {a b} ha hb hab => ?_)
    rw [hscored a ha, hscored b hb] at hab
    exact cmpScored_ne_gt.1 hab
  rw [selectReplicas_eq_top, top, ← eq_rank (nodup_rankKey hids) hperm hsorted, List.map_take]

/-- **Placement is minimally disruptive**: nodes with different ids are selected whatever their
order; a larger selection extends a smaller one; without a node that was not selected the selection
stays; without a selected one the others stay in order, and at most one node comes in; one more
node pushes out at most one. -/
theorem selectReplicas_minimal (hash : Bytes → Bytes) (cidStr : String) (nodes : List ClusterNode)
    (hids : (nodes.map ClusterNode.id).Nodup) (k : Nat) :
    (∀ nodes' : List ClusterNode, nodes'.Perm nodes →
      selectReplicas hash cidStr nodes' k = selectReplicas hash cidStr nodes k) ∧
    ((selectReplicas hash cidStr nodes k).length = min k nodes.length ∧
      (selectReplicas hash cidStr nodes k).Nodup ∧
      ∀ n ∈ selectReplicas hash cidStr nodes k, n ∈ nodes) ∧
    selectReplicas hash cidStr nodes k <+: selectReplicas hash cidStr nodes (k + 1) ∧
    (∀ n, n ∉ selectReplicas hash cidStr nodes k →
      selectReplicas hash cidStr (nodes.erase n) k = selectReplicas hash cidStr nodes k) ∧
    (∀ n ∈ selectReplicas hash cidStr nodes k,
      (selectReplicas hash cidStr nodes k).erase n <+:
        selectReplicas hash cidStr (nodes.erase n) k ∧
      (selectReplicas hash cidStr (nodes.erase n) k).length ≤
        ((selectReplicas hash cidStr nodes k).erase n).length + 1) ∧
    ∀ n, n.id ∉ nodes.map ClusterNode.id →
      ((selectReplicas hash cidStr nodes k).filter
        (· ∉ selectReplicas hash cidStr (n :: nodes) k)).length ≤ 1 := by
  have hkeys := @nodup_rankKey hash cidStr nodes hids
  simp only [selectReplicas_eq_top]
  refine ⟨fun nodes' hp => top_perm hkeys hp,
    ⟨length_top, top_nodup hids.of_map, fun n hn => mem_of_mem_top hn⟩, top_prefix_succ,
    fun n hn => top_erase_of_not_mem hkeys hn,
    fun n hn => ⟨prefix_top_erase hkeys hn, ?_⟩, fun n hn => displaced_le_one ?_⟩
  · have hlen := (nodes.erase_sublist (a := n)).length_le
    rw [List.length_erase_of_mem hn, length_top, length_top]
    omega
  · refine @nodup_rankKey hash cidStr (n :: nodes) ?_
    rw [List.map_cons]
    exact List.nodup_cons.2 ⟨hn, hids⟩

def nodeA : ClusterNode := ⟨"a", "http://a", 1⟩

def nodeB : ClusterNode := ⟨"b", "http://b", 2⟩

def nodeC : ClusterNode := ⟨"c", "http://c", 1⟩

/-- Three nodes. -/
def sampleNodes : List ClusterNode := [nodeA, nodeB, nodeC]

/-- A digest of 32 equal bytes. -/
def sumHash (bytes : Bytes) : Bytes := List.replicate 32 (bytes.foldl (· + ·) 0)

/-- The node of twice the weight comes first. -/
theorem selectReplicas_three :
    selectReplicas sumHash "cid" sampleNodes 2 = [nodeB, nodeC] := by
  have hp : [nodeB, nodeC, nodeA].Perm sampleNodes := by decide
  exact (selectReplicas_of_sorted (by decide) 2
    (hp.map fun node => (score sumHash "cid" node, node)) (by decide +kernel)).symm

/-- Two of three nodes: the list reversed, a place more, each of the nodes gone, and a new one. -/
theorem selectReplicas_minimal_three :
    selectReplicas sumHash "cid" sampleNodes.reverse 2 = [nodeB, nodeC] ∧
    [nodeB, nodeC] <+: selectReplicas sumHash "cid" sampleNodes 3 ∧
    selectReplicas sumHash "cid" [nodeB, nodeC] 2 = [nodeB, nodeC] ∧
    [nodeC] <+: selectReplicas sumHash "cid" [nodeA, nodeC] 2 ∧
    [nodeB] <+: selectReplicas sumHash "cid" [nodeA, nodeB] 2 ∧
    ([nodeB, nodeC].filter
      (· ∉ selectReplicas sumHash "cid" (⟨"d", "http://d", 4⟩ :: sampleNodes) 2)).length ≤ 1 := by
  obtain ⟨hperm, -, hmore, hother, hgone, hnew⟩ :=
    selectReplicas_minimal sumHash "cid" sampleNodes (by decide) 2
  rw [selectReplicas_three] at hperm hmore hother hgone hnew
  exact ⟨hperm _ (List.reverse_perm sampleNodes), hmore, hother nodeA (by decide),
    (hgone nodeB (by decide)).1, (hgone nodeC (by decide)).1,
    hnew ⟨"d", "http://d", 4⟩ (by decide)⟩

end Cluster
