import Neverust.Cluster
import Neverust.Lib.Blake3

/-!
# Weighted scores

`select_replicas` multiplies a hash value and a weight in saturating arithmetic. Products from
`2^128 - 1` on have one score, and the ids decide between their nodes; below that the score is the
product. So the selection is the one by exact products if and only if the ids put the saturated
nodes that are selected in the order of their products (`selectReplicas_exact_iff`).
-/

namespace Cluster

open Bytes Ranking

section
variable (hash : Bytes → Bytes) (cidStr : String)

/-- The documented score. -/
def product (node : ClusterNode) : Nat := hashValue hash cidStr node * max node.weight.toNat 1

/-- The documented rank: a greater product comes first, then a smaller id. -/
def exactKey (node : ClusterNode) : ℕᵒᵈ ×ₗ String :=
  toLex (OrderDual.toDual (product hash cidStr node), node.id)

/-- The product does not fit below the largest `u128`. -/
def Saturated (node : ClusterNode) : Prop := 2 ^ 128 - 1 ≤ product hash cidStr node

instance (node : ClusterNode) : Decidable (Saturated hash cidStr node) :=
  inferInstanceAs (Decidable (_ ≤ _))

end

variable {hash : Bytes → Bytes} {cidStr : String} {a b : ClusterNode} {nodes : List ClusterNode}

theorem score_eq (node : ClusterNode) :
    score hash cidStr node = min (product hash cidStr node) (2 ^ 128 - 1) := rfl

theorem rankKey_lt_iff : rankKey hash cidStr a < rankKey hash cidStr b ↔
    score hash cidStr b < score hash cidStr a ∨
      score hash cidStr a = score hash cidStr b ∧ a.id < b.id := by
  rw [rankKey, rankKey, Prod.Lex.toLex_lt_toLex]
  simp

theorem exactKey_le_iff : exactKey hash cidStr a ≤ exactKey hash cidStr b ↔
    product hash cidStr b < product hash cidStr a ∨
      product hash cidStr a = product hash cidStr b ∧ a.id ≤ b.id := by
  rw [exactKey, exactKey, Prod.Lex.toLex_le_toLex]
  simp

theorem nodup_exactKey (h : (nodes.map ClusterNode.id).Nodup) :
    (nodes.map (exactKey hash cidStr)).Nodup := by
  have hmap : nodes.map ClusterNode.id =
      (nodes.map (exactKey hash cidStr)).map fun r => (ofLex r).2 := by
    rw [List.map_map]
    rfl
  rw [hmap] at h
  exact h.of_map _

/-- Two nodes are in the wrong order only if both are saturated. -/
theorem exactKey_le_of_rankKey_lt (hlt : rankKey hash cidStr a < rankKey hash cidStr b) :
    exactKey hash cidStr a ≤ exactKey hash cidStr b ↔
      (Saturated hash cidStr a → Saturated hash cidStr b → a.id < b.id →
        product hash cidStr b ≤ product hash cidStr a) := by
  rw [rankKey_lt_iff, score_eq, score_eq] at hlt
  rw [exactKey_le_iff, Saturated, Saturated]
  have hle : a.id < b.id → a.id ≤ b.id := le_of_lt
  constructor
  · rintro (h | ⟨h, -⟩) _ _ _ <;> omega
  · intro h
    rcases hlt with hlt | ⟨heq, hid⟩
    · exact .inl (by omega)
    · rcases Nat.lt_trichotomy (product hash cidStr b) (product hash cidStr a) with hp | hp | hp
      · exact .inl hp
      · exact .inr ⟨hp.symm, hle hid⟩
      · have := h (by omega) (by omega) hid
        omega

/-- Before a saturated node come the saturated nodes with smaller ids. -/
theorem rankKey_lt_saturated (ha : Saturated hash cidStr a) :
    rankKey hash cidStr b < rankKey hash cidStr a ↔ Saturated hash cidStr b ∧ b.id < a.id := by
  rw [Saturated] at ha ⊢
  rw [rankKey_lt_iff, score_eq, score_eq]
  constructor
  · rintro (h | ⟨h, hid⟩)
    · omega
    · exact ⟨by omega, hid⟩
  · rintro ⟨hb, hid⟩
    exact .inr ⟨by omega, hid⟩

/-- **The selection follows the exact products** if and only if, of two saturated nodes, the one
with the smaller id has a product at least as great, unless `k` or more saturated nodes have still
smaller ids. -/
theorem selectReplicas_exact_iff (hash : Bytes → Bytes) (cidStr : String)
    (nodes : List ClusterNode) (hids : (nodes.map ClusterNode.id).Nodup) (k : Nat) :
    selectReplicas hash cidStr nodes k = top (exactKey hash cidStr) k nodes ↔
      ∀ a ∈ nodes, ∀ b ∈ nodes, Saturated hash cidStr a → Saturated hash cidStr b → a.id < b.id →
        nodes.countP (fun c => decide (Saturated hash cidStr c ∧ c.id < a.id)) < k →
        product hash cidStr b ≤ product hash cidStr a := by
  have hkeys := @nodup_rankKey hash cidStr nodes hids
  have hfirst : ∀ {a}, a ∈ nodes → Saturated hash cidStr a →
      (a ∈ top (rankKey hash cidStr) k nodes ↔
        nodes.countP (fun c => decide (Saturated hash cidStr c ∧ c.id < a.id)) < k) := by
    intro a ha hsat
    rw [mem_top_iff hkeys ha]
    simp only [rankKey_lt_saturated hsat]
  rw [selectReplicas_eq_top, top_eq_top_iff hkeys (nodup_exactKey hids)]
  constructor
  · intro h a ha b hb hsa hsb hid hk
    have hlt : rankKey hash cidStr a < rankKey hash cidStr b :=
      (rankKey_lt_saturated hsb).2 ⟨hsa, hid⟩
    exact (exactKey_le_of_rankKey_lt hlt).1 (h a ((hfirst ha hsa).2 hk) b hb hlt) hsa hsb hid
  · intro h a ha b hb hlt
    have hmem := mem_of_mem_top ha
    exact (exactKey_le_of_rankKey_lt hlt).2 fun hsa hsb hid =>
      h a hmem b hb hsa hsb hid ((hfirst hmem hsa).1 ha)

/-- Two nodes with a weight of three. -/
def heavyNodes : List ClusterNode :=
  [⟨"n1", "http://node1:8080", 3⟩, ⟨"n2", "http://node2:8080", 3⟩]

/-- The node with the smaller product is selected. -/
theorem selectReplicas_inexact :
    selectReplicas Blake3.hash "bafybeigdyrztx" heavyNodes 1 ≠
      top (exactKey Blake3.hash "bafybeigdyrztx") 1 heavyNodes := by
  have hids : (heavyNodes.map ClusterNode.id).Nodup := by decide
  intro heq
  have hin : (⟨"n1", "http://node1:8080", 3⟩ : ClusterNode) ∈
      selectReplicas Blake3.hash "bafybeigdyrztx" heavyNodes 1 := by
    rw [selectReplicas_eq_top, mem_top_iff (nodup_rankKey hids) (by decide)]
    decide +kernel
  rw [heq, mem_top_iff (nodup_exactKey hids) (by decide)] at hin
  exact absurd hin (by decide +kernel)

theorem selectReplicas_exact_iff_light :
    (sampleNodes.map ClusterNode.id).Nodup ∧
      selectReplicas (fun b => b) "cid" sampleNodes 2 =
        top (exactKey (fun b => b) "cid") 2 sampleNodes := by
  have hids : (sampleNodes.map ClusterNode.id).Nodup := by decide
  refine ⟨hids, (selectReplicas_exact_iff (fun b => b) "cid" sampleNodes hids 2).2 ?_⟩
  decide +kernel

end Cluster
