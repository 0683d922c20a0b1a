import Neverust.CidForms
import Neverust.Citadel.Run

/-!
# Proof of work

* `leadingZeroBits_iff`: the number of leading zero bits, bit by bit.
* `validPow_mineNonce`, `validPow_mono`: a mined operation has the work it was mined with, and so
  has every operation with more.
* `emitted_ops_pass`: the operations that a node emits pass the check of every node with the same
  configuration, whatever origins it trusts.
-/

namespace Citadel

open Rust

namespace LensOp

/-! ## Leading zeros -/

/-- Bit `i` of a hash, the most significant bit of each byte first. -/
def hashBit (hash : Bytes) (i : Nat) : Bool := (hash.getD (i / 8) 0).toNat.testBit (7 - i % 8)

theorem hashBit_cons_of_lt {b : UInt8} {hash : Bytes} {i : Nat} (h : i < 8) :
    hashBit (b :: hash) i = b.toNat.testBit (7 - i) := by
  rw [hashBit, Nat.div_eq_of_lt h, Nat.mod_eq_of_lt h]
  rfl

theorem hashBit_cons_add (b : UInt8) (hash : Bytes) (i : Nat) :
    hashBit (b :: hash) (i + 8) = hashBit hash i := by
  rw [hashBit, Nat.add_div_right i (by decide), Nat.add_mod_right]
  rfl

theorem leadingZeros_lt (b : UInt8) : leadingZeros b < 8 := by
  unfold leadingZeros
  omega

theorem le_leadingZeros_iff {b : UInt8} (hb : b ≠ 0) {k : Nat} (hk : k ≤ 8) :
    k ≤ leadingZeros b ↔ ∀ i < k, b.toNat.testBit (7 - i) = false := by
  have hne : b.toNat ≠ 0 := fun h => hb (UInt8.toNat_inj.1 h)
  have hlog : b.toNat.log2 < 8 := (Nat.log2_lt hne).2 b.toNat_lt
  unfold leadingZeros
  constructor
  · intro h i hi
    exact Nat.testBit_lt_two_pow ((Nat.log2_lt hne).1 (by omega))
  · intro h
    have hlt : b.toNat < 2 ^ (8 - k) := by
      refine Nat.lt_pow_two_of_testBit _ fun j hj => ?_
      by_cases hj8 : j < 8
      · have hbit := h (7 - j) (by omega)
        rwa [show 7 - (7 - j) = j by omega] at hbit
      · refine Nat.testBit_lt_two_pow (Nat.lt_of_lt_of_le b.toNat_lt ?_)
        exact Nat.pow_le_pow_right (by decide) (Nat.not_lt.1 hj8)
    have := (Nat.log2_lt hne).2 hlt
    omega

/-- **The leading zero bits** of a hash, bit by bit. -/
theorem leadingZeroBits_iff :
    ∀ (hash : Bytes) (k : Nat), k ≤ 8 * hash.length →
      (k ≤ leadingZeroBits hash ↔ ∀ i < k, hashBit hash i = false)
  | [], k, hk => by
    have hk : k = 0 := by simpa using hk
    simp [hk]
  | b :: hash, k, hk => by
    rw [List.length_cons] at hk
    rw [leadingZeroBits]
    by_cases hb : b = 0
    · have hzero : ∀ i < 8, hashBit (b :: hash) i = false := by
        intro i hi
        rw [hashBit_cons_of_lt hi, hb]
        exact Nat.zero_testBit _
      rw [if_pos hb]
      have ih := leadingZeroBits_iff hash (k - 8) (by omega)
      constructor
      · intro h i hi
        by_cases hi8 : i < 8
        · exact hzero i hi8
        · have hbit := ih.1 (by omega) (i - 8) (by omega)
          rwa [← hashBit_cons_add b, Nat.sub_add_cancel (Nat.not_lt.1 hi8)] at hbit
      · intro h
        have hrest := ih.2 fun i hi => by
          rw [← hashBit_cons_add b]
          exact h (i + 8) (by omega)
        omega
    · -- The count stops at a byte that is not zero.
      rw [if_neg hb]
      by_cases hk8 : k ≤ 8
      · rw [le_leadingZeros_iff hb hk8]
        exact forall₂_congr fun i hi => by rw [hashBit_cons_of_lt (by omega)]
      · have hlt := leadingZeros_lt b
        refine iff_of_false (by omega) fun h => ?_
        have hall := (le_leadingZeros_iff hb (Nat.le_refl 8)).2 fun i hi =>
          (hashBit_cons_of_lt hi).symm.trans (h i (by omega))
        omega

/-! ## Mining -/

variable {cr : Crates} {op mined : LensOp}

/-- The nonce is hashed in its own place. -/
theorem hashWithoutNonce_powNonce (cr : Crates) (op : LensOp) (powNonce nonce : UInt64) :
    { op with powNonce }.hashWithoutNonce cr nonce = op.hashWithoutNonce cr nonce := rfl

theorem searchNonce_spec {p : UInt64 → Bool} {k : Nat} {start nonce : UInt64}
    (h : searchNonce p k start = some nonce) : p nonce = true := by
  induction k generalizing start with
  | zero => cases h
  | succ k ih =>
    rw [searchNonce] at h
    split at h
    · rename_i hp
      cases h
      exact hp
    · exact ih h

/-- A mined operation has the work it was mined with. -/
theorem validPow_mineNonce {bits : UInt8} (h : op.mineNonce cr bits = some mined) :
    mined.validPow cr bits = true := by
  unfold mineNonce at h
  unfold validPow
  split at h
  · rename_i hz
    rw [if_pos hz]
  · rename_i hz
    obtain ⟨nonce, hs, rfl⟩ := Option.map_eq_some_iff.1 h
    rw [if_neg hz, hashWithoutNonce_powNonce]
    exact searchNonce_spec hs

theorem validPow_mono {low high : UInt8} (hle : low ≤ high) (h : op.validPow cr high = true) :
    op.validPow cr low = true := by
  unfold validPow at h ⊢
  have hle : low.toNat ≤ high.toNat := hle
  split
  · rfl
  · rename_i hlow
    have hhigh : high ≠ 0 := by
      rintro rfl
      exact hlow (UInt8.toNat_inj.1 (Nat.le_zero.1 hle))
    rw [if_neg hhigh] at h
    have h := of_decide_eq_true h
    exact decide_eq_true (Nat.le_trans hle h)

end LensOp

/-! ## Emitted operations -/

namespace DefederationNode

/-- The operation that `next_local_op` mines. -/
def unmined (n : DefederationNode) (kind : LensOpKind) : LensOp where
  origin := n.nodeId
  counter := saturatingAdd64 n.localCounter 1
  hostId := n.hostId
  kind
  powNonce := 0

theorem mineNonce_of_emitLocal {cr : Crates} {n n' : DefederationNode} {kind : LensOpKind}
    {op : LensOp} (h : n.emitLocal cr kind = some (n', op)) :
    (n.unmined kind).mineNonce cr n.guardCfg.basePowBits = some op := by
  unfold emitLocal nextLocalOp at h
  obtain ⟨⟨n₁, op₁⟩, h₁, h₂⟩ := Option.map_eq_some_iff.1 h
  obtain ⟨op₂, hmine, h₃⟩ := Option.map_eq_some_iff.1 h₁
  cases h₃
  cases h₂
  exact hmine

theorem requiredPowBitsFor_le {m : DefederationNode}
    (h : m.guardCfg.trustedPowBits ≤ m.guardCfg.basePowBits) (origin : NodeId) :
    m.requiredPowBitsFor origin ≤ m.guardCfg.basePowBits := by
  unfold requiredPowBitsFor
  split
  · exact h
  · exact UInt8.le_refl _

theorem checkGuards_ne_pow {cr : Crates} {m : DefederationNode} {op : LensOp}
    (h : op.validPow cr (m.requiredPowBitsFor op.origin) = true) :
    m.checkGuards cr op ≠ some .pow := by
  unfold checkGuards
  split
  · simp
  · split
    · simp
    · simp [h]

end DefederationNode

/-- **Emitted operations pass every peer's check**: the leading zero bits of a hash are counted as
they are read, and with a configuration that all nodes share and that asks no more work of trusted
origins than of others, an emitted operation has the work that any node asks for. What is hashed
while it is mined is what is hashed when it is checked. -/
theorem emitted_ops_pass (cr : Crates) :
    (∀ (hash : Bytes) (k : Nat), hash.length = 32 → k ≤ 256 →
      (k ≤ LensOp.leadingZeroBits hash ↔ ∀ i < k, LensOp.hashBit hash i = false)) ∧
    ∀ (n n' m : DefederationNode) (e : Emit) (op : LensOp), m.guardCfg = n.guardCfg →
      n.guardCfg.trustedPowBits ≤ n.guardCfg.basePowBits → n.emit cr e = some (n', op) →
      op.validPow cr (m.requiredPowBitsFor op.origin) = true ∧ m.checkGuards cr op ≠ some .pow ∧
        (n.unmined (n.kindOf e)).mineNonce cr n.guardCfg.basePowBits = some op ∧
        ∀ nonce, (n.unmined (n.kindOf e)).hashWithoutNonce cr nonce =
          op.hashWithoutNonce cr nonce := by
  refine ⟨fun hash k hlen hk => LensOp.leadingZeroBits_iff hash k (by omega),
    fun n n' m e op hcfg hbits h => ?_⟩
  rw [DefederationNode.emit_eq] at h
  have hmine := DefederationNode.mineNonce_of_emitLocal h
  have hvalid : op.validPow cr (m.requiredPowBitsFor op.origin) = true := by
    refine LensOp.validPow_mono (DefederationNode.requiredPowBitsFor_le ?_ op.origin) ?_
    · rw [hcfg]
      exact hbits
    · rw [hcfg]
      exact LensOp.validPow_mineNonce hmine
  refine ⟨hvalid, DefederationNode.checkGuards_ne_pow hvalid, hmine, fun nonce => ?_⟩
  rw [LensOp.mineNonce_eq cr hmine]
  exact (LensOp.hashWithoutNonce_powNonce cr _ _ nonce).symm

/-- Three bits of work of anybody, two of those who are trusted. -/
def workGuard : DefederationGuardConfig := { basePowBits := 3, trustedPowBits := 2 }

def worker : DefederationNode := .new 1 0 7 ∅ workGuard

/-- A peer that does not trust the worker, and one that does. -/
def workPeers : List DefederationNode :=
  [.new 2 0 8 ∅ workGuard, .new 3 0 9 ((∅ : Std.ExtTreeSet NodeId).insert 1) workGuard]

/-- The work is found under a nonce other than the first, and both peers take the operation. -/
theorem emitted_ops_pass_sample :
    (∀ i < 3, LensOp.hashBit (31 :: List.replicate 31 255) i = false) ∧
    (worker.unmined (.content 7 0 true)).validPow .standard 3 = false ∧
    ∃ n' op, worker.emit .standard (.content 0 true) = some (n', op) ∧
      ∀ m ∈ workPeers, op.validPow .standard (m.requiredPowBitsFor op.origin) = true ∧
        m.checkGuards .standard op ≠ some .pow := by
  obtain ⟨hbits, hpass⟩ := emitted_ops_pass .standard
  refine ⟨(hbits _ 3 (by decide) (by decide)).1 (by decide), by decide +kernel, ?_⟩
  have hemit : (worker.emit .standard (.content 0 true)).isSome = true := by decide +kernel
  obtain ⟨⟨n', op⟩, hop⟩ := Option.isSome_iff_exists.1 hemit
  refine ⟨n', op, hop, fun m hm => ?_⟩
  have hcfg : m.guardCfg = workGuard := by
    simp only [workPeers, List.mem_cons, List.not_mem_nil, or_false] at hm
    rcases hm with rfl | rfl <;> rfl
  obtain ⟨hvalid, hguards, -⟩ := hpass worker n' m _ op hcfg (by decide) hop
  exact ⟨hvalid, hguards⟩

end Citadel
