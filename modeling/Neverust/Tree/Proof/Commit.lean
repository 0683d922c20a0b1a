import Neverust.Tree.Proof.Verify

/-!
# The root commits to the leaves

`rootLayer_inj`: two nonempty lists of 32-byte digests with the same root are equal. The leaf count
is not hashed; the key byte alone separates the shapes. Going down from equal layers, the key of
the first node tells whether the layers below are the leaves, the key of the last node whether
they have an odd number of nodes (`nextLayer_inj`), so both trees have the same layers all the way.
-/

namespace Tree

open Rust

section
variable (sha256 : Bytes → Bytes)

/-- The last layer `build_layers` returns. -/
def rootLayer (leaves : List Bytes) : Result TreeError (Option (List Bytes)) := do
  let layers ← buildLayers sha256 leaves
  pure layers.getLast?

theorem rootLayer_eq {L : List Bytes} (hL : L ≠ []) :
    rootLayer sha256 L = .ok (some (layer sha256 L (depth L.length))) := by
  simp [rootLayer, buildLayers_eq sha256 hL, List.range_succ]

variable {sha256}

/-- Equal hashed strings over 32-byte nodes: the same kind of layer, the same last-node test and
the same children. -/
theorem nodeInput_inj {A B : List Bytes} (hA : ∀ d ∈ A, d.length = 32)
    (hB : ∀ d ∈ B, d.length = 32) {b b' : Bool} {j : Nat} (hjA : 2 * j < A.length)
    (hjB : 2 * j < B.length) (h : nodeInput A b j = nodeInput B b' j) :
    b = b' ∧ (A.length ≤ 2 * j + 1 ↔ B.length ≤ 2 * j + 1) ∧
      A.getD (2 * j) zeroHash = B.getD (2 * j) zeroHash ∧
      A.getD (2 * j + 1) zeroHash = B.getD (2 * j + 1) zeroHash := by
  unfold nodeInput at h
  obtain ⟨hcat, hkey⟩ := append_key_inj h
  obtain ⟨hb, hs⟩ := nodeKey_toByte_inj hkey
  obtain ⟨hl, hr⟩ := List.append_inj hcat (by
    rw [getD_mem_length hA hjA, getD_mem_length hB hjB])
  rw [List.getD_eq_getElem _ _ hjA, List.getD_eq_getElem _ _ hjB] at hl ⊢
  exact ⟨hb, decide_eq_decide.1 hs, hl, hr⟩

/-- **Equal layers have equal layers below**, of the same kind. -/
theorem nextLayer_inj {A B : List Bytes} (hA : ∀ d ∈ A, d.length = 32)
    (hB : ∀ d ∈ B, d.length = 32) {b b' : Bool} (hne : A ≠ [])
    (hnc : ∀ i < (A.length + 1) / 2, ∀ j < (B.length + 1) / 2,
      sha256 (nodeInput A b i) = sha256 (nodeInput B b' j) → nodeInput A b i = nodeInput B b' j)
    (h : nextLayer sha256 A b = nextLayer sha256 B b') : b = b' ∧ A = B := by
  have hpos : 0 < A.length := List.length_pos_iff.2 hne
  have hlen : (A.length + 1) / 2 = (B.length + 1) / 2 := by
    simpa [nextLayer] using congrArg List.length h
  have hnode : ∀ j < (A.length + 1) / 2, nodeInput A b j = nodeInput B b' j := by
    unfold nextLayer at h
    rw [← hlen, List.map_inj_left] at h
    exact fun j hj => hnc j hj j (by omega) (h j (List.mem_range.2 hj))
  have hkey := fun j hj => nodeInput_inj hA hB (j := j) (by omega) (by omega) (hnode j hj)
  have heq : A.length = B.length := by
    have := (hkey ((A.length + 1) / 2 - 1) (by omega)).2.1
    omega
  refine ⟨(hkey 0 (by omega)).1, List.ext_getElem heq fun k hk hk' => ?_⟩
  obtain ⟨-, -, hl, hr⟩ := hkey (k / 2) (by omega)
  rw [← List.getD_eq_getElem _ zeroHash hk, ← List.getD_eq_getElem _ zeroHash hk']
  rcases Nat.mod_two_eq_zero_or_one k with h0 | h1
  · rwa [show 2 * (k / 2) = k by omega] at hl
  · rwa [show 2 * (k / 2) + 1 = k by omega] at hr

theorem layer_ne_nil {L : List Bytes} (hL : L ≠ []) (t : Nat) : layer sha256 L t ≠ [] := by
  intro h
  have hn : 0 < L.length := List.length_pos_iff.2 hL
  have := congrArg List.length h
  rw [length_layer, width_eq hn] at this
  simp at this

/-- A layer above the leaves that two trees share makes their leaves equal. The induction goes down
the first tree's layers; the second tree's height is not known beforehand. -/
theorem leaves_eq_of_layer (h32 : ∀ x, (sha256 x).length = 32) {A B : List Bytes} (hA : A ≠ [])
    (hA32 : ∀ d ∈ A, d.length = 32) (hB32 : ∀ d ∈ B, d.length = 32)
    (hnc : NoCollision sha256 (treeInputs sha256 A) (treeInputs sha256 B)) :
    ∀ s t, s < depth A.length → t < depth B.length →
      layer sha256 A (s + 1) = layer sha256 B (t + 1) → A = B
  | s, t, hs, ht, h => by
    have hstep := nextLayer_inj (layer_length_32 sha256 h32 hA32 s)
      (layer_length_32 sha256 h32 hB32 t) (layer_ne_nil hA s)
      (fun i hi j hj => hnc _ (mem_treeInputs sha256 hs (by simpa [width] using hi)) _
        (mem_treeInputs sha256 ht (by simpa [width] using hj))) h
    obtain ⟨hbottom, hlayer⟩ := hstep
    cases s with
    | zero =>
      obtain rfl : t = 0 := by simpa using hbottom.symm
      exact hlayer
    | succ s =>
      obtain ⟨t, rfl⟩ : ∃ u, t = u + 1 := ⟨t - 1, by
        have : t ≠ 0 := by rintro rfl; simp at hbottom
        omega⟩
      exact leaves_eq_of_layer h32 hA hA32 hB32 hnc s t (by omega) (by omega) hlayer

theorem eq_of_rootLayer (h32 : ∀ x, (sha256 x).length = 32) {A B : List Bytes} (hA : A ≠ [])
    (hB : B ≠ []) (hA32 : ∀ d ∈ A, d.length = 32) (hB32 : ∀ d ∈ B, d.length = 32)
    (hnc : NoCollision sha256 (treeInputs sha256 A) (treeInputs sha256 B))
    (h : rootLayer sha256 A = rootLayer sha256 B) : A = B := by
  rw [rootLayer_eq sha256 hA, rootLayer_eq sha256 hB] at h
  have hlayer : layer sha256 A (depth A.length) = layer sha256 B (depth B.length) := by
    simpa using h
  obtain ⟨s, hs⟩ : ∃ s, depth A.length = s + 1 := ⟨_, (Nat.sub_add_cancel (depth_pos _)).symm⟩
  obtain ⟨t, ht⟩ : ∃ t, depth B.length = t + 1 := ⟨_, (Nat.sub_add_cancel (depth_pos _)).symm⟩
  rw [hs, ht] at hlayer
  exact leaves_eq_of_layer h32 hA hA32 hB32 hnc s t (by omega) (by omega) hlayer

/-- Above more than one leaf every layer is narrower than the leaves. -/
theorem width_lt {n t : Nat} (hn : 1 < n) (ht : 0 < t) : width n t < n := by
  rw [width_eq (by omega)]
  have h1 : (n - 1) / 2 ^ t ≤ (n - 1) / 2 ^ 1 :=
    Nat.div_le_div_left (Nat.pow_le_pow_right (by decide) ht) (by decide)
  omega

variable (sha256)

/-- **The root commits to the leaves**: nonempty lists of 32-byte digests with the same root are
equal. So lists of different lengths have different roots, in particular a list and the list padded
with zero digests, and a list and a layer above it in its own tree. -/
theorem rootLayer_inj (h32 : ∀ x, (sha256 x).length = 32) {A B : List Bytes} (hA : A ≠ [])
    (hB : B ≠ []) (hA32 : ∀ d ∈ A, d.length = 32) (hB32 : ∀ d ∈ B, d.length = 32) :
    (NoCollision sha256 (treeInputs sha256 A) (treeInputs sha256 B) →
      (rootLayer sha256 A = rootLayer sha256 B → A = B) ∧
      (A.length ≠ B.length → rootLayer sha256 A ≠ rootLayer sha256 B)) ∧
    (∀ k, 0 < k → NoCollision sha256 (treeInputs sha256 A)
        (treeInputs sha256 (A ++ List.replicate k zeroHash)) →
      rootLayer sha256 A ≠ rootLayer sha256 (A ++ List.replicate k zeroHash)) ∧
    (∀ layers (t : Nat) (above : List Bytes), buildLayers sha256 A = .ok layers →
      1 < A.length → 0 < t → layers[t]? = some above →
      NoCollision sha256 (treeInputs sha256 A) (treeInputs sha256 above) →
      rootLayer sha256 A ≠ rootLayer sha256 above) := by
  refine ⟨fun hnc => ⟨eq_of_rootLayer h32 hA hB hA32 hB32 hnc, fun hlen h => ?_⟩,
    fun k hk hnc h => ?_, fun layers t above hlay h1 h0 habove hnc h => ?_⟩
  · exact hlen (congrArg List.length (eq_of_rootLayer h32 hA hB hA32 hB32 hnc h))
  · have hpad : ∀ d ∈ A ++ List.replicate k zeroHash, d.length = 32 := by
      intro d hd
      rcases List.mem_append.1 hd with hd | hd
      · exact hA32 d hd
      · rw [(List.mem_replicate.1 hd).2]; rfl
    have := congrArg List.length (eq_of_rootLayer h32 hA (by simp [hA]) hA32 hpad hnc h)
    simp at this
    omega
  · rw [buildLayers_eq sha256 hA] at hlay
    cases hlay
    obtain ⟨-, rfl⟩ : t < depth A.length + 1 ∧ layer sha256 A t = above := by
      have := List.getElem?_eq_some_iff.1 habove
      simpa using this
    have := congrArg List.length (eq_of_rootLayer h32 hA (layer_ne_nil hA t) hA32
      (layer_length_32 sha256 h32 hA32 t) hnc h)
    rw [length_layer] at this
    exact absurd this (by have := width_lt h1 h0; omega)

end

theorem rootLayer_inj_sample :
    rootLayer sampleHash (digests sampleCids) ≠
      rootLayer sampleHash ((digests sampleCids).take 2) ∧
    rootLayer sampleHash (digests sampleCids) ≠
      rootLayer sampleHash (digests sampleCids ++ List.replicate 1 zeroHash) ∧
    rootLayer sampleHash (digests sampleCids) ≠
      rootLayer sampleHash (layer sampleHash (digests sampleCids) 1) := by
  obtain ⟨hlen, hpad, habove⟩ := rootLayer_inj sampleHash length_sampleHash
    (show digests sampleCids ≠ [] by decide)
    (show (digests sampleCids).take 2 ≠ [] by decide) (by decide) (by decide)
  exact ⟨(hlen (by decide)).2 (by decide), hpad 1 Nat.one_pos (by decide),
    habove _ 1 _ (buildLayers_eq sampleHash (by decide)) (by decide) Nat.one_pos rfl (by decide)⟩

end Tree
