import Neverust.Tree.Proof.Climb

/-!
# Merkle proofs: completeness, soundness and hostile proofs

* `getProof_eq`: the path `get_proof` hands out is the list of the leaf's siblings.
* `getProof_verifies`: every proof a tree hands out is accepted for its leaf and the tree's root.
* `verifyProof_sound`: a proof labelled with the leaf count, an index below it and a path of the
  tree's depth is accepted only for the leaf at that index, with the path the tree hands out.
* `verifyProof_exact_iff`: for an arbitrary proof, when the check neither overflows nor accepts
  something it should not.

The hash assumption is `NoCollision`: no string hashed by the tree collides with another string
hashed by the check. Unlike injectivity of a function to 32 bytes it can be satisfied, and
injectivity implies it.
-/

namespace Tree

open Rust

section
variable (sha256 : Bytes → Bytes)

/-! ## The proofs a tree hands out -/

theorem proofRound_eq {L : List Bytes} {i s : Nat} (hn : L.length + 1 < usizeSize)
    (hs : s < depth L.length) (path : List Bytes) :
    proofRound ((List.range (depth L.length + 1)).map (layer sha256 L))
        (path, i / 2 ^ s, width L.length s) s =
      .ok (path ++ [sibling sha256 L i s], i / 2 ^ (s + 1), width L.length (s + 1)) := by
  have hw := width_le L.length s
  have hadd : width L.length s + 1 < usizeSize := by omega
  have hlayer : (index ((List.range (depth L.length + 1)).map (layer sha256 L)) s :
      Result TreeError _) = .ok (layer sha256 L s) := by
    rw [index_of_lt (by simpa using by omega)]
    simp
  unfold proofRound
  simp only [hlayer, usizeAdd_of_lt hadd, Nat.shiftRight_eq_div_pow, pow_one, ok_bind,
    Nat.div_div_eq_div_mul, ← pow_succ]
  split
  · rename_i hj
    have hj' : i / 2 ^ s ^^^ 1 < (layer sha256 L s).length := by rwa [length_layer]
    rw [index_of_lt hj', sibling, List.getD_eq_getElem _ _ hj']
    rfl
  · rename_i hj
    rw [sibling, List.getD_eq_default _ _ (by rw [length_layer]; omega)]
    rfl

theorem proofRounds_eq {L : List Bytes} {i : Nat} (hn : L.length + 1 < usizeSize) : ∀ s ≤ depth L.length,
    (List.range s).foldlM (proofRound ((List.range (depth L.length + 1)).map (layer sha256 L)))
        ([], i, L.length) =
      .ok ((List.range s).map (sibling sha256 L i), i / 2 ^ s, width L.length s)
  | 0, _ => by simp [width]
  | s + 1, hs => by
    rw [List.range_succ (n := s), List.foldlM_append, proofRounds_eq hn s (by omega)]
    simp only [ok_bind, List.foldlM_cons, List.foldlM_nil, List.map_append, List.map_cons,
      List.map_nil]
    rw [proofRound_eq sha256 hn (by omega)]
    rfl

/-- The proof of leaf `i` among `L`. -/
def honestProof (L : List Bytes) (i : Nat) : ArchivistProof :=
  { index := i, nleaves := L.length, path := (List.range (depth L.length)).map (sibling sha256 L i) }

theorem getProof_eq {cids : List Cid} {t : ArchivistTree}
    (ht : ArchivistTree.new sha256 cids = .ok t) {i : Nat} (hi : i < cids.length)
    (hn : cids.length + 1 < usizeSize) :
    t.getProof i = .ok (honestProof sha256 (digests cids) i) := by
  obtain ⟨-, -, hlay⟩ := new_ok sha256 ht
  have hl : (digests cids).length = cids.length := by simp [digests]
  rw [← hl] at hlay hi hn
  have hhead : t.layers.head? = some (digests cids) := by
    rw [hlay, List.range_succ_eq_map]
    rfl
  unfold ArchivistTree.getProof
  rw [hhead]
  simp only [hlay, List.length_map, List.length_range]
  rw [if_neg (by omega), usizeSub_of_le (by omega)]
  simp only [ok_bind, Nat.add_sub_cancel, proofRounds_eq sha256 hn _ le_rfl]
  rfl

theorem rootCid_eq (h32 : ∀ x, (sha256 x).length = 32) {cids : List Cid} {t : ArchivistTree}
    (ht : ArchivistTree.new sha256 cids = .ok t) :
    t.rootCid = .ok (Cid.newV1 0xcd03 { code := 0x12, digest := root sha256 (digests cids) }) := by
  obtain ⟨hne, -, hlay⟩ := new_ok sha256 ht
  have hd : digests cids ≠ [] := by simpa [digests] using hne
  have hl : (digests cids).length = cids.length := by simp [digests]
  have hroot : (root sha256 (digests cids)).length = 32 := by
    have hw : 0 < width (digests cids).length (depth (digests cids).length) := by
      rw [width_depth (List.length_pos_iff.2 hd)]; exact Nat.one_pos
    obtain ⟨e, he⟩ : ∃ e, depth (digests cids).length = e + 1 :=
      ⟨_, (Nat.sub_add_cancel (depth_pos _)).symm⟩
    rw [he] at hw
    rw [root, he, getD_layer_succ sha256 [] hw]
    exact h32 _
  have hlast : t.layers.getLast? = some [root sha256 (digests cids)] := by
    rw [hlay, ← hl, List.range_succ, List.map_append, List.map_cons, List.map_nil,
      List.getLast?_append, layer_depth sha256 hd]
    rfl
  unfold ArchivistTree.rootCid
  rw [hlast]
  simp [Multihash.wrap, hroot, multihashSize]

theorem rootCid_digest (h32 : ∀ x, (sha256 x).length = 32) {cids : List Cid} {t : ArchivistTree}
    (ht : ArchivistTree.new sha256 cids = .ok t) {r : Cid} (hr : t.rootCid = .ok r) :
    r.hash.digest = root sha256 (digests cids) := by
  rw [rootCid_eq sha256 h32 ht] at hr
  cases hr
  rfl

/-! ## Completeness -/

theorem getD_honestPath {L : List Bytes} {i t : Nat} (ht : t < depth L.length) :
    (honestProof sha256 L i).path.getD t [] = sibling sha256 L i t := by
  simp [honestProof, List.getD_eq_getElem?_getD, ht]

theorem spells_honest (L : List Bytes) (i : Nat) :
    Spells sha256 L (honestProof sha256 L i) (L.getD i []) i (depth L.length) where
  turn := fun _ _ => rfl
  key := fun _ _ _ => Iff.rfl
  first := by rw [getD_honestPath sha256 (depth_pos _)]; split <;> rfl
  rest := fun _ ht _ => getD_honestPath sha256 ht

theorem roundsOk_honest {L : List Bytes} (hn : L.length + 1 < usizeSize) {i : Nat}
    (hi : i < L.length) : RoundsOk (honestProof sha256 L i) :=
  (roundsOk_iff _).2 (.inr ⟨hn, fun h0 => absurd hi (by simp only [honestProof] at h0; omega)⟩)

/-- The honest proof of a leaf is accepted. -/
theorem honestProof_accepted {L : List Bytes} (hn : L.length + 1 < usizeSize) {i : Nat}
    (hi : i < L.length) :
    verifyProof sha256 (honestProof sha256 L i) (L.getD i []) (root sha256 L) = .ok true := by
  rw [verifyProof_ok sha256 (roundsOk_honest sha256 hn hi),
    climb_root_of_spells sha256 hi (by simp [honestProof]) (spells_honest sha256 L i)]
  simp

/-- The longest list the source can hold (`isize::MAX`). -/
def vecMax : Nat := 2 ^ 63 - 1

/-- **Completeness**: a tree over a nonempty list of CIDs exists, has a root CID and hands out, for
every leaf, a proof that is accepted for that leaf's digest and the root's. -/
theorem getProof_verifies (h32 : ∀ x, (sha256 x).length = 32) {cids : List Cid} (hne : cids ≠ [])
    (hlen : cids.length ≤ vecMax) :
    ∃ t r, ArchivistTree.new sha256 cids = .ok t ∧ t.rootCid = .ok r ∧
      ∀ (i : Nat) (cid : Cid), cids[i]? = some cid → ∃ p, t.getProof i = .ok p ∧
        verifyProof sha256 p cid.hash.digest r.hash.digest = .ok true := by
  obtain ⟨t, ht⟩ := new_total sha256 hne
  refine ⟨t, _, ht, rootCid_eq sha256 h32 ht, fun i cid hcid => ?_⟩
  have hi : i < cids.length := (List.getElem?_eq_some_iff.1 hcid).1
  have hl : (digests cids).length = cids.length := by simp [digests]
  have hn : cids.length + 1 < usizeSize := by unfold vecMax at hlen; unfold usizeSize; omega
  have hleaf : (digests cids).getD i [] = cid.hash.digest := by
    simp [digests, List.getD_eq_getElem?_getD, hcid]
  rw [← hleaf]
  exact ⟨_, getProof_eq sha256 ht hi hn, honestProof_accepted sha256 (by rwa [hl]) (by rwa [hl])⟩

end

/-- A 32-byte function to run the tree with: the first 32 bytes of its input. -/
def firstBytes (x : Bytes) : Bytes := (x ++ zeroHash).take 32

theorem length_firstBytes (x : Bytes) : (firstBytes x).length = 32 := by
  simp [firstBytes, zeroHash]

/-- Three CIDs with 32-byte digests. -/
def sampleCids : List Cid :=
  [1, 2, 3].map fun b => Cid.newV1 0xcd02 { code := 0x12, digest := List.replicate 32 b }

theorem getProof_verifies_sample :
    ∃ t r, ArchivistTree.new firstBytes sampleCids = .ok t ∧ t.rootCid = .ok r ∧
      ∀ (i : Nat) (cid : Cid), sampleCids[i]? = some cid → ∃ p, t.getProof i = .ok p ∧
        verifyProof firstBytes p cid.hash.digest r.hash.digest = .ok true :=
  getProof_verifies firstBytes length_firstBytes (by decide) (by decide)

/-! ## Soundness -/

section
variable (sha256 : Bytes → Bytes)

theorem verifyProof_true {p : ArchivistProof} {leaf r : Bytes}
    (h : verifyProof sha256 p leaf r = .ok true) :
    RoundsOk p ∧ climb sha256 p leaf p.path.length = r := by
  by_cases hok : RoundsOk p
  · rw [verifyProof_ok sha256 hok] at h
    exact ⟨hok, by simpa using h⟩
  · rw [verifyProof_panic sha256 hok] at h
    cases h

theorem Spells.index_eq {L : List Bytes} {p : ArchivistProof} {leaf : Bytes} {i : Nat}
    (hi : i < L.length) (hidx : p.index < L.length)
    (h : Spells sha256 L p leaf i (depth L.length)) : p.index = i := by
  have hle := le_two_pow_depth L.length
  exact eq_of_turns (by omega) (by omega) h.turn

theorem getD_mem_length {L : List Bytes} (hL : ∀ d ∈ L, d.length = 32) {i : Nat}
    (hi : i < L.length) : (L.getD i []).length = 32 := by
  rw [List.getD_eq_getElem _ _ hi]
  exact hL _ (List.getElem_mem hi)

/-- A 32-byte leaf that spells a path is the leaf of that path. -/
theorem Spells.leaf_eq {L : List Bytes} (hL : ∀ d ∈ L, d.length = 32) {p : ArchivistProof}
    {leaf : Bytes} (hleaf : leaf.length = 32) {i d : Nat} (hi : i < L.length)
    (h : Spells sha256 L p leaf i d) :
    leaf = L.getD i [] ∧ p.path.getD 0 [] = sibling sha256 L i 0 := by
  have hlen := getD_mem_length hL hi
  have hfirst := h.first
  split at hfirst
  · exact (List.append_inj' hfirst (by omega)).symm
  · exact List.append_inj hfirst (by omega)

theorem Spells.path_eq {L : List Bytes} {p : ArchivistProof} {leaf : Bytes} {i : Nat}
    (h : Spells sha256 L p leaf i (depth L.length)) (hlen : p.path.length = depth L.length)
    (h0 : p.path.getD 0 [] = sibling sha256 L i 0) : p.path = (honestProof sha256 L i).path := by
  refine List.ext_getElem (by simp [honestProof, hlen]) fun t ht ht' => ?_
  have ht2 : t < depth L.length := by omega
  rw [← List.getD_eq_getElem _ [] ht, ← List.getD_eq_getElem _ [] ht', getD_honestPath sha256 ht2]
  rcases Nat.eq_zero_or_pos t with rfl | hpos
  · exact h0
  · exact h.rest t ht2 hpos

/-- **Soundness**: a proof with the tree's leaf count, an index below it, a path of the tree's
depth and a 32-byte leaf is accepted for the tree's root only if the leaf is the tree's at that
index and the path is the one the tree hands out. -/
theorem verifyProof_sound (h32 : ∀ x, (sha256 x).length = 32) {cids : List Cid}
    {t : ArchivistTree} (ht : ArchivistTree.new sha256 cids = .ok t) {r : Cid}
    (hr : t.rootCid = .ok r) (hL : ∀ cid ∈ cids, cid.hash.digest.length = 32)
    {p : ArchivistProof} {leaf : Bytes}
    (hnc : NoCollision sha256 (treeInputs sha256 (digests cids)) (proofInputs sha256 p leaf))
    (hidx : p.index < cids.length) (hn : p.nleaves = cids.length)
    (hdepth : p.path.length = t.depth) (hleaf : leaf.length = 32)
    (hv : verifyProof sha256 p leaf r.hash.digest = .ok true) :
    (∃ cid, cids[p.index]? = some cid ∧ leaf = cid.hash.digest) ∧
      ∃ q, t.getProof p.index = .ok q ∧ p.path = q.path := by
  obtain ⟨hne, -, hlay⟩ := new_ok sha256 ht
  have hl : (digests cids).length = cids.length := by simp [digests]
  have hd : digests cids ≠ [] := by simpa [digests] using hne
  have hL' : ∀ d ∈ digests cids, d.length = 32 := by simpa [digests] using hL
  have hdep : t.depth = depth (digests cids).length := by simp [ArchivistTree.depth, hlay, hl]
  obtain ⟨hok, hclimb⟩ := verifyProof_true sha256 hv
  rw [rootCid_digest sha256 h32 ht hr] at hclimb
  have hpos : p.path ≠ [] := by
    intro h0
    have := depth_pos (digests cids).length
    rw [h0, hdep] at hdepth
    simp at hdepth
    omega
  have hsize : cids.length + 1 < usizeSize := by
    rcases (roundsOk_iff p).1 hok with h0 | ⟨h1, -⟩
    · exact absurd h0 hpos
    · rwa [hn] at h1
  rcases spells_of_root h32 hd hL' hnc hclimb with ⟨h0, -⟩ | ⟨hlen, i, hi, hsp⟩
  · exact absurd h0 hpos
  · obtain rfl := hsp.index_eq sha256 hi (by rwa [hl])
    obtain ⟨hleafEq, hfirst⟩ := hsp.leaf_eq sha256 hL' hleaf hi
    refine ⟨⟨cids[p.index], List.getElem?_eq_getElem hidx, ?_⟩, _,
      getProof_eq sha256 ht hidx hsize, hsp.path_eq sha256 hlen hfirst⟩
    rw [hleafEq, List.getD_eq_getElem _ _ hi]
    simp [digests]

end

/-- A 32-byte function that keeps apart the few strings of a small tree: the key byte and the first
byte of each child. -/
def sampleHash (x : Bytes) : Bytes := [x.getD 64 0, x.getD 0 0, x.getD 32 0] ++ List.replicate 29 0

theorem length_sampleHash (x : Bytes) : (sampleHash x).length = 32 := by simp [sampleHash]

theorem noCollision_sample :
    NoCollision sampleHash (treeInputs sampleHash (digests sampleCids))
      (proofInputs sampleHash (honestProof sampleHash (digests sampleCids) 2)
        (List.replicate 32 3)) := by
  decide

theorem verifyProof_sound_sample : ∃ t r, ArchivistTree.new sampleHash sampleCids = .ok t ∧
    t.rootCid = .ok r ∧ (∃ cid, sampleCids[2]? = some cid ∧ List.replicate 32 3 = cid.hash.digest) ∧
    ∃ q, t.getProof 2 = .ok q ∧ (honestProof sampleHash (digests sampleCids) 2).path = q.path := by
  obtain ⟨t, ht⟩ := new_total sampleHash (show sampleCids ≠ [] by decide)
  have hr := rootCid_eq sampleHash length_sampleHash ht
  have hv := honestProof_accepted sampleHash (L := digests sampleCids) (i := 2) (by decide)
    (by decide)
  obtain ⟨-, -, hlay⟩ := new_ok sampleHash ht
  exact ⟨t, _, ht, hr, verifyProof_sound sampleHash length_sampleHash ht hr (by decide)
    noCollision_sample (by decide) (by decide) (by rw [ArchivistTree.depth, hlay]; decide)
    (by decide) hv⟩

/-! ## Hostile proofs -/

section
variable (sha256 : Bytes → Bytes)

/-- The check of `p` for `leaf` and the root of `L` ends without a panic, and if it accepts then
`p` is labelled with the leaf count and an index below it, its path has the tree's depth and `leaf`
is the leaf at that index. -/
def Exact (L : List Bytes) (p : ArchivistProof) (leaf : Bytes) : Prop :=
  (∃ b, verifyProof sha256 p leaf (root sha256 L) = .ok b) ∧
    (verifyProof sha256 p leaf (root sha256 L) = .ok true →
      p.nleaves = L.length ∧ p.index < L.length ∧ p.path.length = depth L.length ∧
        L[p.index]? = some leaf)

/-- The arithmetic of the check stays in `usize`: there is no round, or `nleaves + 1` is a `usize`
and, when `nleaves` is `0`, every position the rounds pass is odd. -/
def FitsUsize (p : ArchivistProof) : Prop :=
  p.path = [] ∨ (p.nleaves + 1 < usizeSize ∧
    (p.nleaves = 0 → ∀ t < p.path.length, p.index / 2 ^ t % 2 = 1))

/-- If the proof spells the path of a leaf `i` of `L`, it is labelled as that leaf's proof. -/
def WellLabelled (L : List Bytes) (p : ArchivistProof) (leaf : Bytes) : Prop :=
  ∀ i < L.length, p.path.length = depth L.length →
    Spells sha256 L p leaf i (depth L.length) →
      p.nleaves = L.length ∧ p.index = i ∧ leaf = L.getD i []

/-- **When the check is exact**: its arithmetic stays in `usize`, the proof is not an empty path
with the root as its leaf, and a path of the tree is labelled as such. Every other proof panics or
is accepted although it is not the proof of a leaf. -/
theorem verifyProof_exact_iff (h32 : ∀ x, (sha256 x).length = 32) {L : List Bytes} (hne : L ≠ [])
    (hL : ∀ d ∈ L, d.length = 32) (p : ArchivistProof) (leaf : Bytes)
    (hnc : NoCollision sha256 (treeInputs sha256 L) (proofInputs sha256 p leaf)) :
    Exact sha256 L p leaf ↔
      FitsUsize p ∧ ¬ (p.path = [] ∧ leaf = root sha256 L) ∧ WellLabelled sha256 L p leaf := by
  constructor
  · rintro ⟨⟨b, hb⟩, hex⟩
    have hok : RoundsOk p := by
      by_contra hbad
      rw [verifyProof_panic sha256 hbad] at hb
      cases hb
    rw [verifyProof_ok sha256 hok] at hex
    refine ⟨(roundsOk_iff p).1 hok, ?_, ?_⟩
    · rintro ⟨h0, rfl⟩
      have hlen := (hex (by simp [h0, climb])).2.2.1
      have := depth_pos L.length
      rw [h0] at hlen
      simp at hlen
      omega
    · intro i hi hlen hsp
      obtain ⟨hn, hidx, -, hleaf⟩ := hex (by rw [climb_root_of_spells sha256 hi hlen hsp]; simp)
      obtain rfl := hsp.index_eq sha256 hi hidx
      exact ⟨hn, rfl, by simp [List.getD_eq_getElem?_getD, hleaf]⟩
  · rintro ⟨hfit, hroot, hlab⟩
    have hok : RoundsOk p := (roundsOk_iff p).2 hfit
    refine ⟨⟨_, verifyProof_ok sha256 hok leaf _⟩, fun hv => ?_⟩
    obtain ⟨-, hclimb⟩ := verifyProof_true sha256 hv
    rcases spells_of_root h32 hne hL hnc hclimb with h0 | ⟨hlen, i, hi, hsp⟩
    · exact absurd h0 hroot
    · obtain ⟨hn, rfl, hleaf⟩ := hlab i hi hlen hsp
      refine ⟨hn, hi, hlen, ?_⟩
      rw [hleaf, List.getD_eq_getElem _ _ hi, List.getElem?_eq_getElem hi]

end

/-- The three kinds of proofs that are not exact, whatever the hash: a leaf count of zero panics;
the root is accepted as a leaf with an empty path; over two leaves the first leaf's proof is
accepted under index 2 of 100. -/
theorem verifyProof_hostile :
    (∀ (sha256 : Bytes → Bytes) (leaf r : Bytes),
      verifyProof sha256 { index := 0, nleaves := 0, path := [zeroHash] } leaf r =
        .error (.panic .overflow)) ∧
    (∀ (sha256 : Bytes → Bytes) (L : List Bytes),
      verifyProof sha256 { index := 0, nleaves := 0, path := [] } (root sha256 L)
        (root sha256 L) = .ok true) ∧
    (∀ (sha256 : Bytes → Bytes) (a b : Bytes),
      verifyProof sha256 { index := 2, nleaves := 100, path := [b] } a (root sha256 [a, b]) =
        .ok true) := by
  refine ⟨fun sha256 leaf r => ?_, fun sha256 L => ?_, fun sha256 a b => ?_⟩
  · refine verifyProof_panic sha256 (fun h => ?_) leaf r
    have := (h 0 (by decide)).1 (by decide)
    exact absurd this (by decide)
  · rw [verifyProof_ok sha256 (fun t ht => absurd ht (Nat.not_lt_zero _))]
    simp [climb]
  · rw [verifyProof_ok sha256 ((roundsOk_iff _).2 (.inr ⟨by simp [usizeSize], by simp⟩))]
    have hd : depth 2 = 1 := by decide
    simp [climb, root, hd, layer, nextLayer, nodeInput, roundInput, width]

theorem verifyProof_exact_iff_sample :
    Exact sampleHash (digests sampleCids) (honestProof sampleHash (digests sampleCids) 2)
        (List.replicate 32 3) ∧
      FitsUsize (honestProof sampleHash (digests sampleCids) 2) ∧
      ¬ ((honestProof sampleHash (digests sampleCids) 2).path = [] ∧
        List.replicate 32 3 = root sampleHash (digests sampleCids)) ∧
      WellLabelled sampleHash (digests sampleCids) (honestProof sampleHash (digests sampleCids) 2)
        (List.replicate 32 3) := by
  have hexact : Exact sampleHash (digests sampleCids) (honestProof sampleHash (digests sampleCids) 2)
      (List.replicate 32 3) :=
    ⟨⟨true, honestProof_accepted sampleHash (by decide) (by decide)⟩, fun _ => by decide⟩
  exact ⟨hexact, (verifyProof_exact_iff sampleHash length_sampleHash (by decide) (by decide) _ _
    noCollision_sample).1 hexact⟩

end Tree
