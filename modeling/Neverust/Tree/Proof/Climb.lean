import Neverust.Tree.Proof.Layers

/-!
# What the proof check accepts

`climb sha256 p leaf t`: the digest after `t` rounds of `reconstruct_root`, each round hashing
`roundInput` of the running digest and the sibling.

* `verifyProof_ok`, `verifyProof_panic`: the check compares `climb` with the root, unless a round
  leaves its type (`RoundOk`), where it panics.
* `Spells L p leaf i d`: the proof's first `d` rounds follow the path of leaf `i` of `L`.
* `climb_root_of_spells`: a proof of the tree's depth that spells a path reaches the root.
* `spells_of_root`: a proof that reaches the root is such a proof, or has no path at all and the
  root as its leaf, when no string the tree hashes collides with one the check hashes
  (`NoCollision`).
-/

namespace Tree

open Rust

/-! ## Rounds -/

/-- The bytes a round hashes. -/
def roundInput (index m : Nat) (bottom : Bool) (current siblingHash : Bytes) : Bytes :=
  if index % 2 = 1 then siblingHash ++ current ++ [(nodeKey bottom false).toByte]
  else current ++ siblingHash ++ [(nodeKey bottom (decide (index + 1 = m))).toByte]

/-- A round from position `index` of a layer of `m` nodes stays in `usize`: `m - 1` (computed at an
even position) and `m + 1`. -/
def RoundOk (index m : Nat) : Prop := (index % 2 = 0 → 0 < m) ∧ m + 1 < usizeSize

theorem oddKey_eq (bottom : Bool) :
    TreeKey.ofByte ((nodeKey bottom false).toByte + 2) = nodeKey bottom true := by
  cases bottom <;> decide

section
variable (sha256 : Bytes → Bytes)

theorem round_ok {index m : Nat} (bottom : Bool) (current siblingHash : Bytes)
    (h : RoundOk index m) :
    Climb.round sha256 { current, bottomFlag := nodeKey bottom false, index, m } siblingHash =
      .ok { current := sha256 (roundInput index m bottom current siblingHash),
            bottomFlag := nodeKey false false, index := index / 2, m := (m + 1) / 2 } := by
  obtain ⟨hm, hadd⟩ := h
  unfold Climb.round roundInput
  simp only [Nat.and_one_is_mod, Nat.shiftRight_eq_div_pow, pow_one, usizeAdd_of_lt hadd]
  rcases Nat.mod_two_eq_zero_or_one index with h0 | h1
  · have hm := hm h0
    rw [if_neg (by omega), if_neg (by omega), usizeSub_of_le (by omega)]
    simp only [ok_bind]
    by_cases hl : index = m - 1
    · rw [if_pos hl, decide_eq_true (by omega), oddKey_eq]
      rfl
    · rw [if_neg hl, decide_eq_false (by omega)]
      rfl
  · rw [if_pos (by omega), if_pos h1]
    rfl

theorem round_panic {index m : Nat} (bottom : Bool) (current siblingHash : Bytes)
    (h : ¬ RoundOk index m) :
    Climb.round sha256 { current, bottomFlag := nodeKey bottom false, index, m } siblingHash =
      .error (.panic .overflow) := by
  unfold Climb.round
  simp only [Nat.and_one_is_mod]
  by_cases hm : index % 2 = 0 → 0 < m
  · have hadd : ¬ m + 1 < usizeSize := fun ha => h ⟨hm, ha⟩
    have he : (usizeAdd m 1 : Result TreeError Nat) = .error (.panic .overflow) := by
      simp [usizeAdd, hadd]
    rcases Nat.mod_two_eq_zero_or_one index with h0 | h1
    · have hm := hm h0
      rw [if_neg (by omega), usizeSub_of_le (by omega)]
      simp only [ok_bind, he]
      split <;> rfl
    · rw [if_pos (by omega), he]
      rfl
  · have h0 : index % 2 = 0 ∧ m = 0 := by omega
    obtain ⟨h0, rfl⟩ := h0
    rw [if_neg (by omega)]
    rfl

/-- The digest after `t` rounds. -/
def climb (p : ArchivistProof) (leaf : Bytes) : Nat → Bytes
  | 0 => leaf
  | t + 1 => sha256 (roundInput (p.index / 2 ^ t) (width p.nleaves t) (t == 0)
      (climb p leaf t) (p.path.getD t []))

/-- The loop's variables after `t` rounds. -/
def climbState (p : ArchivistProof) (leaf : Bytes) (t : Nat) : Climb :=
  { current := climb sha256 p leaf t, bottomFlag := nodeKey (t == 0) false,
    index := p.index / 2 ^ t, m := width p.nleaves t }

/-- No round of the check leaves its type. -/
def RoundsOk (p : ArchivistProof) : Prop :=
  ∀ t < p.path.length, RoundOk (p.index / 2 ^ t) (width p.nleaves t)

theorem take_succ_eq {p : ArchivistProof} {t : Nat} (h : t < p.path.length) :
    p.path.take (t + 1) = p.path.take t ++ [p.path.getD t []] := by
  rw [List.take_add_one, List.getElem?_eq_getElem h, List.getD_eq_getElem _ _ h]
  rfl

theorem rounds_take {p : ArchivistProof} (leaf : Bytes) : ∀ t ≤ p.path.length,
    (∀ s < t, RoundOk (p.index / 2 ^ s) (width p.nleaves s)) →
    (p.path.take t).foldlM (Climb.round sha256) (climbState sha256 p leaf 0) =
      .ok (climbState sha256 p leaf t)
  | 0, _, _ => rfl
  | t + 1, ht, hok => by
    rw [take_succ_eq (by omega), List.foldlM_append,
      rounds_take leaf t (by omega) fun s hs => hok s (by omega)]
    simp only [ok_bind, List.foldlM_cons, List.foldlM_nil]
    rw [climbState, round_ok _ _ _ _ (hok t (by omega)), Nat.div_div_eq_div_mul, ← pow_succ]
    rfl

theorem climbState_zero (p : ArchivistProof) (leaf : Bytes) :
    climbState sha256 p leaf 0 =
      { current := leaf, bottomFlag := .bottomLayer, index := p.index, m := p.nleaves } := by
  simp [climbState, climb, width, nodeKey]

/-- The check compares the climbed digest with the root. -/
theorem verifyProof_ok {p : ArchivistProof} (h : RoundsOk p) (leaf r : Bytes) :
    verifyProof sha256 p leaf r = .ok (climb sha256 p leaf p.path.length == r) := by
  have := rounds_take sha256 leaf p.path.length le_rfl h
  rw [List.take_length, climbState_zero] at this
  simp only [verifyProof, reconstructRoot, this, ok_bind, pure_eq_ok]
  rfl

/-- The check panics at the first round that leaves its type. -/
theorem verifyProof_panic {p : ArchivistProof} (h : ¬ RoundsOk p) (leaf r : Bytes) :
    verifyProof sha256 p leaf r = .error (.panic .overflow) := by
  classical
  have hex : ∃ t, t < p.path.length ∧ ¬ RoundOk (p.index / 2 ^ t) (width p.nleaves t) := by
    simpa [RoundsOk] using h
  obtain ⟨hlt, hbad⟩ := Nat.find_spec hex
  have hmin : ∀ s < Nat.find hex, RoundOk (p.index / 2 ^ s) (width p.nleaves s) := by
    intro s hs
    have := Nat.find_min hex hs
    simp only [not_and, not_not] at this
    exact this (by omega)
  have hpre := rounds_take sha256 leaf _ (le_of_lt hlt) hmin
  have hsplit : p.path = p.path.take (Nat.find hex) ++
      p.path.getD (Nat.find hex) [] :: p.path.drop (Nat.find hex + 1) := by
    conv_lhs => rw [← List.take_append_drop (Nat.find hex + 1) p.path, take_succ_eq hlt]
    simp
  have hfold : p.path.foldlM (Climb.round sha256) (climbState sha256 p leaf 0) =
      .error (.panic .overflow) := by
    rw [hsplit, List.foldlM_append, hpre]
    simp only [ok_bind, List.foldlM_cons]
    rw [climbState, round_panic _ _ _ _ hbad]
    rfl
  rw [climbState_zero] at hfold
  simp only [verifyProof, reconstructRoot, hfold, error_bind]

end

theorem width_le (n t : Nat) : width n t ≤ n := by
  rcases Nat.eq_zero_or_pos n with rfl | hn
  · rw [width_zero]
  · rw [width_eq hn]
    have := Nat.div_le_self (n - 1) (2 ^ t)
    omega

/-- When the check does not overflow, in terms of what the peer sent. -/
theorem roundsOk_iff (p : ArchivistProof) : RoundsOk p ↔
    p.path = [] ∨ (p.nleaves + 1 < usizeSize ∧
      (p.nleaves = 0 → ∀ t < p.path.length, p.index / 2 ^ t % 2 = 1)) := by
  constructor
  · intro h
    rcases List.eq_nil_or_concat p.path with hp | ⟨_, _, hp⟩
    · exact .inl hp
    · have hlen : 0 < p.path.length := by rw [hp]; simp
      refine .inr ⟨(h 0 hlen).2, fun h0 t ht => ?_⟩
      have := (h t ht).1
      rw [h0, width_zero] at this
      omega
  · rintro (hp | ⟨hadd, hzero⟩) t ht
    · rw [hp] at ht; exact absurd ht (Nat.not_lt_zero _)
    · have hw := width_le p.nleaves t
      refine ⟨fun he => ?_, by omega⟩
      rcases Nat.eq_zero_or_pos p.nleaves with h0 | hn
      · have := hzero h0 t ht; omega
      · rw [width_eq hn]; exact Nat.succ_pos _

/-! ## Genuine paths -/

section
variable (sha256 : Bytes → Bytes)

/-- The sibling, `t` layers up, of the node above leaf `i`. -/
def sibling (L : List Bytes) (i t : Nat) : Bytes :=
  (layer sha256 L t).getD (i / 2 ^ t ^^^ 1) zeroHash

/-- Over its first `d` rounds the proof spells the path of leaf `i` of `L`: it turns as the path
does, at every even position its last-node test comes out as in the tree, the leaf and the first
sibling together are the bytes hashed over leaf `i`, and the other siblings are the tree's. The
proof's own `index` and `nleaves` need not be `i` and the number of leaves. -/
structure Spells (L : List Bytes) (p : ArchivistProof) (leaf : Bytes) (i d : Nat) : Prop where
  turn : ∀ t < d, p.index / 2 ^ t % 2 = i / 2 ^ t % 2
  key : ∀ t < d, i / 2 ^ t % 2 = 0 →
    (p.index / 2 ^ t + 1 = width p.nleaves t ↔ i / 2 ^ t + 1 = width L.length t)
  first : if i % 2 = 1 then
      p.path.getD 0 [] ++ leaf = sibling sha256 L i 0 ++ L.getD i []
    else leaf ++ p.path.getD 0 [] = L.getD i [] ++ sibling sha256 L i 0
  rest : ∀ t < d, 0 < t → p.path.getD t [] = sibling sha256 L i t

theorem xor_one_eq (k : Nat) : k ^^^ 1 = if k % 2 = 1 then k - 1 else k + 1 := by
  have hd : (k ^^^ 1) / 2 = k / 2 := by simpa using Nat.xor_div_two_pow (a := k) (b := 1) (n := 1)
  have hm : (k ^^^ 1) % 2 = k % 2 ^^^ 1 := Nat.xor_mod_two_pow (a := k) (b := 1) (n := 1)
  rcases Nat.mod_two_eq_zero_or_one k with h | h <;> rw [h] at hm ⊢
  · rw [if_neg (by decide)]
    have : (0 ^^^ 1 : Nat) = 1 := rfl
    omega
  · rw [if_pos rfl]
    have : (1 ^^^ 1 : Nat) = 0 := rfl
    omega

/-- The bytes hashed over a node are those of the round from it with its sibling. -/
theorem nodeInput_eq_roundInput {current : List Bytes} (bottom : Bool) {k : Nat}
    (hk : k < current.length) :
    nodeInput current bottom (k / 2) = roundInput k current.length bottom (current.getD k [])
      (current.getD (k ^^^ 1) zeroHash) := by
  unfold nodeInput roundInput
  rw [xor_one_eq]
  rcases Nat.mod_two_eq_zero_or_one k with h0 | h1
  · rw [if_neg (by omega), if_neg (by omega), show 2 * (k / 2) = k by omega,
      show decide (current.length ≤ k + 1) = decide (k + 1 = current.length) from
        decide_eq_decide.2 (by omega)]
  · rw [if_pos h1, if_pos h1, show 2 * (k / 2) = k - 1 by omega, show k - 1 + 1 = k by omega,
      decide_eq_false (by omega), List.getD_eq_getElem _ _ hk, List.getD_eq_getElem _ _ hk,
      List.getD_eq_getElem _ _ (by omega), List.getD_eq_getElem _ _ (by omega)]

theorem nodeInput_layer {L : List Bytes} {i t : Nat} (hi : i < L.length) :
    nodeInput (layer sha256 L t) (t == 0) (i / 2 ^ (t + 1)) =
      roundInput (i / 2 ^ t) (width L.length t) (t == 0) ((layer sha256 L t).getD (i / 2 ^ t) [])
        (sibling sha256 L i t) := by
  have hk : i / 2 ^ t < (layer sha256 L t).length := by
    rw [length_layer]; exact div_lt_width hi t
  rw [pow_succ, ← Nat.div_div_eq_div_mul, nodeInput_eq_roundInput _ hk, length_layer]
  rfl

theorem getD_layer_above {L : List Bytes} {i t : Nat} (hi : i < L.length) :
    (layer sha256 L (t + 1)).getD (i / 2 ^ (t + 1)) [] =
      sha256 (roundInput (i / 2 ^ t) (width L.length t) (t == 0)
        ((layer sha256 L t).getD (i / 2 ^ t) []) (sibling sha256 L i t)) := by
  rw [getD_layer_succ sha256 [] (div_lt_width hi (t + 1)), nodeInput_layer sha256 hi]

/-- **A proof that spells a path climbs it**: after `t` rounds it stands at the tree's node. -/
theorem climb_of_spells {L : List Bytes} {p : ArchivistProof} {leaf : Bytes} {i d : Nat}
    (hi : i < L.length) (h : Spells sha256 L p leaf i d) : ∀ t < d,
      climb sha256 p leaf (t + 1) = (layer sha256 L (t + 1)).getD (i / 2 ^ (t + 1)) []
  | 0, ht => by
    have hturn : p.index % 2 = i % 2 := by simpa using h.turn 0 ht
    have hkey := h.key 0 ht
    have hfirst := h.first
    rw [getD_layer_above sha256 hi]
    simp only [pow_zero, Nat.div_one, width, climb] at hkey hfirst ⊢
    congr 1
    unfold roundInput
    rcases Nat.mod_two_eq_zero_or_one i with h0 | h1
    · rw [if_neg (by omega)] at hfirst ⊢
      rw [if_neg (by omega), hfirst, decide_eq_decide.2 (hkey h0)]
      rfl
    · rw [if_pos h1] at hfirst
      rw [if_pos (by omega), if_pos h1, hfirst]
      rfl
  | t + 1, ht => by
    have ih := climb_of_spells hi h t (by omega)
    have hturn := h.turn (t + 1) ht
    rw [getD_layer_above sha256 hi, climb, ih, h.rest (t + 1) ht (by omega)]
    congr 1
    unfold roundInput
    rcases Nat.mod_two_eq_zero_or_one (i / 2 ^ (t + 1)) with h0 | h1
    · rw [if_neg (by omega), if_neg (by omega), decide_eq_decide.2 (h.key (t + 1) ht h0)]
    · rw [if_pos (by omega), if_pos h1]

theorem depth_pos (n : Nat) : 0 < depth n := lt_of_lt_of_le Nat.one_pos (le_max_left _ _)

theorem climb_root_of_spells {L : List Bytes} {p : ArchivistProof} {leaf : Bytes} {i : Nat}
    (hi : i < L.length) (hlen : p.path.length = depth L.length)
    (h : Spells sha256 L p leaf i (depth L.length)) :
    climb sha256 p leaf p.path.length = root sha256 L := by
  have hd := depth_pos L.length
  have := climb_of_spells sha256 hi h (depth L.length - 1) (by omega)
  rw [Nat.sub_add_cancel hd] at this
  rw [hlen, this, root, Nat.div_eq_of_lt (lt_of_lt_of_le hi (le_two_pow_depth _))]

/-! ## Soundness -/

/-- The byte strings that are hashed while `p` is checked for `leaf`. -/
def proofInputs (p : ArchivistProof) (leaf : Bytes) : List Bytes :=
  (List.range p.path.length).map fun t => roundInput (p.index / 2 ^ t) (width p.nleaves t) (t == 0)
    (climb sha256 p leaf t) (p.path.getD t [])

/-- SHA-256 does not collide between the strings of `S` and those of `T`. -/
def NoCollision (S T : List Bytes) : Prop :=
  ∀ x ∈ S, ∀ y ∈ T, sha256 x = sha256 y → x = y

instance (S T : List Bytes) : Decidable (NoCollision sha256 S T) :=
  inferInstanceAs (Decidable (∀ x ∈ S, ∀ y ∈ T, sha256 x = sha256 y → x = y))

variable {sha256}

theorem length_climb_succ (h32 : ∀ x, (sha256 x).length = 32) (p : ArchivistProof) (leaf : Bytes)
    (t : Nat) : (climb sha256 p leaf (t + 1)).length = 32 := h32 _

theorem mem_proofInputs {p : ArchivistProof} {leaf : Bytes} {t : Nat} (ht : t < p.path.length) :
    roundInput (p.index / 2 ^ t) (width p.nleaves t) (t == 0) (climb sha256 p leaf t)
      (p.path.getD t []) ∈ proofInputs sha256 p leaf :=
  List.mem_map.2 ⟨t, List.mem_range.2 ht, rfl⟩

theorem append_key_inj {a b c d : Bytes} {x y : UInt8} (h : a ++ b ++ [x] = c ++ d ++ [y]) :
    a ++ b = c ++ d ∧ x = y := by
  obtain ⟨h1, h2⟩ := List.append_inj' h rfl
  exact ⟨h1, by simpa using h2⟩

/-- Equal hashed strings: the same layer kind, and the round's position and children are the
node's. -/
theorem roundInput_eq_nodeInput {current : List Bytes} {bottom bottom' : Bool} {index m j : Nat}
    {x s : Bytes} (hj : 2 * j < current.length)
    (h : roundInput index m bottom x s = nodeInput current bottom' j) :
    bottom = bottom' ∧ ∃ k, k / 2 = j ∧ k < current.length ∧ index % 2 = k % 2 ∧
      (k % 2 = 0 → (index + 1 = m ↔ k + 1 = current.length)) ∧
      if k % 2 = 1 then s ++ x = current.getD (k ^^^ 1) zeroHash ++ current.getD k []
      else x ++ s = current.getD k [] ++ current.getD (k ^^^ 1) zeroHash := by
  unfold roundInput nodeInput at h
  rcases Nat.mod_two_eq_zero_or_one index with h0 | h1
  · rw [if_neg (by omega)] at h
    obtain ⟨hcat, hkey⟩ := append_key_inj h
    obtain ⟨hb, hs⟩ := nodeKey_toByte_inj hkey
    have hs := decide_eq_decide.1 hs
    refine ⟨hb, 2 * j, by omega, hj, by omega, fun _ => by omega, ?_⟩
    rw [if_neg (by omega), xor_one_eq, if_neg (by omega)]
    exact hcat
  · rw [if_pos h1] at h
    obtain ⟨hcat, hkey⟩ := append_key_inj h
    obtain ⟨hb, hs⟩ := nodeKey_toByte_inj hkey
    have hlt : 2 * j + 1 < current.length := by simpa using hs.symm
    refine ⟨hb, 2 * j + 1, by omega, hlt, by omega, fun h => by omega, ?_⟩
    rw [if_pos (by omega), xor_one_eq, if_pos (by omega), show 2 * j + 1 - 1 = 2 * j by omega]
    rw [List.getD_eq_getElem _ _ hlt, List.getD_eq_getElem _ _ (by omega)] at hcat ⊢
    exact hcat

/-- Positions below `2 ^ d` that turn alike are equal. -/
theorem eq_of_turns {a b d : Nat} (ha : a < 2 ^ d) (hb : b < 2 ^ d)
    (h : ∀ t < d, a / 2 ^ t % 2 = b / 2 ^ t % 2) : a = b := by
  apply Nat.eq_of_testBit_eq
  intro t
  rcases Nat.lt_or_ge t d with ht | ht
  · rw [Nat.testBit_eq_decide_div_mod_eq, Nat.testBit_eq_decide_div_mod_eq, h t ht]
  · have hp : 2 ^ d ≤ 2 ^ t := Nat.pow_le_pow_right (by decide) ht
    rw [Nat.testBit_lt_two_pow (lt_of_lt_of_le ha hp), Nat.testBit_lt_two_pow (lt_of_lt_of_le hb hp)]

theorem Spells.one {L : List Bytes} {p : ArchivistProof} {leaf : Bytes} {i : Nat}
    (hturn : p.index % 2 = i % 2)
    (hkey : i % 2 = 0 → (p.index + 1 = p.nleaves ↔ i + 1 = L.length))
    (hfirst : if i % 2 = 1 then
        p.path.getD 0 [] ++ leaf = sibling sha256 L i 0 ++ L.getD i []
      else leaf ++ p.path.getD 0 [] = L.getD i [] ++ sibling sha256 L i 0) :
    Spells sha256 L p leaf i 1 where
  turn := by intro t ht; obtain rfl : t = 0 := by omega
             simpa using hturn
  key := by intro t ht; obtain rfl : t = 0 := by omega
            simpa [width] using hkey
  first := hfirst
  rest := by intro t ht h0; omega

theorem Spells.succ {L : List Bytes} {p : ArchivistProof} {leaf : Bytes} {i d : Nat} (hd : 0 < d)
    (h : Spells sha256 L p leaf i d) (hturn : p.index / 2 ^ d % 2 = i / 2 ^ d % 2)
    (hkey : i / 2 ^ d % 2 = 0 →
      (p.index / 2 ^ d + 1 = width p.nleaves d ↔ i / 2 ^ d + 1 = width L.length d))
    (hrest : p.path.getD d [] = sibling sha256 L i d) : Spells sha256 L p leaf i (d + 1) where
  turn := by
    intro t ht
    rcases Nat.lt_succ_iff_lt_or_eq.1 ht with ht | rfl
    · exact h.turn t ht
    · exact hturn
  key := by
    intro t ht
    rcases Nat.lt_succ_iff_lt_or_eq.1 ht with ht | rfl
    · exact h.key t ht
    · exact hkey
  first := h.first
  rest := by
    intro t ht h0
    rcases Nat.lt_succ_iff_lt_or_eq.1 ht with ht | rfl
    · exact h.rest t ht h0
    · exact hrest

/-- **A digest the check computes is a node only along that node's path.** The induction is on the
rounds, downwards from the node: equal hashes are hashes of equal strings, whose key tells whether
the layer below is the leaves, so the check and the tree reach the bottom together. -/
theorem spells_of_climb (h32 : ∀ x, (sha256 x).length = 32) {L : List Bytes}
    (hL : ∀ d ∈ L, d.length = 32) {p : ArchivistProof} {leaf : Bytes}
    (hnc : NoCollision sha256 (treeInputs sha256 L) (proofInputs sha256 p leaf)) :
    ∀ (n d j : Nat), n < p.path.length → d < depth L.length → j < width L.length (d + 1) →
      climb sha256 p leaf (n + 1) = (layer sha256 L (d + 1)).getD j [] →
      n = d ∧ ∃ i < L.length, i / 2 ^ (d + 1) = j ∧ Spells sha256 L p leaf i (d + 1) := by
  intro n
  induction n with
  | zero =>
    intro d j hn hd hj h
    have h2 : 2 * j < (layer sha256 L d).length := by
      rw [length_layer]; have : j < (width L.length d + 1) / 2 := hj; omega
    rw [getD_layer_succ sha256 [] hj] at h
    have hin := hnc _ (mem_treeInputs sha256 hd hj) _ (mem_proofInputs hn) h.symm
    obtain ⟨hb, k, hkj, hk, hturn, hkey, hfirst⟩ := roundInput_eq_nodeInput h2 hin.symm
    obtain rfl : d = 0 := by simpa using hb
    simp only [layer, pow_zero, Nat.div_one, width, climb] at hk hturn hkey hfirst
    exact ⟨rfl, k, hk, by simpa using hkj, Spells.one hturn hkey (by simpa [sibling, layer])⟩
  | succ n ih =>
    intro d j hn hd hj h
    have h2 : 2 * j < (layer sha256 L d).length := by
      rw [length_layer]; have : j < (width L.length d + 1) / 2 := hj; omega
    rw [getD_layer_succ sha256 [] hj] at h
    have hin := hnc _ (mem_treeInputs sha256 hd hj) _ (mem_proofInputs hn) h.symm
    obtain ⟨hb, k, hkj, hk, hturn, hkey, hcat⟩ := roundInput_eq_nodeInput h2 hin.symm
    obtain ⟨d, rfl⟩ : ∃ e, d = e + 1 := ⟨d - 1, by
      have : d ≠ 0 := by intro h0; simp [h0] at hb
      omega⟩
    have hk' : k < width L.length (d + 1) := by rwa [length_layer] at hk
    have hnode : ((layer sha256 L (d + 1)).getD k []).length = 32 := by
      rw [List.getD_eq_getElem _ _ hk]
      exact layer_length_32 sha256 h32 hL _ _ (List.getElem_mem hk)
    -- both digests have 32 bytes, so the strings split at the same place
    have hsplit : climb sha256 p leaf (n + 1) = (layer sha256 L (d + 1)).getD k [] ∧
        p.path.getD (n + 1) [] = (layer sha256 L (d + 1)).getD (k ^^^ 1) zeroHash := by
      have hc := length_climb_succ h32 p leaf n
      split at hcat
      · obtain ⟨h1, h2⟩ := List.append_inj' hcat (by omega)
        exact ⟨h2, h1⟩
      · exact List.append_inj hcat (by omega)
    obtain ⟨rfl, i, hi, hik, hsp⟩ := ih d k (by omega) (by omega) hk' hsplit.1
    rw [length_layer] at hkey
    refine ⟨rfl, i, hi, by rw [pow_succ, ← Nat.div_div_eq_div_mul, hik, hkj], hsp.succ (by omega)
      (by rw [hturn, hik]) (fun he => ?_) ?_⟩
    · rw [hik] at he ⊢
      exact hkey he
    · rw [hsplit.2, sibling, hik]

/-- **What the check accepts**: a proof that reaches the root of the tree over `L` spells the path
of a leaf of `L`, or it has no path and its leaf is the root itself. -/
theorem spells_of_root (h32 : ∀ x, (sha256 x).length = 32) {L : List Bytes} (hne : L ≠ [])
    (hL : ∀ d ∈ L, d.length = 32) {p : ArchivistProof} {leaf : Bytes}
    (hnc : NoCollision sha256 (treeInputs sha256 L) (proofInputs sha256 p leaf))
    (h : climb sha256 p leaf p.path.length = root sha256 L) :
    (p.path = [] ∧ leaf = root sha256 L) ∨ (p.path.length = depth L.length ∧
      ∃ i < L.length, Spells sha256 L p leaf i (depth L.length)) := by
  have hn : 0 < L.length := List.length_pos_iff.2 hne
  have hd := depth_pos L.length
  rcases Nat.eq_zero_or_pos p.path.length with h0 | hpos
  · rw [h0] at h
    exact .inl ⟨List.length_eq_zero_iff.1 h0, h⟩
  · obtain ⟨n, hlen⟩ : ∃ n, p.path.length = n + 1 := ⟨_, (Nat.sub_add_cancel hpos).symm⟩
    obtain ⟨d, hdep⟩ : ∃ d, depth L.length = d + 1 := ⟨_, (Nat.sub_add_cancel hd).symm⟩
    have hw := width_depth hn
    rw [root, hlen, hdep] at h
    rw [hdep] at hw
    obtain ⟨rfl, i, hi, -, hsp⟩ := spells_of_climb h32 hL hnc n d 0 (by omega) (by omega)
      (by omega) h
    exact .inr ⟨by rw [hlen, hdep], i, hi, by rw [hdep]; exact hsp⟩

end

end Tree
