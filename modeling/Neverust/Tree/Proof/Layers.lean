import Mathlib.Data.List.GetD
import Mathlib.Data.Nat.Log
import Mathlib.Tactic.Ring
import Neverust.Tree.ArchivistTree

/-!
# The layers of the tree

`layer sha256 L t`: the `t`-th layer over the leaves `L`, each node the hash of the bytes
`nodeInput` of its two children. Its width is `width |L| t`, and the tree has `depth |L|` layers
above the leaves.

* `buildNextLayer_eq`, `buildLayers_eq`: the source's loops build these layers.
* `new_ok`: a tree over a nonempty list of CIDs has the layers of their digests.
* `treeInputs`: the byte strings that are hashed while the tree is built.
-/

namespace Tree

open Rust

/-! ## Widths -/

/-- The number of nodes `t` layers above `n` leaves. -/
def width (n : Nat) : Nat → Nat
  | 0 => n
  | t + 1 => (width n t + 1) / 2

/-- The number of layers above `n` leaves: a single leaf has a layer above it. -/
def depth (n : Nat) : Nat := max 1 (Nat.clog 2 n)

theorem width_zero (t : Nat) : width 0 t = 0 := by
  induction t with
  | zero => rfl
  | succ t ih => simp [width, ih]

theorem width_eq {n : Nat} (hn : 0 < n) (t : Nat) : width n t = (n - 1) / 2 ^ t + 1 := by
  induction t with
  | zero => simp [width]; omega
  | succ t ih =>
    rw [width, ih, pow_succ, ← Nat.div_div_eq_div_mul]
    omega

theorem div_lt_width {n i : Nat} (hi : i < n) (t : Nat) : i / 2 ^ t < width n t := by
  rw [width_eq (by omega)]
  have := Nat.div_le_div_right (c := 2 ^ t) (show i ≤ n - 1 by omega)
  omega

theorem le_two_pow_depth (n : Nat) : n ≤ 2 ^ depth n :=
  le_trans (Nat.le_pow_clog (by decide) n) (Nat.pow_le_pow_right (by decide) (le_max_right _ _))

/-- The top layer is the root alone. -/
theorem width_depth {n : Nat} (hn : 0 < n) : width n (depth n) = 1 := by
  have h := le_two_pow_depth n
  rw [width_eq hn, Nat.div_eq_of_lt (by omega)]

/-- A layer between the leaves and the root has at least two nodes. -/
theorem two_le_width {n t : Nat} (ht : 0 < t) (h : t < depth n) : 2 ≤ width n t := by
  have hc : t < Nat.clog 2 n := by
    rcases lt_max_iff.1 h with h | h
    · omega
    · exact h
  have hp : 2 ^ t < n := (Nat.lt_clog_iff_pow_lt (by decide)).1 hc
  rw [width_eq (Nat.zero_lt_of_lt hp)]
  have := Nat.div_pos (show 2 ^ t ≤ n - 1 by omega) (Nat.two_pow_pos t)
  omega

theorem depth_le (n : Nat) (hn : 0 < n) : depth n ≤ n := by
  refine max_le hn (Nat.clog_le_of_le_pow ?_)
  exact le_of_lt n.lt_two_pow_self

/-! ## Nodes -/

/-- The key of a node: over the leaves or not, with one child or two. -/
def nodeKey (bottom single : Bool) : TreeKey :=
  match bottom, single with
  | false, false => .none
  | true, false => .bottomLayer
  | false, true => .odd
  | true, true => .oddAndBottomLayer

theorem nodeKey_toByte_inj {b s b' s' : Bool}
    (h : (nodeKey b s).toByte = (nodeKey b' s').toByte) : b = b' ∧ s = s' := by
  revert h; revert b s b' s'; decide

/-- The bytes hashed for node `j` of the layer above `current`. -/
def nodeInput (current : List Bytes) (bottom : Bool) (j : Nat) : Bytes :=
  current.getD (2 * j) [] ++ current.getD (2 * j + 1) zeroHash ++
    [(nodeKey bottom (decide (current.length ≤ 2 * j + 1))).toByte]

section
variable (sha256 : Bytes → Bytes)

/-- The layer above `current`. -/
def nextLayer (current : List Bytes) (bottom : Bool) : List Bytes :=
  (List.range ((current.length + 1) / 2)).map fun j => sha256 (nodeInput current bottom j)

theorem buildNextLayer_eq (current : List Bytes) (bottom : Bool) :
    buildNextLayer sha256 current bottom = .ok (nextLayer sha256 current bottom) := by
  have hp : (List.range (current.length / 2)).mapM (fun i => do
      let left ← index current (2 * i)
      let right ← index current (2 * i + 1)
      compress sha256 left right (if bottom then .bottomLayer else .none)) =
      .ok ((List.range (current.length / 2)).map fun j => sha256 (nodeInput current bottom j)) := by
    refine mapM_ok fun j hj => ?_
    have hj := List.mem_range.1 hj
    have h0 : 2 * j < current.length := by omega
    have h1 : 2 * j + 1 < current.length := by omega
    rw [index_of_lt h0, index_of_lt h1]
    simp only [ok_bind, compress, nodeInput, List.getD_eq_getElem _ _ h0,
      List.getD_eq_getElem _ _ h1, decide_eq_false (show ¬ current.length ≤ 2 * j + 1 by omega)]
    cases bottom <;> rfl
  unfold buildNextLayer
  simp only [hp, ok_bind]
  split
  · rename_i hodd
    have hl : current.length - 1 < current.length := by omega
    have hr : (current.length + 1) / 2 = current.length / 2 + 1 := by omega
    have h2 : 2 * (current.length / 2) = current.length - 1 := by omega
    rw [index_of_lt hl, nextLayer, hr, List.range_succ, List.map_append]
    simp only [ok_bind, compress, pure_eq_ok, nodeInput, List.map_cons, List.map_nil, h2,
      List.getD_eq_getElem _ _ hl, List.getD_eq_default _ _
        (show current.length ≤ current.length - 1 + 1 by omega),
      decide_eq_true (show current.length ≤ current.length - 1 + 1 by omega)]
    cases bottom <;> rfl
  · rename_i heven
    rw [nextLayer, show (current.length + 1) / 2 = current.length / 2 by omega, pure_eq_ok]

/-- The `t`-th layer over the leaves. -/
def layer (leaves : List Bytes) : Nat → List Bytes
  | 0 => leaves
  | t + 1 => nextLayer sha256 (layer leaves t) (t == 0)

@[simp] theorem length_layer (L : List Bytes) (t : Nat) :
    (layer sha256 L t).length = width L.length t := by
  induction t with
  | zero => rfl
  | succ t ih => simp [layer, nextLayer, width, ih]

/-- A node above the leaves is the hash of its children. -/
theorem getD_layer_succ {L : List Bytes} {t j : Nat} (d : Bytes)
    (h : j < width L.length (t + 1)) :
    (layer sha256 L (t + 1)).getD j d = sha256 (nodeInput (layer sha256 L t) (t == 0) j) := by
  have hj : j < (width L.length t + 1) / 2 := h
  simp [layer, nextLayer, List.getD_eq_getElem?_getD, hj]

/-- The loop, from the layers up to the `t`-th. -/
theorem buildLayersLoop_eq {L : List Bytes} (hL : L ≠ []) : ∀ (r t fuel : Nat),
    t + r = depth L.length → r < fuel →
    buildLayersLoop sha256 fuel ((List.range (t + 1)).map (layer sha256 L)) (t == 0) =
      .ok ((List.range (depth L.length + 1)).map (layer sha256 L))
  | r, t, 0, _, hf => absurd hf (Nat.not_lt_zero _)
  | r, t, fuel + 1, hr, hf => by
    have hn : 0 < L.length := List.length_pos_iff.2 hL
    have hlast : ((List.range (t + 1)).map (layer sha256 L)).getLast? = some (layer sha256 L t) := by
      simp [List.range_succ]
    rw [buildLayersLoop, hlast]
    simp only [length_layer]
    cases r with
    | zero =>
      have ht : t = depth L.length := by omega
      have h1 : 0 < t := by rw [ht]; exact lt_of_lt_of_le Nat.one_pos (le_max_left _ _)
      rw [if_pos ⟨by rw [ht]; exact width_depth hn, by simp; omega⟩, ht]
    | succ r =>
      rw [if_neg]
      · simp only [buildNextLayer_eq, ok_bind]
        have := buildLayersLoop_eq hL r (t + 1) fuel (by omega) (by omega)
        rw [List.range_succ, List.map_append] at this
        exact this
      · rintro ⟨hw, hb⟩
        have h0 : 0 < t := by
          rcases Nat.eq_zero_or_pos t with rfl | h
          · simp at hb
          · exact h
        have := two_le_width h0 (show t < depth L.length by omega)
        omega

/-- **The source's layers**: for every nonempty list of leaves `build_layers` ends, with the
layers up to the root. -/
theorem buildLayers_eq {L : List Bytes} (hL : L ≠ []) :
    buildLayers sha256 L = .ok ((List.range (depth L.length + 1)).map (layer sha256 L)) := by
  have hn : 0 < L.length := List.length_pos_iff.2 hL
  have := depth_le L.length hn
  exact buildLayersLoop_eq sha256 hL (depth L.length) 0 (L.length + 1) (by omega) (by omega)

/-- The root digest of the tree over `L`. -/
def root (L : List Bytes) : Bytes := (layer sha256 L (depth L.length)).getD 0 []

theorem layer_depth {L : List Bytes} (hL : L ≠ []) :
    layer sha256 L (depth L.length) = [root sha256 L] := by
  have hn : 0 < L.length := List.length_pos_iff.2 hL
  have hl : (layer sha256 L (depth L.length)).length = 1 := by
    rw [length_layer, width_depth hn]
  obtain ⟨a, ha⟩ := List.length_eq_one_iff.1 hl
  rw [root, ha]
  rfl

/-- The digests of a list of CIDs. -/
def digests (cids : List Cid) : List Bytes := cids.map fun cid => cid.hash.digest

/-- The tree over a nonempty list of CIDs. -/
theorem new_ok {cids : List Cid} {t : ArchivistTree} (h : ArchivistTree.new sha256 cids = .ok t) :
    cids ≠ [] ∧ t.blockCids = cids ∧
      t.layers = (List.range (depth cids.length + 1)).map (layer sha256 (digests cids)) := by
  unfold ArchivistTree.new at h
  split at h
  · cases h
  · rename_i hne
    have hd : digests cids ≠ [] := by simpa [digests] using hne
    change (buildLayers sha256 (digests cids) >>= _) = _ at h
    rw [buildLayers_eq sha256 hd, show (digests cids).length = cids.length by simp [digests]] at h
    cases h
    exact ⟨hne, rfl, rfl⟩

theorem new_total {cids : List Cid} (h : cids ≠ []) :
    ∃ t, ArchivistTree.new sha256 cids = .ok t := by
  have hd : digests cids ≠ [] := by simpa [digests] using h
  unfold ArchivistTree.new
  rw [if_neg h]
  change ∃ t, (buildLayers sha256 (digests cids) >>= _) = _
  rw [buildLayers_eq sha256 hd]
  exact ⟨_, rfl⟩

/-- The byte strings that are hashed while the tree over `L` is built. -/
def treeInputs (L : List Bytes) : List Bytes :=
  (List.range (depth L.length)).flatMap fun t =>
    (List.range (width L.length (t + 1))).map (nodeInput (layer sha256 L t) (t == 0))

theorem mem_treeInputs {L : List Bytes} {t j : Nat} (ht : t < depth L.length)
    (hj : j < width L.length (t + 1)) :
    nodeInput (layer sha256 L t) (t == 0) j ∈ treeInputs sha256 L :=
  List.mem_flatMap.2 ⟨t, List.mem_range.2 ht, List.mem_map.2 ⟨j, List.mem_range.2 hj, rfl⟩⟩

/-- Every node of a tree of 32-byte leaves has 32 bytes. -/
theorem layer_length_32 (h32 : ∀ x, (sha256 x).length = 32) {L : List Bytes}
    (hL : ∀ d ∈ L, d.length = 32) (t : Nat) : ∀ d ∈ layer sha256 L t, d.length = 32 := by
  cases t with
  | zero => exact hL
  | succ t =>
    intro d hd
    simp only [layer, nextLayer, List.mem_map] at hd
    obtain ⟨j, -, rfl⟩ := hd
    exact h32 _

end

end Tree
