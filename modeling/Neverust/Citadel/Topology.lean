import Mathlib.Data.Finset.Sort
import Mathlib.Order.Interval.Finset.Nat
import Neverust.Lib.Probe
import Neverust.Lib.Rust

/-!
# Citadel: the topology of a simulated swarm

`buildTwoHostTopology` splits a swarm into two halves and gives every node peers of its own half and
of the other one. The peers are found by probing at a stride (`Probe.collect`); the first argument
bounds the rounds of each loop. The iteration order of a `HashSet` is a parameter.

* `topology_exact`: when the construction returns. The own half must have enough other nodes, which
  is not checked, so in a small swarm, or under a large fanout, the loop never ends.
-/

namespace Citadel

open Rust Probe

/-- The peer that a step of a loop leads to, if it is not the node itself. Its index is that of a
node, so it does not leave the type. -/
def probePeer (i base len : Nat) (mul stride step : UInt64) : Option Nat :=
  let offset := (UInt64.ofNat i * mul + step * stride).toNat % len
  let peer := base + offset
  if peer ≠ i then some peer else none

/-- The peers of the node `i`: first from its own half, then from the other one. -/
def peersOf (bound nodeCount fanout i : Nat) : Option (Finset Nat) := do
  let half := nodeCount / 2
  let localBase := if i < half then 0 else half
  let remoteBase := if i < half then half else 0
  let localLen := if i < half then max half 1 else max (nodeCount - half) 1
  let remoteLen := if i < half then max (nodeCount - half) 1 else max half 1
  let localTarget := fanout / 2
  let peers ← collect (probePeer i localBase localLen 131 17) localTarget bound 1 ∅
  collect (probePeer i remoteBase remoteLen 977 593) fanout bound 1 peers

/-- An empty `Vec` takes 24 bytes. -/
def buildTwoHostTopology (order : Finset Nat → List Nat) (bound nodeCount fanout : Nat) :
    Result Empty (List (List Nat)) := do
  withCapacity (24 * nodeCount)
  if nodeCount < 2 then return List.replicate nodeCount []
  let fanout := max fanout 2
  (List.range nodeCount).mapM fun i =>
    match peersOf bound nodeCount fanout i with
    | some peers => return order peers
    | none => .error .fuel

/-- Every node has a list of different other nodes. -/
structure ProperTopology (nodeCount : Nat) (topology : List (List Nat)) : Prop where
  length_eq : topology.length = nodeCount
  nodup : ∀ peers ∈ topology, peers.Nodup
  not_self : ∀ (i : Nat) (peers : List Nat), topology[i]? = some peers → i ∉ peers
  lt : ∀ peers ∈ topology, ∀ peer ∈ peers, peer < nodeCount

variable {i base len nodeCount fanout bound : Nat} {mul stride : UInt64}

theorem probePeer_eq_some {step : UInt64} {peer : Nat} (hlen : 0 < len)
    (h : probePeer i base len mul stride step = some peer) :
    peer ≠ i ∧ base ≤ peer ∧ peer < base + len := by
  rw [probePeer] at h
  split at h
  · rename_i hne
    cases h
    have := Nat.mod_lt (UInt64.ofNat i * mul + step * stride).toNat hlen
    exact ⟨hne, by omega, by omega⟩
  · cases h

/-- An odd stride leads to every node of a half. -/
theorem exists_probePeer {inverse : UInt64} (hinv : inverse * stride = 1) {peer : Nat}
    (hlen : len ≤ 2 ^ 64) (hne : peer ≠ i) (hle : base ≤ peer) (hlt : peer < base + len) :
    ∃ step, probePeer i base len mul stride step = some peer := by
  obtain ⟨step, hstep⟩ :=
    exists_stride hinv (UInt64.ofNat i * mul) (UInt64.ofNat (peer - base))
  have hoff : (UInt64.ofNat (peer - base)).toNat = peer - base :=
    UInt64.toNat_ofNat_of_lt' (show peer - base < 2 ^ 64 by omega)
  refine ⟨step, ?_⟩
  rw [probePeer, hstep, hoff, Nat.mod_eq_of_lt (by omega), Nat.add_sub_cancel' hle]
  exact if_pos hne

/-- The nodes from `base` on without the node itself. -/
def others (i base len : Nat) : Finset Nat := (Finset.Ico base (base + len)).erase i

theorem mem_others {peer : Nat} :
    peer ∈ others i base len ↔ peer ≠ i ∧ base ≤ peer ∧ peer < base + len := by
  simp [others]

theorem card_others_own (hle : base ≤ i) (hlt : i < base + len) :
    (others i base len).card = len - 1 := by
  rw [others, Finset.card_erase_of_mem (by simp [hle, hlt]), Nat.card_Ico, Nat.add_sub_cancel_left]

theorem card_others_other (hnot : i < base ∨ base + len ≤ i) : (others i base len).card = len := by
  rw [others, Finset.erase_eq_of_notMem (by simp; omega), Nat.card_Ico, Nat.add_sub_cancel_left]

variable {target : Nat} {found out : Finset Nat}

/-- What a loop over a half finds. -/
theorem collect_others (hlen : 0 < len)
    (h : collect (probePeer i base len mul stride) target bound 1 found = some out) :
    found ⊆ out ∧ target ≤ out.card ∧ out ⊆ found ∪ others i base len := by
  obtain ⟨hsub, hcard, hfind⟩ := collect_spec h
  refine ⟨hsub, hcard, fun peer hpeer => ?_⟩
  rw [Finset.mem_union, mem_others]
  obtain hmem | ⟨step, hstep⟩ := hfind peer hpeer
  · exact .inl hmem
  · exact .inr (probePeer_eq_some hlen hstep)

theorem exists_collect_others {inverse : UInt64} (hinv : inverse * stride = 1)
    (hbound : 2 ^ 64 ≤ bound) (hlen : len ≤ 2 ^ 64)
    (hcard : target ≤ (found ∪ others i base len).card) :
    ∃ out, collect (probePeer i base len mul stride) target bound 1 found = some out := by
  refine collect_complete hbound hcard fun peer hpeer => ?_
  obtain hmem | hmem := Finset.mem_union.1 hpeer
  · exact .inl hmem
  · obtain ⟨hne, hle, hlt⟩ := mem_others.1 hmem
    exact .inr (exists_probePeer hinv hlen hne hle hlt)

/-! ## The peers of a node -/

variable {peers : Finset Nat}

theorem peersOf_spec (hn : 2 ≤ nodeCount) (hi : i < nodeCount)
    (h : peersOf bound nodeCount fanout i = some peers) :
    (i < nodeCount / 2 → fanout / 2 < nodeCount / 2) ∧
      ∀ peer ∈ peers, peer ≠ i ∧ peer < nodeCount := by
  rw [peersOf] at h
  obtain ⟨own, hown, h⟩ := Option.bind_eq_some_iff.1 h
  obtain ⟨-, hcard, hsub⟩ := collect_others (Nat.lt_of_lt_of_le Nat.zero_lt_one (by
    split <;> exact Nat.le_max_right _ _)) hown
  obtain ⟨-, -, hsub'⟩ := collect_others (Nat.lt_of_lt_of_le Nat.zero_lt_one (by
    split <;> exact Nat.le_max_right _ _)) h
  rw [Finset.empty_union] at hsub
  have hle := hcard.trans (Finset.card_le_card hsub)
  constructor
  · intro hhalf
    rw [if_pos hhalf, if_pos hhalf, card_others_own (Nat.zero_le i) (by omega)] at hle
    omega
  · intro peer hpeer
    obtain hmem | hmem := Finset.mem_union.1 (hsub' hpeer)
    · obtain ⟨hne, -, hlt⟩ := mem_others.1 (hsub hmem)
      refine ⟨hne, ?_⟩
      split at hlt <;> omega
    · obtain ⟨hne, -, hlt⟩ := mem_others.1 hmem
      refine ⟨hne, ?_⟩
      split at hlt <;> omega

/-- Both loops end if the own half has enough other nodes. -/
theorem exists_collect_both {base' len' : Nat} (hbound : 2 ^ 64 ≤ bound) (hlen : len ≤ 2 ^ 64)
    (hlen' : len' ≤ 2 ^ 64) (hle : base ≤ i) (hlt : i < base + len)
    (hapart : base + len ≤ base' ∨ base' + len' ≤ base) (hown : fanout / 2 < len)
    (hother : fanout - fanout / 2 ≤ len') :
    ∃ own peers, collect (probePeer i base len 131 17) (fanout / 2) bound 1 ∅ = some own ∧
      collect (probePeer i base' len' 977 593) fanout bound 1 own = some peers := by
  have h17 : (17361641481138401521 : UInt64) * 17 = 1 := by decide
  have h593 : (13407330009728190129 : UInt64) * 593 = 1 := by decide
  obtain ⟨own, hcollect⟩ : ∃ own, collect (probePeer i base len 131 17) (fanout / 2) bound 1 ∅ =
      some own := by
    refine exists_collect_others h17 hbound hlen ?_
    rw [Finset.empty_union, card_others_own hle hlt]
    omega
  obtain ⟨-, hcard, hsub⟩ := collect_others (by omega) hcollect
  have hdisjoint : Disjoint own (others i base' len') := by
    rw [Finset.disjoint_left]
    intro peer hmem hmem'
    obtain ⟨-, hpeer⟩ := mem_others.1 (by simpa using hsub hmem)
    obtain ⟨-, hpeer'⟩ := mem_others.1 hmem'
    omega
  obtain ⟨peers, hpeers⟩ : ∃ peers, collect (probePeer i base' len' 977 593) fanout bound 1 own =
      some peers := by
    refine exists_collect_others h593 hbound hlen' ?_
    rw [Finset.card_union_of_disjoint hdisjoint, card_others_other (by omega)]
    omega
  exact ⟨own, peers, hcollect, hpeers⟩

theorem exists_peersOf (hn : 2 ≤ nodeCount) (hi : i < nodeCount) (hlen : nodeCount ≤ 2 ^ 64)
    (hfanout : fanout / 2 < nodeCount / 2) (hbound : 2 ^ 64 ≤ bound) :
    ∃ peers, peersOf bound nodeCount fanout i = some peers := by
  rw [peersOf]
  by_cases hhalf : i < nodeCount / 2
  · obtain ⟨own, peers, hown, hpeers⟩ := @exists_collect_both i 0 (max (nodeCount / 2) 1) fanout
      bound (nodeCount / 2) (max (nodeCount - nodeCount / 2) 1) hbound (by omega) (by omega)
      (by omega) (by omega) (by omega) (by omega) (by omega)
    refine ⟨peers, ?_⟩
    simp only [if_pos hhalf]
    rw [hown]
    exact hpeers
  · obtain ⟨own, peers, hown, hpeers⟩ := @exists_collect_both i (nodeCount / 2)
      (max (nodeCount - nodeCount / 2) 1) fanout bound 0 (max (nodeCount / 2) 1) hbound (by omega)
      (by omega) (by omega) (by omega) (by omega) (by omega) (by omega)
    refine ⟨peers, ?_⟩
    simp only [if_neg hhalf]
    rw [hown]
    exact hpeers

/-! ## The topology -/

section
variable (order : Finset Nat → List Nat)

theorem build_small (hcap : 24 * nodeCount < isizeSize) (hn : nodeCount < 2) :
    buildTwoHostTopology order bound nodeCount fanout = .ok (List.replicate nodeCount []) := by
  rw [buildTwoHostTopology, withCapacity_of_lt hcap, ok_bind, if_pos hn]
  rfl

/-- The list of every node is what its loops have found. -/
theorem build_spec {topology : List (List Nat)} (hn : 2 ≤ nodeCount)
    (h : buildTwoHostTopology order bound nodeCount fanout = .ok topology) :
    24 * nodeCount < isizeSize ∧ topology.length = nodeCount ∧
      ∀ (i : Nat) (peers : List Nat), topology[i]? = some peers → i < nodeCount ∧
        ∃ found, peersOf bound nodeCount (max fanout 2) i = some found ∧ peers = order found := by
  rw [buildTwoHostTopology] at h
  obtain ⟨_, hcap, h⟩ := bind_eq_ok h
  rw [if_neg (by omega)] at h
  have hall := mapM_eq_ok h
  have hlen := hall.length_eq
  rw [List.length_range] at hlen
  refine ⟨Returns.withCapacity_iff.1 (by rw [hcap]; trivial), hlen.symm, fun i peers hi => ?_⟩
  obtain ⟨hlt, hget⟩ := List.getElem?_eq_some_iff.1 hi
  have hrange : i < (List.range nodeCount).length := by
    rw [List.length_range]
    omega
  have hround := List.Forall₂.get hall hrange hlt
  rw [List.get_eq_getElem, List.get_eq_getElem, List.getElem_range, hget] at hround
  refine ⟨by omega, ?_⟩
  cases hfound : peersOf bound nodeCount (max fanout 2) i with
  | some found =>
    rw [hfound] at hround
    cases hround
    exact ⟨found, rfl, rfl⟩
  | none =>
    rw [hfound] at hround
    cases hround

/-- The first node of the first half has the fewest nodes to choose from. -/
theorem lt_of_build {topology : List (List Nat)} (hn : 2 ≤ nodeCount)
    (h : buildTwoHostTopology order bound nodeCount fanout = .ok topology) :
    max fanout 2 / 2 < nodeCount / 2 := by
  obtain ⟨-, hlen, hpeers⟩ := build_spec order hn h
  obtain ⟨peers, hfirst⟩ : ∃ peers, topology[0]? = some peers :=
    ⟨_, List.getElem?_eq_getElem (by omega)⟩
  obtain ⟨h0, found, hfound, -⟩ := hpeers 0 peers hfirst
  exact (peersOf_spec hn h0 hfound).1 (by omega)

theorem proper_of_build (horder : ∀ s, (order s).Nodup ∧ ∀ a, a ∈ order s ↔ a ∈ s)
    {topology : List (List Nat)} (hn : 2 ≤ nodeCount)
    (h : buildTwoHostTopology order bound nodeCount fanout = .ok topology) :
    ProperTopology nodeCount topology := by
  obtain ⟨-, hlen, hpeers⟩ := build_spec order hn h
  have hmem : ∀ peers ∈ topology, ∃ i, ∃ found, i < nodeCount ∧
      peersOf bound nodeCount (max fanout 2) i = some found ∧ peers = order found := by
    intro peers hmem
    obtain ⟨i, hi⟩ := List.mem_iff_getElem?.1 hmem
    obtain ⟨hlt, found, hfound, rfl⟩ := hpeers i peers hi
    exact ⟨i, found, hlt, hfound, rfl⟩
  refine ⟨hlen, fun peers hp => ?_, fun i peers hi hself => ?_, fun peers hp peer hpeer => ?_⟩
  · obtain ⟨i, found, -, -, rfl⟩ := hmem peers hp
    exact (horder found).1
  · obtain ⟨hlt, found, hfound, rfl⟩ := hpeers i peers hi
    exact ((peersOf_spec hn hlt hfound).2 i (((horder found).2 i).1 hself)).1 rfl
  · obtain ⟨i, found, hlt, hfound, rfl⟩ := hmem peers hp
    exact ((peersOf_spec hn hlt hfound).2 peer (((horder found).2 peer).1 hpeer)).2

theorem exists_build (hcap : 24 * nodeCount < isizeSize) (hn : 2 ≤ nodeCount)
    (hfanout : max fanout 2 / 2 < nodeCount / 2) (hbound : 2 ^ 64 ≤ bound) :
    ∃ topology, buildTwoHostTopology order bound nodeCount fanout = .ok topology := by
  have hlen : nodeCount ≤ 2 ^ 64 := by
    rw [isizeSize] at hcap
    omega
  have hfound : ∀ i ∈ List.range nodeCount, ∃ peers,
      peersOf bound nodeCount (max fanout 2) i = some peers := fun i hi =>
    exists_peersOf hn (List.mem_range.1 hi) hlen hfanout hbound
  rw [buildTwoHostTopology, withCapacity_of_lt hcap, ok_bind, if_neg (by omega)]
  refine ⟨_, mapM_ok (g := fun i =>
    order ((peersOf bound nodeCount (max fanout 2) i).getD ∅)) fun i hi => ?_⟩
  obtain ⟨peers, hpeers⟩ := hfound i hi
  rw [hpeers]
  rfl

/-- **When the construction returns a proper topology**: when the vector of the nodes fits into
memory and, in a swarm of at least two nodes, a half has more nodes than half of the fanout. -/
theorem topology_exact (horder : ∀ s, (order s).Nodup ∧ ∀ a, a ∈ order s ↔ a ∈ s)
    (nodeCount fanout : Nat) :
    (∃ bound topology, buildTwoHostTopology order bound nodeCount fanout = .ok topology ∧
        (2 ≤ nodeCount → ProperTopology nodeCount topology)) ↔
      24 * nodeCount < isizeSize ∧ (nodeCount < 2 ∨ max fanout 2 / 2 < nodeCount / 2) := by
  constructor
  · rintro ⟨bound, topology, h, -⟩
    by_cases hn : nodeCount < 2
    · exact ⟨by rw [isizeSize]; omega, .inl hn⟩
    · exact ⟨(build_spec order (by omega) h).1, .inr (lt_of_build order (by omega) h)⟩
  · rintro ⟨hcap, hn⟩
    by_cases hsmall : nodeCount < 2
    · exact ⟨0, _, build_small order hcap hsmall, fun hn => by omega⟩
    · obtain ⟨topology, h⟩ :=
        exists_build order hcap (by omega) (hn.resolve_left hsmall) (Nat.le_refl (2 ^ 64))
      exact ⟨_, topology, h, fun hn => proper_of_build order horder hn h⟩

/-- Two nodes under the default fanout: the first loop looks for four other nodes of a half that
has one node. -/
theorem topology_stuck : ¬ ∃ bound topology,
    buildTwoHostTopology (fun s => s.sort (· ≤ ·)) bound 2 8 = .ok topology := by
  rintro ⟨bound, topology, h⟩
  exact absurd (lt_of_build _ (Nat.le_refl 2) h) (by decide)

theorem topology_exact_four : ∃ bound topology,
    buildTwoHostTopology (fun s => s.sort (· ≤ ·)) bound 4 2 = .ok topology ∧
      (2 ≤ 4 → ProperTopology 4 topology) :=
  (topology_exact _ (fun s => ⟨s.sort_nodup _, fun a => s.mem_sort _⟩) 4 2).2
    ⟨by decide, .inr (by decide)⟩

end

end Citadel
