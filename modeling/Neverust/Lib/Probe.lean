import Mathlib.Algebra.Group.Nat.Defs
import Mathlib.Data.Finset.Card

/-!
# Collecting values by probing

`collect probe target`: a loop that probes at the steps `1, 2, …` of a counter of machine words,
which wraps around, until it has found `target` different values.

* `collect_spec`, `collect_complete`: it ends exactly if there are that many values to find.
* `exists_stride`: the multiples of an odd stride are all words.
-/

namespace Probe

variable {α : Type} [DecidableEq α]

/-- The bound is on the rounds of the loop; when it is used up the value is `none`. -/
def collect (probe : UInt64 → Option α) (target : Nat) :
    Nat → UInt64 → Finset α → Option (Finset α)
  | 0, _, found => if found.card < target then none else some found
  | bound + 1, step, found =>
    if found.card < target then
      collect probe target bound (step + 1)
        (match probe step with
        | some a => insert a found
        | none => found)
    else some found

/-- The values that can be found. -/
def Findable (probe : UInt64 → Option α) (found : Finset α) (a : α) : Prop :=
  a ∈ found ∨ ∃ step, probe step = some a

variable {probe : UInt64 → Option α} {target bound : Nat} {step : UInt64} {found out : Finset α}

/-- What a loop that ends has found. -/
theorem collect_spec (h : collect probe target bound step found = some out) :
    found ⊆ out ∧ target ≤ out.card ∧ ∀ a ∈ out, Findable probe found a := by
  induction bound generalizing step found with
  | zero =>
    rw [collect] at h
    split at h
    · cases h
    · cases h
      exact ⟨fun _ ha => ha, by omega, fun _ ha => .inl ha⟩
  | succ bound ih =>
    rw [collect] at h
    split at h
    · obtain ⟨hsub, hcard, hfind⟩ := ih h
      cases hp : probe step with
      | some b =>
        rw [hp] at hsub hfind
        refine ⟨fun a ha => hsub (Finset.mem_insert_of_mem ha), hcard, fun a ha => ?_⟩
        obtain hmem | hstep := hfind a ha
        · obtain rfl | hmem := Finset.mem_insert.1 hmem
          · exact .inr ⟨step, hp⟩
          · exact .inl hmem
        · exact .inr hstep
      | none =>
        rw [hp] at hsub hfind
        exact ⟨hsub, hcard, hfind⟩
    · cases h
      exact ⟨fun _ ha => ha, by omega, fun _ ha => .inl ha⟩

/-- A loop that uses up its bound has found what the steps give, and it is not enough. -/
theorem collect_none (h : collect probe target bound step found = none) :
    ∃ full : Finset α, full.card < target ∧ found ⊆ full ∧
      ∀ k < bound, ∀ a, probe (step + UInt64.ofNat k) = some a → a ∈ full := by
  induction bound generalizing step found with
  | zero =>
    rw [collect] at h
    split at h
    · rename_i hlt
      exact ⟨found, hlt, fun _ ha => ha, fun k hk => absurd hk (Nat.not_lt_zero k)⟩
    · cases h
  | succ bound ih =>
    rw [collect] at h
    split at h
    · obtain ⟨full, hcard, hsub, hall⟩ := ih h
      have hfound : found ⊆ full := by
        refine Finset.Subset.trans ?_ hsub
        cases probe step with
        | some b => exact Finset.subset_insert _ _
        | none => exact Finset.Subset.refl _
      refine ⟨full, hcard, hfound, fun k hk a ha => ?_⟩
      cases k with
      | zero =>
        rw [show step + UInt64.ofNat 0 = step from UInt64.add_zero step] at ha
        rw [ha] at hsub
        exact hsub (Finset.mem_insert_self _ _)
      | succ k =>
        refine hall k (by omega) a ?_
        rw [← ha, UInt64.ofNat_add, UInt64.add_assoc, UInt64.add_comm 1]
        rfl
    · cases h

/-- **The loop ends if there are enough values to find**: after `2 ^ 64` rounds all words are
probed. -/
theorem collect_complete {full : Finset α} (hbound : 2 ^ 64 ≤ bound) (hcard : target ≤ full.card)
    (hfind : ∀ a ∈ full, Findable probe found a) :
    ∃ out, collect probe target bound step found = some out := by
  cases h : collect probe target bound step found with
  | some out => exact ⟨out, rfl⟩
  | none =>
    obtain ⟨tried, htried, hsub, hall⟩ := collect_none h
    have hle : full ⊆ tried := fun a ha => by
      obtain hmem | ⟨s, hs⟩ := hfind a ha
      · exact hsub hmem
      · have hk : (s - step).toNat < bound := by
          have := UInt64.toNat_lt (s - step)
          omega
        refine hall _ hk a ?_
        rw [UInt64.ofNat_toNat, UInt64.add_comm, UInt64.sub_add_cancel]
        exact hs
    have := Finset.card_le_card hle
    omega

/-- **An odd stride leads everywhere.** -/
theorem exists_stride {stride inverse : UInt64} (hinv : inverse * stride = 1) (start w : UInt64) :
    ∃ step, start + step * stride = w := by
  refine ⟨(w - start) * inverse, ?_⟩
  rw [UInt64.mul_assoc, hinv, UInt64.mul_one, UInt64.add_comm, UInt64.sub_add_cancel]

end Probe
