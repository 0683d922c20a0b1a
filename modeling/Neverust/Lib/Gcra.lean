import Mathlib.Order.Lattice
import Mathlib.Order.Basic

/-!
# The generic cell rate algorithm

A history lists accepted requests with their times and costs, the newest first; a cost is the time
that it takes to replenish what the request uses. `Gcra.tat` is the theoretical arrival time that
the algorithm keeps. A request fits if in no window that ends with it more is spent than is
replenished in the window and in the time `tau`.

* `le_tat`, `exists_tat`: the arrival time is the maximum, over the windows, of start and spending.
* `fits_iff`: the comparison of the arrival time decides whether a request fits.
-/

namespace Gcra

variable {h : List (Nat × Nat)} {tau now t c a : Nat}

/-- The theoretical arrival time after a history. -/
def tat : List (Nat × Nat) → Nat
  | [] => 0
  | (t, c) :: older => max t (tat older) + c

/-- What is spent from a time on. -/
def spent (a : Nat) : List (Nat × Nat) → Nat
  | [] => 0
  | (t, c) :: older => (if a ≤ t then c else 0) + spent a older

/-- The newest request is the first, and none is later than `now`. -/
def Before (now : Nat) : List (Nat × Nat) → Prop
  | [] => True
  | (t, _) :: older => t ≤ now ∧ Before t older

/-- A request of cost `c` fits: no window that ends with it is exceeded. -/
def Fits (tau : Nat) (h : List (Nat × Nat)) (now c : Nat) : Prop :=
  ∀ a ≤ now, spent a h + c ≤ (now - a) + tau

theorem Before.mono (hb : Before t h) (ht : t ≤ now) : Before now h := by
  cases h with
  | nil => trivial
  | cons x older => exact ⟨hb.1.trans ht, hb.2⟩

theorem spent_eq_zero (hb : Before now h) (ha : now < a) : spent a h = 0 := by
  induction h generalizing now with
  | nil => rfl
  | cons x older ih =>
    have hx : ¬ a ≤ x.1 := Nat.not_le.2 (Nat.lt_of_le_of_lt hb.1 ha)
    rw [spent, if_neg hx, ih hb.2 (Nat.lt_of_le_of_lt hb.1 ha)]

/-- What is spent in a window fits between its start and the arrival time. -/
theorem le_tat (hb : Before now h) (ha : a ≤ now) : a + spent a h ≤ max now (tat h) := by
  induction h generalizing now with
  | nil => exact Nat.le_trans (Nat.le_of_eq (Nat.add_zero a)) (ha.trans (Nat.le_max_left ..))
  | cons x older ih =>
    obtain ⟨t, c⟩ := x
    by_cases hat : a ≤ t
    · have hwindow := ih hb.2 hat
      rw [spent, if_pos hat, tat]
      omega
    · have hnone := spent_eq_zero hb.2 (Nat.not_le.1 hat)
      rw [spent, if_neg hat, hnone]
      omega

/-- In some window all is spent up to the arrival time. -/
theorem exists_tat (hb : Before now h) : ∃ a ≤ now, a + spent a h = max now (tat h) := by
  induction h generalizing now with
  | nil => exact ⟨now, Nat.le_refl _, (Nat.max_eq_left (Nat.zero_le _)).symm⟩
  | cons x older ih =>
    obtain ⟨t, c⟩ := x
    by_cases hle : tat ((t, c) :: older) ≤ now
    · have hnow := le_tat hb (Nat.le_refl now)
      exact ⟨now, Nat.le_refl _, by omega⟩
    · obtain ⟨a, hat, heq⟩ := ih hb.2
      have htat : tat ((t, c) :: older) = max t (tat older) + c := rfl
      refine ⟨a, hat.trans hb.1, ?_⟩
      rw [spent, if_pos hat]
      omega

/-- **The decision**: a request fits if and only if the arrival time after it is within `tau`. -/
theorem fits_iff (tau c : Nat) (hb : Before now h) :
    Fits tau h now c ↔ max now (tat h) + c ≤ now + tau := by
  constructor
  · intro hfits
    obtain ⟨a, ha, heq⟩ := exists_tat hb
    have := hfits a ha
    omega
  · intro hle a ha
    have := le_tat hb ha
    omega

/-- Every request of the history has fitted. -/
inductive Conforms (tau : Nat) : List (Nat × Nat) → Prop
  | nil : Conforms tau []
  | cons {t c : Nat} {older : List (Nat × Nat)} (h : Conforms tau older)
      (hfits : Fits tau older t c) : Conforms tau ((t, c) :: older)

/-- **Every window**: what is spent from `a` on, up to `now`, is replenished in the window and in
the time `tau`. -/
theorem Conforms.spent_le (hc : Conforms tau h) (hb : Before now h) (ha : a ≤ now) :
    spent a h ≤ (now - a) + tau := by
  cases hc with
  | nil => exact Nat.zero_le _
  | @cons t c older _ hfits =>
    by_cases hat : a ≤ t
    · have := hfits a hat
      have := hb.1
      rw [spent, if_pos hat]
      omega
    · have hnone := spent_eq_zero (h := (t, c) :: older) ⟨Nat.le_refl t, hb.2⟩ (Nat.not_le.1 hat)
      rw [hnone]
      exact Nat.zero_le _

end Gcra
