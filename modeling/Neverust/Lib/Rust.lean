import Mathlib.Algebra.Group.Nat.Defs
import Mathlib.Data.List.Basic

/-!
# Calls of the source language

`Rust.Result ε α`: what a call gives. A function that returns `Result<α, ε>` gives a value, its own
error (`Stop.err`), a panic (`Stop.panic`: an arithmetic operation that leaves its type, an index
out of bounds, a division by zero) or, for a loop given as a recursion on a step bound, `Stop.fuel`
when the bound is used up. `usize` values are natural numbers; the operations that can leave the
type are checked. The checked and saturating operations of the fixed-width types are described by
the natural numbers they compute.
-/

namespace Rust

/-- Why a call panics. -/
inductive Panic
  | overflow
  | index
  | divByZero
  deriving Repr, DecidableEq

/-- How a call can end without a value. -/
inductive Stop (ε : Type)
  | err (e : ε)
  | panic (p : Panic)
  | fuel
  deriving Repr, DecidableEq

abbrev Result (ε α : Type) := Except (Stop ε) α

/-- The number of values of a `usize` (64-bit targets). -/
def usizeSize : Nat := 2 ^ 64

variable {ε α β : Type}

/-- `a + b` on `usize`. -/
def usizeAdd (a b : Nat) : Result ε Nat :=
  if a + b < usizeSize then .ok (a + b) else .error (.panic .overflow)

/-- `a - b` on `usize`. -/
def usizeSub (a b : Nat) : Result ε Nat :=
  if b ≤ a then .ok (a - b) else .error (.panic .overflow)

/-- `l[i]`. -/
def index (l : List α) (i : Nat) : Result ε α :=
  match l[i]? with
  | some a => .ok a
  | none => .error (.panic .index)

/-- `a * b` on `usize`. -/
def usizeMul (a b : Nat) : Result ε Nat :=
  if a * b < usizeSize then .ok (a * b) else .error (.panic .overflow)

/-- `a / b` on `usize`. -/
def usizeDiv (a b : Nat) : Result ε Nat :=
  if b = 0 then .error (.panic .divByZero) else .ok (a / b)

/-- `l[a..b]`. -/
def range (l : List α) (a b : Nat) : Result ε (List α) :=
  if a ≤ b ∧ b ≤ l.length then .ok ((l.take b).drop a) else .error (.panic .index)

/-- The number of values of an `isize` that are not negative. -/
def isizeSize : Nat := 2 ^ 63

/-- `Vec::with_capacity(n)` for bytes; whether there is memory for them is left out. -/
def withCapacity (n : Nat) : Result ε Unit :=
  if n < isizeSize then .ok () else .error (.panic .overflow)

/-- `a.checked_add(n)` on `u32`. -/
def checkedAdd32 (a : UInt32) (n : Nat) : Option UInt32 :=
  if a.toNat + n < 2 ^ 32 then some (UInt32.ofNat (a.toNat + n)) else none

/-- `a.checked_add(n)` on `u64`. -/
def checkedAdd64 (a : UInt64) (n : Nat) : Option UInt64 :=
  if a.toNat + n < 2 ^ 64 then some (UInt64.ofNat (a.toNat + n)) else none

/-- `a.saturating_add(n)` on `u64`. -/
def saturatingAdd64 (a : UInt64) (n : Nat) : UInt64 :=
  UInt64.ofNat (min (a.toNat + n) (2 ^ 64 - 1))

/-- `u32::try_from(n)`. -/
def tryFrom32 (n : Nat) : Option UInt32 := if n < 2 ^ 32 then some (UInt32.ofNat n) else none

theorem checkedAdd32_eq_some {a b : UInt32} {n : Nat} (h : checkedAdd32 a n = some b) :
    b.toNat = a.toNat + n := by
  unfold checkedAdd32 at h
  split at h
  · cases h; exact UInt32.toNat_ofNat_of_lt' ‹_›
  · cases h

theorem checkedAdd32_eq_none {a : UInt32} {n : Nat} (h : checkedAdd32 a n = none) :
    2 ^ 32 ≤ a.toNat + n := by
  unfold checkedAdd32 at h
  split at h
  · cases h
  · omega

theorem checkedAdd64_eq_some {a b : UInt64} {n : Nat} (h : checkedAdd64 a n = some b) :
    b.toNat = a.toNat + n := by
  unfold checkedAdd64 at h
  split at h
  · cases h; exact UInt64.toNat_ofNat_of_lt' ‹_›
  · cases h

theorem checkedAdd64_eq_none {a : UInt64} {n : Nat} (h : checkedAdd64 a n = none) :
    2 ^ 64 ≤ a.toNat + n := by
  unfold checkedAdd64 at h
  split at h
  · cases h
  · omega

theorem saturatingAdd64_of_lt {a : UInt64} {n : Nat} (h : a.toNat + n < 2 ^ 64) :
    (saturatingAdd64 a n).toNat = a.toNat + n := by
  unfold saturatingAdd64
  rw [UInt64.toNat_ofNat_of_lt' (show min _ _ < 2 ^ 64 by omega)]
  omega

theorem tryFrom32_eq_some {n : Nat} {b : UInt32} (h : tryFrom32 n = some b) : b.toNat = n := by
  unfold tryFrom32 at h
  split at h
  · cases h; exact UInt32.toNat_ofNat_of_lt' ‹_›
  · cases h

theorem tryFrom32_eq_none {n : Nat} (h : tryFrom32 n = none) : 2 ^ 32 ≤ n := by
  unfold tryFrom32 at h
  split at h
  · cases h
  · omega

@[simp] theorem ok_bind (a : α) (f : α → Result ε β) : (Except.ok a >>= f) = f a := rfl
@[simp] theorem error_bind (e : Stop ε) (f : α → Result ε β) :
    (Except.error e >>= f) = Except.error e := rfl
@[simp] theorem pure_eq_ok (a : α) : (pure a : Result ε α) = .ok a := rfl

/-- The parts of a sequence that gives a value. -/
theorem bind_eq_ok {x : Except ε α} {f : α → Except ε β} {b : β} (h : (x >>= f) = .ok b) :
    ∃ a, x = .ok a ∧ f a = .ok b := by
  cases x with
  | ok a => exact ⟨a, rfl, h⟩
  | error e => cases h

/-- The part of a sequence that stops it. -/
theorem bind_eq_error {x : Except ε α} {f : α → Except ε β} {e : ε}
    (h : (x >>= f) = .error e) : x = .error e ∨ ∃ a, x = .ok a ∧ f a = .error e := by
  cases x with
  | ok a => exact .inr ⟨a, rfl, h⟩
  | error e' =>
    cases h
    exact .inl rfl

theorem index_of_lt {l : List α} {i : Nat} (h : i < l.length) :
    (index l i : Result ε α) = .ok l[i] := by
  simp [index, List.getElem?_eq_getElem h]

theorem usizeSub_of_le {a b : Nat} (h : b ≤ a) : (usizeSub a b : Result ε Nat) = .ok (a - b) := by
  simp [usizeSub, h]

theorem usizeAdd_of_lt {a b : Nat} (h : a + b < usizeSize) :
    (usizeAdd a b : Result ε Nat) = .ok (a + b) := by
  simp [usizeAdd, h]

/-! ## Calls that return -/

/-- The call gives a value or an error of its own: it does not panic, and it ends. -/
def Returns : Result ε α → Prop
  | .ok _ => True
  | .error (.err _) => True
  | .error (.panic _) => False
  | .error .fuel => False

namespace Returns

theorem ok (a : α) : Returns (.ok a : Result ε α) := trivial

theorem err (e : ε) : Returns (.error (.err e) : Result ε α) := trivial

theorem not_panic (p : Panic) : ¬ Returns (.error (.panic p) : Result ε α) := id

theorem error_iff {e : Stop ε} :
    Returns (.error e : Result ε α) ↔ Returns (.error e : Result ε β) := by
  cases e with
  | err e => exact Iff.rfl
  | panic p => exact Iff.rfl
  | fuel => exact Iff.rfl

/-- A sequence returns if its parts do. -/
theorem bind {x : Result ε α} {f : α → Result ε β} (hx : Returns x)
    (hf : ∀ a, x = .ok a → Returns (f a)) : Returns (x >>= f) := by
  cases x with
  | ok a => exact hf a rfl
  | error e => exact error_iff.1 hx

/-- A sequence returns exactly if its first part does, and the rest does where it is reached. -/
theorem bind_iff {x : Result ε α} {f : α → Result ε β} :
    Returns (x >>= f) ↔ Returns x ∧ ∀ a, x = .ok a → Returns (f a) := by
  refine ⟨fun h => ?_, fun h => bind h.1 h.2⟩
  cases x with
  | ok a =>
    refine ⟨trivial, fun b hb => ?_⟩
    rw [← Except.ok.inj hb]
    exact h
  | error e => exact ⟨error_iff.1 h, fun a ha => nomatch ha⟩

theorem usizeAdd_iff {a b : Nat} : Returns (usizeAdd a b : Result ε Nat) ↔ a + b < usizeSize := by
  unfold usizeAdd
  split
  · rename_i h
    exact iff_of_true trivial h
  · rename_i h
    exact iff_of_false id h

theorem usizeSub_iff {a b : Nat} : Returns (usizeSub a b : Result ε Nat) ↔ b ≤ a := by
  unfold usizeSub
  split
  · rename_i h
    exact iff_of_true trivial h
  · rename_i h
    exact iff_of_false id h

theorem withCapacity_iff {n : Nat} :
    Returns (withCapacity n : Result ε Unit) ↔ n < isizeSize := by
  unfold withCapacity
  split
  · rename_i h
    exact iff_of_true trivial h
  · rename_i h
    exact iff_of_false id h

theorem range_iff {l : List α} {a b : Nat} :
    Returns (range l a b : Result ε (List α)) ↔ a ≤ b ∧ b ≤ l.length := by
  unfold range
  split
  · rename_i h
    exact iff_of_true trivial h
  · rename_i h
    exact iff_of_false id h

/-- A loop returns if its rounds do. -/
theorem foldlM {f : β → α → Result ε β} :
    ∀ {l : List α} (b : β), (∀ b, ∀ a ∈ l, Returns (f b a)) → Returns (l.foldlM f b)
  | [], _, _ => trivial
  | a :: l, b, h => by
    rw [List.foldlM_cons]
    exact bind (h b a (.head _)) fun c _ => foldlM c fun d e he => h d e (.tail _ he)

/-- A loop whose rounds give a value on the inputs in `C`, and do not return on the others, returns
exactly if all its inputs are in `C`. -/
theorem foldlM_iff {f : β → α → Result ε β} {C : α → Prop} :
    ∀ {l : List α} (b : β), (∀ b, ∀ a ∈ l, C a → ∃ b', f b a = .ok b') →
      (∀ b, ∀ a ∈ l, ¬ C a → ¬ Returns (f b a)) → (Returns (l.foldlM f b) ↔ ∀ a ∈ l, C a)
  | [], _, _, _ => iff_of_true trivial fun _ h => nomatch h
  | a :: l, b, hok, hbad => by
    rw [List.foldlM_cons, bind_iff, List.forall_mem_cons]
    have ih : ∀ b, Returns (l.foldlM f b) ↔ ∀ a ∈ l, C a := fun b =>
      foldlM_iff b (fun b a ha => hok b a (.tail _ ha)) fun b a ha => hbad b a (.tail _ ha)
    constructor
    · rintro ⟨hret, hrest⟩
      have hC : C a := by
        by_contra hno
        exact hbad b a (.head _) hno hret
      obtain ⟨b', hb'⟩ := hok b a (.head _) hC
      exact ⟨hC, (ih b').1 (hrest b' hb')⟩
    · rintro ⟨hC, hrest⟩
      obtain ⟨b', hb'⟩ := hok b a (.head _) hC
      exact ⟨hb' ▸ trivial, fun c _ => (ih c).2 hrest⟩

end Returns

theorem usizeMul_of_lt {a b : Nat} (h : a * b < usizeSize) :
    (usizeMul a b : Result ε Nat) = .ok (a * b) := by
  simp [usizeMul, h]

theorem usizeDiv_of_pos {a b : Nat} (h : 0 < b) : (usizeDiv a b : Result ε Nat) = .ok (a / b) :=
  if_neg (Nat.ne_of_gt h)

theorem range_of_le {l : List α} {a b : Nat} (h : a ≤ b) (h' : b ≤ l.length) :
    (range l a b : Result ε (List α)) = .ok ((l.take b).drop a) :=
  if_pos ⟨h, h'⟩

theorem withCapacity_of_lt {n : Nat} (h : n < isizeSize) :
    (withCapacity n : Result ε Unit) = .ok () :=
  if_pos h

/-- A loop whose every round gives a value collects the values. -/
theorem mapM_ok {f : α → Except ε β} {g : α → β} :
    ∀ {l : List α}, (∀ a ∈ l, f a = .ok (g a)) → l.mapM f = .ok (l.map g)
  | [], _ => rfl
  | a :: l, h => by
    rw [List.mapM_cons, h a (.head _), mapM_ok fun b hb => h b (.tail _ hb)]
    rfl

/-- A loop whose every round gives a value is the loop on these values. -/
theorem foldlM_ok {f : β → α → Except ε β} {g : β → α → β} :
    ∀ {l : List α} (b : β), (∀ b, ∀ a ∈ l, f b a = .ok (g b a)) → l.foldlM f b = .ok (l.foldl g b)
  | [], _, _ => rfl
  | a :: l, b, h => by
    rw [List.foldlM_cons, h b a (.head _)]
    exact foldlM_ok (g b a) fun b c hc => h b c (.tail _ hc)

/-- A loop whose every round gives a value gives one. -/
theorem foldlM_exists {f : β → α → Except ε β} (h : ∀ b a, ∃ b', f b a = .ok b') :
    ∀ (l : List α) (b : β), ∃ b', l.foldlM f b = .ok b'
  | [], b => ⟨b, rfl⟩
  | a :: l, b => by
    obtain ⟨c, hc⟩ := h b a
    rw [List.foldlM_cons, hc]
    exact foldlM_exists h l c

/-- What every round of a loop keeps. -/
theorem foldlM_induction {P : β → Prop} {f : β → α → Except ε β}
    (hstep : ∀ b a b', P b → f b a = .ok b' → P b') :
    ∀ {l : List α} {b b' : β}, P b → l.foldlM f b = .ok b' → P b'
  | [], b, b', hb, h => by
    cases h
    exact hb
  | a :: l, b, b', hb, h => by
    rw [List.foldlM_cons] at h
    obtain ⟨c, hc, h⟩ := bind_eq_ok h
    exact foldlM_induction hstep (hstep b a c hb hc) h

/-- The rounds of a loop that gives a value. -/
theorem mapM_eq_ok {f : α → Except ε β} :
    ∀ {l : List α} {out : List β}, l.mapM f = .ok out → List.Forall₂ (fun a b => f a = .ok b) l out
  | [], out, h => by
    cases h
    exact .nil
  | a :: l, out, h => by
    rw [List.mapM_cons] at h
    obtain ⟨b, hb, h⟩ := bind_eq_ok h
    obtain ⟨rest, hrest, h⟩ := bind_eq_ok h
    cases h
    exact .cons hb (mapM_eq_ok hrest)

end Rust
