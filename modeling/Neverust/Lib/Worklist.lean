import Mathlib.Data.List.Count
import Mathlib.Logic.Relation

/-!
# Worklist searches

A search keeps the points it has seen and a list of those whose successors it has not looked at.
`Inv`: what it has seen is reachable from the root, and a seen point that is not on the list has all
its successors seen. With the list empty, the seen points are exactly the reachable ones
(`Inv.seen_iff`).

`left`: the edges with unseen targets. Every point that is put on the list is the target of one of
them, so their number and the length of the list bound the rounds that are left.
-/

namespace Worklist

open Relation

variable {α β : Type} {E : α → α → Prop} {root : α} {seen seen' : α → Prop} {todo : List α}

/-- The points `seen` so far, of which those in `todo` still have to be expanded. -/
structure Inv (E : α → α → Prop) (root : α) (seen : α → Prop) (todo : List α) : Prop where
  seen_root : seen root
  sound : ∀ a, seen a → ReflTransGen E root a
  todo_seen : ∀ a ∈ todo, seen a
  closed : ∀ a, seen a → a ∉ todo → ∀ b, E a b → seen b

theorem Inv.init (E : α → α → Prop) (root : α) : Inv E root (· = root) [root] where
  seen_root := rfl
  sound a ha := ha ▸ .refl
  todo_seen := by simp
  closed := by simp

/-- The next point is expanded: all its successors are seen, and the new ones are to be expanded. -/
theorem Inv.expand {a : α} {new : List α} (h : Inv E root seen (a :: todo))
    (hseen : ∀ b, seen' b ↔ seen b ∨ b ∈ new) (hnew : ∀ b ∈ new, E a b)
    (hall : ∀ b, E a b → seen' b) : Inv E root seen' (todo ++ new) where
  seen_root := (hseen root).2 (.inl h.seen_root)
  sound b hb := by
    obtain hb | hb := (hseen b).1 hb
    · exact h.sound b hb
    · exact (h.sound a (h.todo_seen a (by simp))).tail (hnew b hb)
  todo_seen b hb := by
    obtain hb | hb := List.mem_append.1 hb
    · exact (hseen b).2 (.inl (h.todo_seen b (by simp [hb])))
    · exact (hseen b).2 (.inr hb)
  closed b hb hmem c hbc := by
    obtain ⟨htodo, hnot⟩ := not_or.1 (mt List.mem_append.2 hmem)
    have hb := ((hseen b).1 hb).resolve_right hnot
    by_cases heq : b = a
    · exact hall c (heq ▸ hbc)
    · exact (hseen c).2 (.inl (h.closed b hb (by simp [heq, htodo]) c hbc))

/-- **A search whose list is empty has seen exactly the reachable points.** -/
theorem Inv.seen_iff (h : Inv E root seen []) (a : α) : seen a ↔ ReflTransGen E root a := by
  refine ⟨h.sound a, fun hreach => ?_⟩
  induction hreach with
  | refl => exact h.seen_root
  | tail _ hbc ih => exact h.closed _ ih (by simp) _ hbc

/-- The edges whose targets are not seen. -/
def left (target : β → α) (seen : α → Bool) (edges : List β) : Nat :=
  edges.countP fun e => !seen (target e)

/-- An edge whose target is seen from now on bounds the work that is left. -/
theorem left_lt {target : β → α} {before after : α → Bool} {edges : List β} {e : β}
    (he : e ∈ edges) (hmono : ∀ a, before a → after a) (hbefore : before (target e) = false)
    (hafter : after (target e)) : left target after edges < left target before edges := by
  obtain ⟨l, r, rfl⟩ := List.append_of_mem he
  have hle : ∀ l : List β, left target after l ≤ left target before l := fun l =>
    List.countP_mono_left fun x _ hx => by
      have := hmono (target x)
      cases hb : before (target x) <;> simp_all
  have hl := hle l
  have hr := hle r
  simp only [left, List.countP_append, List.countP_cons] at hl hr ⊢
  simp only [hbefore, hafter]
  simp
  omega

end Worklist
