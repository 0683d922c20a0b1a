import Mathlib.Data.List.Basic
import Mathlib.Data.List.Nodup

/-!
# The most recently used items

A history lists uses of items with their times, the newest first. `latest` keeps of each item its
last use; its first `n` elements are the `n` most recently used items.

* `take_filter_of_sorted`: of a list in which `p` fails from some point on, the first `n` that
  satisfy `p` are the ones that do among the first `n`.
* `take_filter_ne_of_mem`, `take_filter_ne_of_not_mem`: the first elements without one item.
-/

namespace Recent

variable {α : Type} [DecidableEq α]

/-- The last use of each item. -/
def latest : List (Nat × α) → List (Nat × α)
  | [] => []
  | (t, a) :: older => (t, a) :: (latest older).filter fun p => p.2 ≠ a

theorem latest_sublist : ∀ l : List (Nat × α), (latest l).Sublist l
  | [] => .slnil
  | _ :: older => (List.filter_sublist.trans (latest_sublist older)).cons_cons _

theorem latest_nodup : ∀ l : List (Nat × α), ((latest l).map Prod.snd).Nodup
  | [] => .nil
  | (t, a) :: older => by
    rw [latest, List.map_cons, List.nodup_cons]
    refine ⟨fun h => ?_, (latest_nodup older).sublist (List.filter_sublist.map _)⟩
    obtain ⟨p, hp, rfl⟩ := List.mem_map.1 h
    simp at hp

/-- The elements that satisfy `p` come first. -/
theorem take_filter_of_sorted {β : Type} {p : β → Bool} : ∀ {l : List β} (n : Nat),
    (l.Pairwise fun a b => p b → p a) → (l.take n).filter p = (l.filter p).take n
  | [], _, _ => by simp
  | _ :: _, 0, _ => by simp
  | a :: l, n + 1, h => by
    obtain ⟨ha, hl⟩ := List.pairwise_cons.1 h
    rw [List.take_succ_cons, List.filter_cons, List.filter_cons]
    split
    · rw [List.take_succ_cons, take_filter_of_sorted n hl]
    · rename_i hp
      have hnone : ∀ b ∈ l, ¬ p b := fun b hb hpb => hp (ha b hb hpb)
      rw [List.filter_eq_nil_iff.2 hnone, List.filter_eq_nil_iff.2 fun b hb =>
        hnone b (List.mem_of_mem_take hb), List.take_nil]

theorem take_filter_ne_of_not_mem {a : α} : ∀ {l : List (Nat × α)} {n : Nat},
    a ∉ (l.take n).map Prod.snd → (l.filter fun p => p.2 ≠ a).take n = l.take n
  | [], _, _ => by simp
  | _ :: _, 0, _ => by simp
  | p :: l, n + 1, h => by
    rw [List.take_succ_cons, List.map_cons, List.mem_cons, not_or] at h
    rw [List.filter_cons_of_pos (by simpa using Ne.symm h.1), List.take_succ_cons,
      List.take_succ_cons, take_filter_ne_of_not_mem h.2]

theorem take_filter_ne_of_mem {a : α} : ∀ {l : List (Nat × α)} {n : Nat},
    (l.map Prod.snd).Nodup → a ∈ (l.take (n + 1)).map Prod.snd →
      (l.filter fun p => p.2 ≠ a).take n = (l.take (n + 1)).filter fun p => p.2 ≠ a
  | [], _, _, h => by simp at h
  | p :: l, n, hnd, h => by
    rw [List.map_cons, List.nodup_cons] at hnd
    rw [List.take_succ_cons, List.map_cons, List.mem_cons] at h
    rw [List.take_succ_cons, List.filter_cons, List.filter_cons]
    by_cases hp : p.2 = a
    · -- the item is the first one, and it does not come again
      subst hp
      have hall : ∀ q ∈ l, q.2 ≠ p.2 := fun q hq heq => hnd.1 (heq ▸ List.mem_map_of_mem hq)
      have hself : ∀ {m : List (Nat × α)}, (∀ q ∈ m, q ∈ l) →
          (m.filter fun q => q.2 ≠ p.2) = m := fun hm =>
        List.filter_eq_self.2 fun q hq => by simpa using hall q (hm q hq)
      simp only [ne_eq, not_true_eq_false, decide_false, Bool.false_eq_true, if_false]
      rw [hself fun q hq => hq, hself fun q hq => List.mem_of_mem_take hq]
    · have hmem := h.resolve_left (Ne.symm hp)
      cases n with
      | zero => simp at hmem
      | succ n =>
        rw [if_pos (by simpa using hp), if_pos (by simpa using hp), List.take_succ_cons,
          take_filter_ne_of_mem hnd.2 hmem]

end Recent
