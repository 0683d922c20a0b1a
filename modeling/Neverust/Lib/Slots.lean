import Mathlib.Data.List.Basic

/-!
# Filling slots in any order

Results that arrive in any order are written into slots by their index. If every result for an
index is the same, the slots depend on which indices have arrived only.

* `getElem?_place`: what a slot holds.
* `place_eq_map`: slots that are all filled.
-/

namespace Slots

variable {α : Type}

/-- Each result into the slot of its index. -/
def place (slots : List (Option α)) (results : List (Nat × α)) : List (Option α) :=
  results.foldl (fun s p => s.set p.1 (some p.2)) slots

theorem place_cons (slots : List (Option α)) (p : Nat × α) (results : List (Nat × α)) :
    place slots (p :: results) = place (slots.set p.1 (some p.2)) results := rfl

theorem place_flatten (slots : List (Option α)) (batches : List (List (Nat × α))) :
    batches.foldl place slots = place slots batches.flatten := by
  rw [place, List.foldl_flatten]
  rfl

@[simp] theorem length_place :
    ∀ (results : List (Nat × α)) (slots : List (Option α)),
      (place slots results).length = slots.length
  | [], _ => rfl
  | p :: results, slots => by
    rw [place_cons, length_place results, List.length_set]

/-- A slot holds the result for its index if that has arrived, else what it held. -/
theorem getElem?_place (g : Nat → α) {i : Nat} :
    ∀ (results : List (Nat × α)) (slots : List (Option α)), (∀ p ∈ results, p.2 = g p.1) →
      i < slots.length →
      (place slots results)[i]? =
        if i ∈ results.map Prod.fst then some (some (g i)) else slots[i]?
  | [], slots, _, _ => by simp [place]
  | p :: results, slots, hg, hi => by
    have hp := hg p List.mem_cons_self
    rw [place_cons, getElem?_place g results _ (fun q hq => hg q (List.mem_cons_of_mem p hq))
      (by rw [List.length_set]; exact hi), List.map_cons]
    by_cases hmem : i ∈ results.map Prod.fst
    · rw [if_pos hmem, if_pos (List.mem_cons_of_mem _ hmem)]
    · rw [if_neg hmem]
      by_cases hip : i = p.1
      · rw [if_pos (by rw [hip]; exact List.mem_cons_self), hip, List.getElem?_set_self (hip ▸ hi), hp]
      · rw [if_neg (by rw [List.mem_cons]; exact fun h => h.elim hip hmem),
          List.getElem?_set_ne (Ne.symm hip)]

/-- If every index has arrived, the slots hold the results in the order of the indices. -/
theorem place_eq_map {xs : List α} {results : List (Nat × α)} {slots : List (Option α)}
    (hlen : slots.length = xs.length) (hres : ∀ p ∈ results, xs[p.1]? = some p.2)
    (hall : ∀ i < xs.length, i ∈ results.map Prod.fst) :
    place slots results = xs.map some := by
  apply List.ext_getElem?
  intro i
  by_cases hi : i < xs.length
  · have hg : ∀ p ∈ results, p.2 = xs.getD p.1 xs[i] := by
      intro p hp
      rw [List.getD_eq_getElem?_getD, hres p hp, Option.getD_some]
    rw [getElem?_place (fun j => xs.getD j xs[i]) results slots hg (by omega), if_pos (hall i hi), List.getElem?_map,
      List.getD_eq_getElem?_getD, List.getElem?_eq_getElem hi, Option.getD_some, Option.map_some]
  · rw [List.getElem?_eq_none (by rw [length_place]; omega),
      List.getElem?_eq_none (by rw [List.length_map]; omega)]

end Slots
