import Mathlib.Data.List.Sort
import Mathlib.Order.Basic

/-!
# The first `k` of a ranking

`rank key l`: the elements of `l` by ascending key. `top key k l`: the first `k` of them. Where the
keys tell the elements apart, a ranking is the only sorted permutation, so it does not depend on
the order of the list (`rank_perm_eq`), and an element leaves it by `List.erase` (`rank_erase`).

* `top_erase_of_not_mem`, `top_erase_of_mem`: the first `k` without one element.
* `top_eq_top_iff`: when two rankings have the same first `k`.
* `displaced_le_one`: one more element pushes out at most one of the first `k`.
-/

namespace Ranking

section
variable {α : Type} [DecidableEq α] {x : α}

theorem take_erase_of_not_mem : ∀ {k : Nat} {l : List α}, x ∉ l.take k →
    (l.erase x).take k = l.take k
  | 0, _, _ => by rw [List.take_zero, List.take_zero]
  | _ + 1, [], _ => rfl
  | k + 1, a :: l, h => by
    rw [List.take_succ_cons, List.mem_cons, not_or] at h
    rw [List.erase_cons_tail (by simpa using Ne.symm h.1), List.take_succ_cons, List.take_succ_cons,
      take_erase_of_not_mem h.2]

theorem take_erase_of_mem : ∀ {k : Nat} {l : List α}, x ∈ l.take k →
    (l.erase x).take k = (l.take (k + 1)).erase x
  | 0, l, h => by
    rw [List.take_zero] at h
    cases h
  | _ + 1, [], h => nomatch h
  | k + 1, a :: l, h => by
    by_cases hx : a = x
    · subst hx
      rw [List.erase_cons_head, List.take_succ_cons, List.erase_cons_head]
    · have hmem : x ∈ l.take k := by
        rw [List.take_succ_cons, List.mem_cons] at h
        exact h.resolve_left (Ne.symm hx)
      rw [List.erase_cons_tail (by simpa using hx), List.take_succ_cons, List.take_succ_cons,
        List.erase_cons_tail (by simpa using hx), take_erase_of_mem hmem]

end

variable {α κ : Type} [LinearOrder κ] (key : α → κ)

/-- The elements by ascending key. -/
def rank (l : List α) : List α := l.mergeSort fun a b => decide (key a ≤ key b)

/-- The first `k` elements by ascending key. -/
def top (k : Nat) (l : List α) : List α := (rank key l).take k

theorem rank_perm (l : List α) : (rank key l).Perm l := List.mergeSort_perm l _

theorem rank_sorted (l : List α) : (rank key l).Pairwise fun a b => key a ≤ key b := by
  have h := @List.pairwise_mergeSort α (fun a b => decide (key a ≤ key b))
    (fun a b c hab hbc => by
      rw [decide_eq_true_eq] at hab hbc ⊢
      exact le_trans hab hbc)
    (fun a b => by
      rw [Bool.or_eq_true, decide_eq_true_eq, decide_eq_true_eq]
      exact le_total _ _) l
  exact h.imp fun hab => of_decide_eq_true hab

variable {key} {l l' : List α} {k : Nat}

omit [LinearOrder κ] in
/-- Keys that tell the elements of a list apart. -/
theorem eq_of_key_eq (hl : (l.map key).Nodup) {a b : α} (ha : a ∈ l) (hb : b ∈ l)
    (h : key a = key b) : a = b :=
  List.inj_on_of_nodup_map hl ha hb h

/-- **A ranking is the only sorted permutation.** -/
theorem eq_rank (hl : (l.map key).Nodup) (hp : l'.Perm l)
    (hs : l'.Pairwise fun a b => key a ≤ key b) : l' = rank key l := by
  refine List.Perm.eq_of_pairwise (fun a b ha hb hab hba => ?_) hs (rank_sorted key l)
    (hp.trans (rank_perm key l).symm)
  exact eq_of_key_eq hl (hp.mem_iff.1 ha) ((rank_perm key l).mem_iff.1 hb) (le_antisymm hab hba)

theorem rank_perm_eq (hl : (l.map key).Nodup) (hp : l'.Perm l) : rank key l' = rank key l :=
  eq_rank hl ((rank_perm key l').trans hp) (rank_sorted key l')

theorem top_perm (hl : (l.map key).Nodup) (hp : l'.Perm l) : top key k l' = top key k l := by
  rw [top, top, rank_perm_eq hl hp]

theorem length_top : (top key k l).length = min k l.length := by
  rw [top, List.length_take, (rank_perm key l).length_eq]

theorem mem_of_mem_top {x : α} (h : x ∈ top key k l) : x ∈ l :=
  (rank_perm key l).mem_iff.1 (List.mem_of_mem_take h)

theorem top_nodup (hl : l.Nodup) : (top key k l).Nodup :=
  ((rank_perm key l).nodup_iff.2 hl).sublist (List.take_sublist k _)

theorem top_prefix_succ : top key k l <+: top key (k + 1) l :=
  List.take_prefix_take_left (Nat.le_succ k)

/-- An element is among the first `k` when fewer than `k` elements come before it. -/
theorem mem_top_iff (hl : (l.map key).Nodup) {a : α} (ha : a ∈ l) :
    a ∈ top key k l ↔ l.countP (fun c => decide (key c < key a)) < k := by
  rw [← (rank_perm key l).countP_eq, top]
  have hl' : ((rank key l).map key).Nodup := ((rank_perm key l).map key).nodup_iff.2 hl
  have hs := rank_sorted key l
  obtain ⟨before, after, hsplit⟩ := List.append_of_mem ((rank_perm key l).mem_iff.2 ha)
  rw [hsplit] at hl' hs ⊢
  rw [List.map_append, List.map_cons, List.nodup_append] at hl'
  obtain ⟨-, hs', hbefore⟩ := List.pairwise_append.1 hs
  have hafter := (List.pairwise_cons.1 hs').1
  have hlt : ∀ c ∈ before, key c < key a := fun c hc =>
    lt_of_le_of_ne (hbefore c hc a (by simp))
      (hl'.2.2 _ (List.mem_map_of_mem hc) _ (by simp))
  have hcount : (before ++ a :: after).countP (fun c => decide (key c < key a)) = before.length := by
    rw [List.countP_append, List.countP_cons, List.countP_eq_length.2 (by simpa using hlt),
      List.countP_eq_zero.2 (by simpa using hafter)]
    simp
  have hnot : a ∉ before := fun hmem => lt_irrefl _ (hlt a hmem)
  rw [hcount]
  constructor
  · intro hmem
    by_contra hle
    rw [List.take_append_of_le_length (Nat.le_of_not_lt hle)] at hmem
    exact hnot (List.mem_of_mem_take hmem)
  · intro hk
    rw [List.take_append, List.mem_append]
    obtain ⟨m, hm⟩ := Nat.exists_eq_add_of_lt hk
    refine .inr ?_
    rw [hm, show before.length + m + 1 - before.length = m + 1 by omega, List.take_succ_cons]
    exact List.mem_cons_self

/-- **When two rankings have the same first `k`**: each of the first `k` of the one comes in the
other before all that it comes before. -/
theorem top_eq_top_iff {κ' : Type} [LinearOrder κ'] {key' : α → κ'} (hl : (l.map key).Nodup)
    (hl' : (l.map key').Nodup) : top key k l = top key' k l ↔
      ∀ a ∈ top key k l, ∀ b ∈ l, key a < key b → key' a ≤ key' b := by
  have hsplit : top key k l ++ (rank key l).drop k = rank key l := List.take_append_drop k _
  constructor
  · intro heq a ha b hb hlt
    have hs : (top key k l ++ (rank key' l).drop k).Pairwise fun a b => key' a ≤ key' b := by
      rw [heq, top, List.take_append_drop]
      exact rank_sorted key' l
    have hmem : b ∈ top key k l ++ (rank key' l).drop k := by
      rw [heq, top, List.take_append_drop]
      exact (rank_perm key' l).mem_iff.2 hb
    obtain ⟨hs₁, -, hcross⟩ := List.pairwise_append.1 hs
    obtain hb | hb := List.mem_append.1 hmem
    · -- both are among the first: what comes after in one ranking comes after in the other
      obtain ⟨before, after, hat⟩ := List.append_of_mem ha
      have hs₂ : (top key k l).Pairwise fun a b => key a ≤ key b :=
        (rank_sorted key l).sublist (List.take_sublist k _)
      rw [hat] at hs₁ hs₂ hb
      obtain hb | hb := List.mem_append.1 hb
      · exact absurd ((List.pairwise_append.1 hs₂).2.2 b hb a (by simp)) (not_le.2 hlt)
      · obtain rfl | hb := List.mem_cons.1 hb
        · exact le_refl _
        · exact (List.pairwise_cons.1 (List.pairwise_append.1 hs₁).2.1).1 b hb
    · exact hcross a ha b hb
  · intro h
    have hs := rank_sorted key l
    rw [← hsplit] at hs
    obtain ⟨hs₁, -, hcross⟩ := List.pairwise_append.1 hs
    have hnodup : ((top key k l ++ (rank key l).drop k).map key).Nodup := by
      rw [hsplit]
      exact ((rank_perm key l).map key).nodup_iff.2 hl
    rw [List.map_append, List.nodup_append] at hnodup
    have hin : ∀ c ∈ (rank key l).drop k, c ∈ l := fun c hc =>
      (rank_perm key l).mem_iff.1 (List.mem_of_mem_drop hc)
    have hperm : (top key k l ++ rank key' ((rank key l).drop k)).Perm l := by
      refine ((rank_perm key' _).append_left _).trans ?_
      rw [hsplit]
      exact rank_perm key l
    have hsorted : (top key k l ++ rank key' ((rank key l).drop k)).Pairwise
        fun a b => key' a ≤ key' b := by
      refine List.pairwise_append.2 ⟨?_, rank_sorted key' _, fun a ha b hb => ?_⟩
      · refine (hs₁.and (List.pairwise_map.1 hnodup.1)).imp_of_mem fun ha hb hab => ?_
        exact h _ ha _ (mem_of_mem_top hb) (lt_of_le_of_ne hab.1 hab.2)
      · have hb := (rank_perm key' _).mem_iff.1 hb
        exact h a ha b (hin b hb) (lt_of_le_of_ne (hcross a ha b hb)
          (hnodup.2.2 _ (List.mem_map_of_mem ha) _ (List.mem_map_of_mem hb)))
    have hlen : (top key k l).length = min k l.length := length_top
    have htop' : top key' k l = (top key k l ++ rank key' ((rank key l).drop k)).take k := by
      rw [eq_rank hl' hperm hsorted, top]
    rw [htop']
    by_cases hk : k ≤ l.length
    · rw [List.take_append_of_le_length (by omega), List.take_of_length_le (by omega)]
    · have hdrop : (rank key l).drop k = [] := List.drop_eq_nil_of_le (by
        rw [(rank_perm key l).length_eq]
        omega)
      rw [hdrop, rank, List.mergeSort_nil, List.append_nil, List.take_of_length_le (by omega)]

variable [DecidableEq α] {x : α}

omit [LinearOrder κ] in
theorem nodup_map_erase (hl : (l.map key).Nodup) : ((l.erase x).map key).Nodup :=
  hl.sublist (List.erase_sublist.map key)

theorem rank_erase (hl : (l.map key).Nodup) : rank key (l.erase x) = (rank key l).erase x :=
  (eq_rank (nodup_map_erase hl) ((rank_perm key l).erase x)
    ((rank_sorted key l).sublist List.erase_sublist)).symm

/-- Without an element that is not among the first `k`, these stay. -/
theorem top_erase_of_not_mem (hl : (l.map key).Nodup) (hx : x ∉ top key k l) :
    top key k (l.erase x) = top key k l := by
  rw [top, rank_erase hl]
  exact take_erase_of_not_mem hx

/-- Without one of the first `k`, the next element comes in at the end. -/
theorem top_erase_of_mem (hl : (l.map key).Nodup) (hx : x ∈ top key k l) :
    top key k (l.erase x) = (top key (k + 1) l).erase x := by
  rw [top, rank_erase hl]
  exact take_erase_of_mem hx

theorem prefix_top_erase (hl : (l.map key).Nodup) (hx : x ∈ top key k l) :
    (top key k l).erase x <+: top key k (l.erase x) := by
  rw [top_erase_of_mem hl hx]
  obtain ⟨rest, hrest⟩ := @top_prefix_succ α κ _ key l k
  rw [← hrest, List.erase_append_left _ hx]
  exact List.prefix_append _ _

/-- The first `k + 1` have at most one element more than the first `k`. -/
theorem filter_top_succ : ((top key (k + 1) l).filter (· ∉ top key k l)).length ≤ 1 := by
  obtain ⟨rest, hrest⟩ := @top_prefix_succ α κ _ key l k
  have hlen : rest.length ≤ 1 := by
    have h1 := congrArg List.length hrest
    rw [List.length_append, length_top, length_top] at h1
    omega
  have hnil : (top key k l).filter (· ∉ top key k l) = [] := by
    rw [List.filter_eq_nil_iff]
    intro a ha
    simpa using ha
  rw [← hrest, List.filter_append, hnil, List.nil_append]
  exact Nat.le_trans (List.length_filter_le _ _) hlen

/-- **One more element pushes out at most one** of the first `k`. -/
theorem displaced_le_one {y : α} (hl : ((y :: l).map key).Nodup) :
    ((top key k l).filter (· ∉ top key k (y :: l))).length ≤ 1 := by
  have herase : (y :: l).erase y = l := List.erase_cons_head _ _
  by_cases hy : y ∈ top key k (y :: l)
  · have heq := top_erase_of_mem hl hy
    rw [herase] at heq
    rw [heq]
    exact Nat.le_trans ((List.erase_sublist.filter _).length_le) filter_top_succ
  · have heq := top_erase_of_not_mem hl hy
    rw [herase] at heq
    have hnil : (top key k l).filter (· ∉ top key k (y :: l)) = [] := by
      rw [heq, List.filter_eq_nil_iff]
      intro a ha
      simpa using ha
    rw [hnil]
    exact Nat.zero_le _

end Ranking
