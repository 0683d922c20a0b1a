import Mathlib.Data.List.Basic

/-!
# Lists cut into pieces of one length

`cut n l`: the pieces of `l` of length `n`, the last one possibly shorter.

* `cut_flatten`: pieces of length `n` are the first pieces.
* `flatten_cut`: the pieces joined are the list.
* `segment_piece`: a segment of the list is read piece by piece.
-/

namespace Chunks

variable {α : Type}

def cut (n : Nat) (l : List α) : List (List α) :=
  (List.range ((l.length + n - 1) / n)).map fun i => (l.drop (i * n)).take n

theorem length_cut (n : Nat) (l : List α) : (cut n l).length = (l.length + n - 1) / n := by
  simp [cut]

@[simp] theorem cut_nil {n : Nat} (hn : 0 < n) : cut n ([] : List α) = [] := by
  rw [cut, show (([] : List α).length + n - 1) / n = 0 from Nat.div_eq_of_lt (by simp; omega)]
  rfl

theorem cut_of_le {n : Nat} {l : List α} (h : l ≠ []) (hn : l.length ≤ n) : cut n l = [l] := by
  have hpos := List.length_pos_iff.2 h
  have hcount : (l.length + n - 1) / n = 1 := by
    rw [Nat.div_eq_iff (by omega)]
    omega
  rw [cut, hcount]
  simp [List.take_of_length_le hn]

/-- The first piece. -/
theorem cut_append {n : Nat} {b : List α} (hn : 0 < n) (hb : b.length = n) (l : List α) :
    cut n (b ++ l) = b :: cut n l := by
  have hcount : ((b ++ l).length + n - 1) / n = (l.length + n - 1) / n + 1 := by
    rw [List.length_append, hb, show n + l.length + n - 1 = (l.length + n - 1) + n by omega,
      Nat.add_div_right _ hn]
  rw [cut, hcount, List.range_succ_eq_map, List.map_cons, List.map_map]
  congr 1
  · rw [Nat.zero_mul, List.drop_zero, List.take_left' hb]
  · apply List.map_congr_left
    intro i _
    show ((b ++ l).drop ((i + 1) * n)).take n = _
    rw [Nat.succ_mul, Nat.add_comm, ← List.drop_drop, List.drop_left' hb]

theorem cut_flatten {n : Nat} (hn : 0 < n) (rest : List α) :
    ∀ {bs : List (List α)}, (∀ b ∈ bs, b.length = n) →
      cut n (bs.flatten ++ rest) = bs ++ cut n rest
  | [], _ => rfl
  | b :: bs, h => by
    rw [List.flatten_cons, List.append_assoc, cut_append hn (h b List.mem_cons_self),
      cut_flatten hn rest fun b' hb' => h b' (List.mem_cons_of_mem b hb'), List.cons_append]

/-- **The pieces joined are the list.** -/
theorem flatten_cut {n : Nat} (hn : 0 < n) (l : List α) : (cut n l).flatten = l := by
  induction hl : l.length using Nat.strongRecOn generalizing l with
  | ind m ih =>
    by_cases h0 : l = []
    · rw [h0, cut_nil hn]
      rfl
    · by_cases hle : l.length ≤ n
      · rw [cut_of_le h0 hle]
        simp
      · have htake : (l.take n).length = n := by
          rw [List.length_take]
          omega
        have hdrop : (cut n (l.drop n)).flatten = l.drop n :=
          ih (l.drop n).length (by rw [List.length_drop]; omega) _ rfl
        have hcut : cut n l = l.take n :: cut n (l.drop n) := by
          rw [← cut_append hn htake, List.take_append_drop]
        rw [hcut, List.flatten_cons, hdrop, List.take_append_drop]

theorem getElem_cut {n : Nat} {l : List α} {k : Nat} (hk : k < (cut n l).length) :
    (cut n l)[k] = (l.drop (k * n)).take n := by
  simp [cut]

/-- No piece is empty or too long. -/
theorem length_of_mem_cut {n : Nat} (hn : 0 < n) {l b : List α} (hb : b ∈ cut n l) :
    b ≠ [] ∧ b.length ≤ n := by
  obtain ⟨k, hk, rfl⟩ := List.getElem_of_mem hb
  have hlt : k < (l.length + n - 1) / n := length_cut n l ▸ hk
  have hle := (Nat.le_div_iff_mul_le hn).1 hlt
  rw [Nat.succ_mul] at hle
  rw [getElem_cut, ← List.length_pos_iff, List.length_take, List.length_drop]
  omega

/-- All pieces but the last have the full length. -/
theorem length_of_mem_dropLast {n : Nat} {l b : List α} (hb : b ∈ (cut n l).dropLast) :
    b.length = n := by
  obtain ⟨k, hk, rfl⟩ := List.getElem_of_mem hb
  rw [List.length_dropLast, length_cut] at hk
  have hn : 0 < n := by
    refine Nat.pos_of_ne_zero fun h0 => ?_
    simp [h0] at hk
  have hle := (Nat.le_div_iff_mul_le hn).1 (show k + 2 ≤ (l.length + n - 1) / n by omega)
  rw [Nat.add_mul] at hle
  rw [List.getElem_dropLast, getElem_cut, List.length_take, List.length_drop]
  omega

/-! ## Segments -/

/-- The elements from `a` on, before `b`. -/
def segment (l : List α) (a b : Nat) : List α := (l.take b).drop a

theorem length_segment (l : List α) {a b : Nat} (hb : b ≤ l.length) :
    (segment l a b).length = b - a := by
  rw [segment, List.length_drop, List.length_take, Nat.min_eq_left hb]

@[simp] theorem segment_of_le (l : List α) {a b : Nat} (h : b ≤ a) : segment l a b = [] :=
  List.drop_eq_nil_of_le (by
    rw [List.length_take]
    omega)

theorem segment_append (l : List α) {a b c : Nat} (hab : a ≤ b) (hbc : b ≤ c)
    (hb : b ≤ l.length) : segment l a b ++ segment l b c = segment l a c := by
  have hbc' : l.take c = l.take b ++ (l.take c).drop b := by
    conv_lhs => rw [← List.take_append_drop b (l.take c)]
    rw [List.take_take, Nat.min_eq_left hbc]
  unfold segment
  conv_rhs => rw [hbc', List.drop_append_of_le_length (by
    rw [List.length_take, Nat.min_eq_left hb]
    exact hab)]

/-- A segment of a segment. -/
theorem segment_segment (l : List α) {a b c d : Nat} (h : a + d ≤ b) :
    segment (segment l a b) c d = segment l (a + c) (a + d) := by
  unfold segment
  rw [List.take_drop, List.drop_drop, List.take_take, Nat.min_eq_left h]

/-- A piece is a segment. -/
theorem piece_eq_segment {n : Nat} {l : List α} {k : Nat} (hk : k < (cut n l).length) :
    (cut n l)[k] = segment l (k * n) (min ((k + 1) * n) l.length) := by
  rw [getElem_cut, segment, ← List.take_eq_take_min, List.take_drop, Nat.succ_mul]

/-! A segment from `start` to `stop` read piece by piece, from the `start / n`-th piece to the
`(stop - 1) / n`-th. -/

section
variable {n start stop : Nat} {l : List α} {k : Nat}

/-- How far the segment has been read before the `k`-th piece. -/
def reached (n start stop k : Nat) : Nat := max start (min stop (k * n))

theorem le_reached (n start stop k : Nat) : start ≤ reached n start stop k := Nat.le_max_left _ _

theorem reached_of_eq (hlt : start < stop) (hk : k = start / n) :
    k * n ≤ start ∧ reached n start stop k = start := by
  have := Nat.div_mul_le_self start n
  unfold reached
  subst hk
  omega

theorem reached_of_ne (hn : 0 < n) (hfirst : start / n ≤ k) (hlast : k ≤ (stop - 1) / n)
    (hk : k ≠ start / n) : reached n start stop k = k * n := by
  have hstart : start < k * n := (Nat.div_lt_iff_lt_mul hn).1 (by omega)
  have hstop := (Nat.le_div_iff_mul_le hn).1 hlast
  unfold reached
  omega

theorem reached_succ_of_eq (hn : 0 < n) (hlt : start < stop) (hk : k = (stop - 1) / n) :
    k * n ≤ stop ∧ reached n start stop (k + 1) = stop := by
  have hstop : stop - 1 < (k + 1) * n := (Nat.div_lt_iff_lt_mul hn).1 (by omega)
  have hle := (Nat.le_div_iff_mul_le hn).1 (Nat.le_of_eq hk)
  unfold reached
  omega

theorem reached_succ_of_ne (hn : 0 < n) (hfirst : start / n ≤ k) (hlast : k ≤ (stop - 1) / n)
    (hk : k ≠ (stop - 1) / n) :
    reached n start stop (k + 1) = (k + 1) * n ∧ (k + 1) * n < stop := by
  have hstart : start < (k + 1) * n := (Nat.div_lt_iff_lt_mul hn).1 (by omega)
  have hstop : (k + 1) * n ≤ stop - 1 := (Nat.le_div_iff_mul_le hn).1 (by omega)
  unfold reached
  omega

/-- The pieces that the segment overlaps are there. -/
theorem lt_length_cut (hn : 0 < n) (hlt : start < stop) (hstop : stop ≤ l.length)
    (hlast : k ≤ (stop - 1) / n) : k < (cut n l).length := by
  have := (Nat.le_div_iff_mul_le hn).1 hlast
  rw [length_cut, Nat.lt_iff_add_one_le, Nat.le_div_iff_mul_le hn, Nat.add_mul, Nat.one_mul]
  omega

/-- What the segment has from the `k`-th piece. -/
theorem segment_piece (hn : 0 < n) (hlt : start < stop) (hstop : stop ≤ l.length)
    (hfirst : start / n ≤ k) (hlast : k ≤ (stop - 1) / n) (hk : k < (cut n l).length) :
    k * n ≤ reached n start stop k ∧
    reached n start stop k ≤ reached n start stop (k + 1) ∧
    reached n start stop (k + 1) ≤ k * n + (cut n l)[k].length ∧
    segment (cut n l)[k] (reached n start stop k - k * n) (reached n start stop (k + 1) - k * n) =
      segment l (reached n start stop k) (reached n start stop (k + 1)) := by
  have hsucc : (k + 1) * n = k * n + n := Nat.succ_mul k n
  have hstart : start < (k + 1) * n := (Nat.div_lt_iff_lt_mul hn).1 (by omega)
  have hbelow : k * n ≤ stop - 1 := (Nat.le_div_iff_mul_le hn).1 hlast
  have hle : k * n ≤ reached n start stop k := by
    unfold reached
    omega
  have hmono : reached n start stop k ≤ reached n start stop (k + 1) := by
    unfold reached
    omega
  have hmax : reached n start stop (k + 1) ≤ min ((k + 1) * n) l.length := by
    unfold reached
    omega
  refine ⟨hle, hmono, ?_, ?_⟩
  · rw [piece_eq_segment, length_segment l (Nat.min_le_right _ _)]
    omega
  · rw [piece_eq_segment, segment_segment l (by omega), Nat.add_sub_cancel' hle,
      Nat.add_sub_cancel' (Nat.le_trans hle hmono)]

end

end Chunks
