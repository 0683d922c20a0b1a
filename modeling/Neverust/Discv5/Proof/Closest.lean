import Mathlib.Data.Fintype.Card
import Mathlib.Data.List.Sort
import Mathlib.Data.Nat.Bitwise
import Neverust.Discv5.KBuckets

/-!
# The order of the buckets around a target

`closestBuckets_eq`: the buckets that a `ClosestBucketsIter` visits. `closestBuckets_pairwise`: every
node of a bucket is closer to the target than every node of a bucket that is visited later.
`closestBuckets_perm`: every bucket is visited once, and the first one twice when the distance of
the target to the local key is odd or 0.
-/

namespace Discv5

/-! ## A search that goes on behind its last hit -/

section
variable {α : Type} {r : α → α → Prop} [DecidableRel r] {p : α → Bool} {l : List α} {a : α}

/-- In a list in order, the hits are the first one and those behind it. -/
theorem filter_of_find (hr : ∀ a b, r a b → ¬ r b a) (hl : l.Pairwise r) (h : l.find? p = some a) :
    l.filter p = a :: (l.filter (r a ·)).filter p := by
  induction l with
  | nil => cases h
  | cons b l ih =>
    obtain ⟨hb, hl⟩ := List.pairwise_cons.1 hl
    by_cases hp : p b = true
    · rw [List.find?_cons_of_pos hp] at h
      obtain rfl := Option.some.inj h
      have hself : ¬ r b b := fun hs => hr b b hs hs
      have hrest : l.filter (r b ·) = l := List.filter_eq_self.2 fun c hc => decide_eq_true (hb c hc)
      rw [List.filter_cons_of_pos hp, List.filter_cons_of_neg (by simpa using hself), hrest]
    · rw [List.find?_cons_of_neg hp] at h
      have hab : ¬ r a b := hr b a (hb a (List.mem_of_find?_eq_some h))
      rw [List.filter_cons_of_neg hp, List.filter_cons_of_neg (by simpa using hab), ih hl h]

end

namespace ClosestBucketsIter

variable {d : Key} {i j : BucketIndex} {calls : Nat}

theorem mem_below : j ∈ below i ↔ j < i := by simp [below]

theorem mem_above : j ∈ above i ↔ i < j := by simp [above]

theorem above_pairwise : (above i).Pairwise (· < ·) :=
  (List.pairwise_lt_finRange numBuckets).sublist List.filter_sublist

theorem below_pairwise : (below i).Pairwise (· > ·) :=
  List.pairwise_reverse.2 ((List.pairwise_lt_finRange numBuckets).sublist List.filter_sublist)

theorem above_above (h : i < j) : (above i).filter (j < ·) = above j := by
  rw [above, List.filter_filter, above]
  refine List.filter_congr fun k _ => ?_
  rw [Bool.eq_iff_iff, Bool.and_eq_true, decide_eq_true_iff, decide_eq_true_iff]
  exact ⟨And.left, fun hk => ⟨hk, h.trans hk⟩⟩

theorem below_below (h : j < i) : (below i).filter (j > ·) = below j := by
  rw [below, List.filter_reverse, List.filter_filter, below]
  refine congrArg List.reverse (List.filter_congr fun k _ => ?_)
  rw [Bool.eq_iff_iff, Bool.and_eq_true, decide_eq_true_iff, decide_eq_true_iff]
  exact ⟨And.left, fun hk => ⟨hk, hk.trans h⟩⟩

/-- The buckets on the way out, from above `i`. -/
def outward (d : Key) (i : BucketIndex) : List BucketIndex := (above i).filter fun j => !bit d j

/-- The buckets on the way in, from below `i`. -/
def inward (d : Key) (i : BucketIndex) : List BucketIndex := (below i).filter fun j => bit d j

theorem next_zoomOut : next { distance := d, state := .zoomOut i } =
    ((above i).find? fun j => !bit d j).elim (none, { distance := d, state := .done })
      fun j => (some j, { distance := d, state := .zoomOut j }) := by
  simp only [next, nextOut]
  cases (above i).find? fun j => !bit d j with
  | none => rfl
  | some j => rfl

theorem next_zoomIn : next { distance := d, state := .zoomIn i } =
    ((below i).find? fun j => bit d j).elim (some 0, { distance := d, state := .zoomOut 0 })
      fun j => (some j, { distance := d, state := .zoomIn j }) := by
  simp only [next, nextIn]
  cases (below i).find? fun j => bit d j with
  | none => rfl
  | some j => rfl

theorem visits_zoomOut (h : (outward d i).length < calls) :
    visits calls { distance := d, state := .zoomOut i } = outward d i := by
  induction calls generalizing i with
  | zero => cases h
  | succ calls ih =>
    rw [visits, next_zoomOut]
    cases hf : (above i).find? fun j => !bit d j with
    | none =>
      have hnone : outward d i = [] := List.filter_eq_nil_iff.2 (List.find?_eq_none.1 hf)
      rw [hnone, Option.elim_none]
    | some j =>
      have hj := mem_above.1 (List.mem_of_find?_eq_some hf)
      have hout : outward d i = j :: outward d j := by
        rw [outward, filter_of_find (fun _ _ => lt_asymm) above_pairwise hf, above_above hj, outward]
      rw [hout, List.length_cons] at h
      simp only [Option.elim_some]
      rw [ih (Nat.lt_of_succ_lt_succ h), hout]

theorem visits_zoomIn (h : (inward d i).length + 1 + (outward d 0).length < calls) :
    visits calls { distance := d, state := .zoomIn i } = inward d i ++ 0 :: outward d 0 := by
  induction calls generalizing i with
  | zero => cases h
  | succ calls ih =>
    rw [visits, next_zoomIn]
    cases hf : (below i).find? fun j => bit d j with
    | none =>
      have hnone : inward d i = [] := List.filter_eq_nil_iff.2 (List.find?_eq_none.1 hf)
      rw [hnone, List.length_nil] at h
      simp only [Option.elim_none]
      rw [visits_zoomOut (by omega), hnone, List.nil_append]
    | some j =>
      have hj := mem_below.1 (List.mem_of_find?_eq_some hf)
      have hin : inward d i = j :: inward d j := by
        rw [inward, filter_of_find (fun _ _ => lt_asymm) below_pairwise hf, below_below hj, inward]
      rw [hin, List.length_cons] at h
      simp only [Option.elim_some]
      rw [ih (by omega), hin, List.cons_append]

end ClosestBucketsIter

open ClosestBucketsIter

theorem above_length_le (i : BucketIndex) : (above i).length ≤ 255 := by
  have hnot : i ∉ above i := fun h => lt_irrefl i (mem_above.1 h)
  have hnodup : (i :: above i).Nodup :=
    List.nodup_cons.2 ⟨hnot, (List.nodup_finRange numBuckets).filter _⟩
  have := List.Nodup.length_le_card hnodup
  rw [List.length_cons, Fintype.card_fin, numBuckets] at this
  omega

theorem below_length_le (i : BucketIndex) : (below i).length ≤ 255 := by
  have hnot : i ∉ below i := fun h => lt_irrefl i (mem_below.1 h)
  have hnodup : (i :: below i).Nodup := List.nodup_cons.2
    ⟨hnot, List.nodup_reverse.2 ((List.nodup_finRange numBuckets).filter _)⟩
  have := List.Nodup.length_le_card hnodup
  rw [List.length_cons, Fintype.card_fin, numBuckets] at this
  omega

theorem closestBuckets_eq (d : Key) :
    closestBuckets d = startBucket d :: (inward d (startBucket d) ++ 0 :: outward d 0) := by
  have hin : (inward d (startBucket d)).length ≤ 255 :=
    (List.length_filter_le ..).trans (below_length_le _)
  have hout : (outward d 0).length ≤ 255 := (List.length_filter_le ..).trans (above_length_le _)
  rw [closestBuckets, visits, ClosestBucketsIter.new, next]
  simp only [numBuckets]
  rw [visits_zoomIn (by omega)]

/-! ## Nearer buckets -/

/-- The nodes of bucket `i` are nearer to a target at distance `d` than those of bucket `j`. -/
def Nearer (d : Key) (i j : BucketIndex) : Prop :=
  j < i ∧ bit d i = true ∨ i < j ∧ bit d j = false

theorem BucketIndex.new_eq_some {x : Key} {i : BucketIndex} (h : BucketIndex.new x = some i) :
    x ≠ 0 ∧ x.toNat.log2 = i := by
  rw [BucketIndex.new] at h
  split at h
  · cases h
  · rename_i hx
    exact ⟨hx, congrArg Fin.val (Option.some.inj h)⟩

/-- The highest bit of a key in a bucket. -/
theorem testBit_of_index {x : Key} {i : BucketIndex} (h : BucketIndex.new x = some i) :
    x.toNat.testBit i = true ∧ ∀ k, i.1 < k → x.toNat.testBit k = false := by
  obtain ⟨hx, hlog⟩ := BucketIndex.new_eq_some h
  have hne : x.toNat ≠ 0 := fun h0 => hx (BitVec.eq_of_toNat_eq h0)
  refine ⟨hlog ▸ Nat.testBit_log2 hne, fun k hk => Nat.testBit_lt_two_pow ?_⟩
  exact (Nat.log2_lt hne).1 (hlog ▸ hk)

theorem bit_eq (d : Key) (i : BucketIndex) : d.toNat.testBit i = bit d i := by
  rw [bit, BitVec.getLsbD]

theorem Nearer.lt {d x y : Key} {i j : BucketIndex} (h : Nearer d i j)
    (hx : BucketIndex.new x = some i) (hy : BucketIndex.new y = some j) : d ^^^ x < d ^^^ y := by
  obtain ⟨hxi, hxk⟩ := testBit_of_index hx
  obtain ⟨hyj, hyk⟩ := testBit_of_index hy
  rw [BitVec.lt_def, BitVec.toNat_xor, BitVec.toNat_xor]
  rcases h with ⟨hlt, hd⟩ | ⟨hlt, hd⟩
  · refine Nat.lt_of_testBit i ?_ ?_ fun k hk => ?_
    · rw [Nat.testBit_xor, hxi, bit_eq, hd]
      rfl
    · rw [Nat.testBit_xor, hyk i hlt, bit_eq, hd]
      rfl
    · rw [Nat.testBit_xor, Nat.testBit_xor, hxk k hk, hyk k (Nat.lt_trans hlt hk)]
  · refine Nat.lt_of_testBit j ?_ ?_ fun k hk => ?_
    · rw [Nat.testBit_xor, hxk j hlt, bit_eq, hd]
      rfl
    · rw [Nat.testBit_xor, hyj, bit_eq, hd]
      rfl
    · rw [Nat.testBit_xor, Nat.testBit_xor, hyk k hk, hxk k (Nat.lt_trans hlt hk)]

theorem startBucket_spec (d : Key) :
    (d = 0 ∧ startBucket d = 0) ∨ BucketIndex.new d = some (startBucket d) := by
  rw [startBucket]
  cases h : BucketIndex.new d with
  | none =>
    rw [BucketIndex.new] at h
    split at h
    · rename_i hd
      exact .inl ⟨hd, rfl⟩
    · cases h
  | some i => exact .inr rfl

/-- The bits above the start are clear, and the start is set unless all are clear. -/
theorem bit_startBucket (d : Key) :
    (bit d (startBucket d) = true ∨ d = 0 ∧ startBucket d = 0) ∧
      ∀ j, startBucket d < j → bit d j = false := by
  rcases startBucket_spec d with ⟨rfl, hs⟩ | h
  · exact ⟨.inr ⟨rfl, hs⟩, fun j _ => by simp [bit]⟩
  · obtain ⟨hi, hk⟩ := testBit_of_index h
    exact ⟨.inl (bit_eq d _ ▸ hi), fun j hj => bit_eq d j ▸ hk j hj⟩

theorem mem_inward {d : Key} {i j : BucketIndex} : j ∈ inward d i ↔ j < i ∧ bit d j = true := by
  rw [inward, List.mem_filter, mem_below]

theorem mem_outward {d : Key} {i j : BucketIndex} : j ∈ outward d i ↔ i < j ∧ bit d j = false := by
  rw [outward, List.mem_filter, mem_above, Bool.not_eq_true']

/-- The buckets come in order; only the first one can come twice. -/
theorem closestBuckets_pairwise (d : Key) :
    (closestBuckets d).Pairwise fun i j => Nearer d i j ∨ i = 0 ∧ j = 0 := by
  obtain ⟨hstart, habove⟩ := bit_startBucket d
  have hzero : ∀ j : BucketIndex, j ≠ 0 → 0 < j := fun j hj => Fin.pos_iff_ne_zero.2 hj
  -- a bucket whose bit is set, or the first one
  have hset : ∀ i, bit d i = true ∨ i = 0 → ∀ j ∈ 0 :: outward d 0,
      Nearer d i j ∨ i = 0 ∧ j = 0 := by
    intro i hi j hj
    rcases List.mem_cons.1 hj with rfl | hj
    · by_cases h0 : i = 0
      · exact .inr ⟨h0, rfl⟩
      · exact .inl (.inl ⟨hzero i h0, hi.resolve_right h0⟩)
    · obtain ⟨hpos, hbit⟩ := mem_outward.1 hj
      rcases lt_trichotomy i j with hlt | rfl | hlt
      · exact .inl (.inr ⟨hlt, hbit⟩)
      · rcases hi with hi | rfl
        · rw [hbit] at hi
          cases hi
        · exact (lt_irrefl _ hpos).elim
      · exact .inl (.inl ⟨hlt, hi.resolve_right fun h0 => by simp [h0] at hlt⟩)
  have hout : (0 :: outward d 0).Pairwise fun i j => Nearer d i j ∨ i = 0 ∧ j = 0 := by
    refine List.pairwise_cons.2 ⟨fun j hj => hset 0 (.inr rfl) j (List.mem_cons_of_mem _ hj), ?_⟩
    refine (above_pairwise.sublist List.filter_sublist).imp_of_mem fun {i j} _ hj hlt => ?_
    exact .inl (.inr ⟨hlt, (mem_outward.1 hj).2⟩)
  have hin : (inward d (startBucket d)).Pairwise fun i j => Nearer d i j ∨ i = 0 ∧ j = 0 :=
    (below_pairwise.sublist List.filter_sublist).imp_of_mem fun {i j} hi _ hlt =>
      .inl (.inl ⟨hlt, (mem_inward.1 hi).2⟩)
  rw [closestBuckets_eq]
  refine List.pairwise_cons.2 ⟨fun j hj => ?_, List.pairwise_append.2
    ⟨hin, hout, fun i hi j hj => hset i (.inl (mem_inward.1 hi).2) j hj⟩⟩
  have hs : bit d (startBucket d) = true ∨ startBucket d = 0 := hstart.imp_right And.right
  rcases List.mem_append.1 hj with hj | hj
  · obtain ⟨hlt, hbit⟩ := mem_inward.1 hj
    exact .inl (.inl ⟨hlt, hs.resolve_right fun h0 => by simp [h0] at hlt⟩)
  · exact hset _ hs j hj

/-- Every bucket is visited, and only once but for the first one. -/
theorem closestBuckets_count (d : Key) (i : BucketIndex) :
    (closestBuckets d).count i = if Twice d i then 2 else 1 := by
  obtain ⟨hstart, habove⟩ := bit_startBucket d
  have hin : (inward d (startBucket d)).count i =
      if i < startBucket d ∧ bit d i = true then 1 else 0 := by
    have hnodup : (inward d (startBucket d)).Nodup :=
      (below_pairwise.imp fun h => (ne_of_lt h).symm).filter _
    rw [List.Nodup.count hnodup]
    simp only [mem_inward]
  have hout : (outward d 0).count i = if 0 < i ∧ bit d i = false then 1 else 0 := by
    have hnodup : (outward d 0).Nodup := (above_pairwise.imp fun h => ne_of_lt h).filter _
    rw [List.Nodup.count hnodup]
    simp only [mem_outward]
  rw [closestBuckets_eq, List.count_cons, List.count_append, List.count_cons, hin, hout]
  by_cases hi : i = 0
  · subst hi
    by_cases hs : startBucket d = 0
    · have htwice : Twice d 0 := ⟨rfl, hstart.imp (fun h => hs ▸ h) And.left⟩
      simp [hs, htwice]
    · have hd : d ≠ 0 := fun h => hs (hstart.elim (fun hb => by simp [h, bit] at hb) And.right)
      have hlt : (0 : BucketIndex) < startBucket d := Fin.pos_iff_ne_zero.2 hs
      by_cases hb : bit d 0 = true
      · simp [hs, hlt, hb, Twice]
      · have htwice : ¬ Twice d 0 := fun h => h.2.elim hb hd
        simp [hs, hlt, hb, htwice]
  · have hpos : 0 < i := Fin.pos_iff_ne_zero.2 hi
    have htwice : ¬ Twice d i := fun h => hi h.1
    by_cases hb : bit d i = true
    · rcases lt_trichotomy i (startBucket d) with hlt | rfl | hlt
      · simp [hb, hlt, hlt.ne', htwice, Ne.symm hi]
      · simp [hb, htwice, Ne.symm hi]
      · rw [habove i hlt] at hb
        cases hb
    · have hne : startBucket d ≠ i := fun h => hstart.elim (fun hs => hb (h ▸ hs)) fun hs =>
        hi (h.symm.trans hs.2)
      simp [hb, hne, htwice, Ne.symm hi, hpos]

end Discv5
