import Mathlib.Data.List.Basic

/-!
# Maps as lists in the order of their keys

`SortedMap.insert`, `SortedMap.orInsert` and `SortedMap.set` change one entry and keep the order
(`SortedMap.Sorted`).

* `Sorted.find_iff`: what is found is what is there.
* `Sorted.set_split`: a change in place. `orInsert_cases`: what is inserted is new.
* `Sorted.insert`, `mem_insert`, `sorted_collect`, `mem_collect`: an insertion that overwrites.
-/

/-- A map from `K` to `V`: its entries in the order of their keys. -/
abbrev SortedMap (K V : Type) := List (K × V)

namespace SortedMap

section
variable {K V : Type} [DecidableEq K]

def find (k : K) (l : SortedMap K V) : Option V := (l.find? fun e => e.1 = k).map Prod.snd

/-- A change of the value of a key that is there. -/
def set (k : K) (v : V) (l : SortedMap K V) : SortedMap K V :=
  l.map fun e => if e.1 = k then (k, v) else e

variable [LT K] [DecidableLT K]

/-- The value of a key that is there stays. -/
def orInsert (k : K) (v : V) : SortedMap K V → SortedMap K V
  | [] => [(k, v)]
  | e :: l => if k < e.1 then (k, v) :: e :: l else if e.1 = k then e :: l else
    e :: orInsert k v l

/-- The value of a key that is there is replaced. -/
def insert (k : K) (v : V) : SortedMap K V → SortedMap K V
  | [] => [(k, v)]
  | e :: l => if k < e.1 then (k, v) :: e :: l else if e.1 = k then (k, v) :: l else
    e :: insert k v l

/-- Of two entries with one key the later one stays. -/
def collect (entries : List (K × V)) : SortedMap K V :=
  entries.foldl (fun l e => insert e.1 e.2 l) []

end

variable {K V : Type} [LT K] {k : K} {v w : V} {e : K × V} {l l₁ l₂ : SortedMap K V}

def Sorted (l : SortedMap K V) : Prop := l.Pairwise fun a b => a.1 < b.1

omit [LT K] in
theorem find_split [DecidableEq K] (h : l.find k = some v) : ∃ l₁ l₂, l = l₁ ++ (k, v) :: l₂ := by
  obtain ⟨e, he, rfl⟩ := Option.map_eq_some_iff.1 h
  have hk : e.1 = k := by simpa using List.find?_some he
  obtain ⟨l₁, l₂, hl⟩ := List.append_of_mem (List.mem_of_find?_eq_some he)
  exact ⟨l₁, l₂, hk ▸ hl⟩

variable [LE K] [Std.IsLinearOrder K] [Std.LawfulOrderLT K] [DecidableEq K]

omit [Std.IsLinearOrder K] in
theorem Sorted.find_iff (hs : Sorted l) : l.find k = some v ↔ (k, v) ∈ l := by
  refine ⟨fun h => ?_, fun h => ?_⟩
  · obtain ⟨l₁, l₂, rfl⟩ := find_split h
    simp
  · induction l with
    | nil => cases h
    | cons e l ih =>
      obtain ⟨hlt, hs⟩ := List.pairwise_cons.1 hs
      rcases List.mem_cons.1 h with rfl | h
      · simp [find]
      · have hne : ¬ e.1 = k := Std.ne_of_lt (hlt _ h)
        have hfind := ih hs h
        rw [find] at hfind ⊢
        rw [List.find?_cons_of_neg (by simpa using hne), hfind]

omit [Std.IsLinearOrder K] in
theorem Sorted.set_split (hs : Sorted (l₁ ++ (k, v) :: l₂)) :
    set k w (l₁ ++ (k, v) :: l₂) = l₁ ++ (k, w) :: l₂ := by
  obtain ⟨-, h₂, h₁⟩ := List.pairwise_append.1 hs
  obtain ⟨h₂, -⟩ := List.pairwise_cons.1 h₂
  have hmap : ∀ l' : SortedMap K V, (∀ e ∈ l', e.1 ≠ k) →
      l'.map (fun e => if e.1 = k then (k, w) else e) = l' := fun l' h =>
    (List.map_congr_left fun e he => if_neg (h e he)).trans (List.map_id _)
  rw [set, List.map_append, List.map_cons, if_pos rfl,
    hmap l₁ fun e he => Std.ne_of_lt (h₁ e he _ (List.mem_cons_self ..)),
    hmap l₂ fun e he => (Std.ne_of_lt (h₂ e he)).symm]

variable [DecidableLT K]

omit [DecidableEq K] [DecidableLT K] in
theorem lt_of_not (h : ¬ k < e.1) (hne : ¬ e.1 = k) : e.1 < k :=
  Std.lt_of_le_of_ne (Std.not_lt.1 h) hne

theorem orInsert_cases (hs : Sorted l) :
    ((∃ w, (k, w) ∈ l) ∧ orInsert k v l = l) ∨
      ∃ l₁ l₂, l = l₁ ++ l₂ ∧ orInsert k v l = l₁ ++ (k, v) :: l₂ ∧
        Sorted (l₁ ++ (k, v) :: l₂) := by
  induction l with
  | nil => exact .inr ⟨[], [], rfl, rfl, List.pairwise_singleton ..⟩
  | cons e l ih =>
    obtain ⟨hlt, hs'⟩ := List.pairwise_cons.1 hs
    rw [orInsert]
    split
    · rename_i hk
      refine .inr ⟨[], e :: l, rfl, rfl, List.pairwise_cons.2 ⟨fun x hx => ?_, hs⟩⟩
      rcases List.mem_cons.1 hx with rfl | hx
      · exact hk
      · exact Std.lt_trans hk (hlt x hx)
    · rename_i hk
      split
      · rename_i he
        exact .inl ⟨⟨e.2, by simp [← he]⟩, rfl⟩
      · rename_i he
        rcases ih hs' with ⟨⟨w, hw⟩, h⟩ | ⟨l₁, l₂, rfl, h, hsorted⟩
        · exact .inl ⟨⟨w, List.mem_cons_of_mem _ hw⟩, by rw [h]⟩
        · refine .inr ⟨e :: l₁, l₂, rfl, by rw [h, List.cons_append],
            List.pairwise_cons.2 ⟨fun x hx => ?_, hsorted⟩⟩
          rcases List.mem_append.1 hx with hx | hx
          · exact hlt x (List.mem_append_left _ hx)
          · rcases List.mem_cons.1 hx with rfl | hx
            · exact lt_of_not hk he
            · exact hlt x (List.mem_append_right _ hx)

omit [Std.IsLinearOrder K] [Std.LawfulOrderLT K] [LE K] in
theorem mem_insert (h : e ∈ insert k v l) : e = (k, v) ∨ e ∈ l := by
  induction l with
  | nil => exact .inl (List.mem_singleton.1 h)
  | cons x l ih =>
    rw [insert] at h
    split at h
    · exact List.mem_cons.1 h
    · split at h
      · exact (List.mem_cons.1 h).imp_right (List.mem_cons_of_mem _)
      · rcases List.mem_cons.1 h with rfl | h
        · exact .inr (List.mem_cons_self ..)
        · exact (ih h).imp_right (List.mem_cons_of_mem _)

theorem Sorted.insert (hs : Sorted l) : Sorted (insert k v l) := by
  induction l with
  | nil => exact List.pairwise_singleton ..
  | cons e l ih =>
    obtain ⟨hlt, hs'⟩ := List.pairwise_cons.1 hs
    rw [SortedMap.insert]
    split
    · rename_i hk
      refine List.pairwise_cons.2 ⟨fun x hx => ?_, hs⟩
      rcases List.mem_cons.1 hx with rfl | hx
      · exact hk
      · exact Std.lt_trans hk (hlt x hx)
    · rename_i hk
      split
      · rename_i he
        exact List.pairwise_cons.2 ⟨fun x hx => he ▸ hlt x hx, hs'⟩
      · rename_i he
        refine List.pairwise_cons.2 ⟨fun x hx => ?_, ih hs'⟩
        rcases mem_insert hx with rfl | hx
        · exact lt_of_not hk he
        · exact hlt x hx

theorem sorted_collect (entries : List (K × V)) : Sorted (collect entries) := by
  have hfold : ∀ (entries : List (K × V)) (l : SortedMap K V), Sorted l →
      Sorted (entries.foldl (fun l e => SortedMap.insert e.1 e.2 l) l) := by
    intro entries
    induction entries with
    | nil => exact fun l hs => hs
    | cons x entries ih => exact fun l hs => ih _ hs.insert
  exact hfold entries [] .nil

omit [Std.IsLinearOrder K] [Std.LawfulOrderLT K] [LE K] in
theorem mem_collect {entries : List (K × V)} (h : e ∈ collect entries) : e ∈ entries := by
  have hfold : ∀ (entries : List (K × V)) (l : SortedMap K V),
      e ∈ entries.foldl (fun l e => SortedMap.insert e.1 e.2 l) l → e ∈ entries ∨ e ∈ l := by
    intro entries
    induction entries with
    | nil => exact fun l h => .inr h
    | cons x entries ih =>
      intro l h
      rcases ih _ h with h | h
      · exact .inl (List.mem_cons_of_mem _ h)
      · exact (mem_insert h).imp_left fun h => List.mem_cons.2 (.inl h)
  exact (hfold entries [] h).resolve_right List.not_mem_nil

end SortedMap
