import Mathlib

/-!
# Last-writer-wins maps

Each key of the map holds one entry with a timestamp, and an update that is not later than the
entry it meets is ignored.

* `Latest`: the entry of a register is one of the updates, and none of them is later.
* `Latest.unique`: if no two updates have the same timestamp, there is one such entry.
* `getElem?_updateAll`: the register of a key sees the updates of that key, in their order.
* `updateAll_congr`: maps built from the same updates are equal, whatever the order and however
  often each of them was applied.
* `merge_updateAll`: merging two maps is the same as applying the updates of both.
-/

namespace Lww

open Std (ExtTreeMap TransCmp LawfulEqCmp)

variable {E T : Type} [LinearOrder T] (ts : E → T)

/-! ## Registers -/

/-- A register after an update. -/
def step (cur : Option E) (next : E) : Option E :=
  match cur with
  | some prev => if ts next ≤ ts prev then some prev else some next
  | none => some next

/-- A register after updates. -/
def run (cur : Option E) (l : List E) : Option E := l.foldl (step ts) cur

/-- `r` holds one of the updates, and none of them is later. -/
structure Latest (l : List E) (r : Option E) : Prop where
  mem : ∀ e, r = some e → e ∈ l
  le : ∀ e ∈ l, ∃ m, r = some m ∧ ts e ≤ ts m

/-- No two of the updates have the same timestamp. -/
def Stamped (l : List E) : Prop := ∀ a ∈ l, ∀ b ∈ l, ts a = ts b → a = b

variable {ts}

theorem step_ne_none (cur : Option E) (e : E) : ∃ m, step ts cur e = some m ∧ ts e ≤ ts m := by
  cases cur with
  | none => exact ⟨e, rfl, le_rfl⟩
  | some prev =>
    unfold step
    by_cases h : ts e ≤ ts prev
    · exact ⟨prev, by simp [h], h⟩
    · exact ⟨e, by simp [h], le_rfl⟩

/-- An update never brings an earlier entry. -/
theorem le_step (p e : E) : ∃ m, step ts (some p) e = some m ∧ ts p ≤ ts m := by
  unfold step
  by_cases h : ts e ≤ ts p
  · exact ⟨p, by simp [h], le_rfl⟩
  · exact ⟨e, by simp [h], le_of_not_ge h⟩

theorem step_mem {cur : Option E} {e m : E} (h : step ts cur e = some m) : cur = some m ∨ e = m := by
  cases cur with
  | none => simpa [step] using h
  | some prev =>
    unfold step at h
    by_cases hle : ts e ≤ ts prev
    · left
      simpa [hle] using h
    · right
      simpa [hle] using h

theorem Latest.step {l : List E} {r : Option E} (h : Latest ts l r) (e : E) :
    Latest ts (l ++ [e]) (step ts r e) where
  mem m hm := by
    rcases step_mem hm with hr | rfl
    · exact List.mem_append_left _ (h.mem m hr)
    · simp
  le x hx := by
    rcases List.mem_append.1 hx with hx | hx
    · obtain ⟨m, rfl, hle⟩ := h.le x hx
      obtain ⟨m', hm', hle'⟩ := @le_step E T _ ts m e
      exact ⟨m', hm', hle.trans hle'⟩
    · rw [List.mem_singleton.1 hx]
      exact step_ne_none r e

/-- A register holds the latest of the updates it has seen. -/
theorem Latest.run {l : List E} {r : Option E} (h : Latest ts l r) (l' : List E) :
    Latest ts (l ++ l') (run ts r l') := by
  induction l' generalizing l r with
  | nil => simpa [Lww.run] using h
  | cons e l' ih => simpa [Lww.run] using ih (h.step e)

theorem latest_run (l : List E) : Latest ts l (run ts none l) :=
  Latest.run (l := []) ⟨fun _ h => by simp at h, fun _ h => by simp at h⟩ l

theorem Latest.unique {l l' : List E} (hl : Stamped ts l) (h : ∀ e, e ∈ l ↔ e ∈ l')
    {r r' : Option E} (hr : Latest ts l r) (hr' : Latest ts l' r') : r = r' := by
  cases r with
  | none =>
    cases r' with
    | none => rfl
    | some e =>
      obtain ⟨m, hm, -⟩ := hr.le e ((h e).2 (hr'.mem e rfl))
      cases hm
  | some e =>
    have he := hr.mem e rfl
    obtain ⟨m, rfl, hle⟩ := hr'.le e ((h e).1 he)
    have hm := (h m).2 (hr'.mem m rfl)
    obtain ⟨e', he', hle'⟩ := hr.le m hm
    cases he'
    rw [hl e he m hm (le_antisymm hle hle')]

theorem le_run (l : List E) : ∀ p : E, ∃ m, run ts (some p) l = some m ∧ ts p ≤ ts m := by
  induction l with
  | nil => exact fun p => ⟨p, rfl, le_rfl⟩
  | cons e l ih =>
    intro p
    obtain ⟨q, hq, hpq⟩ := @le_step E T _ ts p e
    obtain ⟨m, hm, hqm⟩ := ih q
    exact ⟨m, by rw [run, List.foldl_cons, hq]; exact hm, hpq.trans hqm⟩

/-- A register that sees the entry of another one. -/
theorem Latest.merge {l l' u : List E} {r r' : Option E} (h : Latest ts l r)
    (h' : Latest ts l' r') (hu : ∀ e, e ∈ u ↔ r' = some e) : Latest ts (l ++ l') (Lww.run ts r u) where
  mem m hm := by
    rcases List.mem_append.1 ((h.run u).mem m hm) with hl | hl
    · exact List.mem_append_left _ hl
    · exact List.mem_append_right _ (h'.mem m ((hu m).1 hl))
  le x hx := by
    rcases List.mem_append.1 hx with hx | hx
    · exact (h.run u).le x (List.mem_append_left _ hx)
    · obtain ⟨e, he, hle⟩ := h'.le x hx
      obtain ⟨m, hm, hle'⟩ := (h.run u).le e (List.mem_append_right _ ((hu e).2 he))
      exact ⟨m, hm, hle.trans hle'⟩

/-! ## Maps -/

section
variable {K : Type} {cmp : K → K → Ordering} [TransCmp cmp] [LawfulEqCmp cmp]

variable (ts) in
/-- A map after an update of one key. -/
def update (map : ExtTreeMap K E cmp) (key : K) (next : E) : ExtTreeMap K E cmp :=
  match map[key]? with
  | some prev => if ts next ≤ ts prev then map else map.insert key next
  | none => map.insert key next

variable (ts) in
/-- A map after updates. -/
def updateAll (map : ExtTreeMap K E cmp) (l : List (K × E)) : ExtTreeMap K E cmp :=
  l.foldl (fun m u => update ts m u.1 u.2) map

/-- The updates of one key. -/
def updatesOf [DecidableEq K] (l : List (K × E)) (key : K) : List E :=
  l.filterMap fun u => if u.1 = key then some u.2 else none

variable [DecidableEq K]

theorem mem_updatesOf {l : List (K × E)} {key : K} {e : E} : e ∈ updatesOf l key ↔ (key, e) ∈ l := by
  simp only [updatesOf, List.mem_filterMap, Option.ite_none_right_eq_some, Option.some.injEq]
  constructor
  · rintro ⟨⟨k, e'⟩, hu, rfl, rfl⟩
    exact hu
  · intro h
    exact ⟨_, h, rfl, rfl⟩

theorem getElem?_update (map : ExtTreeMap K E cmp) (key : K) (next : E) (k : K) :
    (update ts map key next)[k]? = if key = k then step ts map[k]? next else map[k]? := by
  have hinsert : (map.insert key next)[k]? = if key = k then some next else map[k]? := by
    simp [ExtTreeMap.getElem?_insert, LawfulEqCmp.compare_eq_iff_eq]
  unfold update step
  by_cases hk : key = k
  · subst hk
    cases hm : map[key]? with
    | none => simp
    | some prev =>
      by_cases hle : ts next ≤ ts prev
      · simp [hle, hm]
      · simp [hle]
  · cases hm : map[key]? with
    | none => simp [hinsert, hk]
    | some prev =>
      by_cases hle : ts next ≤ ts prev
      · simp [hle, hk]
      · simp [hle, hinsert, hk]

/-- The register of a key sees the updates of that key. -/
theorem getElem?_updateAll (map : ExtTreeMap K E cmp) (l : List (K × E)) (k : K) :
    (updateAll ts map l)[k]? = run ts map[k]? (updatesOf l k) := by
  induction l generalizing map with
  | nil => rfl
  | cons u l ih =>
    have hstep := ih (update ts map u.1 u.2)
    rw [getElem?_update] at hstep
    by_cases hk : u.1 = k
    · simpa [updateAll, updatesOf, run, hk] using hstep
    · simpa [updateAll, updatesOf, run, hk] using hstep

/-- **Maps built from the same updates are equal.** -/
theorem updateAll_congr {l l' : List (K × E)} (hstamp : ∀ k, Stamped ts (updatesOf l k))
    (h : ∀ u, u ∈ l ↔ u ∈ l') :
    updateAll ts (∅ : ExtTreeMap K E cmp) l = updateAll ts ∅ l' := by
  apply ExtTreeMap.ext_getElem?
  intro k
  rw [getElem?_updateAll, getElem?_updateAll]
  refine Latest.unique (hstamp k) (fun e => ?_) (latest_run _) (latest_run _)
  simp [mem_updatesOf, h]

variable (ts) in
/-- A map after the entries of another one, as updates. -/
def merge (map other : ExtTreeMap K E cmp) : ExtTreeMap K E cmp := other.foldl (update ts) map

theorem getElem?_merge (map other : ExtTreeMap K E cmp) (k : K) :
    (merge ts map other)[k]? = run ts map[k]? (updatesOf other.toList k) := by
  rw [merge, ExtTreeMap.foldl_eq_foldl_toList]
  exact getElem?_updateAll map other.toList k

/-- No key of the merged map has an earlier entry. -/
theorem le_merge {map other : ExtTreeMap K E cmp} {k : K} {e : E} (h : map[k]? = some e) :
    ∃ e', (merge ts map other)[k]? = some e' ∧ ts e ≤ ts e' := by
  rw [getElem?_merge, h]
  exact le_run _ e

/-- **Merging is applying the updates of both maps.** -/
theorem merge_updateAll {l l' L : List (K × E)} (hstamp : ∀ k, Stamped ts (updatesOf L k))
    (h : ∀ u, u ∈ L ↔ u ∈ l ∨ u ∈ l') :
    merge ts (updateAll ts ∅ l) (updateAll ts ∅ l') =
      updateAll ts (∅ : ExtTreeMap K E cmp) L := by
  apply ExtTreeMap.ext_getElem?
  intro k
  have hreg : ∀ l : List (K × E),
      Latest ts (updatesOf l k) (updateAll ts (∅ : ExtTreeMap K E cmp) l)[k]? := by
    intro l
    rw [getElem?_updateAll]
    exact latest_run _
  have hu : ∀ e, e ∈ updatesOf (updateAll ts (∅ : ExtTreeMap K E cmp) l').toList k ↔
      (updateAll ts (∅ : ExtTreeMap K E cmp) l')[k]? = some e := by
    intro e
    rw [mem_updatesOf, ExtTreeMap.mem_toList_iff_getElem?_eq_some]
  have hmerge := (hreg l).merge (hreg l') hu
  rw [getElem?_merge]
  refine (Latest.unique (hstamp k) (fun e => ?_) (hreg L) hmerge).symm
  simp [mem_updatesOf, h]

end

end Lww
