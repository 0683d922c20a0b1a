import Neverust.Citadel.Graph

/-!
# Merging lens graphs

A lens graph built from updates is two last-writer-wins maps (`graphOf_eq`). Merging two of them
gives the graph of the updates of both (`merge_graphOf`), so the merge does not depend on the order
and grouping of the graphs, nor on how often one of them is merged.
-/

namespace Citadel.LensGraph

open Std (ExtTreeMap)

/-- A call of `update_follow` or `update_content`. -/
inductive Update
  | follow (siteId targetSiteId : SiteId) (ts : Lamport) (enabled : Bool)
  | content (siteId : SiteId) (contentSlot : ContentSlot) (ts : Lamport) (present : Bool)
  deriving DecidableEq

def apply (g : LensGraph) : Update → LensGraph
  | .follow siteId targetSiteId ts enabled => g.updateFollow siteId targetSiteId ts enabled
  | .content siteId contentSlot ts present => g.updateContent siteId contentSlot ts present

/-- The graph built by applying updates. -/
def graphOf (l : List Update) : LensGraph := l.foldl apply ∅

/-- A timestamp determines the value for a key. -/
structure Determined (P : Finset Update) : Prop where
  follow : ∀ site target ts a b, Update.follow site target ts a ∈ P →
    Update.follow site target ts b ∈ P → a = b
  content : ∀ site slot ts a b, Update.content site slot ts a ∈ P →
    Update.content site slot ts b ∈ P → a = b

/-! ## The maps of a graph -/

def Update.followEntry : Update → Option ((UInt64 × UInt64) × LwwEntry)
  | .follow siteId targetSiteId ts enabled => some ((siteId, targetSiteId), ⟨ts, enabled⟩)
  | .content .. => none

def Update.contentEntry : Update → Option ((UInt64 × UInt64) × LwwEntry)
  | .content siteId contentSlot ts present => some ((siteId, contentSlot), ⟨ts, present⟩)
  | .follow .. => none

theorem foldl_apply (l : List Update) (g : LensGraph) :
    l.foldl apply g =
      ⟨Lww.updateAll LwwEntry.ts g.follows (l.filterMap Update.followEntry),
        Lww.updateAll LwwEntry.ts g.content (l.filterMap Update.contentEntry)⟩ := by
  induction l generalizing g with
  | nil => rfl
  | cons u l ih =>
    rw [List.foldl_cons, ih]
    cases u with
    | follow site target ts enabled =>
      simp only [apply, updateFollow, lwwUpdate_eq]
      rfl
    | content site slot ts present =>
      simp only [apply, updateContent, lwwUpdate_eq]
      rfl

theorem graphOf_eq (l : List Update) :
    graphOf l =
      ⟨Lww.updateAll LwwEntry.ts ∅ (l.filterMap Update.followEntry),
        Lww.updateAll LwwEntry.ts ∅ (l.filterMap Update.contentEntry)⟩ :=
  foldl_apply l ∅

theorem mergeFrom_eq (g other : LensGraph) :
    g.mergeFrom other =
      ⟨Lww.merge LwwEntry.ts g.follows other.follows,
        Lww.merge LwwEntry.ts g.content other.content⟩ := by
  have h : lwwUpdate = Lww.update LwwEntry.ts := by
    funext map key next
    exact lwwUpdate_eq map key next
  rw [mergeFrom, h]
  rfl

/-! ## Merging -/

variable {P : Finset Update} {S T U L : List Update}

theorem mem_followEntries {k : UInt64 × UInt64} {e : LwwEntry} :
    e ∈ Lww.updatesOf (L.filterMap Update.followEntry) k ↔
      Update.follow k.1 k.2 e.ts e.present ∈ L := by
  rw [Lww.mem_updatesOf, List.mem_filterMap]
  constructor
  · rintro ⟨u, hu, h⟩
    cases u with
    | follow site target ts enabled =>
      cases h
      exact hu
    | content => cases h
  · intro h
    exact ⟨_, h, rfl⟩

theorem mem_contentEntries {k : UInt64 × UInt64} {e : LwwEntry} :
    e ∈ Lww.updatesOf (L.filterMap Update.contentEntry) k ↔
      Update.content k.1 k.2 e.ts e.present ∈ L := by
  rw [Lww.mem_updatesOf, List.mem_filterMap]
  constructor
  · rintro ⟨u, hu, h⟩
    cases u with
    | content site slot ts present =>
      cases h
      exact hu
    | follow => cases h
  · intro h
    exact ⟨_, h, rfl⟩

theorem Determined.stamped_follows (hP : Determined P) (hL : ∀ u ∈ L, u ∈ P)
    (k : UInt64 × UInt64) :
    Lww.Stamped LwwEntry.ts (Lww.updatesOf (L.filterMap Update.followEntry) k) := by
  rintro ⟨ts, a⟩ ha ⟨ts', b⟩ hb (rfl : ts = ts')
  rw [mem_followEntries] at ha hb
  exact congrArg (LwwEntry.mk ts) (hP.follow _ _ _ _ _ (hL _ ha) (hL _ hb))

theorem Determined.stamped_content (hP : Determined P) (hL : ∀ u ∈ L, u ∈ P)
    (k : UInt64 × UInt64) :
    Lww.Stamped LwwEntry.ts (Lww.updatesOf (L.filterMap Update.contentEntry) k) := by
  rintro ⟨ts, a⟩ ha ⟨ts', b⟩ hb (rfl : ts = ts')
  rw [mem_contentEntries] at ha hb
  exact congrArg (LwwEntry.mk ts) (hP.content _ _ _ _ _ (hL _ ha) (hL _ hb))

/-- Merging two graphs gives the graph of the updates of both. -/
theorem merge_graphOf (hP : Determined P) (hL : ∀ u ∈ L, u ∈ P)
    (h : ∀ u, u ∈ L ↔ u ∈ S ∨ u ∈ T) : (graphOf S).mergeFrom (graphOf T) = graphOf L := by
  have hmem : ∀ f : Update → Option ((UInt64 × UInt64) × LwwEntry), ∀ e,
      e ∈ L.filterMap f ↔ e ∈ S.filterMap f ∨ e ∈ T.filterMap f := by
    intro f e
    simp only [List.mem_filterMap, h, or_and_right, exists_or]
  rw [mergeFrom_eq, graphOf_eq, graphOf_eq, graphOf_eq,
    Lww.merge_updateAll (hP.stamped_follows hL) (hmem _),
    Lww.merge_updateAll (hP.stamped_content hL) (hmem _)]

/-- The timestamp of a key is never lowered. -/
theorem le_mergeFrom (g other : LensGraph) :
    (∀ (k : SiteId × SiteId) e, g.follows[k]? = some e →
      ∃ e', (g.mergeFrom other).follows[k]? = some e' ∧ e.ts ≤ e'.ts) ∧
    (∀ (k : SiteId × ContentSlot) e, g.content[k]? = some e →
      ∃ e', (g.mergeFrom other).content[k]? = some e' ∧ e.ts ≤ e'.ts) := by
  rw [mergeFrom_eq]
  exact ⟨fun _ _ h => Lww.le_merge h, fun _ _ h => Lww.le_merge h⟩

/-- **Merging agrees with applying the updates.** -/
theorem mergeFrom_lattice (P : Finset Update) (hP : Determined P) (S T U : List Update)
    (hS : ∀ u ∈ S, u ∈ P) (hT : ∀ u ∈ T, u ∈ P) (hU : ∀ u ∈ U, u ∈ P) :
    (∀ L, (∀ u, u ∈ L ↔ u ∈ S ∨ u ∈ T) → (graphOf S).mergeFrom (graphOf T) = graphOf L) ∧
    (graphOf S).mergeFrom (graphOf T) = (graphOf T).mergeFrom (graphOf S) ∧
    ((graphOf S).mergeFrom (graphOf T)).mergeFrom (graphOf U) =
      (graphOf S).mergeFrom ((graphOf T).mergeFrom (graphOf U)) ∧
    (graphOf S).mergeFrom (graphOf S) = graphOf S ∧
    (∀ (k : SiteId × SiteId) e, (graphOf S).follows[k]? = some e →
      ∃ e', ((graphOf S).mergeFrom (graphOf T)).follows[k]? = some e' ∧ e.ts ≤ e'.ts) ∧
    (∀ (k : SiteId × ContentSlot) e, (graphOf S).content[k]? = some e →
      ∃ e', ((graphOf S).mergeFrom (graphOf T)).content[k]? = some e' ∧ e.ts ≤ e'.ts) := by
  have hmerge : ∀ {A B L : List Update}, (∀ u ∈ A, u ∈ P) → (∀ u ∈ B, u ∈ P) →
      (∀ u, u ∈ L ↔ u ∈ A ∨ u ∈ B) → (graphOf A).mergeFrom (graphOf B) = graphOf L := by
    intro A B L hA hB h
    refine merge_graphOf hP (fun u hu => ?_) h
    rcases (h u).1 hu with hu | hu
    · exact hA u hu
    · exact hB u hu
  have happend : ∀ {A B : List Update}, (∀ u ∈ A, u ∈ P) → (∀ u ∈ B, u ∈ P) →
      ∀ u ∈ A ++ B, u ∈ P := by
    intro A B hA hB u hu
    rcases List.mem_append.1 hu with hu | hu
    · exact hA u hu
    · exact hB u hu
  have hST : (graphOf S).mergeFrom (graphOf T) = graphOf (S ++ T) := hmerge hS hT (by simp)
  have hTS : (graphOf T).mergeFrom (graphOf S) = graphOf (S ++ T) :=
    hmerge hT hS (by simp [or_comm])
  have hTU : (graphOf T).mergeFrom (graphOf U) = graphOf (T ++ U) := hmerge hT hU (by simp)
  refine ⟨fun L h => hmerge hS hT h, hST.trans hTS.symm, ?_, hmerge hS hS (by simp),
    (le_mergeFrom _ _).1, (le_mergeFrom _ _).2⟩
  rw [hST, hTU, hmerge (L := S ++ T ++ U) (happend hS hT) hU (by simp [or_assoc]),
    hmerge (L := S ++ T ++ U) hS (happend hT hU) (by simp)]

/-- Two updates of one key with equal counters, and one of another map. -/
def sampleUpdates : Finset Update :=
  {.follow 1 2 ⟨1, 1⟩ true, .follow 1 2 ⟨1, 2⟩ false, .content 2 0 ⟨2, 1⟩ true}

theorem determined_sampleUpdates : Determined sampleUpdates where
  follow site target ts a b ha hb := by
    simp only [sampleUpdates, Finset.mem_insert, Finset.mem_singleton, Update.follow.injEq,
      reduceCtorEq, or_false] at ha hb
    rcases ha with ⟨-, -, rfl, rfl⟩ | ⟨-, -, rfl, rfl⟩
    · rcases hb with ⟨-, -, -, rfl⟩ | ⟨-, -, hts, -⟩
      · rfl
      · simp at hts
    · rcases hb with ⟨-, -, hts, -⟩ | ⟨-, -, -, rfl⟩
      · simp at hts
      · rfl
  content site slot ts a b ha hb := by
    simp only [sampleUpdates, Finset.mem_insert, Finset.mem_singleton, Update.content.injEq,
      reduceCtorEq, false_or] at ha hb
    rw [ha.2.2.2, hb.2.2.2]

theorem mergeFrom_lattice_sample :
    (graphOf [.follow 1 2 ⟨1, 2⟩ false, .content 2 0 ⟨2, 1⟩ true]).mergeFrom
        (graphOf [.follow 1 2 ⟨1, 1⟩ true, .follow 1 2 ⟨1, 2⟩ false]) =
      graphOf [.follow 1 2 ⟨1, 1⟩ true, .content 2 0 ⟨2, 1⟩ true, .follow 1 2 ⟨1, 2⟩ false] := by
  refine (mergeFrom_lattice sampleUpdates determined_sampleUpdates _ _ [] ?_ ?_ ?_).1 _ fun u => ?_
  · simp [sampleUpdates]
  · simp [sampleUpdates]
  · simp
  · simp only [List.mem_cons, List.not_mem_nil, or_false]
    tauto

end Citadel.LensGraph
