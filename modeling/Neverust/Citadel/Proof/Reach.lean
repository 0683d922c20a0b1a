import Neverust.Citadel.Graph
import Neverust.Lib.Worklist

/-!
# Reachable sites and visible content

`SearchEnds`: the loop over the queue ends with a set, with no bound on its rounds. The loop of the
model does so (`searchLoop_ends`), and its set is that of the sites reachable over present follow
edges (`mem_reachableSites`).
-/

namespace Citadel

open Std (ExtTreeMap ExtTreeSet)
open Relation

namespace LensGraph

/-- A key with an entry that is present. -/
def Present (map : LwwMap) (key : UInt64 × UInt64) : Prop :=
  ∃ entry, map[key]? = some entry ∧ entry.present

/-- A follow edge whose entry is present. -/
def Edge (g : LensGraph) (a b : SiteId) : Prop := Present g.follows (a, b)

def Reaches (g : LensGraph) : SiteId → SiteId → Prop := ReflTransGen g.Edge

/-- The loop over the queue ends with the given set. -/
inductive SearchEnds (g : LensGraph) : Search → ExtTreeSet SiteId → Prop
  | done (out : ExtTreeSet SiteId) : SearchEnds g (out, []) out
  | next {out found : ExtTreeSet SiteId} {site : SiteId} {q : List SiteId}
      (h : SearchEnds g (g.follows.toList.foldl (visit site) (out, q)) found) :
      SearchEnds g (out, site :: q) found

variable {g g' : LensGraph} {site root : SiteId} {s : Search}

/-! ## One site of the queue -/

abbrev FollowEntry := (SiteId × SiteId) × LwwEntry

/-- The edges whose targets have not been found. -/
abbrev unseen (edges : List FollowEntry) (out : ExtTreeSet SiteId) : Nat :=
  Worklist.left (fun e : FollowEntry => e.1.2) (fun a => decide (a ∈ out)) edges

theorem visit_spec (site : SiteId) (s : Search) (edge : FollowEntry) :
    ∃ new, (visit site s edge).2 = s.2 ++ new ∧
      (∀ b, b ∈ (visit site s edge).1 ↔ b ∈ s.1 ∨ b ∈ new) ∧
      (∀ b ∈ new, edge.1 = (site, b) ∧ edge.2.present) ∧
      (edge.1.1 = site → edge.2.present → edge.1.2 ∈ (visit site s edge).1) ∧
      ∀ edges : List FollowEntry, edge ∈ edges →
        unseen edges (visit site s edge).1 + new.length ≤ unseen edges s.1 := by
  obtain ⟨⟨source, target⟩, entry⟩ := edge
  obtain ⟨out, q⟩ := s
  by_cases h : source = site ∧ entry.present ∧ target ∉ out
  · obtain ⟨rfl, hpresent, hnew⟩ := h
    have hmem : ∀ b, b ∈ out.insert target ↔ b ∈ out ∨ b = target := fun b => by
      rw [ExtTreeSet.mem_insert, Std.LawfulEqCmp.compare_eq_iff_eq, or_comm, eq_comm]
    refine ⟨[target], ?_⟩
    simp only [visit, hpresent, hnew, not_false_eq_true, and_self, if_true, true_and,
      List.mem_singleton, forall_eq, Prod.mk.injEq, List.length_singleton]
    refine ⟨hmem, fun _ => by simp, fun edges he => ?_⟩
    exact Worklist.left_lt he (by simpa using fun a ha => (hmem a).2 (.inl ha)) (by simpa using hnew)
      (by simp)
  · refine ⟨[], ?_⟩
    simp only [visit, h, if_false, List.append_nil, List.not_mem_nil, or_false, implies_true,
      false_implies, true_and, List.length_nil, Nat.add_zero, le_refl, and_true]
    intro hs hp
    by_contra hnot
    exact h ⟨hs, hp, hnot⟩

theorem walk_spec (site : SiteId) (all : List FollowEntry) :
    ∀ (edges : List FollowEntry) (s : Search), (∀ e ∈ edges, e ∈ all) →
      ∃ new, (edges.foldl (visit site) s).2 = s.2 ++ new ∧
        (∀ b, b ∈ (edges.foldl (visit site) s).1 ↔ b ∈ s.1 ∨ b ∈ new) ∧
        (∀ b ∈ new, ∃ entry, ((site, b), entry) ∈ edges ∧ entry.present) ∧
        (∀ b entry, ((site, b), entry) ∈ edges → entry.present →
          b ∈ (edges.foldl (visit site) s).1) ∧
        unseen all (edges.foldl (visit site) s).1 + new.length ≤ unseen all s.1
  | [], s, _ => ⟨[], by simp⟩
  | edge :: edges, s, hall => by
    obtain ⟨one, hq, hout, hsound, hcomplete, hleft⟩ := visit_spec site s edge
    obtain ⟨new, hq', hout', hsound', hcomplete', hleft'⟩ :=
      walk_spec site all edges (visit site s edge) fun e he => hall e (List.mem_cons_of_mem _ he)
    refine ⟨one ++ new, by rw [List.foldl_cons, hq', hq, List.append_assoc], fun b => ?_,
      fun b hb => ?_, fun b entry hb hp => ?_, ?_⟩
    · rw [List.foldl_cons, hout', hout, List.mem_append, or_assoc]
    · obtain hb | hb := List.mem_append.1 hb
      · obtain ⟨heq, hp⟩ := hsound b hb
        exact ⟨edge.2, by rw [← heq]; exact List.mem_cons_self, hp⟩
      · obtain ⟨entry, he, hp⟩ := hsound' b hb
        exact ⟨entry, List.mem_cons_of_mem _ he, hp⟩
    · obtain rfl | hb := List.mem_cons.1 hb
      · exact (hout' b).2 (.inl (hcomplete rfl hp))
      · exact hcomplete' b entry hb hp
    · have := hleft all (hall edge List.mem_cons_self)
      rw [List.foldl_cons, List.length_append]
      omega

/-- The search after one more site. -/
theorem walk_inv {out : ExtTreeSet SiteId} {q : List SiteId}
    (h : Worklist.Inv g.Edge root (· ∈ out) (site :: q)) :
    let s := g.follows.toList.foldl (visit site) (out, q)
    Worklist.Inv g.Edge root (· ∈ s.1) s.2 ∧
      s.2.length + unseen g.follows.toList s.1 ≤ q.length + unseen g.follows.toList out := by
  obtain ⟨new, hq, hout, hsound, hcomplete, hleft⟩ :=
    walk_spec site g.follows.toList g.follows.toList (out, q) fun _ he => he
  refine ⟨?_, ?_⟩
  · rw [hq]
    refine h.expand hout (fun b hb => ?_) fun b hb => ?_
    · obtain ⟨entry, he, hp⟩ := hsound b hb
      exact ⟨entry, ExtTreeMap.mem_toList_iff_getElem?_eq_some.1 he, hp⟩
    · obtain ⟨entry, he, hp⟩ := hb
      exact hcomplete b entry (ExtTreeMap.mem_toList_iff_getElem?_eq_some.2 he) hp
  · simp only [hq, List.length_append] at hleft ⊢
    omega

/-! ## The whole search -/

/-- The loop ends within the bound, with the reachable sites. -/
theorem searchLoop_ends : ∀ (n : Nat) (s : Search), Worklist.Inv g.Edge root (· ∈ s.1) s.2 →
    s.2.length + unseen g.follows.toList s.1 ≤ n →
      SearchEnds g s (searchLoop g n s) ∧
        ∀ a, a ∈ searchLoop g n s ↔ g.Reaches root a
  | 0, (out, []), h, _ => ⟨.done out, h.seen_iff⟩
  | 0, (out, site :: q), _, hn => by simp at hn
  | n + 1, (out, []), h, _ => ⟨.done out, h.seen_iff⟩
  | n + 1, (out, site :: q), h, hn => by
    obtain ⟨hinv, hleft⟩ := walk_inv h
    obtain ⟨hends, hmem⟩ := searchLoop_ends n _ hinv (by
      simp only [List.length_cons] at hn hleft ⊢
      omega)
    exact ⟨.next hends, hmem⟩

theorem reachableSites_ends (g : LensGraph) (root : SiteId) :
    SearchEnds g ((∅ : ExtTreeSet SiteId).insert root, [root]) (g.reachableSites root) ∧
      ∀ a, a ∈ g.reachableSites root ↔ g.Reaches root a := by
  refine searchLoop_ends (g.follows.size + 1) _ ?_ ?_
  · have heq : (· ∈ (∅ : ExtTreeSet SiteId).insert root) = (· = root) := by
      funext a
      rw [ExtTreeSet.mem_insert, Std.LawfulEqCmp.compare_eq_iff_eq]
      simp [eq_comm]
    simpa only [heq] using Worklist.Inv.init g.Edge root
  · have hle : unseen g.follows.toList ((∅ : ExtTreeSet SiteId).insert root) ≤
        g.follows.toList.length := List.countP_le_length
    rw [ExtTreeMap.length_toList] at hle
    simp only [List.length_singleton]
    omega

@[simp] theorem mem_reachableSites {a : SiteId} : a ∈ g.reachableSites root ↔ g.Reaches root a :=
  (reachableSites_ends g root).2 a

@[simp] theorem mem_visibleContent {p : SiteId × ContentSlot} :
    p ∈ g.visibleContent root ↔ Present g.content p ∧ g.Reaches root p.1 := by
  simp only [visibleContent, ExtTreeSet.mem_ofList, List.contains_iff_mem, List.mem_filterMap]
  constructor
  · rintro ⟨⟨key, entry⟩, he, hkey⟩
    split at hkey
    · rename_i hp
      cases hkey
      exact ⟨⟨entry, ExtTreeMap.mem_toList_iff_getElem?_eq_some.1 he, hp.1⟩,
        mem_reachableSites.1 hp.2⟩
    · cases hkey
  · rintro ⟨⟨entry, he, hp⟩, hreach⟩
    exact ⟨(p, entry), ExtTreeMap.mem_toList_iff_getElem?_eq_some.2 he,
      by simp [hp, mem_reachableSites.2 hreach]⟩

/-- More present entries reach and show more. -/
theorem view_mono (hfollows : ∀ k, Present g.follows k → Present g'.follows k)
    (hcontent : ∀ k, Present g.content k → Present g'.content k) (root : SiteId) :
    (∀ a ∈ g.reachableSites root, a ∈ g'.reachableSites root) ∧
      ∀ p ∈ g.visibleContent root, p ∈ g'.visibleContent root := by
  have hreach : ∀ a, g.Reaches root a → g'.Reaches root a := fun a =>
    ReflTransGen.mono (fun a b => hfollows (a, b)) root a
  refine ⟨fun a ha => ?_, fun p hp => ?_⟩
  · simpa using hreach a (by simpa using ha)
  · obtain ⟨hp, ha⟩ := mem_visibleContent.1 hp
    exact mem_visibleContent.2 ⟨hcontent p hp, hreach p.1 ha⟩

/-- An update that is present removes no present entry. -/
theorem present_lwwUpdate (map : LwwMap) (key k : UInt64 × UInt64) (ts : Lamport)
    (h : Present map k) : Present (lwwUpdate map key { ts, present := true }) k := by
  have hinsert : Present (map.insert key { ts, present := true }) k := by
    by_cases hk : key = k
    · exact ⟨{ ts, present := true }, by simp [hk], rfl⟩
    · obtain ⟨entry, he, hp⟩ := h
      exact ⟨entry, by simp [ExtTreeMap.getElem?_insert, hk, he], hp⟩
  unfold lwwUpdate
  split
  · split
    · exact h
    · exact hinsert
  · exact hinsert

/-- **Reachability and visibility are exact**: the search ends, with the sites that a path of
present follow edges reaches from the root; the visible content is the present content of these
sites; and an edge or a content that is added as present removes nothing from either set. -/
theorem view_exact (g : LensGraph) (root : SiteId) :
    SearchEnds g ((∅ : ExtTreeSet SiteId).insert root, [root]) (g.reachableSites root) ∧
    (∀ a, a ∈ g.reachableSites root ↔ ReflTransGen g.Edge root a) ∧
    (∀ p, p ∈ g.visibleContent root ↔
      Present g.content p ∧ ReflTransGen g.Edge root p.1) ∧
    (∀ a b ts, (∀ c ∈ g.reachableSites root, c ∈ (g.updateFollow a b ts true).reachableSites root) ∧
      ∀ p ∈ g.visibleContent root, p ∈ (g.updateFollow a b ts true).visibleContent root) ∧
    ∀ a slot ts,
      (∀ c ∈ g.reachableSites root, c ∈ (g.updateContent a slot ts true).reachableSites root) ∧
      ∀ p ∈ g.visibleContent root, p ∈ (g.updateContent a slot ts true).visibleContent root := by
  refine ⟨(reachableSites_ends g root).1, fun a => mem_reachableSites, fun p => mem_visibleContent,
    fun a b ts => ?_, fun a slot ts => ?_⟩
  · exact @view_mono g (g.updateFollow a b ts true) (fun k => present_lwwUpdate g.follows (a, b) k ts)
      (fun _ => id) root
  · exact @view_mono g (g.updateContent a slot ts true) (fun _ => id)
      (fun k => present_lwwUpdate g.content (a, slot) k ts) root

end LensGraph

end Citadel
