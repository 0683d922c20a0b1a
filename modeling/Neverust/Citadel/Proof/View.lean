import Neverust.CidForms
import Neverust.Citadel.Proof.Reach

/-!
# Digests of views

`view_digest_hex` hashes the root, the reachable sites and the visible content with nothing between
them. They can still be told apart: the sites ascend, and the content begins with a site that was
already listed (`sites_split`). So views with one digest are equal, unless the hash collides.
-/

namespace Citadel

open Std (ExtTreeSet)
open Bytes

/-- Encodings of one length can be told apart in a row. -/
theorem flatMap_injective {α : Type} {f : α → Bytes} {n : Nat} (hn : 0 < n)
    (hlen : ∀ a, (f a).length = n) (hinj : ∀ a b, f a = f b → a = b) :
    ∀ {l l' : List α}, l.flatMap f = l'.flatMap f → l = l'
  | [], [], _ => rfl
  | [], b :: _, h => by
    have := congrArg List.length h
    simp [hlen] at this
    omega
  | a :: _, [], h => by
    have := congrArg List.length h
    simp [hlen] at this
    omega
  | a :: l, b :: l', h => by
    rw [List.flatMap_cons, List.flatMap_cons] at h
    obtain ⟨hhead, htail⟩ := List.append_inj h (by rw [hlen, hlen])
    rw [hinj a b hhead, flatMap_injective hn hlen hinj htail]

/-- Ascending sites followed by pairs whose sites are among them, read in one way only. -/
theorem sites_split {s s' : List UInt64} {p p' : List (UInt64 × UInt64)}
    (hs : s.Pairwise (· < ·)) (hs' : s'.Pairwise (· < ·)) (hp : ∀ x ∈ p, x.1 ∈ s)
    (hp' : ∀ x ∈ p', x.1 ∈ s')
    (h : (s ++ p.flatMap fun x => [x.1, x.2]) = s' ++ p'.flatMap fun x => [x.1, x.2]) :
    s = s' ∧ (p.flatMap fun x => [x.1, x.2]) = p'.flatMap fun x => [x.1, x.2] := by
  -- a longer list of sites goes on with the site of a pair, which was listed before
  have hnil : ∀ {s t : List UInt64} {p p' : List (UInt64 × UInt64)}, (s ++ t).Pairwise (· < ·) →
      (∀ x ∈ p, x.1 ∈ s) →
      ((p.flatMap fun x => [x.1, x.2]) = t ++ p'.flatMap fun x => [x.1, x.2]) → t = [] := by
    intro s t p p' hst hp h
    cases t with
    | nil => rfl
    | cons a t =>
      cases p with
      | nil => simp at h
      | cons x p =>
        have hx : x.1 = a := by simpa using congrArg List.head? h
        have hlt := (List.pairwise_append.1 hst).2.2 x.1 (hp x (by simp)) a (by simp)
        rw [hx] at hlt
        exact absurd hlt (UInt64.lt_irrefl a)
  rcases List.append_eq_append_iff.1 h with ⟨t, rfl, ht⟩ | ⟨t, rfl, ht⟩
  · have ht' := hnil hs' hp ht
    subst ht'
    exact ⟨by simp, by simpa using ht⟩
  · have ht' := hnil hs hp' ht
    subst ht'
    exact ⟨by simp, by simpa using ht.symm⟩

theorem pairs_injective : ∀ {p p' : List (UInt64 × UInt64)},
    ((p.flatMap fun x => [x.1, x.2]) = p'.flatMap fun x => [x.1, x.2]) → p = p'
  | [], [], _ => rfl
  | [], _ :: _, h => by simp at h
  | _ :: _, [], h => by simp at h
  | x :: p, y :: p', h => by
    simp only [List.flatMap_cons, List.cons_append, List.nil_append, List.cons.injEq] at h
    rw [Prod.ext h.1 h.2.1, pairs_injective h.2.2]

theorem digitChar_inj : ∀ a < 16, ∀ b < 16, Nat.digitChar a = Nat.digitChar b → a = b := by
  decide

namespace LensGraph

theorem hexText_injective {b b' : Bytes} (h : hexText b = hexText b') : b = b' := by
  replace h := String.ofList_injective h
  induction b generalizing b' with
  | nil =>
    cases b' with
    | nil => rfl
    | cons y b' => simp at h
  | cons x b ih =>
    cases b' with
    | nil => simp at h
    | cons y b' =>
      simp only [List.flatMap_cons, List.cons_append, List.nil_append, List.cons.injEq] at h
      obtain ⟨hhi, hlo, hrest⟩ := h
      have hx := x.toNat_lt
      have hy := y.toNat_lt
      have hdiv := digitChar_inj _ (by omega) _ (by omega) hhi
      have hmod := digitChar_inj _ (by omega) _ (by omega) hlo
      rw [ih hrest, UInt8.toNat_inj.1 (show x.toNat = y.toNat by omega)]

/-- The numbers that `view_digest_hex` hashes. -/
def viewWords (g : LensGraph) (root : SiteId) : List UInt64 :=
  root :: ((g.reachableSites root).toList ++
    (g.visibleContent root).toList.flatMap fun p => [p.1, p.2])

theorem viewBytes_eq (g : LensGraph) (root : SiteId) :
    g.viewBytes root = ("neverust-citadel-view-v1".toList.map fun c => UInt8.ofNat c.toNat) ++
      (g.viewWords root).flatMap fun x => leBytes 8 x.toNat := by
  unfold viewBytes
  generalize ("neverust-citadel-view-v1".toList.map fun c => UInt8.ofNat c.toNat) = tag
  simp only [viewWords, List.flatMap_cons, List.flatMap_append, List.flatMap_assoc,
    List.append_assoc, List.flatMap_nil, List.append_nil]

theorem viewWords_of_viewBytes {g g' : LensGraph} {root root' : SiteId}
    (h : g.viewBytes root = g'.viewBytes root') : g.viewWords root = g'.viewWords root' := by
  rw [viewBytes_eq, viewBytes_eq] at h
  refine flatMap_injective (by decide) (fun x => length_leBytes 8 _) (fun a b hab => ?_)
    (List.append_cancel_left h)
  have := congrArg u64OfLe hab
  simpa using this

theorem reachableSites_sorted (g : LensGraph) (root : SiteId) :
    (g.reachableSites root).toList.Pairwise (· < ·) :=
  ExtTreeSet.ordered_toList.imp fun h => Std.compare_eq_lt.1 h

theorem view_of_viewWords {g g' : LensGraph} {root root' : SiteId}
    (h : g.viewWords root = g'.viewWords root') : root = root' ∧
      g.reachableSites root = g'.reachableSites root' ∧
      g.visibleContent root = g'.visibleContent root' := by
  have hsite : ∀ (g : LensGraph) (root : SiteId), ∀ p ∈ (g.visibleContent root).toList,
      p.1 ∈ (g.reachableSites root).toList := by
    intro g root p hp
    rw [ExtTreeSet.mem_toList, mem_visibleContent] at hp
    simpa using hp.2
  obtain ⟨hroot, hrest⟩ := List.cons.inj h
  obtain ⟨hsites, hpairs⟩ := sites_split (g.reachableSites_sorted root)
    (g'.reachableSites_sorted root') (hsite g root) (hsite g' root') hrest
  refine ⟨hroot, ExtTreeSet.toList_inj.1 hsites, ExtTreeSet.toList_inj.1 ?_⟩
  exact pairs_injective hpairs

/-- **Equal view digests mean equal views**, unless the hash collides on the two hashed strings. -/
theorem view_of_digest (cr : Crates) (g g' : LensGraph) (root root' : SiteId)
    (hcf : cr.blake3 (g.viewBytes root) = cr.blake3 (g'.viewBytes root') →
      g.viewBytes root = g'.viewBytes root')
    (h : g.viewDigestHex cr root = g'.viewDigestHex cr root') :
    root = root' ∧ g.reachableSites root = g'.reachableSites root' ∧
      g.visibleContent root = g'.visibleContent root' :=
  view_of_viewWords (viewWords_of_viewBytes (hcf (hexText_injective h)))

/-- Site 1 follows site 2, which has a content. -/
def sampleGraph : LensGraph :=
  ((∅ : LensGraph).updateFollow 1 2 ⟨1, 1⟩ true).updateContent 2 0 ⟨2, 1⟩ true

/-- The same with the content of a site that nobody follows. -/
def strayGraph : LensGraph := sampleGraph.updateContent 9 0 ⟨3, 1⟩ true

theorem view_of_digest_sample :
    sampleGraph.viewDigestHex .standard 1 = strayGraph.viewDigestHex .standard 1 ∧
      sampleGraph.visibleContent 1 = strayGraph.visibleContent 1 := by
  have hwords : sampleGraph.viewWords 1 = strayGraph.viewWords 1 := by decide +kernel
  have hbytes : sampleGraph.viewBytes 1 = strayGraph.viewBytes 1 := by
    rw [viewBytes_eq, viewBytes_eq, hwords]
  have hdigest : sampleGraph.viewDigestHex .standard 1 = strayGraph.viewDigestHex .standard 1 := by
    rw [viewDigestHex, viewDigestHex, hbytes]
  exact ⟨hdigest, (view_of_digest .standard sampleGraph strayGraph 1 1 (fun _ => hbytes)
    hdigest).2.2⟩

end LensGraph

end Citadel
