import Neverust.CidBlake3
import Neverust.Lib.Lww

/-!
# Citadel: the lens graph

`LensGraph`: who follows whom and which content is present, each entry with the Lamport timestamp
of the operation that set it. Maps and sets of the source are extensional trees, whatever their
hashing or order there; the iteration order of a `BTreeMap` is that of `toList`.
-/

namespace Citadel

open Std (ExtTreeMap ExtTreeSet)
open Bytes

abbrev NodeId := UInt32
abbrev SiteId := UInt64
abbrev ContentSlot := UInt64

structure Lamport where
  counter : UInt64
  origin : NodeId
  deriving Repr, DecidableEq

namespace Lamport

/-- The derived order compares the counters first. -/
def key (t : Lamport) : ℕ ×ₗ ℕ := toLex (t.counter.toNat, t.origin.toNat)

theorem key_injective : Function.Injective key := by
  rintro ⟨c, o⟩ ⟨c', o'⟩ h
  have h := congrArg ofLex h
  simp only [key, ofLex_toLex, Prod.mk.injEq, UInt64.toNat_inj, UInt32.toNat_inj] at h
  rw [h.1, h.2]

instance : LinearOrder Lamport := LinearOrder.lift' key key_injective

theorem lt_iff {a b : Lamport} :
    a < b ↔ a.counter < b.counter ∨ a.counter = b.counter ∧ a.origin < b.origin := by
  change a.key < b.key ↔ _
  rw [Prod.Lex.lt_iff]
  simp [key, UInt64.lt_iff_toNat_lt, UInt32.lt_iff_toNat_lt, UInt64.toNat_inj]

end Lamport

structure LwwEntry where
  ts : Lamport
  present : Bool
  deriving Repr, DecidableEq

/-- The order of pairs. -/
abbrev pairCmp : UInt64 × UInt64 → UInt64 × UInt64 → Ordering :=
  compareLex (compareOn Prod.fst) (compareOn Prod.snd)

instance : Std.TransCmp pairCmp := inferInstance

instance : Std.LawfulEqCmp pairCmp where
  eq_of_compare {a b} h := by
    simp only [pairCmp, compareLex_eq_eq, compareOn] at h
    exact Prod.ext (Std.LawfulEqCmp.eq_of_compare h.1) (Std.LawfulEqCmp.eq_of_compare h.2)

/-- A `BTreeMap` of entries under pairs. -/
abbrev LwwMap := ExtTreeMap (UInt64 × UInt64) LwwEntry pairCmp

structure LensGraph where
  follows : LwwMap
  content : LwwMap
  deriving DecidableEq

namespace LensGraph

instance : EmptyCollection LensGraph := ⟨⟨∅, ∅⟩⟩

def lwwUpdate (map : LwwMap) (key : UInt64 × UInt64) (next : LwwEntry) : LwwMap :=
  match map[key]? with
  | some prev => if prev.ts ≥ next.ts then map else map.insert key next
  | none => map.insert key next

def updateFollow (g : LensGraph) (siteId targetSiteId : SiteId) (ts : Lamport) (enabled : Bool) :
    LensGraph :=
  { g with follows := lwwUpdate g.follows (siteId, targetSiteId) { ts, present := enabled } }

def updateContent (g : LensGraph) (siteId : SiteId) (contentSlot : ContentSlot) (ts : Lamport)
    (present : Bool) : LensGraph :=
  { g with content := lwwUpdate g.content (siteId, contentSlot) { ts, present } }

def mergeFrom (g other : LensGraph) : LensGraph where
  follows := other.follows.foldl lwwUpdate g.follows
  content := other.content.foldl lwwUpdate g.content

/-- The sites found so far, and the queue of those whose edges have not been looked at. -/
abbrev Search := ExtTreeSet SiteId × List SiteId

/-- One edge, for the site taken from the queue. -/
def visit (site : SiteId) (s : Search) (edge : (SiteId × SiteId) × LwwEntry) : Search :=
  let ((source, target), entry) := edge
  if source = site ∧ entry.present ∧ target ∉ s.1 then (s.1.insert target, s.2 ++ [target]) else s

/-- The loop over the queue. A site enters the queue at most once, as the target of an edge or as
the root, which bounds the rounds. -/
def searchLoop (g : LensGraph) : Nat → Search → ExtTreeSet SiteId
  | 0, (out, _) => out
  | _ + 1, (out, []) => out
  | n + 1, (out, site :: q) => searchLoop g n (g.follows.toList.foldl (visit site) (out, q))

def reachableSites (g : LensGraph) (rootSiteId : SiteId) : ExtTreeSet SiteId :=
  searchLoop g (g.follows.size + 1) ((∅ : ExtTreeSet SiteId).insert rootSiteId, [rootSiteId])

def visibleContent (g : LensGraph) (rootSiteId : SiteId) :
    ExtTreeSet (SiteId × ContentSlot) pairCmp :=
  let reachable := g.reachableSites rootSiteId
  .ofList (g.content.toList.filterMap fun (key, entry) =>
    if entry.present ∧ key.1 ∈ reachable then some key else none) pairCmp

/-- The bytes that `view_digest_hex` hashes. -/
def viewBytes (g : LensGraph) (rootSiteId : SiteId) : Bytes :=
  ("neverust-citadel-view-v1".toList.map fun c => UInt8.ofNat c.toNat) ++
    leBytes 8 rootSiteId.toNat ++
    ((g.reachableSites rootSiteId).toList.flatMap fun site => leBytes 8 site.toNat) ++
    (g.visibleContent rootSiteId).toList.flatMap fun (site, slot) =>
      leBytes 8 site.toNat ++ leBytes 8 slot.toNat

/-- `to_hex`. -/
def hexText (b : Bytes) : String :=
  String.ofList (b.flatMap fun x => [Nat.digitChar (x.toNat / 16), Nat.digitChar (x.toNat % 16)])

def viewDigestHex (cr : Crates) (g : LensGraph) (rootSiteId : SiteId) : String :=
  hexText (cr.blake3 (g.viewBytes rootSiteId))

theorem lwwUpdate_eq (map : LwwMap) (key : UInt64 × UInt64) (next : LwwEntry) :
    lwwUpdate map key next = Lww.update LwwEntry.ts map key next := by
  unfold lwwUpdate Lww.update
  cases map[key]? with
  | none => rfl
  | some prev => rfl

end LensGraph

end Citadel
