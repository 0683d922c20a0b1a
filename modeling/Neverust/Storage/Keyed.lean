import Neverust.Storage.Contents
import Neverust.Storage.Held

/-!
# Tables whose keys are CIDs

`Keyed`: the keys of a table are the texts of CIDs, with the data of the contents under them.

* `RedbStore.keeps`: the redb backend keeps its contents in such a table.
-/

open Std (ExtTreeMap)

namespace Storage

/-- The table has the contents, under the texts of the CIDs. -/
structure Keyed (cr : Crates) (t : ExtTreeMap String Bytes) (m : Contents) : Prop where
  get : ∀ cid, t[cr.cidToString cid]? = m cid
  key : ∀ key : String, (t[key]?).isSome → ∃ cid, key = cr.cidToString cid

section
variable {cr : Crates} {t : ExtTreeMap String Bytes} {m : Contents} {b : Block} {cid : Cid}

theorem cidToString_eq_iff {c : Cid} : cr.cidToString c = cr.cidToString cid ↔ cid = c :=
  ⟨fun h => (cr.cidToString_inj h).symm, fun h => by rw [h]⟩

/-- The CIDs of a table whose keys are texts of CIDs. -/
theorem mem_cids_iff {t : ExtTreeMap String Bytes}
    (hkey : ∀ key : String, (t[key]?).isSome → ∃ cid, key = cr.cidToString cid) :
    cid ∈ t.keys.filterMap cr.cidOfString ↔ (t[cr.cidToString cid]?).isSome := by
  rw [List.mem_filterMap]
  constructor
  · rintro ⟨key, hmem, hcid⟩
    rw [ExtTreeMap.mem_keys, ExtTreeMap.mem_iff_isSome_getElem?] at hmem
    obtain ⟨c, rfl⟩ := hkey key hmem
    rw [cr.cidOfString_toString] at hcid
    obtain rfl := Option.some.inj hcid
    exact hmem
  · intro hsome
    refine ⟨cr.cidToString cid, ?_, cr.cidOfString_toString cid⟩
    rw [ExtTreeMap.mem_keys, ExtTreeMap.mem_iff_isSome_getElem?]
    exact hsome

namespace Keyed

theorem empty (cr : Crates) : Keyed cr ∅ .empty where
  get _ := ExtTreeMap.getElem?_empty
  key key h := by
    rw [ExtTreeMap.getElem?_empty] at h
    cases h

theorem insert (h : Keyed cr t m) (hm : m b.cid = none) :
    Keyed cr (t.insert (cr.cidToString b.cid) b.data) (m.put b) where
  get cid := by
    rw [ExtTreeMap.getElem?_insert, Contents.put_of_none hm, h.get]
    simp only [Std.LawfulEqCmp.compare_eq_iff_eq, cidToString_eq_iff]
  key key hkey := by
    rw [ExtTreeMap.getElem?_insert] at hkey
    split at hkey
    · rename_i hk
      exact ⟨b.cid, (Std.LawfulEqCmp.compare_eq_iff_eq.1 hk).symm⟩
    · exact h.key key hkey

theorem insertIfNew (h : Keyed cr t m) :
    Keyed cr (t.insertIfNew (cr.cidToString b.cid) b.data) (m.put b) where
  get cid := by
    rw [RedbStore.getElem?_insertIfNew, h.get, h.get]
    by_cases hc : cid = b.cid
    · subst hc
      rw [Contents.put_self]
      cases m b.cid with
      | none => exact if_pos ⟨rfl, rfl⟩
      | some data => exact if_neg fun hn => nomatch hn.2
    · rw [Contents.put_of_ne hc, if_neg fun hn => hc (cidToString_eq_iff.1 hn.1)]
  key key hkey := by
    rw [RedbStore.getElem?_insertIfNew] at hkey
    split at hkey
    · rename_i hk
      exact ⟨b.cid, hk.1.symm⟩
    · exact h.key key hkey

theorem erase (h : Keyed cr t m) (cid : Cid) :
    Keyed cr (t.erase (cr.cidToString cid)) (m.delete cid) where
  get c := by
    rw [ExtTreeMap.getElem?_erase, h.get]
    simp only [Std.LawfulEqCmp.compare_eq_iff_eq, cidToString_eq_iff]
    rfl
  key key hkey := by
    rw [ExtTreeMap.getElem?_erase] at hkey
    split at hkey
    · cases hkey
    · exact h.key key hkey

theorem mem_cids (h : Keyed cr t m) :
    cid ∈ t.keys.filterMap cr.cidOfString ↔ (m cid).isSome := by
  rw [← h.get]
  exact mem_cids_iff h.key

end Keyed

/-! ## The redb backend -/

namespace RedbStore

theorem keyed_insertAll (blocks : List Block) (h : Keyed cr t m) :
    Keyed cr (insertAll cr t blocks) (blocks.foldl Contents.put m) := by
  induction blocks generalizing t m with
  | nil => exact h
  | cons b bs ih => exact ih h.insertIfNew

/-- No transaction fails, and the table has the contents. -/
def Shelved (cr : Crates) (m : Contents) (s : RedbStore) : Prop :=
  s.failures = [] ∧ Keyed cr s.table m

theorem shelved_empty (cr : Crates) : Shelved cr .empty empty := ⟨rfl, .empty cr⟩

theorem lookup_toOption (h : Keyed cr t m) (cid : Cid) :
    (lookup cr cid t).toOption = (m cid).map fun data => { cid, data } := by
  rw [lookup, h.get]
  cases m cid with
  | none => rfl
  | some data => rfl

/-- **The redb backend keeps its contents**: every call fits. -/
theorem keeps (cr : Crates) :
    (backend cr false).Keeps (fun _ (_ : Unit) _ => True) (fun _ _ _ => ())
      fun m _ (s : RedbStore) => Shelved cr m s := by
  rintro m - ⟨table, failures⟩ r ⟨hnil, hkeyed⟩ -
  change failures = [] at hnil
  subst hnil
  cases r with
  | putMany blocks =>
    have heq := @putMany_of_nil cr blocks ⟨table, []⟩ rfl
    show (putMany cr false blocks _).1 = .ok () ∧ Shelved cr _ (putMany cr false blocks _).2
    rw [heq]
    exact ⟨rfl, rfl, keyed_insertAll blocks hkeyed⟩
  | get cid =>
    have heq := @get_of_nil cr cid ⟨table, []⟩ rfl
    show (get cr cid _).1.toOption = _ ∧ Shelved cr m (get cr cid _).2
    rw [heq]
    exact ⟨lookup_toOption hkeyed cid, rfl, hkeyed⟩
  | has cid =>
    show (has cr cid _).1 = _ ∧ Shelved cr m (has cr cid _).2
    rw [has_eq rfl, hkeyed.get]
    exact ⟨rfl, rfl, hkeyed⟩
  | delete cid =>
    show (delete cr cid _).1.toOption = _ ∧ Shelved cr (m.delete cid) (delete cr cid _).2
    rw [delete_eq rfl]
    refine ⟨?_, rfl, ?_⟩
    · rw [remove, hkeyed.get]
      cases m cid with
      | none => rfl
      | some data => rfl
    · unfold remove
      rw [hkeyed.get]
      cases hm : m cid with
      | none =>
        rw [Contents.delete_of_none hm]
        exact hkeyed
      | some data => exact hkeyed.erase cid
  | listCids =>
    have heq : listCids cr ⟨table, []⟩ = (table.keys.filterMap cr.cidOfString, ⟨table, []⟩) := rfl
    show (∀ cid, cid ∈ (listCids cr _).1 ↔ _) ∧ Shelved cr m (listCids cr _).2
    rw [heq]
    exact ⟨fun cid => hkeyed.mem_cids, rfl, hkeyed⟩

end RedbStore

end

end Storage
