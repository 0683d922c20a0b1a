import Neverust.Storage.Redb

/-!
# What a store says that it holds

* `Backend.Tells`: a `put` adds its CID, a `delete` takes it away, and neither touches another one.
* `RedbStore.tells`: the default backend does so as long as no transaction fails.
-/

open Std (ExtTreeMap)

namespace Storage

/-- Whether the store says that it holds a CID. -/
def Backend.held (B : Backend) (s : B.State) (cid : Cid) : Bool := (B.answer (.has cid) s).1

/-- A store, in the states of `Valid`, whose `put` and `delete` do what they should. -/
structure Backend.Tells (B : Backend) (Valid : B.State → Prop) : Prop where
  has_valid : ∀ {s : B.State} (cid : Cid), Valid s → Valid (B.answer (.has cid) s).2
  put_valid : ∀ {s : B.State} (b : Block), Valid s → Valid (B.answer (.put b) s).2
  delete_valid : ∀ {s : B.State} (cid : Cid), Valid s → Valid (B.answer (.delete cid) s).2
  held_has : ∀ {s : B.State} (cid c : Cid), Valid s →
    B.held (B.answer (.has cid) s).2 c = B.held s c
  held_put : ∀ {s : B.State} (b : Block) (c : Cid), Valid s →
    B.held (B.answer (.put b) s).2 c = (decide (c = b.cid) || B.held s c)
  held_delete : ∀ {s : B.State} (cid c : Cid), Valid s →
    B.held (B.answer (.delete cid) s).2 c = (!decide (c = cid) && B.held s c)

/-! ## The redb backend -/

namespace RedbStore

variable {cr : Crates}

theorem has_eq {s : RedbStore} (h : s.failures = []) (cid : Cid) : has cr cid s =
    ((s.table[cr.cidToString cid]?).isSome, { table := s.table, failures := [] }) := by
  unfold has
  rw [transact_of_nil _ h]
  rfl

theorem delete_eq {s : RedbStore} (h : s.failures = []) (cid : Cid) : delete cr cid s =
    ((remove cr cid s.table).1,
      { table := (remove cr cid s.table).2, failures := [] }) := by
  unfold delete
  exact transact_of_nil _ h

theorem held_eq {s : RedbStore} (h : s.failures = []) (cid : Cid) :
    (backend cr false).held s cid = (s.table[cr.cidToString cid]?).isSome :=
  congrArg Prod.fst (has_eq h cid)

/-- The default backend does what it should as long as no transaction fails. -/
theorem tells (cr : Crates) :
    (backend cr false).Tells fun s : RedbStore => s.failures = [] := by
  have hput : ∀ {s : RedbStore} (b : Block), s.failures = [] →
      putMany cr false [b] s =
        (.ok (), { table := insertAll cr s.table [b], failures := [] }) := by
    intro s b h
    rw [putMany, if_neg (by simp), verifyBlocks_false]
    exact transact_of_nil _ h
  constructor
  · intro s cid h
    change (has cr cid s).2.failures = []
    rw [has_eq h]
  · intro s b h
    change (putMany cr false [b] s).2.failures = []
    rw [hput b h]
  · intro s cid h
    change (delete cr cid s).2.failures = []
    rw [delete_eq h]
  · intro s cid c h
    change (backend cr false).held (has cr cid s).2 c = _
    rw [has_eq h, held_eq h, held_eq rfl]
  · intro s b c h
    change (backend cr false).held (putMany cr false [b] s).2 c = _
    rw [hput b h, held_eq h, held_eq rfl, insertAll_cons,
      show insertAll cr (s.table.insertIfNew (cr.cidToString b.cid) b.data) [] =
        s.table.insertIfNew (cr.cidToString b.cid) b.data from rfl, getElem?_insertIfNew]
    by_cases hc : c = b.cid
    · subst hc
      cases s.table[cr.cidToString b.cid]? <;> simp
    · have hne : cr.cidToString b.cid ≠ cr.cidToString c := fun heq =>
        hc (cr.cidToString_inj heq).symm
      simp [hc, hne]
  · intro s cid c h
    change (backend cr false).held (delete cr cid s).2 c = _
    rw [delete_eq h, held_eq h, held_eq rfl]
    by_cases hc : c = cid
    · subst hc
      rw [remove]
      cases hget : s.table[cr.cidToString c]? <;> simp [hget]
    · have hne : cr.cidToString cid ≠ cr.cidToString c := fun heq =>
        hc (cr.cidToString_inj heq).symm
      rw [remove]
      split <;> simp [hc, hne, ExtTreeMap.getElem?_erase]

end RedbStore

end Storage
