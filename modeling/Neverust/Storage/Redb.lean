import Neverust.Lib.Lww
import Neverust.Storage.Backend

/-!
# The redb backend

The default backend: one table from the text of a CID to the data. A transaction works on a copy of
the table, which replaces the table when it is committed. `failures` tells which of the next
transactions fail; a transaction that fails leaves the table as it was.

* `answer_only`: a call makes the store return a block only if the call put it.
* `returnsWhatWasPut`: the backend returns what was put, for blocks whose CIDs tell their data.
-/

open Std (ExtTreeMap)

namespace Storage

structure RedbStore where
  table : ExtTreeMap String Bytes
  failures : List Bool
  deriving DecidableEq

namespace RedbStore

def empty : RedbStore := { table := ∅, failures := [] }

section
variable (cr : Crates)

/-- The write of `put_many`: a key that is there keeps its value. -/
def insertAll (table : ExtTreeMap String Bytes) (blocks : List Block) : ExtTreeMap String Bytes :=
  blocks.foldl (fun t b => t.insertIfNew (cr.cidToString b.cid) b.data) table

/-- A transaction: what it does with the table if it does not fail. -/
def transact {α : Type} (f : ExtTreeMap String Bytes → Except StorageError α × ExtTreeMap String Bytes)
    (s : RedbStore) : Except StorageError α × RedbStore :=
  match s.failures with
  | true :: rest => (.error (.databaseError .redb), { s with failures := rest })
  | failures =>
    let (r, table) := f s.table
    (r, { table, failures := failures.tail })

/-- `put_many`; `verifyOnWrite` is the setting `NEVERUST_VERIFY_BLOCKS_ON_WRITE`. -/
def putMany (verifyOnWrite : Bool) (blocks : List Block) (s : RedbStore) :
    Except StorageError Unit × RedbStore :=
  if blocks = [] then (.ok (), s)
  else
    match verifyBlocks cr verifyOnWrite blocks with
    | .error e => (.error e, s)
    | .ok () => transact (fun t => (.ok (), insertAll cr t blocks)) s

/-- The read of `get`. -/
def lookup (cid : Cid) (table : ExtTreeMap String Bytes) : Except StorageError Block :=
  match table[cr.cidToString cid]? with
  | some data => .ok { cid, data }
  | none => .error (.blockNotFound (cr.cidToString cid))

def get (cid : Cid) (s : RedbStore) : Except StorageError Block × RedbStore :=
  transact (fun t => (lookup cr cid t, t)) s

def has (cid : Cid) (s : RedbStore) : Bool × RedbStore :=
  let (r, s') := transact (fun t => (.ok (t[cr.cidToString cid]?).isSome, t)) s
  (r.toOption.getD false, s')

/-- The write of `delete`. -/
def remove (cid : Cid) (table : ExtTreeMap String Bytes) :
    Except StorageError Unit × ExtTreeMap String Bytes :=
  match table[cr.cidToString cid]? with
  | some _ => (.ok (), table.erase (cr.cidToString cid))
  | none => (.error (.blockNotFound (cr.cidToString cid)), table)

def delete (cid : Cid) (s : RedbStore) : Except StorageError Unit × RedbStore :=
  transact (remove cr cid) s

def listCids (s : RedbStore) : List Cid × RedbStore :=
  let (r, s') := transact (fun t => (.ok (t.keys.filterMap cr.cidOfString), t)) s
  (r.toOption.getD [], s')

def backend (verifyOnWrite : Bool) : Backend where
  State := RedbStore
  answer
    | .putMany blocks => putMany cr verifyOnWrite blocks
    | .get cid => get cr cid
    | .has cid => has cr cid
    | .delete cid => delete cr cid
    | .listCids => listCids cr

end

/-! ## The table -/

section
variable {cr : Crates}

theorem insertAll_cons (t : ExtTreeMap String Bytes) (b : Block) (bs : List Block) :
    insertAll cr t (b :: bs) = insertAll cr (t.insertIfNew (cr.cidToString b.cid) b.data) bs := rfl

theorem getElem?_insertIfNew {t : ExtTreeMap String Bytes} {k k' : String} {d : Bytes} :
    (t.insertIfNew k d)[k']? = if k = k' ∧ t[k]? = none then some d else t[k']? := by
  rw [ExtTreeMap.getElem?_insertIfNew]
  have hmem : k ∉ t ↔ t[k]? = none := by
    rw [ExtTreeMap.mem_iff_isSome_getElem?]
    simp
  simp only [Std.LawfulEqCmp.compare_eq_iff_eq, hmem]

/-- A key that is there keeps its value. -/
theorem insertAll_of_some {k : String} {d : Bytes} :
    ∀ (bs : List Block) {t : ExtTreeMap String Bytes}, t[k]? = some d →
      (insertAll cr t bs)[k]? = some d
  | [], _, h => h
  | b :: bs, t, h => by
    rw [insertAll_cons]
    apply insertAll_of_some bs
    rw [getElem?_insertIfNew, if_neg, h]
    rintro ⟨rfl, hn⟩
    rw [h] at hn
    cases hn

/-- What is in the table afterwards was there before or is the data of a block. -/
theorem insertAll_cases {k : String} {d : Bytes} :
    ∀ (bs : List Block) {t : ExtTreeMap String Bytes}, (insertAll cr t bs)[k]? = some d →
      t[k]? = some d ∨ ∃ b ∈ bs, cr.cidToString b.cid = k ∧ b.data = d
  | [], _, h => .inl h
  | b :: bs, t, h => by
    rw [insertAll_cons] at h
    rcases insertAll_cases bs h with h | ⟨b', hb', hk, hd⟩
    · rw [getElem?_insertIfNew] at h
      split at h
      · rename_i hk
        exact .inr ⟨b, List.mem_cons_self, hk.1, Option.some.inj h⟩
      · exact .inl h
    · exact .inr ⟨b', List.mem_cons_of_mem b hb', hk, hd⟩

/-- Every key of a block is in the table afterwards. -/
theorem insertAll_isSome {b : Block} :
    ∀ (bs : List Block) {t : ExtTreeMap String Bytes}, b ∈ bs →
      ∃ d, (insertAll cr t bs)[cr.cidToString b.cid]? = some d
  | b' :: bs, t, h => by
    rw [insertAll_cons]
    rcases List.mem_cons.1 h with rfl | h
    · cases ht : t[cr.cidToString b.cid]? with
      | some d =>
        refine ⟨d, insertAll_of_some bs ?_⟩
        rw [getElem?_insertIfNew, if_neg (by rw [ht]; rintro ⟨-, h⟩; cases h), ht]
      | none => exact ⟨b.data, insertAll_of_some bs (by rw [getElem?_insertIfNew, if_pos ⟨rfl, ht⟩])⟩
    · exact insertAll_isSome bs h

/-! ## Calls -/

/-- A transaction does what it does, or it fails and leaves the table. -/
theorem transact_cases {α : Type}
    (f : ExtTreeMap String Bytes → Except StorageError α × ExtTreeMap String Bytes)
    (s : RedbStore) :
    ((transact f s).1 = (f s.table).1 ∧ (transact f s).2.table = (f s.table).2) ∨
      ((transact f s).1 = .error (.databaseError .redb) ∧ (transact f s).2.table = s.table) := by
  unfold transact
  split
  · exact .inr ⟨rfl, rfl⟩
  · exact .inl ⟨rfl, rfl⟩

theorem transact_of_nil {α : Type}
    (f : ExtTreeMap String Bytes → Except StorageError α × ExtTreeMap String Bytes)
    {s : RedbStore} (h : s.failures = []) :
    transact f s = ((f s.table).1, { table := (f s.table).2, failures := [] }) := by
  unfold transact
  rw [h]
  rfl

theorem lookup_eq_ok_iff {cid : Cid} {t : ExtTreeMap String Bytes} {b : Block} :
    lookup cr cid t = .ok b ↔ b.cid = cid ∧ t[cr.cidToString cid]? = some b.data := by
  unfold lookup
  cases h : t[cr.cidToString cid]? with
  | none => exact iff_of_false nofun fun h => nomatch h.2
  | some data =>
    constructor
    · intro hb
      cases hb
      exact ⟨rfl, rfl⟩
    · rintro ⟨rfl, hd⟩
      rw [Option.some.inj hd]

/-- What `get` returns is in the table. -/
theorem get_eq_ok {cid : Cid} {s : RedbStore} {b : Block} (h : (get cr cid s).1 = .ok b) :
    b.cid = cid ∧ s.table[cr.cidToString cid]? = some b.data := by
  rcases transact_cases (fun t => (lookup cr cid t, t)) s with ⟨hr, -⟩ | ⟨hr, -⟩
  · exact lookup_eq_ok_iff.1 (hr.symm.trans h)
  · cases hr.symm.trans h

theorem verifyBlocks_false (blocks : List Block) : verifyBlocks cr false blocks = .ok () := rfl

theorem putMany_table (v : Bool) (blocks : List Block) (s : RedbStore) :
    (putMany cr v blocks s).2.table = s.table ∨
      (putMany cr v blocks s).2.table = insertAll cr s.table blocks := by
  unfold putMany
  split
  · exact .inl rfl
  · split
    · exact .inl rfl
    · rcases @transact_cases Unit (fun t => (.ok (), insertAll cr t blocks)) s with h | h
      · exact .inr h.2
      · exact .inl h.2

/-- A call changes the table in one of three ways. -/
theorem answer_table (v : Bool) (r : StoreReq) (s : RedbStore) :
    let s' : RedbStore := ((backend cr v).answer r s).2
    s'.table = s.table ∨ (∃ blocks, r = .putMany blocks ∧ s'.table = insertAll cr s.table blocks) ∨
      ∃ cid, r = .delete cid ∧ s'.table = s.table.erase (cr.cidToString cid) := by
  cases r with
  | putMany blocks =>
    rcases putMany_table v blocks s with h | h
    · exact .inl h
    · exact .inr (.inl ⟨blocks, rfl, h⟩)
  | get cid =>
    rcases transact_cases (fun t => (lookup cr cid t, t)) s with h | h
    · exact .inl h.2
    · exact .inl h.2
  | has cid =>
    rcases transact_cases (fun t => (.ok (t[cr.cidToString cid]?).isSome, t)) s with h | h
    · exact .inl h.2
    · exact .inl h.2
  | delete cid =>
    rcases transact_cases (remove cr cid) s with h | h
    · have ht := h.2
      change (delete cr cid s).2.table = _ at ht
      unfold remove at ht
      split at ht
      · exact .inr (.inr ⟨cid, rfl, ht⟩)
      · exact .inl ht
    · exact .inl h.2
  | listCids =>
    rcases transact_cases (fun t => (.ok (t.keys.filterMap cr.cidOfString), t)) s with h | h
    · exact .inl h.2
    · exact .inl h.2

/-- **A call makes the store return only what it put**: a key has a value after a call that it had
before, unless the call put it. -/
theorem answer_only {v : Bool} {r : StoreReq} {s : RedbStore} {k : String} {d : Bytes}
    (h : (((backend cr v).answer r s).2 : RedbStore).table[k]? = some d) :
    s.table[k]? = some d ∨
      ∃ blocks, r = .putMany blocks ∧ ∃ b ∈ blocks, cr.cidToString b.cid = k ∧ b.data = d := by
  rcases answer_table v r s with heq | ⟨blocks, rfl, heq⟩ | ⟨cid, rfl, heq⟩
  · rw [heq] at h
    exact .inl h
  · rw [heq] at h
    rcases insertAll_cases blocks h with h | hb
    · exact .inl h
    · exact .inr ⟨blocks, rfl, hb⟩
  · rw [heq, ExtTreeMap.getElem?_erase] at h
    split at h
    · cases h
    · exact .inl h

/-! ## The backend returns what was put -/

/-- No transaction fails, and the table agrees with the blocks in `K`. -/
def Agrees (cr : Crates) (K : Block → Prop) (s : RedbStore) : Prop :=
  s.failures = [] ∧ ∀ b, K b → ∀ d, s.table[cr.cidToString b.cid]? = some d → d = b.data

theorem agrees_empty (K : Block → Prop) : Agrees cr K empty := by
  refine ⟨rfl, fun b _ d h => ?_⟩
  change (∅ : ExtTreeMap String Bytes)[cr.cidToString b.cid]? = some d at h
  rw [ExtTreeMap.getElem?_empty] at h
  cases h

theorem putMany_of_nil {blocks : List Block} {s : RedbStore} (h : s.failures = []) :
    putMany cr false blocks s =
      (.ok (), { table := insertAll cr s.table blocks, failures := [] }) := by
  unfold putMany
  split
  · rename_i hnil
    obtain ⟨table, failures⟩ := s
    subst hnil h
    rfl
  · rw [verifyBlocks_false]
    exact transact_of_nil _ h

theorem get_of_nil {cid : Cid} {s : RedbStore} (h : s.failures = []) :
    get cr cid s = (lookup cr cid s.table, s) := by
  obtain ⟨table, failures⟩ := s
  subst h
  exact transact_of_nil _ rfl

theorem holds_iff {b : Block} {s : RedbStore} (h : s.failures = []) :
    (backend cr false).Holds s b ↔ s.table[cr.cidToString b.cid]? = some b.data := by
  show (get cr b.cid s).1 = .ok b ↔ _
  rw [get_of_nil h, lookup_eq_ok_iff]
  exact and_iff_right rfl

theorem faithful {K : Block → Prop} (hK : Consistent K) :
    (backend cr false).Faithful K (Agrees cr K) where
  put_ok {s} {blocks} hs _ := by
    show (putMany cr false blocks s).1 = .ok ()
    rw [putMany_of_nil hs.1]
  put_valid {s} {blocks} hs hb := by
    show Agrees cr K (putMany cr false blocks s).2
    rw [putMany_of_nil hs.1]
    refine ⟨rfl, fun b hKb d hd => ?_⟩
    rcases insertAll_cases blocks hd with hd | ⟨b', hb', hk, rfl⟩
    · exact hs.2 b hKb d hd
    · rw [hK b' b (hb b' hb') hKb (cr.cidToString_inj hk)]
  put_holds {s} {blocks} hs hb b hmem := by
    show (backend cr false).Holds (putMany cr false blocks s).2 b
    rw [putMany_of_nil hs.1, holds_iff rfl]
    obtain ⟨d, hd⟩ := @insertAll_isSome cr b blocks s.table hmem
    rcases insertAll_cases blocks hd with hold | ⟨b', hb', hk, rfl⟩
    · rw [hd, hs.2 b (hb b hmem) d hold]
    · rw [hd, hK b' b (hb b' hb') (hb b hmem) (cr.cidToString_inj hk)]
  put_keeps {s} {blocks} hs hb b hold := by
    show (backend cr false).Holds (putMany cr false blocks s).2 b
    rw [putMany_of_nil hs.1, holds_iff rfl]
    exact insertAll_of_some blocks ((holds_iff hs.1).1 hold)
  get_valid {s} {cid} hs := by
    show Agrees cr K (get cr cid s).2
    rw [get_of_nil hs.1]
    exact hs
  get_keeps {s} {cid} hs b hold := by
    show (backend cr false).Holds (get cr cid s).2 b
    rw [get_of_nil hs.1]
    exact hold

/-- **The backend returns what was put.** -/
theorem returnsWhatWasPut : (backend cr false).ReturnsWhatWasPut (Agrees cr) := fun _ hK => faithful hK

end

end RedbStore

end Storage
