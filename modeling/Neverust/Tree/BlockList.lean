import Neverust.CidBlake3
import Neverust.Tree.ArchivistTree

/-!
# The block list of a tree (`archivist_tree.rs`)

The CIDs of a tree's blocks as bytes: their number, then each CID after its length.

* `deserializeBlockList_serialize`: a list of fewer than `2 ^ 32` CIDs reads back.
-/

namespace Tree

open Rust

section
variable (cr : Crates)

/-- `n as u32`, little-endian. -/
def u32Bytes (n : Nat) : Bytes := Bytes.leBytes 4 (n % 2 ^ 32)

def cidEntry (cid : Cid) : Bytes := u32Bytes (cr.cidToBytes cid).length ++ cr.cidToBytes cid

/-- `serialize_block_list`. -/
def ArchivistTree.serializeBlockList (t : ArchivistTree) : Bytes :=
  u32Bytes t.blockCids.length ++ t.blockCids.flatMap (cidEntry cr)

/-- `read_exact`; the text of the reader's own error follows `msg`. -/
def readExact (msg : String) (n : Nat) (data : Bytes) : Result TreeError (Bytes × Bytes) :=
  if n ≤ data.length then .ok (data.take n, data.drop n) else .error (.err (.cidError msg))

/-- The entry at the start of `data`, and what follows it. -/
def readEntry (data : Bytes) : Result TreeError (Cid × Bytes) := do
  let (lenBytes, data) ← readExact "Failed to read CID length" 4 data
  let (cidBytes, data) ← readExact "Failed to read CID bytes" (Bytes.ofLe lenBytes) data
  match cr.cidOfBytes cidBytes with
  | some cid => .ok (cid, data)
  | none => .error (.err (.cidError "Failed to parse CID"))

def readEntries : Nat → Bytes → Result TreeError (List Cid)
  | 0, _ => .ok []
  | n + 1, data => do
    let (cid, data) ← readEntry cr data
    let cids ← readEntries n data
    .ok (cid :: cids)

/-- `deserialize_block_list`; what follows the last CID is not read. -/
def deserializeBlockList (data : Bytes) : Result TreeError (List Cid) := do
  let (countBytes, data) ← readExact "Failed to read count" 4 data
  readEntries cr (Bytes.ofLe countBytes) data

end

section
variable {cr : Crates}

@[simp] theorem length_u32Bytes (n : Nat) : (u32Bytes n).length = 4 := Bytes.length_leBytes 4 _

theorem ofLe_u32Bytes {n : Nat} (h : n < 2 ^ 32) : Bytes.ofLe (u32Bytes n) = n := by
  rw [u32Bytes, Nat.mod_eq_of_lt h]
  exact Bytes.ofLe_leBytes (by simpa using h)

theorem readExact_append (msg : String) {a : Bytes} (b : Bytes) {n : Nat} (h : a.length = n) :
    readExact msg n (a ++ b) = .ok (a, b) := by
  rw [readExact, if_pos (by simp [h]), List.take_left' h, List.drop_left' h]

theorem readExact_error {msg : String} {n : Nat} {data : Bytes} {e : Stop TreeError}
    (h : readExact msg n data = .error e) : ∃ e', e = .err e' := by
  unfold readExact at h
  split at h
  · cases h
  · exact ⟨_, (Except.error.inj h).symm⟩

theorem readEntry_error {data : Bytes} {e : Stop TreeError} (h : readEntry cr data = .error e) :
    ∃ e', e = .err e' := by
  unfold readEntry at h
  rcases bind_eq_error h with h | ⟨⟨lenBytes, data₁⟩, -, h⟩
  · exact readExact_error h
  · rcases bind_eq_error h with h | ⟨⟨cidBytes, data₂⟩, -, h⟩
    · exact readExact_error h
    · dsimp only at h
      split at h
      · cases h
      · exact ⟨_, (Except.error.inj h).symm⟩

theorem readEntries_error :
    ∀ (n : Nat) {data : Bytes} {e : Stop TreeError}, readEntries cr n data = .error e →
      ∃ e', e = .err e'
  | 0, _, _, h => by cases h
  | n + 1, data, e, h => by
    unfold readEntries at h
    rcases bind_eq_error h with h | ⟨⟨cid, data'⟩, -, h⟩
    · exact readEntry_error h
    · rcases bind_eq_error h with h | ⟨cids, -, h⟩
      · exact readEntries_error n h
      · cases h

/-- A block list that does not read back is an error of its own, and never a panic. -/
theorem deserializeBlockList_error {data : Bytes} {e : Stop TreeError}
    (h : deserializeBlockList cr data = .error e) : ∃ e', e = .err e' := by
  unfold deserializeBlockList at h
  rcases bind_eq_error h with h | ⟨⟨countBytes, data'⟩, -, h⟩
  · exact readExact_error h
  · exact readEntries_error _ h

theorem readEntry_cidEntry {cid : Cid} (h : (cr.cidToBytes cid).length < 2 ^ 32) (rest : Bytes) :
    readEntry cr (cidEntry cr cid ++ rest) = .ok (cid, rest) := by
  rw [readEntry, cidEntry, List.append_assoc, readExact_append _ _ (length_u32Bytes _), ok_bind]
  show (do
    let (cidBytes, data) ← readExact "Failed to read CID bytes"
      (Bytes.ofLe (u32Bytes (cr.cidToBytes cid).length)) (cr.cidToBytes cid ++ rest)
    _) = _
  rw [readExact_append _ _ (ofLe_u32Bytes h).symm, ok_bind]
  show (match cr.cidOfBytes (cr.cidToBytes cid) with | some cid => _ | none => _) = _
  rw [cr.cidOfBytes_toBytes]

theorem readEntries_flatMap :
    ∀ (cids : List Cid), (∀ c ∈ cids, (cr.cidToBytes c).length < 2 ^ 32) →
      readEntries cr cids.length (cids.flatMap (cidEntry cr)) = .ok cids
  | [], _ => rfl
  | c :: cids, h => by
    have hrest := readEntries_flatMap cids fun c' hc' => h c' (List.mem_cons_of_mem c hc')
    rw [List.length_cons, readEntries, List.flatMap_cons,
      readEntry_cidEntry (h c List.mem_cons_self), ok_bind]
    show (do let cids ← readEntries cr cids.length (cids.flatMap (cidEntry cr)); _) = _
    rw [hrest]
    rfl

/-- **A block list reads back.** -/
theorem deserializeBlockList_serialize {t : ArchivistTree} (hlen : t.blockCids.length < 2 ^ 32)
    (hcid : ∀ c ∈ t.blockCids, (cr.cidToBytes c).length < 2 ^ 32) :
    deserializeBlockList cr (t.serializeBlockList cr) = .ok t.blockCids := by
  rw [deserializeBlockList, ArchivistTree.serializeBlockList,
    readExact_append _ _ (length_u32Bytes _), ok_bind]
  show readEntries cr (Bytes.ofLe (u32Bytes t.blockCids.length)) _ = _
  rw [ofLe_u32Bytes hlen]
  exact readEntries_flatMap t.blockCids hcid

end

end Tree
