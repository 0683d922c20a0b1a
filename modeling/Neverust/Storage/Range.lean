import Neverust.Lib.Chunks
import Neverust.Lib.Rust
import Neverust.Storage.GeomTree.Proof.Retry
import Neverust.Storage.Redb

/-!
# Ranges of blocks (`storage.rs`)

`BlockStore::get_range` reads a part of a file on the GeomTree backend. On the others it loads the
whole block and takes a slice of it.

* `range_same_iff`: when both return the bytes of the range.
-/

namespace Storage

open Io Rust Request Chunks

/-- A caller of the block store. -/
abbrev Caller (α : Type) := Prog StoreReq StoreAns (Stop StorageError) α

/-- The slice of the fallback, and the length of the block. -/
def sliceBlock (data : Bytes) (start len : UInt64) : Result StorageError (Bytes × Nat) := do
  let total := data.length
  let s := start.toNat
  let e := min (← usizeAdd start.toNat len.toNat) total
  if s < data.length then
    let slice ← range data s e
    return (slice, total)
  else return ([], total)

/-- `BlockStore::get_range` on the other backends. -/
def getRangeFallback (cid : Cid) (start len : UInt64) : Caller (Bytes × Nat) := do
  match ← (Prog.request (StoreReq.get cid) : Caller (Except StorageError Block)) with
  | .error e => liftM (.error (.err e) : Result StorageError _)
  | .ok block => liftM (sliceBlock block.data start len)

/-- The bytes from `start` on, `len` of them as far as there are any, and the length. -/
def rangeOf (data : Bytes) (start len : UInt64) : Bytes × Nat :=
  (segment data (min start.toNat data.length) (min (start.toNat + len.toNat) data.length),
    data.length)

/-! ## The fallback -/

theorem sliceBlock_of_lt {data : Bytes} {start len : UInt64}
    (h : start.toNat + len.toNat < 2 ^ 64) :
    sliceBlock data start len = .ok (rangeOf data start len) := by
  unfold sliceBlock rangeOf
  rw [usizeAdd_of_lt h, ok_bind]
  dsimp only
  by_cases hs : start.toNat < data.length
  · rw [if_pos hs, range_of_le (by omega) (Nat.min_le_right _ _), Nat.min_eq_left (Nat.le_of_lt hs)]
    rfl
  · rw [if_neg hs, Nat.min_eq_right (by omega), Nat.min_eq_right (by omega), segment_of_le _ le_rfl]
    rfl

/-- The sum of the two numbers is not checked. -/
theorem sliceBlock_overflow {data : Bytes} {start len : UInt64}
    (h : 2 ^ 64 ≤ start.toNat + len.toNat) :
    sliceBlock data start len = .error (.panic .overflow) := by
  unfold sliceBlock
  rw [usizeAdd, if_neg (show ¬ _ < usizeSize from Nat.not_lt_of_le h)]
  rfl

/-- The fallback on a block that the store returns. -/
theorem run_fallback {B : Backend} {s : B.State} {b : Block} (hb : B.Holds s b)
    (start len : UInt64) :
    (Prog.run B.answer (getRangeFallback b.cid start len) s).1 = sliceBlock b.data start len := by
  have hget : (Prog.run B.answer (Prog.request (StoreReq.get b.cid) :
      Caller (Except StorageError Block)) s).1 = .ok (.ok b) := congrArg Except.ok hb
  rw [getRangeFallback, Prog.run_bind, hget]
  rfl

/-! ## GeomTree -/

section
open GeomTree
variable {cr : Crates} {st : GeomTree.Store} {w : Disk} {b : Block} {start len : UInt64}

theorem slice_eq_segment {f : Bytes} {o n : Nat} (h : o + n ≤ f.length) :
    Bytes.slice f o n = segment f o (o + n) := by
  refine List.ext_getElem (by rw [Bytes.length_slice, length_segment f h]; omega) fun i h₁ h₂ => ?_
  rw [Bytes.length_slice] at h₁
  simp only [Bytes.slice, Chunks.segment, List.getElem_map, List.getElem_range, List.getElem_drop,
    List.getElem_take]
  exact List.getD_eq_getElem _ _ (by omega)

/-- A range of a file that is there: an error only for a start that no seek takes. -/
theorem getRange_wp (hfile : w.files (blockPath cr st b.cid) = some b.data) (hw : w.NoFaults) :
    wp (GeomTree.getRange cr st b.cid start len)
      (fun r _ => r = rangeOf b.data start len ∧ start.toNat ≤ w.maxOffset)
      (fun _ _ => w.maxOffset < start.toNat) w := by
  have hcontent : w.content (blockPath cr st b.cid) = b.data := by
    rw [World.content, hfile]
    rfl
  refine wp_bind (wp_openFile (fun _ => wp_bind (wp_fileLen ?_ fun hf => absurd hw hf))
    (fun hnone => by rw [hfile] at hnone; cases hnone) fun hf => absurd hw hf)
  rw [World.content_logged, hcontent]
  refine wp_bind (wp_bind (wp_attempt (wp_bind (wp_get ?_)) fun hf => absurd hw hf))
  change wp (if w.maxOffset < start.toNat then _ else _) _ _ _
  by_cases hstart : w.maxOffset < start.toNat
  · rw [if_pos hstart]
    exact wp_throw hstart
  · rw [if_neg hstart]
    refine wp_pure (wp_bind (wp_readExactAt (fun hzero => ?_) (fun hpos => ?_)
      fun hf => absurd hw hf))
    · refine wp_pure ⟨?_, Nat.le_of_not_lt hstart⟩
      rw [rangeOf, segment_of_le _ (by omega)]
    · simp only [World.content_logged, hcontent]
      rw [Bytes.readAt_of_le (by omega), slice_eq_segment (by omega)]
      refine wp_pure ⟨?_, Nat.le_of_not_lt hstart⟩
      have hend : min (start.toNat + len.toNat) b.data.length =
          start.toNat + min len.toNat (b.data.length - start.toNat) := by omega
      have hbegin : min start.toNat b.data.length = start.toNat := by omega
      rw [rangeOf, hend, hbegin]

end

/-- **When both return the bytes of the range**: the end of the range is a `u64`, and its start a
position to which the file system seeks. -/
theorem range_same_iff {B : Backend} {s : B.State} {b : Block} (hb : B.Holds s b) (cr : Crates)
    (st : GeomTree.Store) {w : GeomTree.Disk}
    (hfile : w.files (GeomTree.blockPath cr st b.cid) = some b.data) (hw : w.NoFaults)
    (start len : UInt64) :
    ((Prog.run B.answer (getRangeFallback b.cid start len) s).1 = .ok (rangeOf b.data start len) ∧
        ∃ w', GeomTree.getRange cr st b.cid start len w = .ok (rangeOf b.data start len) w') ↔
      start.toNat + len.toNat < 2 ^ 64 ∧ start.toNat ≤ w.maxOffset := by
  rw [run_fallback hb]
  have hgeom := @getRange_wp cr st w b start len hfile hw
  constructor
  · rintro ⟨hslice, w', hrange⟩
    refine ⟨?_, (wp_ok hgeom hrange).2⟩
    by_contra hbig
    rw [sliceBlock_overflow (Nat.le_of_not_lt hbig)] at hslice
    cases hslice
  · rintro ⟨hsum, hstart⟩
    obtain ⟨r, w', hrange, rfl, -⟩ := wp_total hgeom fun _ _ hlt => Nat.not_lt_of_le hstart hlt
    exact ⟨sliceBlock_of_lt hsum, w', hrange⟩

/-! ## A sum that leaves the 64-bit range -/

section
open GeomTree

/-- The two backends with the block of two bytes. -/
def twoBytesTable : RedbStore :=
  ((RedbStore.backend .standard false).answer (.put twoBytes) RedbStore.empty).2

def twoBytesDisk : Disk :=
  World.empty.setFile (blockPath .standard plainStore twoBytes.cid) twoBytes.data

theorem twoBytes_held : (RedbStore.backend .standard false).Holds twoBytesTable twoBytes := by
  have hK : Consistent (· = twoBytes) := fun _ _ ha hb _ => ha.trans hb.symm
  exact (RedbStore.faithful hK).put_holds (RedbStore.agrees_empty _)
    (List.forall_mem_singleton.2 rfl) twoBytes List.mem_cons_self

theorem twoBytes_file : twoBytesDisk.files (blockPath .standard plainStore twoBytes.cid) =
    some twoBytes.data :=
  World.setFile_files_self _ _ _

theorem range_same_iff_sample :
    (Prog.run (RedbStore.backend .standard false).answer (getRangeFallback twoBytes.cid 1 9)
        twoBytesTable).1 = .ok ([2], 2) ∧
      ∃ w', GeomTree.getRange .standard plainStore twoBytes.cid 1 9 twoBytesDisk =
        .ok ([2], 2) w' :=
  (range_same_iff twoBytes_held .standard plainStore twoBytes_file (fun _ => rfl) 1 9).2
    (by decide)

/-- The last byte, with the largest length: the fallback stops the task. -/
theorem range_sum_overflows :
    ¬ ∀ (B : Backend) (s : B.State) (b : Block), B.Holds s b → ∀ start len : UInt64,
      (Prog.run B.answer (getRangeFallback b.cid start len) s).1 =
        .ok (rangeOf b.data start len) := by
  intro h
  have hrun := h _ _ _ twoBytes_held 1 (UInt64.ofNat (2 ^ 64 - 1))
  rw [run_fallback twoBytes_held, sliceBlock_overflow (by decide)] at hrun
  cases hrun

end

end Storage
