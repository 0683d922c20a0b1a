import Neverust.Storage.DeltaFlat.Proof.Control
import Neverust.Storage.DeltaStore.Proof.Append

/-!
# Records on disk

* `writeControlRaw_readControlRaw`: a control record reads back from the file it was written to,
  whatever the file held.
* `records_faithful`: the records of DeltaFlat and DeltaStore read back, and what is written to a
  slot of a page leaves the other slots.
-/

namespace Storage

open Io Rust Bytes DeltaFlat DeltaStore

/-- The file starts with the control record. -/
def StartsWithControl (d : LaneDir) (w : DeltaFlat.Disk) (c : Control) : Prop :=
  (w.content (d, .control)).readAt 0 controlLen = some (encodeControl c).bytes

theorem startsWithControl_written (d : LaneDir) (w : DeltaFlat.Disk) (c : Control) :
    StartsWithControl d ((w.setFile (d, .control) ((w.content (d, .control)).writeAt 0
      (encodeControl c).bytes)).logged (.write (d, .control))) c := by
  have henc := (encodeControl c).len
  have hend := end_le_writeAt (f := w.content (d, .control)) (d := (encodeControl c).bytes)
    (o := 0) (.inr (Nat.zero_le _))
  have hsame := slice_writeAt_same (w.content (d, .control)) (encodeControl c).bytes 0
  rw [henc] at hend hsame
  rw [StartsWithControl, World.content_logged, World.content_setFile_self, readAt_of_le hend, hsame]

theorem readControlRaw_starts {d : LaneDir} {w : DeltaFlat.Disk} {c : Control}
    (h : StartsWithControl d w c) (hl : c.level.toNat < 32) (hs : c.shape.Valid) :
    wp (readControlRaw d) (fun r _ => r = some c)
      (fun e _ => e = .ioError .other ∧ ¬ w.NoFaults) w := by
  have hbuf : Buffer.ofBytes controlLen (encodeControl c).bytes = encodeControl c :=
    Buffer.ofBytes_bytes _
  refine wp_bind (wp_readExactAt (fun h0 => absurd h0 (by decide)) (fun _ => ?_)
    fun hf => ⟨rfl, hf⟩)
  rw [h]
  dsimp only
  rw [hbuf, decodeControl_encodeControl hl hs]
  exact wp_lift (fun r hr => (Except.ok.inj hr).symm) fun e he => nomatch he

/-- A control record is written and read. -/
theorem writeControlRaw_readControlRaw (d : LaneDir) (w : DeltaFlat.Disk) {c : Control}
    (hl : c.level.toNat < 32) (hs : c.shape.Valid) :
    wp (do writeControlRaw d c; readControlRaw d) (fun r _ => r = some c)
      (fun e _ => e = .ioError .other ∧ ¬ w.NoFaults) w := by
  have henc := (encodeControl c).len
  refine wp_bind (wp_writeAllAt (fun hnil => ?_) (fun _ _ _ => ?_) (fun hbig => ?_)
    fun k hk _ => ⟨rfl, World.not_noFaults hk⟩)
  · rw [hnil] at henc
    exact absurd henc (by decide)
  · exact wp_mono (readControlRaw_starts (startsWithControl_written d w c) hl hs)
      (fun _ _ h => h) fun e _ he => ⟨he.1, fun hno => he.2 hno⟩
  · rw [henc] at hbig
    exact absurd hbig (by decide)

/-- **Records on disk are faithful**: an entry that is written to a slot of a page reads back and a
tombstone clears its slot, and both leave every other slot as it was; a control record reads back
from its file, if no call of the file system fails; the records of DeltaStore read back. -/
theorem records_faithful :
    (∀ (page : Page) (slot : Nat) (entry : Entry), slot < entriesPerBucket →
      1 ≤ entry.cid.length → entry.cid.length ≤ maxCidBytes →
      ∃ page', writeEntryToPage page slot entry = .ok page' ∧
        decodeEntry page' slot = .ok (some entry) ∧
        ∀ other, other ≠ slot → decodeEntry page' other = decodeEntry page other) ∧
    (∀ (page : Page) (slot : Nat), slot < entriesPerBucket →
      entryState (markTombstone page slot) slot = stateTombstone ∧
      decodeEntry (markTombstone page slot) slot = .ok none ∧
      ∀ other, other ≠ slot →
        decodeEntry (markTombstone page slot) other = decodeEntry page other) ∧
    (∀ (d : LaneDir) (w : DeltaFlat.Disk) (control : Control),
      control.splitPtr.toNat < 2 ^ control.level.toNat → control.level.toNat < 32 →
      wp (do writeControlRaw d control; readControlRaw d) (fun r _ => r = some control)
        (fun e _ => e = .ioError .other ∧ ¬ w.NoFaults) w) ∧
    (∀ loc : DeltaLocation, decodeLocation (encodeLocation loc) = .ok loc) ∧
    ∀ state : DeltaClassState, decodeClassState (encodeClassState state) = .ok state := by
  refine ⟨fun page slot entry hs hpos hlen => ?_, fun page slot hs => ?_,
    fun d w control hsplit hlevel => writeControlRaw_readControlRaw d w hlevel hsplit,
    decodeLocation_encodeLocation, decodeClassState_encodeClassState⟩
  · obtain ⟨page', hw, hc⟩ := writeEntryToPage_changed page entry hs (List.length_pos_iff.1 hpos) hlen
    exact ⟨page', hw, hc.entry_eq, hc.entry_other⟩
  · have hc := markTombstone_changed page hs
    exact ⟨hc.state_eq, hc.entry_eq, hc.entry_other⟩

end Storage
