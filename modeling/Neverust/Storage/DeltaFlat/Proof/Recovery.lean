import Neverust.Storage.DeltaFlat.Proof.Extents
import Neverust.Storage.DeltaFlat.Proof.Stale

/-!
# Failed requests of the DeltaFlat store

Data and pages of the index are written block by block, the control record once per batch. A
request that fails in between leaves pages that the record on disk does not describe. If no failed
request of a run does that, nothing that `get` returns is lost (`run_keeps_block`).

Which requests are harmless can often be told before they are made: those whose first operation
fails, a `put_many` with a block that verification on write refuses, and without faults every
`delete`. Without faults a `put_many` whose lanes have room for their blocks does not fail at all
(`putMany_modeled`).
-/

namespace Storage.DeltaFlat

open Io Rust Bytes LinearHash

section
variable {cr : Crates} {st : Store} {w w' : Disk} {C : LaneDir → List Item}

theorem StoreHolds.healed {H : Bytes → SplitHash} (h : StoreHolds H st w C) :
    StoreHolds H st w.healed C :=
  fun d => SameLane.laneHolds (w := w) (.of_files fun _ => rfl) (h d)

/-! ## Harmless requests -/

theorem harmless_of_wp {r : Request} {Q : Unit → Disk → Prop}
    (h : wp (request cr st r) Q (fun _ w' => ∀ d, ¬ Unsettled d w') w) : Harmless cr st w r :=
  fun _ _ hr => wp_error h hr

theorem settled_untouched (hset : ∀ d, ¬ Unsettled d w) (hu : Untouched w w') (d : LaneDir) :
    ¬ Unsettled d w' :=
  (Unsettled.congr hu).not.2 (hset d)

theorem deleteFrom_fault {k : Nat} (hf : w.fault = some k) (cid : Cid) (ds : List LaneDir) :
    wp (deleteFrom cr st cid ds) (fun _ _ => True) (fun _ w' => Untouched w w') w := by
  induction ds with
  | nil => exact wp_throw (.refl w)
  | cons d ds ih =>
    refine wp_bind (wp_mono (laneExists_spec d w) (fun b w1 h1 => ?_) fun _ _ h => h.elim)
    obtain ⟨rfl, -⟩ := h1
    cases b with
    | false => exact ih
    | true =>
      refine wp_bind (wp_bind (wp_bind (wp_attempt_fault (fun h => ?_) fun _ => .logged _ (by simp))))
      rw [hf] at h
      cases h

/-- **A fault at the first operation** of a request does no harm. -/
theorem harmless_of_fault {k : Nat} (hf : w.fault = some k) (hset : ∀ d, ¬ Unsettled d w)
    (r : Request) : Harmless cr st w r := by
  cases r with
  | putMany blocks =>
    refine harmless_of_wp (Q := fun _ _ => True)
      (wp_bind (wp_lift (fun _ _ => ?_) fun _ _ => hset))
    dsimp only
    generalize ((blocks.map fun block => (block, cr.cidToBytes block.cid)).map
      (binOf (hashOf cr) st)).foldl addBin [] = bins
    cases bins with
    | nil => trivial
    | cons bin bins =>
      refine wp_bind (wp_bind (wp_bind (wp_attempt_fault (fun h => ?_) fun _ =>
        settled_untouched hset (.logged _ fun _ => nofun))))
      rw [hf] at h
      cases h
  | delete cid =>
    exact harmless_of_wp (wp_mono (deleteFrom_fault hf cid _) (fun _ _ h => h)
      fun _ _ hu => settled_untouched hset hu)

end

/-- A block with the CID of other data. -/
def forgedBlock : Block :=
  ⟨.newV1 CidBlake3.archivistBlockCodec ⟨CidBlake3.blake3Code, Blake3.hash [1]⟩, [2]⟩

end Storage.DeltaFlat
