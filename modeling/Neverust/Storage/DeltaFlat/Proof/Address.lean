import Neverust.Storage.DeltaFlat.Proof.Control

/-!
# The addresses of a control record

`Readable`: the records that `read_control_raw` returns, which are those with a level below 32 and a
split pointer below the base (`readable_shape_iff`). Such a record has a bucket count, and a split
leaves such a record behind. It has a bucket for each hash below level 31 only: at level 31
`primary_bucket` doubles the base in `u32`, for a bucket that was split.
-/

namespace Storage.DeltaFlat

open Io Rust Bytes LinearHash

/-- `read_control_raw` returns the record from some control file. -/
def Readable (c : Control) : Prop :=
  ∃ (d : LaneDir) (w w' : Disk), readControlRaw d w = .ok (some c) w'

section
variable {c : Control}

theorem decodeControl_valid {buf : Buffer controlLen} (h : decodeControl buf = .ok (some c)) :
    c.level.toNat ≤ 31 ∧ c.shape.Valid := by
  unfold decodeControl at h
  split at h
  · cases h
  split at h
  · cases h
  dsimp only at h
  split at h
  · cases h
  rename_i base hbase
  split at h
  · cases h
  rename_i hlt
  cases h
  unfold checkedShl at hbase
  split at hbase
  · rename_i hlevel
    cases hbase
    exact ⟨by dsimp only; omega, Nat.not_le.1 hlt⟩
  · cases hbase

/-- A disk whose only file is a control file with the record. -/
theorem exists_holdsControl (d : LaneDir) (c : Control) :
    ∃ w : Disk, HoldsControl d w c ∧ w.NoFaults :=
  ⟨World.empty.setFile (d, .control) (encodeControl c).bytes, World.content_setFile_self _ _ _,
    fun _ => rfl⟩

theorem readable_shape_iff : Readable c ↔ c.level.toNat ≤ 31 ∧ c.shape.Valid := by
  constructor
  · rintro ⟨d, w, w', h⟩
    have hspec : wp (readControlRaw d) (fun r _ => ∀ c, r = some c →
        c.level.toNat ≤ 31 ∧ c.shape.Valid) (fun _ _ => True) w := by
      refine wp_bind (wp_mono (wp_run _) (fun r w1 _ => ?_) fun _ _ _ => trivial)
      cases r with
      | none => exact wp_pure nofun
      | some bytes =>
        refine wp_lift (fun r hr c hc => ?_) fun _ _ => trivial
        subst hc
        exact decodeControl_valid hr
    exact wp_ok hspec h c rfl
  · rintro ⟨hlevel, hvalid⟩
    obtain ⟨w, hc, hn⟩ := exists_holdsControl (.lane 0 0) c
    obtain ⟨r, w', hrun, rfl, -⟩ := wp_total (readControlRaw_holds hc hlevel hvalid)
      fun _ _ h => h.2.1 hn
    exact ⟨_, w, w', hrun⟩

/-! ## Splits -/

theorem advanceSplit_shape (hlevel : c.level.toNat ≤ 31) (hvalid : c.shape.Valid)
    (hroom : 2 ^ c.level.toNat + c.splitPtr.toNat + 1 < 2 ^ 32) {c' : Control}
    (h : advanceSplit (2 ^ c.level.toNat) c = .ok c') :
    c'.level.toNat ≤ 31 ∧ c'.shape.Valid := by
  have hv : c.splitPtr.toNat < 2 ^ c.level.toNat := hvalid
  unfold advanceSplit at h
  split at h
  · cases h
  rename_i splitPtr hs
  have hs := checkedAdd32_eq_some hs
  split at h
  · rename_i hle
    split at h
    · cases h
    rename_i level hl
    have hl := checkedAdd32_eq_some hl
    cases h
    -- the last split of level 31 would need a bucket too many
    have hne : c.level.toNat ≠ 31 := fun h31 => by
      rw [h31] at hv hroom hle
      omega
    refine ⟨by dsimp only; omega, ?_⟩
    show (0 : UInt32).toNat < 2 ^ level.toNat
    exact Nat.two_pow_pos _
  · rename_i hlt
    cases h
    exact ⟨hlevel, Nat.not_le.1 hlt⟩

/-- A split leaves a record that reads back. -/
theorem splitOneBucket_readable (H : Bytes → SplitHash) (d : LaneDir) (hc : Readable c)
    {w w' : Disk} {c' : Control} (h : splitOneBucket H d c w = .ok c' w') : Readable c' := by
  obtain ⟨hlevel, hvalid⟩ := readable_shape_iff.1 hc
  have hspec : wp (splitOneBucket H d c) (fun c' _ => Readable c') (fun _ _ => True) w := by
    unfold splitOneBucket
    rw [checkedShl_of_le hlevel]
    dsimp only
    split
    · exact wp_throw trivial
    split
    · exact wp_throw trivial
    split
    · exact wp_throw trivial
    rename_i hroom
    refine wp_bind (wp_mono (wp_run _) (fun _ _ _ => ?_) fun _ _ _ => trivial)
    refine wp_bind (wp_mono (wp_run _) (fun _ _ _ => ?_) fun _ _ _ => trivial)
    refine wp_bind (wp_mono (wp_run _) (fun _ _ _ => ?_) fun _ _ _ => trivial)
    refine wp_bind (wp_mono (wp_run _) (fun _ _ _ => ?_) fun _ _ _ => trivial)
    refine wp_bind (wp_mono (wp_run _) (fun _ _ _ => ?_) fun _ _ _ => trivial)
    refine wp_bind (wp_mono (wp_run _) (fun _ _ _ => ?_) fun _ _ _ => trivial)
    refine wp_lift (fun c' hc' => ?_) fun _ _ => trivial
    exact readable_shape_iff.2 (advanceSplit_shape hlevel hvalid (Nat.not_le.1 hroom) hc')
  exact wp_ok hspec h

/-! ## Addresses -/

theorem addressable_iff (hlevel : c.level.toNat ≤ 31) (hash : Nat) :
    Addressable c.shape hash ↔ c.level.toNat < 31 ∨ c.splitPtr.toNat ≤ hash % 2 ^ 31 := by
  unfold Addressable
  rw [shape_level, shape_split]
  omega

/-- **Bucket addressing**: every readable record has a bucket count, and it has a bucket below that
for exactly the hashes that the doubled base does not take out of `u32`; the record that a split
leaves is readable again. -/
theorem address_total_iff (hc : Readable c) (hash : UInt64) :
    ((∃ n, bucketCount c = .ok n ∧ ∃ b, primaryBucket hash c = .ok b ∧ b < n) ∧
      ∀ (H : Bytes → SplitHash) (d : LaneDir) (w w' : Disk) (c' : Control),
        splitOneBucket H d c w = .ok c' w' → Readable c') ↔
    c.level.toNat < 31 ∨ c.splitPtr.toNat ≤ hash.toNat % 2 ^ 31 := by
  obtain ⟨hlevel, hvalid⟩ := readable_shape_iff.1 hc
  rw [← addressable_iff hlevel]
  constructor
  · rintro ⟨⟨n, -, b, hb, -⟩, -⟩
    by_contra hna
    rw [primaryBucket_not_addressable hlevel hvalid hna] at hb
    cases hb
  · intro ha
    exact ⟨⟨_, bucketCount_of_shape hlevel hvalid, _, primaryBucket_of_shape hlevel hvalid ha,
      Shape.addr_lt _ _⟩, fun H d w w' c' => splitOneBucket_readable H d hc⟩

end

/-- A record of a lane that has split one bucket of its highest level. -/
def topControl : Control where
  level := 31
  splitPtr := 1
  itemCount := 0
  nextFileId := 0
  nextOffset := 0

theorem readable_topControl : Readable topControl := readable_shape_iff.2 (by decide)

theorem address_total_iff_sample :
    ((∃ n, bucketCount topControl = .ok n ∧ ∃ b, primaryBucket 5 topControl = .ok b ∧ b < n) ∧
      ∀ (H : Bytes → SplitHash) (d : LaneDir) (w w' : Disk) (c' : Control),
        splitOneBucket H d topControl w = .ok c' w' → Readable c') ↔
    topControl.level.toNat < 31 ∨ topControl.splitPtr.toNat ≤ (5 : UInt64).toNat % 2 ^ 31 :=
  address_total_iff readable_topControl 5

/-- The hash 0 has no bucket. -/
theorem address_overflows :
    ¬ ∀ c, Readable c → (∃ n, bucketCount c = .ok n ∧
        ∀ hash, ∃ b, primaryBucket hash c = .ok b ∧ b < n) ∧
      ∀ (H : Bytes → SplitHash) (d : LaneDir) (w w' : Disk) (c' : Control),
        splitOneBucket H d c w = .ok c' w' → Readable c' := by
  intro h
  obtain ⟨⟨n, -, hb⟩, -⟩ := h topControl readable_topControl
  obtain ⟨b, hb, -⟩ := hb 0
  rw [show primaryBucket 0 topControl = .error (.databaseError .expandedBaseOverflow) by decide] at hb
  cases hb

end Storage.DeltaFlat
