import Mathlib.Data.UInt
import Neverust.Manifest.Proof.Blocks

/-!
# What a manifest keeps on the wire

The header has 32 bits for the block size, the codecs and the cell size, and its strings are empty
where the manifest has none.

* `decode_encode`: an encoded manifest reads back as `narrowed`.
* `decode_encode_iff`: it reads back as itself exactly if it `Fits`.
* `fits_of_decode`: a manifest that was read fits.
-/

namespace Manifest

variable {cr : Crates} {px : Prost}

/-! ## What reads back -/

/-- A 64-bit number in 32 bits. -/
def narrow (x : UInt64) : UInt64 := x.toUInt32.toUInt64

/-- An empty string counts as none. -/
def nonempty (s : Option String) : Option String := s.filter (· ≠ "")

def VerificationInfo.narrowed (v : VerificationInfo) : VerificationInfo :=
  { v with cellSize := narrow v.cellSize }

def ErasureInfo.narrowed (e : ErasureInfo) : ErasureInfo :=
  { e with verification := e.verification.map VerificationInfo.narrowed }

/-- The manifest with what the header has room for. -/
def narrowed (m : Manifest) : Manifest :=
  { m with blockSize := narrow m.blockSize, codec := narrow m.codec, hcodec := narrow m.hcodec,
           filename := nonempty m.filename, mimetype := nonempty m.mimetype,
           erasure := m.erasure.map ErasureInfo.narrowed }

theorem ofU32_toU32 (s : StrategyType) : StrategyType.ofU32 s.toU32 = s := by
  cases s with
  | steppedStrategy => rfl
  | linearStrategy => rfl

theorem readCid_toBytes (msg : String) (c : Cid) :
    readCid cr msg (cr.cidToBytes c) = .ok c := by
  rw [readCid, cr.cidOfBytes_toBytes]

theorem readCids_toBytes (msg : String) :
    ∀ cs : List Cid, (cs.map cr.cidToBytes).mapM (readCid cr msg) = .ok cs
  | [] => rfl
  | c :: cs => by
    rw [List.map_cons, List.mapM_cons, readCid_toBytes, readCids_toBytes msg cs]
    rfl

theorem VerificationInfo.ofProto_toProto (v : VerificationInfo) :
    VerificationInfo.ofProto cr (VerificationInfo.toProto cr v) = .ok (VerificationInfo.narrowed v) := by
  rw [VerificationInfo.ofProto, VerificationInfo.toProto]
  dsimp only
  rw [readCid_toBytes, readCids_toBytes, ofU32_toU32]
  rfl

theorem ErasureInfo.ofProto_toProto (e : ErasureInfo) :
    ErasureInfo.ofProto cr (ErasureInfo.toProto cr e) = .ok (ErasureInfo.narrowed e) := by
  rw [ErasureInfo.ofProto, ErasureInfo.toProto]
  dsimp only
  rw [readCid_toBytes, ofU32_toU32]
  obtain ⟨ecK, ecM, originalTreeCid, originalDatasetSize, protectedStrategy, verification⟩ := e
  cases verification with
  | none => rfl
  | some v =>
    show (do
      let verification ← (do return some (← VerificationInfo.ofProto cr (VerificationInfo.toProto cr v)))
      _ : Except ManifestError ErasureInfo) = _
    rw [VerificationInfo.ofProto_toProto]
    rfl

theorem string_reads_back (s : Option String) :
    (if s.getD "" = "" then none else some (s.getD "")) = nonempty s := by
  cases s with
  | none => rfl
  | some s =>
    rw [Option.getD_some, nonempty, Option.filter_some]
    by_cases hs : s = ""
    · rw [if_pos hs, if_neg (by simpa using hs)]
    · rw [if_neg hs, if_pos (by simpa using hs)]

theorem ofHeader_toHeader (m : Manifest) : ofHeader cr (m.toHeader cr) = .ok m.narrowed := by
  rw [ofHeader, toHeader]
  dsimp only
  rw [readCid_toBytes, string_reads_back, string_reads_back]
  obtain ⟨treeCid, blockSize, datasetSize, codec, hcodec, version, filename, mimetype, erasure⟩ := m
  cases erasure with
  | none => rfl
  | some e =>
    show (do
      let erasure ← (do return some (← ErasureInfo.ofProto cr (ErasureInfo.toProto cr e)))
      _ : Except ManifestError Manifest) = _
    rw [ErasureInfo.ofProto_toProto]
    rfl

theorem decode_header (h : Proto.Header) :
    decode cr px (px.node.encode { data := px.header.encode h }) = ofHeader cr h := by
  rw [decode, px.node.decode_encode]
  dsimp only
  rw [px.header.decode_encode]

/-- **An encoded manifest reads back as far as the header has room.** -/
theorem decode_encode (m : Manifest) : decode cr px (m.encoded cr px) = .ok m.narrowed :=
  (decode_header (m.toHeader cr)).trans (ofHeader_toHeader m)

/-! ## Manifests that fit -/

/-- The header has room for the manifest. -/
structure Fits (m : Manifest) : Prop where
  blockSize : m.blockSize.toNat < 2 ^ 32
  codec : m.codec.toNat < 2 ^ 32
  hcodec : m.hcodec.toNat < 2 ^ 32
  filename : m.filename ≠ some ""
  mimetype : m.mimetype ≠ some ""
  cellSize : ∀ e ∈ m.erasure, ∀ v ∈ e.verification, v.cellSize.toNat < 2 ^ 32

theorem narrow_eq_iff {x : UInt64} : narrow x = x ↔ x.toNat < 2 ^ 32 := by
  have hx : (narrow x).toNat = x.toNat % 2 ^ 32 := by
    rw [narrow, UInt32.toNat_toUInt64, UInt64.toNat_toUInt32]
  rw [← UInt64.toNat_inj, hx]
  omega

theorem narrow_toUInt64 (x : UInt32) : narrow x.toUInt64 = x.toUInt64 := by
  rw [narrow_eq_iff, UInt32.toNat_toUInt64]
  exact x.toNat_lt

theorem nonempty_eq_iff {s : Option String} : nonempty s = s ↔ s ≠ some "" := by
  cases s with
  | none => simp [nonempty]
  | some s => by_cases hs : s = "" <;> simp [nonempty, Option.filter_some, hs]

theorem ErasureInfo.narrowed_eq_iff {e : ErasureInfo} :
    ErasureInfo.narrowed e = e ↔ ∀ v ∈ e.verification, v.cellSize.toNat < 2 ^ 32 := by
  obtain ⟨ecK, ecM, originalTreeCid, originalDatasetSize, protectedStrategy, verification⟩ := e
  cases verification with
  | none => simp [ErasureInfo.narrowed]
  | some v =>
    obtain ⟨verifyRoot, slotRoots, cellSize, verifiableStrategy⟩ := v
    simp [ErasureInfo.narrowed, VerificationInfo.narrowed, narrow_eq_iff]

theorem narrowed_eq_iff {m : Manifest} : m.narrowed = m ↔ m.Fits := by
  obtain ⟨treeCid, blockSize, datasetSize, codec, hcodec, version, filename, mimetype, erasure⟩ := m
  have herasure : erasure.map ErasureInfo.narrowed = erasure ↔
      ∀ e ∈ erasure, ∀ v ∈ e.verification, v.cellSize.toNat < 2 ^ 32 := by
    cases erasure with
    | none => simp
    | some e => simp [ErasureInfo.narrowed_eq_iff]
  simp only [narrowed, mk.injEq, narrow_eq_iff, nonempty_eq_iff, herasure, true_and]
  constructor
  · rintro ⟨h1, h2, h3, h4, h5, h6⟩
    exact ⟨h1, h2, h3, h4, h5, h6⟩
  · intro h
    exact ⟨h.blockSize, h.codec, h.hcodec, h.filename, h.mimetype, h.cellSize⟩

/-- **A manifest reads back as itself exactly if it fits.** -/
theorem decode_encode_iff (cr : Crates) (px : Prost) (m : Manifest) :
    (∀ b, m.encode cr px = .ok b → decode cr px b = .ok m) ↔ m.Fits := by
  rw [← narrowed_eq_iff]
  constructor
  · intro h
    have hm := h _ (encode_eq px m)
    rw [decode_encode] at hm
    exact Except.ok.inj hm
  · intro h b hb
    cases hb
    rw [← encoded, decode_encode, h]

/-- A manifest without erasure coding. -/
def sampleManifest (blockSize : UInt64) : Manifest :=
  .new { version := 1, codec := 0xcd03, hash := { code := 0x12, digest := [1, 2, 3] } } blockSize 5
    none none none none none

/-- A block of 4 GiB reads back as one of no bytes. -/
theorem block_size_lost :
    ¬ ∀ b, (sampleManifest (2 ^ 32)).encode .standard .standard = .ok b →
      decode .standard .standard b = .ok (sampleManifest (2 ^ 32)) := by
  intro h
  have hm := h _ (encode_eq .standard _)
  rw [decode_encode] at hm
  exact absurd (congrArg Manifest.blockSize (Except.ok.inj hm)) (by decide)

/-! ## Manifests that were read -/

theorem VerificationInfo.cellSize_lt {p : Proto.VerificationInfo} {v : VerificationInfo}
    (h : VerificationInfo.ofProto cr p = .ok v) : v.cellSize.toNat < 2 ^ 32 := by
  unfold VerificationInfo.ofProto at h
  obtain ⟨verifyRoot, -, h⟩ := Rust.bind_eq_ok h
  obtain ⟨slotRoots, -, h⟩ := Rust.bind_eq_ok h
  cases h
  exact narrow_eq_iff.1 (narrow_toUInt64 p.cellSize)

theorem ErasureInfo.cellSize_lt {p : Proto.ErasureInfo} {e : ErasureInfo}
    (h : ErasureInfo.ofProto cr p = .ok e) : ∀ v ∈ e.verification, v.cellSize.toNat < 2 ^ 32 := by
  unfold ErasureInfo.ofProto at h
  obtain ⟨originalTreeCid, -, h⟩ := Rust.bind_eq_ok h
  obtain ⟨verification, hver, h⟩ := Rust.bind_eq_ok h
  cases h
  rintro v rfl
  cases hp : p.verification with
  | none =>
    rw [hp] at hver
    cases hver
  | some w =>
    rw [hp] at hver
    obtain ⟨v', hv', hver⟩ := Rust.bind_eq_ok hver
    cases hver
    exact VerificationInfo.cellSize_lt hv'

theorem filename_ne (s : String) : (if s = "" then none else some s) ≠ some "" := by
  by_cases hs : s = ""
  · rw [if_pos hs]
    exact nofun
  · rw [if_neg hs]
    exact fun h => hs (Option.some.inj h)

/-- **A manifest that was read fits.** -/
theorem fits_of_decode {b : Bytes} {m : Manifest} (h : decode cr px b = .ok m) : m.Fits := by
  unfold decode at h
  split at h
  · cases h
  · split at h
    · cases h
    · rename_i header _
      unfold ofHeader at h
      obtain ⟨treeCid, -, h⟩ := Rust.bind_eq_ok h
      obtain ⟨erasure, herasure, h⟩ := Rust.bind_eq_ok h
      cases h
      have hu32 (x : UInt32) : x.toUInt64.toNat < 2 ^ 32 := narrow_eq_iff.1 (narrow_toUInt64 x)
      refine ⟨hu32 _, hu32 _, hu32 _, filename_ne _, filename_ne _, ?_⟩
      rintro e rfl
      cases hp : header.erasure with
      | none =>
        rw [hp] at herasure
        cases herasure
      | some p =>
        rw [hp] at herasure
        obtain ⟨e', he', herasure⟩ := Rust.bind_eq_ok herasure
        cases herasure
        exact ErasureInfo.cellSize_lt he'

/-- **A manifest that was read keeps its meaning when it is written again.** -/
theorem reencode {b : Bytes} {m : Manifest} (h : decode cr px b = .ok m) :
    ∃ b', m.encode cr px = .ok b' ∧ decode cr px b' = .ok m := by
  refine ⟨m.encoded cr px, encode_eq px m, ?_⟩
  rw [decode_encode, narrowed_eq_iff.2 (fits_of_decode h)]

/-- A header with an unknown strategy. -/
def oddHeader : Proto.Header :=
  { (sampleManifest 2).toHeader .standard with
    erasure := some { ecK := 3, ecM := 2, originalTreeCid := [1, 85, 18, 0],
                      originalDatasetSize := 5, protectedStrategy := 7, verification := none } }

theorem reencode_sample :
    ∃ m : Manifest, ∃ b', m.encode .standard .standard = .ok b' ∧
      decode .standard .standard b' = .ok m := by
  have hodd : ∃ m, ofHeader .standard oddHeader = .ok m := ⟨_, rfl⟩
  obtain ⟨m, hm⟩ := hodd
  exact ⟨m, reencode ((decode_header oddHeader).trans hm)⟩

end Manifest
