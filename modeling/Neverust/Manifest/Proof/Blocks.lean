import Neverust.ManifestForms

/-!
# The blocks a node makes

A node makes blocks of data with the block codec, blocks of manifests with the manifest codec and
blocks of directories with the directory codec. All of them hold the digest of their data, but the
check of a block compares whole CIDs, and it recomputes the CID with the block codec.

* `Manifest.toBlock_eq`, `FolderManifest.DirectoryManifest.toBlock_eq`: the blocks.
* `Made.verifiable_iff`: a node can check a block another node made exactly if it is a block of
  data.
-/

open CidBlake3 Storage

namespace Manifest

variable {cr : Crates}

theorem cidBytes_eq (codec hcodec : UInt64) (hash : Bytes) :
    cidBytes 1 codec hcodec hash = (Cid.newV1 codec ⟨hcodec, hash⟩).toBytes := by
  simp only [cidBytes, Cid.toBytes, Cid.newV1, List.append_assoc]
  rfl

/-- The CID that `to_block` writes down reads back. -/
theorem cidOfBytes_cidBytes (hcr : cr.Standard) (codec hcodec : UInt64) {hash : Bytes}
    (h : hash.length ≤ multihashSize) :
    cr.cidOfBytes (cidBytes 1 codec hcodec hash) = some (Cid.newV1 codec ⟨hcodec, hash⟩) := by
  rw [cidBytes_eq, ← hcr.cidToBytes_v1 codec ⟨hcodec, hash⟩ h, cr.cidOfBytes_toBytes]

theorem length_digestOf (hcr : cr.Standard) {code : UInt64} {data digest : Bytes}
    (h : cr.digestOf code data = some digest) : digest.length ≤ multihashSize := by
  unfold Crates.digestOf at h
  split at h
  · cases h
    rw [cr.blake3_length]
    decide
  · split at h
    · cases h
      rw [hcr.sha256_length]
      decide
    · cases h

/-- The bytes of a manifest. -/
def encoded (cr : Crates) (px : Prost) (m : Manifest) : Bytes :=
  px.node.encode { data := px.header.encode (m.toHeader cr) }

theorem encode_eq (px : Prost) (m : Manifest) : m.encode cr px = .ok (m.encoded cr px) := rfl

theorem hashBytes_eq {m : Manifest} {data digest : Bytes}
    (h : cr.digestOf m.hcodec data = some digest) : m.hashBytes cr data = .ok digest := by
  change (if m.hcodec = blake3Codec then some (cr.blake3 data)
    else if m.hcodec = sha256Codec then some (cr.sha256 data) else none) = some digest at h
  unfold hashBytes
  split at h
  · rename_i hb
    rw [if_pos hb, Option.some.inj h]
  · rename_i hb
    split at h
    · rename_i hs
      rw [if_neg hb, if_pos hs, Option.some.inj h]
    · cases h

theorem toBlock_eq (hcr : cr.Standard) (px : Prost) {m : Manifest} (hv : m.version = 1)
    {digest : Bytes} (hd : cr.digestOf m.hcodec (m.encoded cr px) = some digest) :
    m.toBlock cr px =
      .ok { cid := Cid.newV1 manifestCodec ⟨m.hcodec, digest⟩, data := m.encoded cr px } := by
  have hlen := length_digestOf hcr hd
  have hcid : readCid cr "Failed to create CID" (cidBytes m.version manifestCodec m.hcodec digest) =
      .ok (Cid.newV1 manifestCodec ⟨m.hcodec, digest⟩) := by
    rw [readCid, hv, cidOfBytes_cidBytes hcr _ _ hlen]
  have hhash := hashBytes_eq hd
  simp only [toBlock, encode_eq, bind, Except.bind, hhash, hcid]
  rfl

end Manifest

namespace FolderManifest.DirectoryManifest

variable {cr : Crates}

/-- The bytes of a directory. -/
def encoded (cr : Crates) (px : Prost) (d : DirectoryManifest) : Bytes :=
  px.directory.encode
    { entries := d.entries.map (DirectoryEntry.toProto cr), totalSize := d.totalSize,
      name := d.name }

theorem toBlock_eq (hcr : cr.Standard) (px : Prost) (d : DirectoryManifest) :
    d.toBlock cr px =
      .ok { cid := Cid.newV1 directoryCodec ⟨sha2256Code, cr.sha256 (d.encoded cr px)⟩,
            data := d.encoded cr px } := by
  have hlen := Manifest.length_digestOf hcr (@digestOf_sha256 cr (d.encoded cr px))
  have hcid := Manifest.cidOfBytes_cidBytes hcr directoryCodec Manifest.sha256Codec hlen
  have henc : d.encode cr px = .ok (d.encoded cr px) := rfl
  simp only [toBlock, henc, bind, Except.bind, hcid]
  rfl

end FolderManifest.DirectoryManifest

namespace Storage

open Manifest FolderManifest

/-- What a node makes a block of: data under either hash, a manifest with a hash code it supports
and the CID version 1, a directory. -/
inductive Made
  | data (data : Bytes)
  | dataSha256 (data : Bytes)
  | manifest (m : Manifest) (hcodec : m.hcodec = blake3Codec ∨ m.hcodec = sha256Codec)
      (version : m.version = 1)
  | directory (d : DirectoryManifest)

namespace Made

/-- The block, or nothing if the constructor fails. -/
def block (cr : Crates) (px : Prost) : Made → Option Block
  | .data d => (Block.new cr d).toOption
  | .dataSha256 d => (Block.newSha256 cr d).toOption
  | .manifest m _ _ => (m.toBlock cr px).toOption
  | .directory d => (d.toBlock cr px).toOption

def codec : Made → UInt64
  | .data _ | .dataSha256 _ => archivistBlockCodec
  | .manifest .. => manifestCodec
  | .directory _ => directoryCodec

/-- A block of data. -/
def IsData (x : Made) : Prop := (∃ d, x = .data d) ∨ ∃ d, x = .dataSha256 d

variable {cr : Crates} (px : Prost)

theorem codec_eq_iff (x : Made) : x.codec = archivistBlockCodec ↔ x.IsData := by
  cases x with
  | data d => exact iff_of_true rfl (.inl ⟨d, rfl⟩)
  | dataSha256 d => exact iff_of_true rfl (.inr ⟨d, rfl⟩)
  | manifest m hc hv =>
    have hne : manifestCodec ≠ archivistBlockCodec := by decide
    exact iff_of_false hne (by rintro (⟨d, h⟩ | ⟨d, h⟩) <;> cases h)
  | directory d =>
    have hne : directoryCodec ≠ archivistBlockCodec := by decide
    exact iff_of_false hne (by rintro (⟨d, h⟩ | ⟨d, h⟩) <;> cases h)

/-- **Every constructor succeeds**, with an authentic block of its codec. -/
theorem block_eq (hcr : cr.Standard) (x : Made) :
    ∃ b, x.block cr px = some b ∧ b.Authentic cr ∧ b.cid.version = 1 ∧ b.cid.codec = x.codec := by
  cases x with
  | data d => exact ⟨_, congrArg Except.toOption (Block.new_eq d), digestOf_blake3 d, rfl, rfl⟩
  | dataSha256 d =>
    exact ⟨_, congrArg Except.toOption (Block.newSha256_eq hcr d), digestOf_sha256 d, rfl, rfl⟩
  | manifest m hc hv =>
    obtain ⟨digest, hd⟩ : ∃ digest, cr.digestOf m.hcodec (m.encoded cr px) = some digest := by
      rcases hc with hc | hc
      · rw [hc]
        exact ⟨_, digestOf_blake3 _⟩
      · rw [hc]
        exact ⟨_, digestOf_sha256 _⟩
    exact ⟨_, congrArg Except.toOption (toBlock_eq hcr px hv hd), hd, rfl, rfl⟩
  | directory d =>
    have h := congrArg Except.toOption (DirectoryManifest.toBlock_eq hcr px d)
    exact ⟨_, h, digestOf_sha256 _, rfl, rfl⟩

end Made

/-- A receiving node accepts the block, and no other data under its CID. -/
structure Verifiable (cr : Crates) (b : Block) : Prop where
  verify : verifyBlake3 cr b.data b.cid = .ok ()
  accept : Block.fromCidAndData cr b.cid b.data = .ok b
  unique : ∀ data', cr.Apart data' b.data → verifyBlake3 cr data' b.cid = .ok () → data' = b.data

theorem verifiable_iff_codec {cr : Crates} (hcr : cr.Standard) {b : Block} (hb : b.Authentic cr)
    (hv : b.cid.version = 1) : Verifiable cr b ↔ b.cid.codec = archivistBlockCodec := by
  constructor
  · intro h
    exact ((verifyBlake3_eq_ok_iff hcr).1 h.verify).2.1
  · intro hc
    have hok : verifyBlake3 cr b.data b.cid = .ok () := (verifyBlake3_eq_ok_iff hcr).2 ⟨hv, hc, hb⟩
    refine ⟨hok, Block.fromCidAndData_eq_ok_iff.2 ⟨hok, rfl⟩, fun data' hapart h' => ?_⟩
    have hd := ((verifyBlake3_eq_ok_iff hcr).1 h').2.2
    exact hapart _ (by rw [hd]; nofun) (hd.trans hb.symm)

/-- **A node can check exactly the blocks of data** among those another node makes. -/
theorem Made.verifiable_iff {cr : Crates} (hcr : cr.Standard) (px : Prost) (x : Made) :
    ∃ b, x.block cr px = some b ∧ (Verifiable cr b ↔ x.IsData) := by
  obtain ⟨b, hb, ha, hv, hc⟩ := x.block_eq px hcr
  refine ⟨b, hb, ?_⟩
  rw [verifiable_iff_codec hcr ha hv, hc]
  exact x.codec_eq_iff

theorem Made.verifiable_iff_hello :
    Crates.standard.Standard ∧
      ∃ b, (Made.dataSha256 [104, 101, 108, 108, 111]).block .standard .standard = some b ∧
        (Verifiable .standard b ↔ (Made.dataSha256 [104, 101, 108, 108, 111]).IsData) :=
  ⟨Crates.standard_standard, Made.verifiable_iff Crates.standard_standard .standard _⟩

/-- The manifest of a dataset of one byte. -/
def sampleManifest : Manifest :=
  .new (Cid.newV1 0xcd03 ⟨0x12, List.replicate 32 7⟩) 65536 1 none (some sha256Codec) none none none

/-- The check refuses the block of a manifest, on the node that made it and on every other. -/
theorem sampleManifest_refused :
    ∃ b, sampleManifest.toBlock .standard .standard = .ok b ∧
      verifyBlake3 .standard b.data b.cid ≠ .ok () ∧
      ¬ ∃ b', Block.fromCidAndData .standard b.cid b.data = .ok b' := by
  refine ⟨_, toBlock_eq Crates.standard_standard .standard rfl (digestOf_sha256 _), ?_, ?_⟩
  · intro h
    have hc := ((verifyBlake3_eq_ok_iff Crates.standard_standard).1 h).2.1
    exact absurd hc (by decide)
  · rintro ⟨b', h⟩
    have hv := (Block.fromCidAndData_eq_ok_iff.1 h).1
    have hc := ((verifyBlake3_eq_ok_iff Crates.standard_standard).1 hv).2.1
    exact absurd hc (by decide)

end Storage
