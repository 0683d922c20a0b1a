import Neverust.CidForms
import Neverust.Storage.Types

/-!
# Blocks and their CIDs

The constructors of `Block`, and what the check of a block accepts. `Crates.digestOf` is the hash a
multihash code names.

* `verifyBlake3_eq_ok_iff`: the check accepts exactly the CIDs of version 1 with the block codec
  and the digest of the data.
* `Authentic`: the data of a block has the digest that its CID holds.
-/

open CidBlake3

/-- What the documentation of the crates says besides: the length of a SHA-256 digest, and the
bytes of a CID of version 1. -/
structure Crates.Standard (cr : Crates) : Prop where
  sha256_length : ∀ b, (cr.sha256 b).length = 32
  cidToBytes_v1 : ∀ (codec : UInt64) (mh : Multihash), mh.digest.length ≤ multihashSize →
    cr.cidToBytes (Cid.newV1 codec mh) = (Cid.newV1 codec mh).toBytes

theorem Crates.ofBlake3_standard (blake3 : Bytes → Bytes) (h : ∀ b, (blake3 b).length = 32) :
    (Crates.ofBlake3 blake3 h).Standard :=
  ⟨Sha256.length_hash, fun _ _ _ => rfl⟩

theorem Crates.standard_standard : Crates.standard.Standard :=
  Crates.ofBlake3_standard Blake3.hash Blake3.length_hash

/-- The hash of data under a multihash code. -/
def Crates.digestOf (cr : Crates) (code : UInt64) (data : Bytes) : Option Bytes :=
  if code = blake3Code then some (cr.blake3 data)
  else if code = sha2256Code then some (cr.sha256 data)
  else none

/-- Two byte strings that do not collide under the hashes. -/
def Crates.Apart (cr : Crates) (a b : Bytes) : Prop :=
  ∀ code : UInt64, cr.digestOf code a ≠ none → cr.digestOf code a = cr.digestOf code b → a = b

namespace Storage

namespace Block

variable (cr : Crates)

/-- `Block::new`. -/
def new (data : Bytes) : Except CidError Block := do
  let cid ← blake3Cid cr data
  return { cid, data }

/-- `Block::new_sha256`. -/
def newSha256 (data : Bytes) : Except CidError Block := do
  let cid ← sha256Cid cr data
  return { cid, data }

/-- `Block::from_cid_and_data`. -/
def fromCidAndData (cid : Cid) (data : Bytes) : Except CidError Block := do
  verifyBlake3 cr data cid
  return { cid, data }

/-- The data of a block has the digest that its CID holds. -/
def Authentic (b : Block) : Prop := cr.digestOf b.cid.hash.code b.data = some b.cid.hash.digest

instance (b : Block) : Decidable (Authentic cr b) := inferInstanceAs (Decidable (_ = _))

end Block

/-! ## Specifications -/

section
variable {cr : Crates}

/-- The CID `hashCid` makes. -/
def blockCid (code : UInt64) (digest : Bytes) : Cid := Cid.newV1 archivistBlockCodec ⟨code, digest⟩

theorem hashCid_eq {code : UInt64} {hash : Bytes} (h : hash.length ≤ multihashSize) :
    hashCid code hash = .ok (blockCid code hash) := by
  rw [hashCid, Multihash.wrap, if_pos h]
  rfl

theorem blake3Cid_eq (data : Bytes) :
    blake3Cid cr data = .ok (blockCid blake3Code (cr.blake3 data)) :=
  hashCid_eq (by rw [cr.blake3_length]; decide)

theorem sha256Cid_eq (hcr : cr.Standard) (data : Bytes) :
    sha256Cid cr data = .ok (blockCid sha2256Code (cr.sha256 data)) :=
  hashCid_eq (by rw [hcr.sha256_length]; decide)

theorem Block.new_eq (data : Bytes) :
    Block.new cr data = .ok { cid := blockCid blake3Code (cr.blake3 data), data } := by
  rw [Block.new, blake3Cid_eq]
  rfl

theorem Block.newSha256_eq (hcr : cr.Standard) (data : Bytes) :
    Block.newSha256 cr data = .ok { cid := blockCid sha2256Code (cr.sha256 data), data } := by
  rw [Block.newSha256, sha256Cid_eq hcr]
  rfl

theorem digestOf_blake3 (data : Bytes) : cr.digestOf blake3Code data = some (cr.blake3 data) := rfl

theorem digestOf_sha256 (data : Bytes) : cr.digestOf sha2256Code data = some (cr.sha256 data) := rfl

theorem blockCid_eq_iff {c : Cid} {digest : Bytes} :
    blockCid c.hash.code digest = c ↔
      c.version = 1 ∧ c.codec = archivistBlockCodec ∧ digest = c.hash.digest := by
  obtain ⟨version, codec, code, d⟩ := c
  simp only [blockCid, Cid.newV1, Cid.mk.injEq, Multihash.mk.injEq, true_and]
  exact and_congr eq_comm (and_congr eq_comm Iff.rfl)

/-- The comparison at the end of the check. -/
theorem compare_eq_ok_iff (computed expected : Cid) :
    ((if computed ≠ expected then
        throw (.hashMismatch (cr.cidToString expected) (cr.cidToString computed))
      else pure ()) : Except CidError Unit) = .ok () ↔ computed = expected := by
  by_cases h : computed = expected
  · rw [if_neg (not_not.2 h)]
    exact iff_of_true rfl h
  · rw [if_pos h]
    exact iff_of_false nofun h

/-- **The check accepts a CID exactly when** it has version 1, the block codec and the digest of
the data under its hash code. -/
theorem verifyBlake3_eq_ok_iff (hcr : cr.Standard) {data : Bytes} {cid : Cid} :
    verifyBlake3 cr data cid = .ok () ↔
      cid.version = 1 ∧ cid.codec = archivistBlockCodec ∧
        cr.digestOf cid.hash.code data = some cid.hash.digest := by
  rw [verifyBlake3, Crates.digestOf]
  by_cases hb : cid.hash.code = blake3Code
  · rw [if_pos hb, if_pos hb, blake3Cid_eq, Option.some.injEq, ← hb, ← blockCid_eq_iff]
    exact compare_eq_ok_iff _ _
  · rw [if_neg hb, if_neg hb]
    by_cases hs : cid.hash.code = sha2256Code
    · rw [if_pos hs, if_pos hs, sha256Cid_eq hcr, Option.some.injEq, ← hs, ← blockCid_eq_iff]
      exact compare_eq_ok_iff _ _
    · rw [if_neg hs, if_neg hs]
      exact iff_of_false nofun fun h => nomatch h.2.2

theorem Block.fromCidAndData_eq_ok_iff {cid : Cid} {data : Bytes} {b : Block} :
    Block.fromCidAndData cr cid data = .ok b ↔
      verifyBlake3 cr data cid = .ok () ∧ b = { cid, data } := by
  rw [Block.fromCidAndData]
  cases h : verifyBlake3 cr data cid with
  | error e => exact iff_of_false nofun fun h => nomatch h.1
  | ok u =>
    refine ⟨fun hb => ⟨rfl, (Except.ok.inj hb).symm⟩, fun hb => ?_⟩
    rw [hb.2]
    rfl

theorem Block.fromCidAndData_authentic (hcr : cr.Standard) {cid : Cid} {data : Bytes} {b : Block}
    (h : Block.fromCidAndData cr cid data = .ok b) : b.Authentic cr := by
  obtain ⟨hv, rfl⟩ := Block.fromCidAndData_eq_ok_iff.1 h
  exact ((verifyBlake3_eq_ok_iff hcr).1 hv).2.2

end

end Storage
