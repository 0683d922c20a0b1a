import Neverust.Lib.Io
import Neverust.Cid

/-!
# CIDs of data

The functions of the `blake3`, `sha2` and `cid` crates that the repository calls are the fields of
`Crates`, with the documented facts the code relies on: `blake3` digests have 32 bytes, and a CID
reads back from its byte form and from its text form. `verifyBlake3` recomputes the CID of data.
-/

structure Crates where
  blake3 : Bytes → Bytes
  sha256 : Bytes → Bytes
  cidToBytes : Cid → Bytes
  cidOfBytes : Bytes → Option Cid
  cidToString : Cid → String
  cidOfString : String → Option Cid
  blake3_length : ∀ b, (blake3 b).length = 32
  cidToBytes_ne : ∀ c, cidToBytes c ≠ []
  cidOfBytes_toBytes : ∀ c, cidOfBytes (cidToBytes c) = some c
  cidOfString_toString : ∀ c, cidOfString (cidToString c) = some c

namespace Crates

variable (cr : Crates)

theorem cidToBytes_inj {c c' : Cid} (h : cr.cidToBytes c = cr.cidToBytes c') : c = c' := by
  have := cr.cidOfBytes_toBytes c
  rw [h, cr.cidOfBytes_toBytes] at this
  exact (Option.some.inj this).symm

theorem cidToString_inj {c c' : Cid} (h : cr.cidToString c = cr.cidToString c') : c = c' := by
  have := cr.cidOfString_toString c
  rw [h, cr.cidOfString_toString] at this
  exact (Option.some.inj this).symm

end Crates

namespace CidBlake3

inductive CidError
  | invalidCid (msg : String)
  | hashMismatch (expected actual : String)
  | io (e : Io.IoError)
  | multihash (msg : String)
  deriving Repr, DecidableEq

def blake3Code : UInt64 := 0x1e
def sha2256Code : UInt64 := 0x12
def archivistBlockCodec : UInt64 := 0xcd02

section
variable (cr : Crates)

/-- The CIDv1 with the block codec and the given multihash. -/
def hashCid (code : UInt64) (hash : Bytes) : Except CidError Cid :=
  match Multihash.wrap code hash with
  | .ok mh => .ok (Cid.newV1 archivistBlockCodec mh)
  | .error e => .error (.multihash s!"Failed to create multihash: {e}")

def blake3Cid (data : Bytes) : Except CidError Cid := hashCid blake3Code (cr.blake3 data)

def sha256Cid (data : Bytes) : Except CidError Cid := hashCid sha2256Code (cr.sha256 data)

/-- Lower-case hexadecimal digits. -/
def toHex (n : Nat) : String := String.ofList (Nat.toDigits 16 n)

def verifyBlake3 (data : Bytes) (expectedCid : Cid) : Except CidError Unit := do
  let computedCid ←
    if expectedCid.hash.code = blake3Code then blake3Cid cr data
    else if expectedCid.hash.code = sha2256Code then sha256Cid cr data
    else
      let code := toHex expectedCid.hash.code.toNat
      throw (.invalidCid s!"Unsupported multihash code: 0x{code}")
  if computedCid ≠ expectedCid then
    throw (.hashMismatch (cr.cidToString expectedCid) (cr.cidToString computedCid))

end

end CidBlake3
