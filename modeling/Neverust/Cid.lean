import Neverust.Lib.Bytes

/-!
# Content identifiers

The `cid` and `multihash` crates, as far as the repository's code reads them: a CID is a version, a
codec and a multihash, and a multihash of the crate's default size holds a digest of at most 64
bytes.
-/

/-- `multihash::Multihash<64>`. -/
structure Multihash where
  code : UInt64
  digest : Bytes
  deriving Repr, DecidableEq

/-- `cid::Cid`. -/
structure Cid where
  version : Nat
  codec : UInt64
  hash : Multihash
  deriving Repr, DecidableEq

/-- The digest size of the crate's default multihash. -/
def multihashSize : Nat := 64

/-- `Multihash::wrap`. -/
def Multihash.wrap (code : UInt64) (digest : Bytes) : Except String Multihash :=
  if digest.length ≤ multihashSize then .ok { code, digest }
  else .error s!"Invalid multihash size {digest.length}."

/-- `Cid::new_v1`. -/
def Cid.newV1 (codec : UInt64) (hash : Multihash) : Cid := { version := 1, codec, hash }
