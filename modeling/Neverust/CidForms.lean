import Neverust.CidBlake3
import Neverust.Lib.Blake3
import Neverust.Lib.Multiformats
import Neverust.Lib.Sha256

/-!
# The forms of a CID

The byte form of a CID of version 1 (version, codec and multihash code as varints, the length of
the digest, the digest) and its text form (base32 with the prefix `b`). They read back, so that the
crates can be instantiated: `Crates.standard` with BLAKE3, `Crates.ofBlake3` with another hash in
its place.
-/

open Multiformats

namespace Cid

def toBytes (c : Cid) : Bytes :=
  varint c.version ++ (varint c.codec.toNat ++ (varint c.hash.code.toNat ++
    (varint c.hash.digest.length ++ c.hash.digest)))

def ofBytes (b : Bytes) : Option Cid := do
  let (version, b) ← readVarint b
  let (codec, b) ← readVarint b
  let (code, b) ← readVarint b
  let (size, digest) ← readVarint b
  if digest.length = size then
    return { version, codec := UInt64.ofNat codec, hash := { code := UInt64.ofNat code, digest } }
  else none

def toText (c : Cid) : String := String.ofList ('b' :: base32 c.toBytes)

def ofText (s : String) : Option Cid :=
  match s.toList with
  | 'b' :: cs => (ofBase32 cs).bind ofBytes
  | _ => none

theorem toBytes_ne_nil (c : Cid) : c.toBytes ≠ [] :=
  List.append_ne_nil_of_left_ne_nil (varint_ne_nil _) _

theorem ofBytes_toBytes (c : Cid) : ofBytes c.toBytes = some c := by
  unfold ofBytes toBytes
  rw [readVarint_varint]
  change (do
    let (codec, b) ← readVarint _
    let (code, b) ← readVarint b
    let (size, digest) ← readVarint b
    if digest.length = size then
      return { version := c.version, codec := UInt64.ofNat codec,
               hash := { code := UInt64.ofNat code, digest } }
    else none) = some c
  rw [readVarint_varint]
  change (do
    let (code, b) ← readVarint _
    let (size, digest) ← readVarint b
    if digest.length = size then
      return { version := c.version, codec := UInt64.ofNat c.codec.toNat,
               hash := { code := UInt64.ofNat code, digest } }
    else none) = some c
  rw [readVarint_varint]
  change (do
    let (size, digest) ← readVarint _
    if digest.length = size then
      return { version := c.version, codec := UInt64.ofNat c.codec.toNat,
               hash := { code := UInt64.ofNat c.hash.code.toNat, digest } }
    else none) = some c
  rw [readVarint_varint]
  change (if c.hash.digest.length = c.hash.digest.length then _ else _) = some c
  rw [if_pos rfl, UInt64.ofNat_toNat, UInt64.ofNat_toNat]
  rfl

theorem ofText_toText (c : Cid) : ofText c.toText = some c := by
  rw [ofText, toText, String.toList_ofList]
  change (ofBase32 (base32 c.toBytes)).bind ofBytes = some c
  rw [ofBase32_base32]
  exact ofBytes_toBytes c

end Cid

namespace Crates

/-- The crates with the given hash in the place of BLAKE3. -/
def ofBlake3 (blake3 : Bytes → Bytes) (h : ∀ b, (blake3 b).length = 32) : Crates where
  blake3
  sha256 := Sha256.hash
  cidToBytes := Cid.toBytes
  cidOfBytes := Cid.ofBytes
  cidToString := Cid.toText
  cidOfString := Cid.ofText
  blake3_length := h
  cidToBytes_ne := Cid.toBytes_ne_nil
  cidOfBytes_toBytes := Cid.ofBytes_toBytes
  cidOfString_toString := Cid.ofText_toText

def standard : Crates := ofBlake3 Blake3.hash Blake3.length_hash

end Crates
