import Neverust.Citadel.Graph

/-!
# Citadel: operations and their proof of work
-/

namespace Citadel

open Bytes

inductive LensOpKind
  | follow (siteId targetSiteId : SiteId) (enabled : Bool)
  | content (siteId : SiteId) (contentSlot : ContentSlot) (present : Bool)
  | trustOrigin (origin : NodeId) (trusted : Bool)
  deriving Repr, DecidableEq

structure LensOp where
  origin : NodeId
  counter : UInt64
  hostId : UInt8
  kind : LensOpKind
  powNonce : UInt64
  deriving Repr, DecidableEq

/-- `b as u8`. -/
def boolByte (b : Bool) : UInt8 := if b then 1 else 0

/-- The bytes of the kind that are hashed. -/
def LensOpKind.bytes : LensOpKind → Bytes
  | .follow siteId targetSiteId enabled =>
    [0] ++ leBytes 8 siteId.toNat ++ leBytes 8 targetSiteId.toNat ++ [boolByte enabled]
  | .content siteId contentSlot present =>
    [1] ++ leBytes 8 siteId.toNat ++ leBytes 8 contentSlot.toNat ++ [boolByte present]
  | .trustOrigin origin trusted => [2] ++ leBytes 4 origin.toNat ++ [boolByte trusted]

/-- `u8::leading_zeros` of a byte that is not zero. -/
def leadingZeros (b : UInt8) : Nat := 7 - b.toNat.log2

/-- The nonces from `nonce` on, in the order of `wrapping_add`. After all of them the loop of the
source starts again and never ends; here it gives `none`. -/
def searchNonce (p : UInt64 → Bool) : Nat → UInt64 → Option UInt64
  | 0, _ => none
  | k + 1, nonce => if p nonce then some nonce else searchNonce p k (nonce + 1)

namespace LensOp

variable (cr : Crates)

def hashWithoutNonce (op : LensOp) (nonce : UInt64) : Bytes :=
  cr.blake3 (leBytes 4 op.origin.toNat ++ leBytes 8 op.counter.toNat ++ [op.hostId] ++
    op.kind.bytes ++ leBytes 8 nonce.toNat)

def leadingZeroBits : Bytes → Nat
  | [] => 0
  | b :: bs => if b = 0 then 8 + leadingZeroBits bs else leadingZeros b

def validPow (op : LensOp) (requiredBits : UInt8) : Bool :=
  if requiredBits = 0 then true
  else leadingZeroBits (op.hashWithoutNonce cr op.powNonce) ≥ requiredBits.toNat

/-- The operation with a nonce of the required difficulty, `none` if there is none. -/
def mineNonce (op : LensOp) (requiredBits : UInt8) : Option LensOp :=
  if requiredBits = 0 then some { op with powNonce := 0 }
  else
    (searchNonce (fun nonce =>
      leadingZeroBits (op.hashWithoutNonce cr nonce) ≥ requiredBits.toNat) (2 ^ 64) 0).map
      fun nonce => { op with powNonce := nonce }

/-- Mining sets the nonce and nothing else. -/
theorem mineNonce_eq {op mined : LensOp} {bits : UInt8} (h : op.mineNonce cr bits = some mined) :
    mined = { op with powNonce := mined.powNonce } := by
  unfold mineNonce at h
  split at h
  · cases h
    rfl
  · obtain ⟨nonce, -, rfl⟩ := Option.map_eq_some_iff.1 h
    rfl

end LensOp

end Citadel
