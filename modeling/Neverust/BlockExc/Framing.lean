import Neverust.Lib.Bytes
import Neverust.Lib.Rust

/-!
# Frames of a stream (`blockexc.rs`)

A message goes over a stream behind its length, a varint. A stream that is read is the bytes that
are still to come from it, up to its end.
-/

namespace BlockExc

open Rust

/-- The errors of a read. -/
inductive FrameError
  | unexpectedEof
  | varintTooLong
  | messageTooLarge (length maxSize : Nat)
  deriving Repr, DecidableEq

/-- `AsyncReadExt::read_exact`. -/
def readExact (n : Nat) (stream : Bytes) : Result FrameError (Bytes × Bytes) :=
  if n ≤ stream.length then .ok (stream.take n, stream.drop n) else .error (.err .unexpectedEof)

/-- The loop over the bytes of the length. -/
def readLength (length : UInt64) (shift : Nat) : Bytes → Result FrameError (UInt64 × Bytes)
  | [] => .error (.err .unexpectedEof)
  | byte :: stream =>
    let length := length ||| ((byte &&& 0x7F).toUInt64 <<< UInt64.ofNat shift)
    if byte &&& 0x80 = 0 then .ok (length, stream)
    else if 64 ≤ shift + 7 then .error (.err .varintTooLong)
    else readLength length (shift + 7) stream

/-- The length of the next message, and the check of it. -/
def acceptLength (maxSize : Nat) (stream : Bytes) : Result FrameError (Nat × Bytes) := do
  let (length, stream) ← readLength 0 0 stream
  if maxSize < length.toNat then .error (.err (.messageTooLarge length.toNat maxSize))
  else return (length.toNat, stream)

/-- `read_length_prefixed`. -/
def readLengthPrefixed (maxSize : Nat) (stream : Bytes) : Result FrameError (Bytes × Bytes) := do
  let (length, stream) ← acceptLength maxSize stream
  withCapacity length
  readExact length stream

/-- The loop that writes a length, for at most `fuel` rounds. -/
def writeLengthFrom : Nat → Nat → Bytes
  | 0, length => [UInt8.ofNat length]
  | fuel + 1, length =>
    if 128 ≤ length then (UInt8.ofNat length ||| 0x80) :: writeLengthFrom fuel (length >>> 7)
    else [UInt8.ofNat length]

/-- `write_length_prefixed`. A length is more than the rounds that write it. -/
def writeLengthPrefixed (data : Bytes) : Bytes := writeLengthFrom data.length data.length ++ data

/-- The messages a stream gives before a read fails, and the bytes at which it fails; at most `fuel`
messages. -/
def readMessages (maxSize : Nat) : Nat → Bytes → List Bytes × Bytes
  | 0, stream => ([], stream)
  | fuel + 1, stream =>
    match readLengthPrefixed maxSize stream with
    | .error _ => ([], stream)
    | .ok (data, rest) =>
      let (messages, left) := readMessages maxSize fuel rest
      (data :: messages, left)

end BlockExc
