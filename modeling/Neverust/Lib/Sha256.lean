import Neverust.Lib.Bytes

/-!
# SHA-256

Words are natural numbers below `2 ^ 32`, and numbers are big-endian. The message is padded to whole
blocks of 64 bytes, and each block changes the eight words of the state.
-/

namespace Sha256

def iv : List Nat :=
  [0x6a09e667, 0xbb67ae85, 0x3c6ef372, 0xa54ff53a, 0x510e527f, 0x9b05688c, 0x1f83d9ab, 0x5be0cd19]

def constants : List Nat :=
  [0x428a2f98, 0x71374491, 0xb5c0fbcf, 0xe9b5dba5, 0x3956c25b, 0x59f111f1, 0x923f82a4, 0xab1c5ed5,
    0xd807aa98, 0x12835b01, 0x243185be, 0x550c7dc3, 0x72be5d74, 0x80deb1fe, 0x9bdc06a7, 0xc19bf174,
    0xe49b69c1, 0xefbe4786, 0x0fc19dc6, 0x240ca1cc, 0x2de92c6f, 0x4a7484aa, 0x5cb0a9dc, 0x76f988da,
    0x983e5152, 0xa831c66d, 0xb00327c8, 0xbf597fc7, 0xc6e00bf3, 0xd5a79147, 0x06ca6351, 0x14292967,
    0x27b70a85, 0x2e1b2138, 0x4d2c6dfc, 0x53380d13, 0x650a7354, 0x766a0abb, 0x81c2c92e, 0x92722c85,
    0xa2bfe8a1, 0xa81a664b, 0xc24b8b70, 0xc76c51a3, 0xd192e819, 0xd6990624, 0xf40e3585, 0x106aa070,
    0x19a4c116, 0x1e376c08, 0x2748774c, 0x34b0bcb5, 0x391c0cb3, 0x4ed8aa4a, 0x5b9cca4f, 0x682e6ff3,
    0x748f82ee, 0x78a5636f, 0x84c87814, 0x8cc70208, 0x90befffa, 0xa4506ceb, 0xbef9a3f7, 0xc67178f2]

def rotate (x r : Nat) : Nat := (x >>> r) ||| ((x <<< (32 - r)) % 2 ^ 32)

/-- `n` more words of the message schedule; `w` holds the words so far, the last one first. -/
def extend : Nat → List Nat → List Nat
  | 0, w => w
  | n + 1, w =>
    let x := w.getD 14 0
    let y := w.getD 1 0
    let a := rotate x 7 ^^^ rotate x 18 ^^^ (x >>> 3)
    let b := rotate y 17 ^^^ rotate y 19 ^^^ (y >>> 10)
    extend n ((w.getD 15 0 + a + w.getD 6 0 + b) % 2 ^ 32 :: w)

/-- A round with the sum of its constant and its schedule word. -/
def round : List Nat → Nat → List Nat
  | [a, b, c, d, e, f, g, h], x =>
    let s1 := rotate e 6 ^^^ rotate e 11 ^^^ rotate e 25
    let ch := (e &&& f) ^^^ ((e ^^^ 0xffffffff) &&& g)
    let t1 := h + s1 + ch + x
    let s0 := rotate a 2 ^^^ rotate a 13 ^^^ rotate a 22
    let maj := (a &&& b) ^^^ (a &&& c) ^^^ (b &&& c)
    [(t1 + s0 + maj) % 2 ^ 32, a, b, c, (d + t1) % 2 ^ 32, e, f, g]
  | s, _ => s

/-- The words of a block. -/
def blockWords (b : Bytes) : List Nat :=
  (List.range 16).map fun i => Bytes.ofLe (Bytes.slice b (4 * i) 4).reverse

def compress (s : List Nat) (b : Bytes) : List Nat :=
  let w := (extend 48 (blockWords b).reverse).reverse
  let s' := (List.zipWith (· + ·) constants w).foldl round s
  List.zipWith (fun x y => (x + y) % 2 ^ 32) s s'

/-- The message with its padding: a one bit, zeros and the number of bits. -/
def pad (b : Bytes) : Bytes :=
  b ++ 0x80 :: List.replicate ((119 - b.length % 64) % 64) 0 ++
    (Bytes.leBytes 8 (8 * b.length)).reverse

def blocksFrom : Nat → List Nat → Bytes → List Nat
  | 0, s, _ => s
  | n + 1, s, b => blocksFrom n (compress s (b.take 64)) (b.drop 64)

/-- The digest of `b`. -/
def hash (b : Bytes) : Bytes :=
  let words := blocksFrom ((pad b).length / 64) iv (pad b)
  (List.range 8).flatMap fun i => (Bytes.leBytes 4 (words.getD i 0)).reverse

@[simp] theorem length_hash (b : Bytes) : (hash b).length = 32 := by
  simp [hash, List.range_succ]

end Sha256
