import Neverust.Lib.Bytes

/-!
# BLAKE3

The hash function in its default mode, with digests of 32 bytes. Words are natural numbers below
`2 ^ 32`. The input is cut into chunks of 1024 bytes, the chunks into blocks of 64 bytes; the
chaining values of the chunks are merged pairwise, and the last merge (or the last block of a
single chunk) has the flag `root`.
-/

namespace Blake3

def chunkStart : Nat := 1
def chunkEnd : Nat := 2
def parent : Nat := 4
def root : Nat := 8

def iv : List Nat :=
  [0x6a09e667, 0xbb67ae85, 0x3c6ef372, 0xa54ff53a, 0x510e527f, 0x9b05688c, 0x1f83d9ab, 0x5be0cd19]

def add (x y : Nat) : Nat := (x + y) % 2 ^ 32

/-- `x` xor `y`, rotated right by `r`. -/
def xorRotate (x y r : Nat) : Nat :=
  let z := x ^^^ y
  (z >>> r) ||| ((z <<< (32 - r)) % 2 ^ 32)

/-- The quarter round with two message words. -/
def mix (a b c d x y : Nat) : Nat × Nat × Nat × Nat :=
  let a := add (add a b) x
  let d := xorRotate d a 16
  let c := add c d
  let b := xorRotate b c 12
  let a := add (add a b) y
  let d := xorRotate d a 8
  let c := add c d
  let b := xorRotate b c 7
  (a, b, c, d)

/-- A round: the columns of the state, then its diagonals. -/
def round : List Nat → List Nat → List Nat
  | [s0, s1, s2, s3, s4, s5, s6, s7, s8, s9, s10, s11, s12, s13, s14, s15],
    [m0, m1, m2, m3, m4, m5, m6, m7, m8, m9, m10, m11, m12, m13, m14, m15] =>
    let (s0, s4, s8, s12) := mix s0 s4 s8 s12 m0 m1
    let (s1, s5, s9, s13) := mix s1 s5 s9 s13 m2 m3
    let (s2, s6, s10, s14) := mix s2 s6 s10 s14 m4 m5
    let (s3, s7, s11, s15) := mix s3 s7 s11 s15 m6 m7
    let (s0, s5, s10, s15) := mix s0 s5 s10 s15 m8 m9
    let (s1, s6, s11, s12) := mix s1 s6 s11 s12 m10 m11
    let (s2, s7, s8, s13) := mix s2 s7 s8 s13 m12 m13
    let (s3, s4, s9, s14) := mix s3 s4 s9 s14 m14 m15
    [s0, s1, s2, s3, s4, s5, s6, s7, s8, s9, s10, s11, s12, s13, s14, s15]
  | s, _ => s

/-- The order of the message words in the next round. -/
def permute (m : List Nat) : List Nat :=
  [2, 6, 3, 10, 7, 0, 4, 13, 1, 11, 12, 5, 9, 14, 15, 8].map fun i => m.getD i 0

def rounds : Nat → List Nat → List Nat → List Nat
  | 0, s, _ => s
  | n + 1, s, m => rounds n (round s m) (permute m)

/-- The chaining value after a block of `len` bytes. -/
def compress (cv block : List Nat) (counter len flags : Nat) : List Nat :=
  let s := rounds 7 (cv ++ iv.take 4 ++ [counter % 2 ^ 32, counter >>> 32, len, flags]) block
  List.zipWith (· ^^^ ·) (s.take 8) (s.drop 8)

/-- The words of a block, padded with zeros. -/
def blockWords (b : Bytes) : List Nat :=
  (List.range 16).map fun i => Bytes.ofLe (Bytes.slice b (4 * i) 4)

/-- The chaining value of a chunk, block by block; `flags` are those of the last block. -/
def chunkFrom (counter flags : Nat) : Nat → Nat → List Nat → Bytes → List Nat
  | 0, _, cv, _ => cv
  | n + 1, start, cv, b =>
    if b.length ≤ 64 then
      compress cv (blockWords b) counter b.length (start + chunkEnd + flags)
    else
      chunkFrom counter flags n 0 (compress cv (blockWords (b.take 64)) counter 64 start) (b.drop 64)

def chunk (counter flags : Nat) (b : Bytes) : List Nat := chunkFrom counter flags 16 chunkStart iv b

/-- The chaining values of the chunks. -/
def chunksFrom : Nat → Nat → Bytes → List (List Nat)
  | 0, _, _ => []
  | n + 1, counter, b =>
    if b.length ≤ 1024 then [chunk counter 0 b]
    else chunk counter 0 (b.take 1024) :: chunksFrom n (counter + 1) (b.drop 1024)

/-- One level of the tree; an odd last node moves up. -/
def mergePairs : List (List Nat) → List (List Nat)
  | a :: b :: cvs => compress iv (a ++ b) 0 64 parent :: mergePairs cvs
  | cvs => cvs

def mergeAll : Nat → List (List Nat) → List Nat
  | _, [a, b] => compress iv (a ++ b) 0 64 (parent + root)
  | n + 1, cvs => mergeAll n (mergePairs cvs)
  | 0, _ => iv

def hashWords (b : Bytes) : List Nat :=
  if b.length ≤ 1024 then chunk 0 root b
  else mergeAll b.length (chunksFrom b.length 0 b)

/-- The digest of `b`. -/
def hash (b : Bytes) : Bytes :=
  (List.range 8).flatMap fun i => Bytes.leBytes 4 ((hashWords b).getD i 0)

@[simp] theorem length_hash (b : Bytes) : (hash b).length = 32 := by
  rw [hash, List.length_flatMap]
  simp only [Bytes.length_leBytes, List.map_const', List.length_range]
  rfl

end Blake3
