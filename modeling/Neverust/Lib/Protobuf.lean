import Neverust.Lib.Multiformats

/-!
# Protocol buffers

Messages on the wire: a message is a list of tagged fields, and a field holds a number or a run of
bytes. A codec for a record type is given by the fields of a record and a reading of fields.

* `Codec`: an encoder and a decoder that reads it back.
* `readFields_writeFields`: a list of fields reads back.
* `uint_values`, `blob_values`, `parts_values`: what a reader of a tag finds among the fields of a
  record, where the fields that hold a default are left out.
-/

open Multiformats

/-- An encoding that reads back. -/
structure Codec (α : Type) where
  encode : α → Bytes
  decode : Bytes → Option α
  decode_encode : ∀ a, decode (encode a) = some a

namespace Protobuf

/-- The value of a field: a varint, or a length-delimited run of bytes. -/
inductive Value
  | varint (n : Nat)
  | bytes (b : Bytes)
  deriving Repr, DecidableEq

structure Field where
  tag : Nat
  value : Value
  deriving Repr, DecidableEq

/-! ## Fields on the wire -/

def Field.write (f : Field) : Bytes :=
  match f.value with
  | .varint n => varint (8 * f.tag) ++ varint n
  | .bytes b => varint (8 * f.tag + 2) ++ (varint b.length ++ b)

def writeFields (fs : List Field) : Bytes := fs.flatMap Field.write

/-- The field at the start of `b`, and what follows it. -/
def readField (b : Bytes) : Option (Field × Bytes) := do
  let (key, b) ← readVarint b
  let (n, b) ← readVarint b
  if key % 8 = 0 then
    return ({ tag := key / 8, value := .varint n }, b)
  else if key % 8 = 2 ∧ n ≤ b.length then
    return ({ tag := key / 8, value := .bytes (b.take n) }, b.drop n)
  else none

/-- At most `fuel` fields. -/
def readFieldsFrom : Nat → Bytes → Option (List Field)
  | _, [] => some []
  | 0, _ :: _ => none
  | fuel + 1, b => do
    let (f, b) ← readField b
    let fs ← readFieldsFrom fuel b
    return f :: fs

def readFields (b : Bytes) : Option (List Field) := readFieldsFrom b.length b

theorem Field.write_ne_nil (f : Field) : f.write ≠ [] := by
  unfold Field.write
  split
  · exact List.append_ne_nil_of_left_ne_nil (varint_ne_nil _) _
  · exact List.append_ne_nil_of_left_ne_nil (varint_ne_nil _) _

theorem readField_write (f : Field) (rest : Bytes) :
    readField (f.write ++ rest) = some (f, rest) := by
  obtain ⟨tag, value⟩ := f
  cases value with
  | varint n =>
    show readField ((varint (8 * tag) ++ varint n) ++ rest) = _
    rw [List.append_assoc, readField, readVarint_varint]
    show (do let (n, b) ← readVarint (varint n ++ rest); _) = _
    rw [readVarint_varint]
    show (if 8 * tag % 8 = 0 then _ else _) = _
    rw [if_pos (by omega), show 8 * tag / 8 = tag by omega]
    rfl
  | bytes b =>
    show readField ((varint (8 * tag + 2) ++ (varint b.length ++ b)) ++ rest) = _
    rw [List.append_assoc, List.append_assoc, readField, readVarint_varint]
    show (do let (n, b) ← readVarint (varint b.length ++ (b ++ rest)); _) = _
    rw [readVarint_varint]
    show (if (8 * tag + 2) % 8 = 0 then _
      else if (8 * tag + 2) % 8 = 2 ∧ b.length ≤ (b ++ rest).length then _ else _) = _
    rw [if_neg (by omega), if_pos ⟨by omega, by simp⟩, show (8 * tag + 2) / 8 = tag by omega,
      List.take_left, List.drop_left]
    rfl

theorem readFieldsFrom_writeFields :
    ∀ (fs : List Field) (fuel : Nat), fs.length ≤ fuel →
      readFieldsFrom fuel (writeFields fs) = some fs
  | [], fuel, _ => by
    cases fuel with
    | zero => rfl
    | succ fuel => rfl
  | f :: fs, 0, h => by simp at h
  | f :: fs, fuel + 1, h => by
    have hw : writeFields (f :: fs) = f.write ++ writeFields fs := List.flatMap_cons
    have hne : f.write ++ writeFields fs ≠ [] :=
      List.append_ne_nil_of_left_ne_nil f.write_ne_nil _
    have hrest := readFieldsFrom_writeFields fs fuel (by simpa using h)
    rw [hw, readFieldsFrom, readField_write]
    · show (do let fs ← readFieldsFrom fuel (writeFields fs); return f :: fs) = _
      rw [hrest]
      rfl
    · exact hne

theorem length_le_writeFields : ∀ fs : List Field, fs.length ≤ (writeFields fs).length
  | [] => Nat.le_refl _
  | f :: fs => by
    have ih := length_le_writeFields fs
    have hpos := List.length_pos_iff.2 f.write_ne_nil
    show fs.length + 1 ≤ (f.write ++ writeFields fs).length
    rw [List.length_append]
    omega

/-- **Fields read back.** -/
theorem readFields_writeFields (fs : List Field) : readFields (writeFields fs) = some fs :=
  readFieldsFrom_writeFields fs _ (length_le_writeFields fs)

/-! ## The fields of a record

A number that is zero and a run of bytes that is empty are left out. -/

def uintField (tag n : Nat) : List Field := if n = 0 then [] else [{ tag, value := .varint n }]

def blobField (tag : Nat) (b : Bytes) : List Field :=
  if b = [] then [] else [{ tag, value := .bytes b }]

/-- A field for each part, also for an empty one. -/
def partFields (tag : Nat) (bs : List Bytes) : List Field :=
  bs.map fun b => { tag, value := .bytes b }

/-- The values under a tag, in order. -/
def values (tag : Nat) (fs : List Field) : List Value :=
  (fs.filter fun f => f.tag = tag).map Field.value

/-- The last number under a tag, zero if there is none. -/
def uint (tag : Nat) (fs : List Field) : Option Nat :=
  (values tag fs).foldlM (fun _ v => match v with | .varint n => some n | .bytes _ => none) 0

/-- The last run of bytes under a tag, empty if there is none. -/
def blob (tag : Nat) (fs : List Field) : Option Bytes :=
  (values tag fs).foldlM (fun _ v => match v with | .bytes b => some b | .varint _ => none) []

/-- All runs of bytes under a tag. -/
def parts (tag : Nat) (fs : List Field) : Option (List Bytes) :=
  (values tag fs).mapM fun v => match v with | .bytes b => some b | .varint _ => none

@[simp] theorem values_append (tag : Nat) (fs gs : List Field) :
    values tag (fs ++ gs) = values tag fs ++ values tag gs := by
  simp [values]

@[simp] theorem values_uintField (tag tag' n : Nat) :
    values tag (uintField tag' n) = if tag' = tag ∧ n ≠ 0 then [.varint n] else [] := by
  unfold uintField
  by_cases hn : n = 0
  · simp [hn, values]
  · by_cases ht : tag' = tag
    · simp [hn, ht, values]
    · simp [hn, ht, values]

@[simp] theorem values_blobField (tag tag' : Nat) (b : Bytes) :
    values tag (blobField tag' b) = if tag' = tag ∧ b ≠ [] then [.bytes b] else [] := by
  unfold blobField
  by_cases hb : b = []
  · simp [hb, values]
  · by_cases ht : tag' = tag
    · simp [hb, ht, values]
    · simp [hb, ht, values]

@[simp] theorem values_partFields (tag tag' : Nat) (bs : List Bytes) :
    values tag (partFields tag' bs) = if tag' = tag then bs.map .bytes else [] := by
  unfold partFields values
  by_cases ht : tag' = tag
  · simp [ht, List.filter_map, Function.comp_def]
  · simp [ht, List.filter_map, Function.comp_def]

theorem uint_values {tag n : Nat} {fs : List Field}
    (h : values tag fs = if n ≠ 0 then [.varint n] else []) : uint tag fs = some n := by
  rw [uint, h]
  by_cases hn : n = 0
  · simp [hn]
  · simp [hn]

theorem blob_values {tag : Nat} {b : Bytes} {fs : List Field}
    (h : values tag fs = if b ≠ [] then [.bytes b] else []) : blob tag fs = some b := by
  rw [blob, h]
  by_cases hb : b = []
  · simp [hb]
  · simp [hb]

theorem parts_values {tag : Nat} {bs : List Bytes} {fs : List Field}
    (h : values tag fs = bs.map .bytes) : parts tag fs = some bs := by
  rw [parts, h]
  clear h
  induction bs with
  | nil => rfl
  | cons b bs ih =>
    rw [List.map_cons, List.mapM_cons, ih]
    rfl

end Protobuf
