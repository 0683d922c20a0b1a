import Neverust.Lib.Bytes
import Neverust.Lib.Chunks

/-!
# The chunker (`chunker.rs`)

`next_chunk` reads until it has a chunk or the reader is at its end. Its buffer of a chunk, which
cannot be had if the chunk size is above `isize::MAX`, is left out. A reader is a state with a
function that fills a buffer of a given length, with fewer bytes if it likes. `Serves` describes a
reader that delivers some data without errors.

* `nextChunk_spec`: one call takes a chunk off the data, however the reader splits its reads.
* `calls_eq`: the calls give the pieces of the data, then the end for ever.
-/

/-- A chunker over a reader with the states `σ`. -/
structure Chunker (σ : Type) where
  reader : σ
  chunkSize : Nat
  eofReached : Bool
  chunkSize_pos : 0 < chunkSize

namespace Chunker

open Chunks

variable {σ ε : Type}

/-- `with_chunk_size`; a chunk size of zero panics. -/
def withChunkSize (reader : σ) (chunkSize : Nat) : Option (Chunker σ) :=
  if h : 0 < chunkSize then some ⟨reader, chunkSize, false, h⟩ else none

section
variable (read : Nat → σ → Except ε Bytes × σ)

/-- The loop that fills the buffer; `filled` is the part of it that was read. Every round but the
last reads a byte, which bounds the rounds. -/
def fill : Nat → Bytes → Chunker σ → Except ε (Option Bytes) × Chunker σ
  | 0, filled, c => (.ok (some filled), c)
  | k + 1, filled, c =>
    if filled.length < c.chunkSize then
      match read (c.chunkSize - filled.length) c.reader with
      | (.error e, reader) => (.error e, { c with reader })
      | (.ok bytes, reader) =>
        if bytes = [] then
          (.ok (if filled = [] then none else some filled), { c with reader, eofReached := true })
        else fill k (filled ++ bytes) { c with reader }
    else (.ok (some filled), c)

def nextChunk (c : Chunker σ) : Except ε (Option Bytes) × Chunker σ :=
  if c.eofReached then (.ok none, c) else fill read c.chunkSize [] c

/-- What `k` calls in a row return. -/
def calls : Nat → Chunker σ → List (Except ε (Option Bytes))
  | 0, _ => []
  | k + 1, c => (nextChunk read c).1 :: calls k (nextChunk read c).2

/-- A reader without errors; `rest` is what it has still to deliver. It fills a buffer with some of
that, at least one byte if there is one. -/
def Serves (rest : σ → Bytes) : Prop :=
  ∀ r n, 0 < n → ∃ m, (read n r).1 = .ok ((rest r).take m) ∧
    rest (read n r).2 = (rest r).drop m ∧ m ≤ n ∧ (rest r ≠ [] → 0 < m)

end

variable {read : Nat → σ → Except ε Bytes × σ} {rest : σ → Bytes}

/-- One round of the loop over a reader that has something to deliver. -/
theorem fill_succ (hread : Serves read rest) (k : Nat) {filled : Bytes} {c : Chunker σ}
    (hlt : filled.length < c.chunkSize) (hne : rest c.reader ≠ []) :
    ∃ m r, fill read (k + 1) filled c =
        fill read k (filled ++ (rest c.reader).take m) { c with reader := r } ∧
      rest r = (rest c.reader).drop m ∧ 0 < m ∧ m ≤ c.chunkSize - filled.length := by
  obtain ⟨m, hbytes, hrest, hm, hpos⟩ := hread c.reader (c.chunkSize - filled.length) (by omega)
  generalize hcall : read (c.chunkSize - filled.length) c.reader = answer at hbytes hrest
  obtain ⟨bytes, r⟩ := answer
  obtain rfl : bytes = .ok ((rest c.reader).take m) := hbytes
  have htake : (rest c.reader).take m ≠ [] := by
    have := List.length_pos_iff.2 hne
    have := hpos hne
    rw [← List.length_pos_iff, List.length_take]
    omega
  exact ⟨m, r, by simp [fill, hlt, hcall, htake], hrest, hpos hne, hm⟩

/-- The loop fills the buffer if there is enough to read. -/
theorem fill_full (hread : Serves read rest) :
    ∀ (k : Nat) (filled : Bytes) {c : Chunker σ},
    filled.length ≤ c.chunkSize → c.chunkSize ≤ filled.length + k →
    c.chunkSize ≤ filled.length + (rest c.reader).length →
    ∃ r, fill read k filled c =
        (.ok (some (filled ++ (rest c.reader).take (c.chunkSize - filled.length))),
          { c with reader := r }) ∧
      rest r = (rest c.reader).drop (c.chunkSize - filled.length)
  | 0, filled, c, hle, hk, hdata => by
    have heq : c.chunkSize - filled.length = 0 := by omega
    exact ⟨c.reader, by simp [fill, heq], by simp [heq]⟩
  | k + 1, filled, c, hle, hk, hdata => by
    by_cases hlt : filled.length < c.chunkSize
    · have hne : rest c.reader ≠ [] := List.length_pos_iff.1 (by omega)
      obtain ⟨m, r, hfill, hrest, hpos, hm⟩ := fill_succ hread k hlt hne
      have hlen : (filled ++ (rest c.reader).take m).length = filled.length + m := by
        rw [List.length_append, List.length_take]
        omega
      obtain ⟨r', hfill', hrest'⟩ := fill_full hread k
        (filled ++ (rest c.reader).take m) (c := { c with reader := r }) (by rw [hlen]; dsimp only; omega)
        (by rw [hlen]; dsimp only; omega)
        (by rw [hlen, hrest, List.length_drop]; dsimp only; omega)
      have hsplit : c.chunkSize - filled.length = m + (c.chunkSize - (filled.length + m)) := by
        omega
      refine ⟨r', ?_, ?_⟩
      · rw [hfill, hfill', hlen, hrest, List.append_assoc, ← List.take_add, ← hsplit]
      · rw [hrest', hlen, hrest, List.drop_drop, ← hsplit]
    · have heq : c.chunkSize - filled.length = 0 := by omega
      exact ⟨c.reader, by simp [fill, hlt, heq], by simp [heq]⟩

/-- The loop stops at the end of the data if there is less. -/
theorem fill_end (hread : Serves read rest) :
    ∀ (k : Nat) (filled : Bytes) {c : Chunker σ},
    c.chunkSize ≤ filled.length + k → filled.length + (rest c.reader).length < c.chunkSize →
    ∃ r, fill read k filled c =
      (.ok (if filled ++ rest c.reader = [] then none else some (filled ++ rest c.reader)),
        { c with reader := r, eofReached := true })
  | 0, _, _, hk, hdata => absurd hk (by omega)
  | k + 1, filled, c, hk, hdata => by
    have hlt : filled.length < c.chunkSize := by omega
    by_cases hne : rest c.reader = []
    · obtain ⟨m, hbytes, -⟩ := hread c.reader (c.chunkSize - filled.length) (by omega)
      generalize hcall : read (c.chunkSize - filled.length) c.reader = answer at hbytes
      obtain ⟨bytes, r⟩ := answer
      obtain rfl : bytes = .ok [] := by simpa [hne] using hbytes
      exact ⟨r, by simp [fill, hlt, hcall, hne]⟩
    · obtain ⟨m, r, hfill, hrest, hpos, hm⟩ := fill_succ hread k hlt hne
      obtain ⟨r', hfill'⟩ := fill_end hread k (filled ++ (rest c.reader).take m)
        (c := { c with reader := r })
        (by have := List.length_pos_iff.2 hne
            rw [List.length_append, List.length_take]; dsimp only; omega)
        (by rw [hrest, List.length_append, List.length_take, List.length_drop]; dsimp only; omega)
      refine ⟨r', ?_⟩
      rw [hfill, hfill', hrest, List.append_assoc, List.take_append_drop]

/-- One call takes a chunk off the data, and the last one sees their end. -/
theorem nextChunk_spec (hread : Serves read rest) {c : Chunker σ} (heof : c.eofReached = false) :
    ∃ r, if c.chunkSize ≤ (rest c.reader).length then
        nextChunk read c = (.ok (some ((rest c.reader).take c.chunkSize)), { c with reader := r }) ∧
          rest r = (rest c.reader).drop c.chunkSize
      else nextChunk read c = (.ok (if rest c.reader = [] then none else some (rest c.reader)),
        { c with reader := r, eofReached := true }) := by
  have hcall : nextChunk read c = fill read c.chunkSize [] c := by simp [nextChunk, heof]
  rw [hcall]
  by_cases hle : c.chunkSize ≤ (rest c.reader).length
  · obtain ⟨r, hfill, hrest⟩ := fill_full hread c.chunkSize [] (c := c) (by simp)
      (by simp) (by simpa using hle)
    exact ⟨r, by simpa [hle] using ⟨hfill, hrest⟩⟩
  · obtain ⟨r, hfill⟩ := fill_end hread c.chunkSize [] (c := c) (by simp)
      (by simpa using hle)
    exact ⟨r, by simpa [hle] using hfill⟩

/-- After the end every call finds the end. -/
theorem calls_of_eof : ∀ (k : Nat) {c : Chunker σ}, c.eofReached = true →
    calls read k c = List.replicate k (.ok none)
  | 0, _, _ => rfl
  | k + 1, c, h => by
    have hcall : nextChunk read c = (.ok none, c) := by simp [nextChunk, h]
    rw [calls, hcall, calls_of_eof k h, List.replicate_succ]

/-- The first `k` of the chunks, then the end. -/
def answers (chunks : List Bytes) (k : Nat) : List (Except ε (Option Bytes)) :=
  (chunks.take k).map (fun b => .ok (some b)) ++ List.replicate (k - chunks.length) (.ok none)

theorem calls_eq (hread : Serves read rest) : ∀ (k : Nat) {c : Chunker σ}, c.eofReached = false →
    calls read k c = answers (cut c.chunkSize (rest c.reader)) k
  | 0, c, _ => by simp [calls, answers]
  | k + 1, c, heof => by
    obtain ⟨r, hcall⟩ := nextChunk_spec hread heof
    rw [calls]
    split at hcall
    · rename_i hle
      obtain ⟨hcall, hrest⟩ := hcall
      have hcut := cut_append c.chunkSize_pos (List.length_take_of_le hle)
        ((rest c.reader).drop c.chunkSize)
      rw [List.take_append_drop] at hcut
      rw [hcall, calls_eq hread k (c := { c with reader := r }) heof, hcut, hrest]
      simp [answers]
    · rename_i hlt
      rw [hcall, calls_of_eof k rfl]
      by_cases hnil : rest c.reader = []
      · simp [answers, hnil, cut_nil c.chunkSize_pos, List.replicate_succ]
      · rw [cut_of_le hnil (by omega)]
        simp [answers, hnil]

/-- **Chunking loses nothing under short reads.** However a reader splits the data, the chunks are
the data cut into pieces: joined they are the data, all but the last are full and the last is not
empty; after them the calls return the end for ever. -/
theorem chunks_exact (read : Nat → σ → Except ε Bytes × σ) (rest : σ → Bytes)
    (hread : Serves read rest) (reader : σ) (c : Chunker σ) (chunkSize : Nat)
    (hc : withChunkSize reader chunkSize = some c) :
    (∀ k, calls read k c = answers (cut chunkSize (rest reader)) k) ∧
    (cut chunkSize (rest reader)).flatten = rest reader ∧
    (∀ b ∈ (cut chunkSize (rest reader)).dropLast, b.length = chunkSize) ∧
    ∀ b ∈ cut chunkSize (rest reader), b ≠ [] ∧ b.length ≤ chunkSize := by
  unfold withChunkSize at hc
  split at hc
  · rename_i hpos
    obtain rfl := Option.some.inj hc
    exact ⟨fun k => calls_eq hread k rfl, flatten_cut hpos _, fun b hb => length_of_mem_dropLast hb,
      fun b hb => length_of_mem_cut hpos hb⟩
  · cases hc

/-- A reader that gives one byte at a time. -/
def slowRead (n : Nat) (r : Bytes) : Except Unit Bytes × Bytes :=
  (.ok (r.take (min n 1)), r.drop (min n 1))

theorem chunks_exact_slow : ∃ c, withChunkSize ([1, 2, 3, 4, 5] : Bytes) 2 = some c ∧
    calls slowRead 4 c =
      [.ok (some [1, 2]), .ok (some [3, 4]), .ok (some [5]), .ok none] := by
  have hread : Serves slowRead id := by
    intro r n hn
    refine ⟨min n 1, rfl, rfl, Nat.min_le_left n 1, fun _ => by omega⟩
  refine ⟨⟨[1, 2, 3, 4, 5], 2, false, by decide⟩, rfl, ?_⟩
  rw [(chunks_exact slowRead id hread [1, 2, 3, 4, 5] _ 2 rfl).1]
  decide

end Chunker
