import Neverust.Storage.DeltaFlat.Lane
import Neverust.Storage.DeltaFlat.Proof.Page

/-!
# The DeltaFlat index as a linear hash table

`IndexInv H control index`: the contents of an index file are a linear hash table of the shape of
the control record, with every entry in the bucket of its hash and counted by `item_count`.

* `splitOneBucket_spec`: a split keeps the invariant and the entries (`liveEntries`), whatever the
  entries are. Without an IO fault it fails only when the table has `2 ^ 32 - 1` buckets; it never
  finds the new bucket full or the split pointer out of range.
* `IndexInv.insert`, `IndexInv.erase`: writing an entry to a free slot of its bucket, and marking
  its slot as a tombstone.
-/

namespace Storage.DeltaFlat

open Io Rust Bytes LinearHash

/-! ## Pages of an index file -/

/-- The page of a bucket. -/
def pageAt (index : Bytes) (bucket : Nat) : Page :=
  ⟨index.slice (bucket * bucketBytes) bucketBytes, length_slice _ _ _⟩

/-- Whole pages only. -/
def Aligned (index : Bytes) : Prop := index.length % bucketBytes = 0

theorem byte_pageAt (index : Bytes) (b : Nat) {i : Nat} (hi : i < bucketBytes) :
    (pageAt index b).byte i = byteAt index (b * bucketBytes + i) := by
  rw [Buffer.byte, pageAt, byteAt_slice hi]

theorem pageAt_congr {index index' : Bytes} {b b' : Nat}
    (h : ∀ k < bucketBytes,
      byteAt index' (b' * bucketBytes + k) = byteAt index (b * bucketBytes + k)) :
    pageAt index' b' = pageAt index b := by
  refine Buffer.ext_byte fun i hi => ?_
  rw [byte_pageAt _ _ hi, byte_pageAt _ _ hi, h i hi]

theorem pageAt_of_le {index : Bytes} {b : Nat} (h : index.length ≤ b * bucketBytes) :
    pageAt index b = Buffer.zero bucketBytes := by
  refine Buffer.ext_byte fun i hi => ?_
  rw [Buffer.byte_zero, byte_pageAt _ _ hi, byteAt_of_le (by omega)]

theorem pageAt_extendTo (index : Bytes) (n b : Nat) : pageAt (extendTo index n) b = pageAt index b :=
  pageAt_congr fun _ _ => byteAt_extendTo _ _ _

theorem Aligned.extendTo {index : Bytes} (h : Aligned index) (n : Nat) :
    Aligned (Bytes.extendTo index (n * bucketBytes)) := by
  unfold Aligned at *
  rw [length_extendTo]
  rcases Nat.le_total index.length (n * bucketBytes) with hle | hle
  · rw [max_eq_right hle, Nat.mul_mod_left]
  · rwa [max_eq_left hle]

theorem pageAt_writeAt (index : Bytes) (b c : Nat) (page : Page) :
    pageAt (writeAt index (b * bucketBytes) page.bytes) c =
      if c = b then page else pageAt index c := by
  have hlen := page.len
  split
  · rename_i hc
    subst hc
    refine Buffer.ext_byte fun i hi => ?_
    rw [byte_pageAt _ _ hi, byteAt_writeAt, if_pos (by omega), Nat.add_sub_cancel_left]
    rfl
  · rename_i hc
    refine pageAt_congr fun k hk => ?_
    rw [byteAt_writeAt, if_neg]
    unfold bucketBytes at *
    omega

theorem Aligned.writeAt {index : Bytes} (h : Aligned index) (b : Nat) (page : Page) :
    Aligned (Bytes.writeAt index (b * bucketBytes) page.bytes) := by
  have hlen := page.len
  have hne : page.bytes ≠ [] := by
    intro h0
    rw [h0] at hlen
    exact absurd hlen (by decide)
  unfold Aligned at *
  rw [length_writeAt _ hne, hlen]
  unfold bucketBytes at *
  omega

/-! ## Reading and writing pages -/

section
variable {d : LaneDir} {w w' : Disk}

/-- From `w` to `w'` the index of `d` was at most extended. -/
structure IndexKept (d : LaneDir) (w w' : Disk) : Prop where
  frame : Frame (· = (d, .index)) w w'
  writes : w'.writes (d, .index) = w.writes (d, .index)
  pages : ∀ b, pageAt (w'.content (d, .index)) b = pageAt (w.content (d, .index)) b
  aligned : Aligned (w'.content (d, .index))

theorem IndexKept.logged (h : Aligned (w.content (d, .index))) {op : IoOp Path}
    (hop : ∀ p, op ≠ .write p) : IndexKept d w (w.logged op) where
  frame := Frame.logged _ w fun p hp => absurd hp (hop p)
  writes := w.writes_logged_ne (hop _)
  pages _ := rfl
  aligned := h

theorem IndexKept.trans {w'' : Disk} (h : IndexKept d w w') (h' : IndexKept d w' w'') :
    IndexKept d w w'' where
  frame := h.frame.trans h'.frame
  writes := h'.writes.trans h.writes
  pages b := (h'.pages b).trans (h.pages b)
  aligned := h'.aligned

theorem ensureIndexBuckets_spec (ha : Aligned (w.content (d, .index))) (n : Nat) :
    wp (ensureIndexBuckets d n) (fun _ w' => IndexKept d w w')
      (fun e w' => e = .ioError .other ∧ ¬ w.NoFaults ∧ IndexKept d w w') w := by
  have h1 : IndexKept d w (w.logged (.metadata (d, .index))) := .logged ha (by simp)
  refine wp_bind (wp_fileLen ?_ fun hf => ⟨rfl, hf, h1⟩)
  split
  · have h2 : IndexKept d w ((w.logged (.metadata (d, .index))).logged (.setLen (d, .index))) :=
      h1.trans (.logged h1.aligned (by simp))
    refine wp_setLen ?_ fun hf => ⟨rfl, h1.frame.noFaults.not.1 hf, h2⟩
    refine h2.trans ⟨Frame.setFile (· = ((d, .index) : Path)) rfl _ _, rfl, fun b => ?_, ?_⟩
    · rw [World.content_setFile_self]
      exact pageAt_extendTo _ _ _
    · rw [World.content_setFile_self]
      exact h2.aligned.extendTo n
  · exact wp_pure h1

theorem IndexKept.of_untouched (h : Untouched w w') (ha : Aligned (w.content (d, .index))) :
    IndexKept d w w' where
  frame := h.frame _
  writes := h.writes _
  pages b := by rw [h.content]
  aligned := by rw [h.content]; exact ha

theorem readBucket_spec (ha : Aligned (w.content (d, .index))) (b : Nat) :
    wp (readBucket d b)
      (fun page w' => page = pageAt (w.content (d, .index)) b ∧ Untouched w w')
      (fun e w' => e = .ioError .other ∧ ¬ w.NoFaults ∧ Untouched w w') w := by
  have h1 : Untouched w (w.logged (.read (d, .index))) := .logged w (by simp)
  refine wp_bind (wp_readExactAt (fun h => absurd h (by decide)) (fun _ => ?_)
    fun hf => ⟨rfl, hf, h1⟩)
  -- A page is in the file or past its end: the file holds whole pages.
  by_cases hle : b * bucketBytes + bucketBytes ≤ (w.content (d, .index)).length
  · rw [readAt_of_le hle]
    refine wp_pure ⟨?_, h1⟩
    refine Buffer.ext_byte fun i hi => ?_
    rw [Buffer.byte_ofBytes hi, byteAt_slice hi, byte_pageAt _ _ hi]
  · have hnone : (w.content (d, .index)).readAt (b * bucketBytes) bucketBytes = none := by
      rw [readAt, if_neg]
      exact not_or.2 ⟨by decide, hle⟩
    rw [hnone]
    refine wp_pure ⟨?_, h1⟩
    rw [pageAt_of_le]
    unfold Aligned bucketBytes at *
    omega

theorem writeBucket_spec (ha : Aligned (w.content (d, .index))) {b : Nat} (hb : b < 2 ^ 32)
    (page : Page) :
    wp (writeBucket d b page)
      (fun _ w' => Frame (· = (d, .index)) w w' ∧
        w'.writes (d, .index) = w.writes (d, .index) + 1 ∧ Aligned (w'.content (d, .index)) ∧
        ∀ c, pageAt (w'.content (d, .index)) c =
          if c = b then page else pageAt (w.content (d, .index)) c)
      (fun e w' => e = .ioError .other ∧ ¬ w.NoFaults ∧ Frame (· = (d, .index)) w w' ∧
        w'.writes (d, .index) = w.writes (d, .index) + 1) w := by
  have hlen := page.len
  have hfit : b * bucketBytes + page.bytes.length ≤ maxFileLen := by
    rw [hlen]
    unfold bucketBytes maxFileLen
    omega
  have hframe : ∀ c, Frame (· = (d, .index)) w
      ((w.setFile (d, .index) c).logged (.write (d, .index))) :=
    fun c => (Frame.setFile (· = ((d, .index) : Path)) rfl w c).trans (Frame.logged _ _ (by simp))
  refine wp_writeAllAt (fun h => ?_) (fun _ _ _ => ?_) (fun hbig => ?_) fun k hf _ => ?_
  · rw [h] at hlen
    exact absurd hlen (by decide)
  · refine ⟨hframe _, by simp, ?_, fun c => ?_⟩
    · rw [World.content_logged, World.content_setFile_self]
      exact ha.writeAt b page
    · rw [World.content_logged, World.content_setFile_self]
      exact pageAt_writeAt _ b c page
  · omega
  · exact ⟨rfl, World.not_noFaults hf, hframe _, by simp⟩

end

/-! ## The invariant -/

/-- The entries of each bucket. -/
def table (index : Bytes) (bucket : Nat) : List Entry := entries (pageAt index bucket)

/-- All entries of an index. -/
def liveEntries (c : Control) (index : Bytes) : List Entry := live (table index) c.shape.buckets

/-- The hash an entry is placed by. -/
def evenHash (H : Bytes → SplitHash) (e : Entry) : Nat := (H e.cid).even.toNat

/-- The hashes recorded in an entry are those of its CID. -/
def Entry.Hashed (H : Bytes → SplitHash) (e : Entry) : Prop :=
  e.fingerprint = (H e.cid).fingerprint ∧ e.hash64 = (H e.cid).hash64

structure IndexInv (H : Bytes → SplitHash) (c : Control) (index : Bytes) : Prop where
  level : c.level.toNat ≤ 31
  valid : c.shape.Valid
  aligned : Aligned index
  pages : ∀ b, PageOk (pageAt index b)
  placed : Placed (evenHash H) c.shape (table index)
  hashed : ∀ b, ∀ e ∈ table index b, e.Hashed H
  count : c.itemCount.toNat = (liveEntries c index).length

section
variable {H : Bytes → SplitHash} {c : Control} {index index' : Bytes}

theorem table_congr (h : ∀ b, pageAt index' b = pageAt index b) : table index' = table index := by
  funext b
  rw [table, table, h]

/-- The invariant is about the pages only. -/
theorem IndexInv.congr (hi : IndexInv H c index) (h : ∀ b, pageAt index' b = pageAt index b)
    (ha : Aligned index') : IndexInv H c index' where
  level := hi.level
  valid := hi.valid
  aligned := ha
  pages b := by rw [h]; exact hi.pages b
  placed := by rw [table_congr h]; exact hi.placed
  hashed := by rw [table_congr h]; exact hi.hashed
  count := by rw [liveEntries, table_congr h]; exact hi.count

theorem liveEntries_congr (c : Control) (h : ∀ b, pageAt index' b = pageAt index b) :
    liveEntries c index' = liveEntries c index := by
  rw [liveEntries, liveEntries, table_congr h]

theorem shape_level (c : Control) : c.shape.level = c.level.toNat := rfl

theorem shape_split (c : Control) : c.shape.split = c.splitPtr.toNat := rfl

theorem buckets_eq (c : Control) : c.shape.buckets = 2 ^ c.level.toNat + c.splitPtr.toNat := rfl

theorem buckets_lt_of_shape (hlevel : c.level.toNat ≤ 31) (hvalid : c.shape.Valid) :
    c.shape.buckets < 2 ^ 32 := by
  have hv : c.splitPtr.toNat < 2 ^ c.level.toNat := hvalid
  have hl : 2 ^ c.level.toNat ≤ 2 ^ 31 := Nat.pow_le_pow_right (by decide) hlevel
  rw [buckets_eq]
  omega

theorem IndexInv.buckets_lt (hi : IndexInv H c index) : c.shape.buckets < 2 ^ 32 :=
  buckets_lt_of_shape hi.level hi.valid

theorem checkedShl_of_le (hl : c.level.toNat ≤ 31) :
    checkedShl c.level = some (2 ^ c.level.toNat) := by
  rw [checkedShl, if_pos (by omega)]

theorem bucketCount_of_shape (hlevel : c.level.toNat ≤ 31) (hvalid : c.shape.Valid) :
    bucketCount c = .ok c.shape.buckets := by
  have hb := buckets_lt_of_shape hlevel hvalid
  rw [buckets_eq] at hb
  rw [bucketCount, checkedShl_of_le hlevel]
  exact if_pos hb

theorem IndexInv.bucketCount_eq (hi : IndexInv H c index) :
    bucketCount c = .ok c.shape.buckets :=
  bucketCount_of_shape hi.level hi.valid

/-- The hash has an address the source can compute: at level 31 a split bucket has none, as twice
the base leaves `u32`. -/
def Addressable (s : Shape) (hash : Nat) : Prop := s.level = 31 → s.split ≤ hash % 2 ^ 31

theorem Addressable.of_level {s : Shape} (h : s.level ≤ 30) (hash : Nat) : Addressable s hash :=
  fun h31 => absurd h31 (by omega)

theorem primaryBucket_of_shape (hlevel : c.level.toNat ≤ 31) (hvalid : c.shape.Valid)
    {hash : UInt64} (ha : Addressable c.shape hash.toNat) :
    primaryBucket hash c = .ok (c.shape.addr hash.toNat) := by
  have hv : c.splitPtr.toNat < 2 ^ c.level.toNat := hvalid
  have haddr : c.shape.addr hash.toNat = if hash.toNat % 2 ^ c.level.toNat < c.splitPtr.toNat
      then hash.toNat % 2 ^ (c.level.toNat + 1) else hash.toNat % 2 ^ c.level.toNat := rfl
  rw [primaryBucket, checkedShl_of_le hlevel, haddr]
  simp only [if_neg (Nat.not_le.2 hv), ← pow_succ]
  by_cases hb : hash.toNat % 2 ^ c.level.toNat < c.splitPtr.toNat
  · have hl : c.level.toNat ≠ 31 := by
      intro h31
      have : c.splitPtr.toNat ≤ hash.toNat % 2 ^ 31 := ha h31
      rw [h31] at hb
      omega
    have hpow : 2 ^ (c.level.toNat + 1) < 2 ^ 32 :=
      Nat.pow_lt_pow_right (by decide) (by omega)
    rw [if_pos hb, if_pos hb, if_pos hpow]
  · rw [if_neg hb, if_neg hb]

theorem IndexInv.primaryBucket_eq (hi : IndexInv H c index) {hash : UInt64}
    (ha : Addressable c.shape hash.toNat) :
    primaryBucket hash c = .ok (c.shape.addr hash.toNat) :=
  primaryBucket_of_shape hi.level hi.valid ha

theorem primaryBucket_not_addressable (hlevel : c.level.toNat ≤ 31) (hvalid : c.shape.Valid)
    {hash : UInt64} (ha : ¬ Addressable c.shape hash.toNat) :
    primaryBucket hash c = .error (.databaseError .expandedBaseOverflow) := by
  have hv : c.splitPtr.toNat < 2 ^ c.level.toNat := hvalid
  unfold Addressable at ha
  obtain ⟨h31, hb⟩ := Classical.not_imp.1 ha
  rw [shape_level] at h31
  rw [shape_split] at hb
  rw [primaryBucket, checkedShl_of_le hlevel, h31]
  rw [h31] at hv
  simp only [if_neg (Nat.not_le.2 hv), if_pos (Nat.not_le.1 hb)]
  rw [if_neg (by decide)]

theorem IndexInv.primaryBucket_error (hi : IndexInv H c index) {hash : UInt64}
    (ha : ¬ Addressable c.shape hash.toNat) :
    primaryBucket hash c = .error (.databaseError .expandedBaseOverflow) :=
  primaryBucket_not_addressable hi.level hi.valid ha

/-- Every entry is found in one bucket. -/
theorem IndexInv.mem_live (hi : IndexInv H c index) {e : Entry} :
    e ∈ liveEntries c index ↔ e ∈ table index (c.shape.addr (evenHash H e)) :=
  hi.placed.mem_live

theorem IndexInv.hashed_live (hi : IndexInv H c index) {e : Entry}
    (he : e ∈ liveEntries c index) : e.Hashed H :=
  hi.hashed _ e (hi.mem_live.1 he)

theorem length_liveEntries_le (c : Control) (index : Bytes) :
    (liveEntries c index).length ≤ c.shape.buckets * 32 := by
  unfold liveEntries live
  generalize c.shape.buckets = n
  induction n with
  | zero => simp
  | succ n ih =>
    rw [List.range_succ, List.flatMap_append, List.length_append, List.flatMap_singleton]
    have : (table index n).length ≤ 32 := length_entries_le _
    omega

/-! ## Splits -/

theorem advanceSplit_spec (hv : c.shape.Valid) (hl : c.level.toNat ≤ 31) :
    ∃ c', advanceSplit (2 ^ c.level.toNat) c = .ok c' ∧ c'.shape = c.shape.next ∧
      c'.itemCount = c.itemCount ∧ c'.nextFileId = c.nextFileId ∧
      c'.nextOffset = c.nextOffset := by
  have hv : c.splitPtr.toNat < 2 ^ c.level.toNat := hv
  have hpow : 2 ^ c.level.toNat ≤ 2 ^ 31 := Nat.pow_le_pow_right (by decide) hl
  unfold advanceSplit
  cases hs : checkedAdd32 c.splitPtr 1 with
  | none => have := checkedAdd32_eq_none hs; omega
  | some p =>
    have hp := checkedAdd32_eq_some hs
    by_cases hroll : 2 ^ c.level.toNat ≤ p.toNat
    · cases hlev : checkedAdd32 c.level 1 with
      | none => have := checkedAdd32_eq_none hlev; omega
      | some l =>
        refine ⟨_, if_pos hroll, ?_, rfl, rfl, rfl⟩
        rw [Shape.next, if_neg (by rw [shape_split, shape_level]; omega)]
        simp [Control.shape, checkedAdd32_eq_some hlev]
    · refine ⟨_, if_neg hroll, ?_, rfl, rfl, rfl⟩
      rw [Shape.next, if_pos (by rw [shape_split, shape_level]; omega)]
      simp [Control.shape, hp]

theorem next_level_le (hl : c.level.toNat ≤ 31) (hb : c.shape.buckets + 1 < 2 ^ 32) :
    c.shape.next.level ≤ 31 := by
  rw [Shape.next]
  split
  · exact hl
  · rename_i hroll
    rw [shape_split, shape_level] at hroll
    rw [buckets_eq] at hb
    rcases Nat.lt_or_eq_of_le hl with h | h
    · exact h
    · rw [h] at hroll hb
      omega

/-- The pages after a split of the next bucket. -/
theorem IndexInv.split (hi : IndexInv H c index) (ha : Aligned index') {c' : Control}
    (hshape : c'.shape = c.shape.next) (hcount : c'.itemCount = c.itemCount)
    (hb : c.shape.buckets + 1 < 2 ^ 32) {p q : Page} (hp : PageOk p) (hq : PageOk q)
    (hpages : ∀ b, pageAt index' b =
      if b = c.shape.buckets then q else if b = c.shape.split then p else pageAt index b)
    (hperm : (entries (pageAt index c.shape.split)).Perm (entries q ++ entries p))
    (hkept : ∀ e ∈ entries p, evenHash H e % 2 ^ (c.shape.level + 1) ≠ c.shape.buckets)
    (hmoved : ∀ e ∈ entries q, evenHash H e % 2 ^ (c.shape.level + 1) = c.shape.buckets) :
    IndexInv H c' index' ∧ (liveEntries c' index').Perm (liveEntries c index) := by
  have hne : c.shape.split ≠ c.shape.buckets := by
    have := hi.valid
    unfold Shape.Valid at this
    unfold Shape.buckets
    omega
  have hsplit : IsSplit (evenHash H) c.shape (table index) (table index') := by
    have hnew : table index' c.shape.buckets = entries q := by
      rw [table, hpages, if_pos rfl]
    have hold : table index' c.shape.split = entries p := by
      rw [table, hpages, if_neg hne, if_pos rfl]
    constructor
    · rw [hnew, hold]; exact hperm
    · rw [hnew]; exact hmoved
    · rw [hold]; exact hkept
    · intro b hbs hbn
      rw [table, hpages, if_neg hbn, if_neg hbs]
      rfl
  have hlive : (liveEntries c' index').Perm (liveEntries c index) := by
    have := live_split hi.valid hsplit
    rwa [← hshape] at this
  have hsub : ∀ b, ∀ e ∈ table index' b, ∃ b', e ∈ table index b' := by
    intro b e he
    rw [table, hpages] at he
    split at he
    · exact ⟨_, hperm.mem_iff.2 (List.mem_append_left _ he)⟩
    · split at he
      · exact ⟨_, hperm.mem_iff.2 (List.mem_append_right _ he)⟩
      · exact ⟨b, he⟩
  refine ⟨⟨?_, ?_, ha, fun b => ?_, ?_, fun b e he => ?_, ?_⟩, hlive⟩
  · rw [← shape_level, hshape]
    exact next_level_le hi.level hb
  · rw [hshape]
    exact c.shape.next_valid
  · rw [hpages]
    split
    · exact hq
    · split
      · exact hp
      · exact hi.pages b
  · rw [hshape]
    exact hi.placed.split hi.valid hsplit
  · obtain ⟨b', he'⟩ := hsub b e he
    exact hi.hashed b' e he'
  · rw [hcount, hi.count]
    exact hlive.length_eq.symm

/-- What a split does: the table has the next shape and the same entries. -/
structure SplitDone (H : Bytes → SplitHash) (d : LaneDir) (c : Control) (w : Disk) (c' : Control)
    (w' : Disk) : Prop where
  frame : Frame (· = (d, .index)) w w'
  writes : w.writes (d, .index) < w'.writes (d, .index)
  shape : c'.shape = c.shape.next
  itemCount : c'.itemCount = c.itemCount
  nextFileId : c'.nextFileId = c.nextFileId
  nextOffset : c'.nextOffset = c.nextOffset
  inv : IndexInv H c' (w'.content (d, .index))
  live : (liveEntries c' (w'.content (d, .index))).Perm (liveEntries c (w.content (d, .index)))

/-- How a split fails: out of bucket numbers or by an IO fault. -/
structure SplitFailed (d : LaneDir) (c : Control) (w : Disk) (e : StorageError) (w' : Disk) :
    Prop where
  frame : Frame (· = (d, .index)) w w'
  error : e = .databaseError .bucketCountOverflow ∧ 2 ^ 32 ≤ c.shape.buckets + 1 ∨
    e = .ioError .other ∧ ¬ w.NoFaults
  quiet : w'.writes (d, .index) = w.writes (d, .index) → IndexKept d w w'

/-- **A split keeps the table**, and fails only out of bucket numbers or by an IO fault. -/
theorem splitOneBucket_spec {d : LaneDir} {w : Disk} (hi : IndexInv H c (w.content (d, .index))) :
    wp (splitOneBucket H d c) (SplitDone H d c w) (SplitFailed d c w) w := by
  have hv : c.splitPtr.toNat < 2 ^ c.level.toNat := hi.valid
  have hb := hi.buckets_lt
  rw [buckets_eq] at hb
  unfold splitOneBucket
  simp only [checkedShl_of_le hi.level, if_neg (Nat.not_le.2 hv), if_neg (Nat.not_le.2 hb)]
  split
  · rename_i hover
    refine wp_throw ⟨Frame.refl _ w, .inl ⟨rfl, ?_⟩, fun _ => ?_⟩
    · rw [buckets_eq]; exact hover
    · exact ⟨Frame.refl _ w, rfl, fun _ => rfl, hi.aligned⟩
  rename_i hover
  -- An IO fault before the first page write leaves the pages alone.
  have hquiet : ∀ {w1 : Disk}, IndexKept d w w1 → ∀ e w', e = .ioError .other ∧ ¬ w1.NoFaults ∧
      Untouched w1 w' → SplitFailed d c w e w' := by
    intro w1 h1 e w' ⟨he, hf, hu⟩
    have h2 := h1.trans (.of_untouched hu h1.aligned)
    exact ⟨h2.frame, .inr ⟨he, h1.frame.noFaults.not.1 hf⟩, fun _ => h2⟩
  refine wp_bind (wp_mono (ensureIndexBuckets_spec hi.aligned _) (fun _ w1 h1 => ?_)
    fun e w' h => ⟨h.2.2.frame, .inr ⟨h.1, h.2.1⟩, fun _ => h.2.2⟩)
  refine wp_bind (wp_mono (readBucket_spec h1.aligned _) (fun old w2 h2 => ?_) (hquiet h1))
  obtain ⟨hold, h2⟩ := h2
  have h12 := h1.trans (.of_untouched h2 h1.aligned)
  refine wp_bind (wp_mono (readBucket_spec h12.aligned _) (fun new w3 h3 => ?_) (hquiet h12))
  obtain ⟨hnew, h3⟩ := h3
  have h13 := h12.trans (.of_untouched h3 h12.aligned)
  rw [h1.pages] at hold
  rw [h12.pages] at hnew
  have hempty : entries new = [] := by
    rw [hnew]
    exact hi.placed.empty_of_le (Nat.le_refl _)
  obtain ⟨p, q, hsplit, hp, hq, hperm, hkept, hmoved⟩ := splitPages_spec H (2 ^ c.level.toNat)
    (2 ^ c.level.toNat + c.splitPtr.toNat) (hold ▸ hi.pages _) (hnew ▸ hi.pages _) hempty
  refine wp_bind (wp_lift (fun pages hpages => ?_) fun e he => ?_)
  case refine_2 => rw [hsplit] at he; cases he
  rw [hsplit] at hpages
  cases hpages
  -- From here on the index has been written to.
  have hfail : ∀ {w4 : Disk}, Frame (· = (d, .index)) w w4 →
      w.writes (d, .index) ≤ w4.writes (d, .index) → ∀ e w', e = .ioError .other ∧
      ¬ w4.NoFaults ∧ Frame (· = (d, .index)) w4 w' ∧
      w'.writes (d, .index) = w4.writes (d, .index) + 1 → SplitFailed d c w e w' :=
    fun h4 hle e w' ⟨he, hf, h5, hw⟩ =>
      ⟨h4.trans h5, .inr ⟨he, h4.noFaults.not.1 hf⟩, fun heq => by omega⟩
  refine wp_bind (wp_mono (writeBucket_spec h13.aligned (by omega) p) (fun _ w4 h4 => ?_)
    (hfail h13.frame (Nat.le_of_eq h13.writes.symm)))
  obtain ⟨hf4, hw4, ha4, hp4⟩ := h4
  rw [h13.writes] at hw4
  refine wp_bind (wp_mono (writeBucket_spec ha4 (by omega) q) (fun _ w5 h5 => ?_)
    (hfail (h13.frame.trans hf4) (by omega)))
  obtain ⟨hf5, hw5, ha5, hp5⟩ := h5
  obtain ⟨c', hc', hshape, hcount, hfile, hoff⟩ := advanceSplit_spec hi.valid hi.level
  refine wp_lift (fun c'' hc'' => ?_) fun e he => by rw [hc'] at he; cases he
  rw [hc'] at hc''
  cases hc''
  have hpages : ∀ b, pageAt (w5.content (d, .index)) b =
      if b = c.shape.buckets then q
      else if b = c.shape.split then p else pageAt (w.content (d, .index)) b := by
    intro b
    rw [hp5, hp4, h13.pages]
    rfl
  rw [hold] at hperm
  obtain ⟨hinv, hlive⟩ := hi.split ha5 hshape hcount (Nat.not_le.1 hover) hp hq hpages hperm
    (by rw [pow_succ]; exact hkept) (by rw [pow_succ]; exact hmoved)
  exact ⟨(h13.frame.trans hf4).trans hf5, by omega, hshape, hcount, hfile, hoff, hinv, hlive⟩

/-! ## Entries in and out -/

/-- Writing an entry to a free slot of its bucket. -/
theorem IndexInv.insert (hi : IndexInv H c index) (c' : Control) (ha : Aligned index')
    {e : Entry} {b : Nat} (hb : b = c.shape.addr (evenHash H e)) (he : e.Hashed H) {slot : Nat}
    (hslot : slot < entriesPerBucket) (hfree : slotEntry (pageAt index b) slot = none)
    {page : Page} (hch : Changed (pageAt index b) page slot stateFull (some e))
    (hpages : ∀ b', pageAt index' b' = if b' = b then page else pageAt index b')
    (hshape : c'.shape = c.shape) (hcount : c'.itemCount.toNat = c.itemCount.toNat + 1) :
    IndexInv H c' index' ∧ (liveEntries c' index').Perm (e :: liveEntries c index) := by
  have hbucket : (table index' b).Perm (e :: table index b) := by
    rw [table, hpages, if_pos rfl]
    exact hch.entries_insert hslot hfree
  have hother : ∀ b', b' ≠ b → table index' b' = table index b' := by
    intro b' hb'
    rw [table, hpages, if_neg hb']
    rfl
  have hlt : b < c.shape.buckets := hb ▸ c.shape.addr_lt _
  have hlive : (liveEntries c' index').Perm (e :: liveEntries c index) := by
    unfold liveEntries
    rw [hshape]
    exact live_insert hlt hbucket hother
  have hlevel : c'.level.toNat = c.level.toNat := congrArg Shape.level hshape
  refine ⟨⟨?_, ?_, ha, fun b' => ?_, ?_, fun b' x hx => ?_, ?_⟩, hlive⟩
  · rw [hlevel]; exact hi.level
  · rw [hshape]; exact hi.valid
  · rw [hpages]
    split
    · exact (hi.pages b).changed hch (by simp)
    · exact hi.pages b'
  · rw [hshape]
    exact hi.placed.insert hb.symm hbucket hother
  · by_cases hb' : b' = b
    · subst hb'
      rcases List.mem_cons.1 (hbucket.mem_iff.1 hx) with rfl | hx
      · exact he
      · exact hi.hashed b' x hx
    · rw [hother b' hb'] at hx
      exact hi.hashed b' x hx
  · rw [hcount, hi.count, hlive.length_eq, List.length_cons]

/-- Marking the slot of an entry as a tombstone. -/
theorem IndexInv.erase (hi : IndexInv H c index) (c' : Control) (ha : Aligned index')
    {e : Entry} {b : Nat} (hb : b < c.shape.buckets) {slot : Nat} (hslot : slot < entriesPerBucket)
    (hfull : slotEntry (pageAt index b) slot = some e) {page : Page}
    (hch : Changed (pageAt index b) page slot stateTombstone none)
    (hpages : ∀ b', pageAt index' b' = if b' = b then page else pageAt index b')
    (hshape : c'.shape = c.shape) (hcount : c'.itemCount.toNat + 1 = c.itemCount.toNat) :
    IndexInv H c' index' ∧ (liveEntries c index).Perm (e :: liveEntries c' index') := by
  have hbucket : (table index b).Perm (e :: table index' b) := by
    have := hch.entries_erase hslot hfull
    rw [table, table, hpages, if_pos rfl]
    exact this
  have hother : ∀ b', b' ≠ b → table index' b' = table index b' := by
    intro b' hb'
    rw [table, hpages, if_neg hb']
    rfl
  have hlive : (liveEntries c index).Perm (e :: liveEntries c' index') := by
    unfold liveEntries
    rw [hshape]
    exact live_insert hb hbucket fun b' hb' => (hother b' hb').symm
  have hlevel : c'.level.toNat = c.level.toNat := congrArg Shape.level hshape
  refine ⟨⟨?_, ?_, ha, fun b' => ?_, ?_, fun b' x hx => ?_, ?_⟩, hlive⟩
  · rw [hlevel]; exact hi.level
  · rw [hshape]; exact hi.valid
  · rw [hpages]
    split
    · exact (hi.pages b).changed hch (by simp)
    · exact hi.pages b'
  · rw [hshape]
    exact hi.placed.erase hbucket hother
  · by_cases hb' : b' = b
    · subst hb'
      exact hi.hashed b' x (hbucket.mem_iff.2 (.tail _ hx))
    · rw [hother b' hb'] at hx
      exact hi.hashed b' x hx
  · have := hlive.length_eq
    rw [List.length_cons, ← hi.count] at this
    omega

end

end Storage.DeltaFlat
