import Neverust.Storage.DeltaFlat.Proof.Data

/-!
# DeltaFlat insertion

`LaneInv`: the index is a linear hash table (`IndexInv`) whose entries' data is on disk
(`DataInv`). `insertBlockInClass_spec` gives both ends of an insertion:

* `Inserted`: the invariant holds again, and the lane has the entries it had or one more, for the
  new CID and at the append point.
* `InsertFailed`: data before the append point is untouched, and so is the index unless a page
  write was attempted. Without an IO fault the insertion fails only if it is not `Insertable`:
  the block does not fit, or the CID's bucket stays full through all the splits.
-/

namespace Storage.DeltaFlat

open Io Rust Bytes LinearHash

/-! ## Lanes -/

structure LaneInv (H : Bytes → SplitHash) (st : Store) (d : LaneDir) (c : Control) (w : Disk) :
    Prop where
  index : IndexInv H c (w.content (d, .index))
  data : DataInv st d c w (liveEntries c (w.content (d, .index)))

/-- The entries of a lane. -/
def laneEntries (d : LaneDir) (c : Control) (w : Disk) : List Entry :=
  liveEntries c (w.content (d, .index))

/-- The pages of the index of `d` are the same in both worlds. -/
structure PagesKept (d : LaneDir) (w w' : Disk) : Prop where
  pages : ∀ b, pageAt (w'.content (d, .index)) b = pageAt (w.content (d, .index)) b
  aligned : Aligned (w'.content (d, .index))

/-- A file of `d` other than the control file. -/
def NotControl (d : LaneDir) (p : Path) : Prop := p.1 = d ∧ p.2 ≠ .control

section
variable {H : Bytes → SplitHash} {st : Store} {d : LaneDir} {c c' : Control} {w w' w'' : Disk}

theorem IndexKept.pagesKept (h : IndexKept d w w') : PagesKept d w w' := ⟨h.pages, h.aligned⟩

theorem PagesKept.trans (h : PagesKept d w w') (h' : PagesKept d w' w'') : PagesKept d w w'' :=
  ⟨fun b => (h'.pages b).trans (h.pages b), h'.aligned⟩

theorem frame_of_index (h : Frame (· = (d, .index)) w w') : Frame (NotControl d) w w' :=
  h.mono fun _ hp => hp ▸ ⟨rfl, by simp⟩

theorem frame_of_data (h : Frame (IsData d) w w') : Frame (NotControl d) w w' :=
  h.mono fun _ ⟨_, hp⟩ => hp ▸ ⟨rfl, by simp⟩

theorem dataKept_of_index (c : Control) (h : Frame (· = (d, .index)) w w') : DataKept d c w w' :=
  .of_files c fun f => h.files _ (by simp)

theorem Quiet.pagesKept (h : Quiet d c w w') (ha : Aligned (w.content (d, .index))) :
    PagesKept d w w' := by
  have hidx : w'.content (d, .index) = w.content (d, .index) :=
    h.frame.content fun ⟨f, hf⟩ => by cases hf
  exact ⟨fun b => by rw [hidx], by rw [hidx]; exact ha⟩

theorem LaneInv.kept (hi : LaneInv H st d c w) (hp : PagesKept d w w') (hd : DataKept d c w w') :
    LaneInv H st d c w' where
  index := hi.index.congr hp.pages hp.aligned
  data := by
    rw [liveEntries_congr c hp.pages]
    exact hi.data.kept hd (.refl c)

theorem laneEntries_kept (c : Control) (hp : PagesKept d w w') :
    laneEntries d c w' = laneEntries d c w :=
  liveEntries_congr c hp.pages

theorem LaneInv.split (hi : LaneInv H st d c w) (h : SplitDone H d c w c' w') :
    LaneInv H st d c' w' where
  index := h.inv
  data := (hi.data.perm h.live).kept (dataKept_of_index c h.frame)
    (.of_eq h.nextFileId h.nextOffset)

/-! ## The load of a table -/

/-- The table is below its load factor. -/
def LoadOk (c : Control) : Prop := 100 * c.itemCount.toNat < 2880 * c.shape.buckets

theorem shouldSplit_eq {index : Bytes} (hi : IndexInv H c index) :
    shouldSplit c = .ok (decide (2880 * c.shape.buckets ≤ 100 * c.itemCount.toNat)) := by
  have hb := hi.buckets_lt
  have hlen := length_liveEntries_le c index
  rw [← hi.count] at hlen
  have hpos : 0 < c.shape.buckets := by
    rw [buckets_eq]
    exact Nat.add_pos_left (Nat.two_pow_pos _) _
  have h32 : entriesPerBucket = 32 := rfl
  have hcap : saturatingMul64 c.shape.buckets entriesPerBucket = c.shape.buckets * 32 := by
    unfold saturatingMul64
    rw [h32]
    omega
  have hload : saturatingMul64 (c.shape.buckets * 32) loadFactorPct = c.shape.buckets * 2880 := by
    unfold saturatingMul64 loadFactorPct
    omega
  have hcount : saturatingMul64 c.itemCount.toNat 100 = c.itemCount.toNat * 100 := by
    unfold saturatingMul64
    omega
  unfold shouldSplit
  rw [hi.bucketCount_eq]
  change (if _ then _ else _) = _
  rw [hcap, if_neg (by omega), hload, hcount, Nat.mul_comm _ 2880, Nat.mul_comm _ 100]
  rfl

/-! ## What an insertion does -/

/-- The entry of a new block: its CID's hashes and the place the append point gives. -/
structure NewEntry (H : Bytes → SplitHash) (st : Store) (c : Control) (cid data : Bytes)
    (e : Entry) : Prop where
  cid_eq : e.cid = cid
  hashed : e.Hashed H
  place : rollFile st.maxFileBytes data.length c.nextFileId c.nextOffset = .ok (e.fileId, e.offset)
  len : e.len.toNat = data.length

/-- The entries of the bucket the CID is addressed to. -/
def rivals (H : Bytes → SplitHash) (s : Shape) (l : List Entry) (cid : Bytes) : List Entry :=
  l.filter fun e => s.addr (evenHash H e) = s.addr (H cid).even.toNat

/-- After `j` splits the CID's bucket has a free slot, and every address on the way can be
computed. -/
structure Room (H : Bytes → SplitHash) (s : Shape) (l : List Entry) (cid : Bytes) (j : Nat) :
    Prop where
  addressable : ∀ i ≤ j, Addressable (Shape.next^[i] s) (H cid).even.toNat
  free : (rivals H (Shape.next^[j] s) l cid).length < entriesPerBucket
  level : (Shape.next^[j + 1] s).level ≤ 31

/-- With `n` attempts the insertion finds the CID, or room for it. -/
def Insertable (H : Bytes → SplitHash) (st : Store) (c : Control) (l : List Entry)
    (cid : Bytes) (len : Nat) (skip : Bool) (n : Nat) : Prop :=
  (skip = false ∧ 0 < n ∧ Addressable c.shape (H cid).even.toNat ∧ ∃ e ∈ l, e.cid = cid) ∨
    (Fits st c len ∧ ∃ j < n, Room H c.shape l cid j)

/-- The shape after a block is added: splits until the CID's bucket has a free slot, and one more
at the load factor. -/
def Grown (H : Bytes → SplitHash) (s : Shape) (n : Nat) (l : List Entry) (cid : Bytes)
    (s' : Shape) : Prop :=
  ∃ j, (∀ i < j, entriesPerBucket ≤ (rivals H (Shape.next^[i] s) l cid).length) ∧
    (rivals H (Shape.next^[j] s) l cid).length < entriesPerBucket ∧
    s' = if 2880 * (Shape.next^[j] s).buckets ≤ 100 * (n + 1) then Shape.next^[j + 1] s
      else Shape.next^[j] s

/-- The effect on the entries: nothing if the CID is there, one entry more otherwise. -/
inductive Effect (H : Bytes → SplitHash) (st : Store) (d : LaneDir) (cid data : Bytes)
    (skip : Bool) (c : Control) (l : List Entry) (c' : Control) (l' : List Entry) (w' : Disk) : Prop
  | found (hs : skip = false) (hl : l'.Perm l) (he : ∃ e ∈ l, e.cid = cid)
      (hf : c'.nextFileId = c.nextFileId) (ho : c'.nextOffset = c.nextOffset)
      (hg : c'.shape = c.shape)
  | new (e : Entry) (hl : l'.Perm (e :: l)) (he : NewEntry H st c cid data e)
      (hb : blockOf d w' e = data) (hn : skip = false → ∀ x ∈ l, x.cid ≠ cid)
      (hf : c'.nextFileId = e.fileId) (ho : c'.nextOffset.toNat = e.stop)
      (hg : Grown H c.shape c.itemCount.toNat l cid c'.shape)

structure Inserted (H : Bytes → SplitHash) (st : Store) (d : LaneDir) (cid data : Bytes)
    (skip : Bool) (c : Control) (w : Disk) (r : Control × Batch) (w' : Disk) : Prop where
  frame : Frame (NotControl d) w w'
  inv : LaneInv H st d r.1 w'
  kept : DataKept d c w w'
  append : AppendLe c r.1
  batch : BatchOk d r.2 w'
  load : LoadOk c → LoadOk r.1
  quiet : w'.writes (d, .index) = w.writes (d, .index) → r.1 = c ∧ PagesKept d w w'
  effect : Effect H st d cid data skip c (laneEntries d c w) r.1 (laneEntries d r.1 w') w'

structure InsertFailed (d : LaneDir) (c : Control) (w : Disk) (stuck : Prop) (e : StorageError)
    (w' : Disk) : Prop where
  frame : Frame (NotControl d) w w'
  kept : DataKept d c w w'
  quiet : w'.writes (d, .index) = w.writes (d, .index) → PagesKept d w w'
  stuck : w.NoFaults → stuck
  error : ¬ SplitBug e

/-- The entries of a bucket are the rivals of its CIDs. -/
theorem IndexInv.length_rivals {index : Bytes} (hi : IndexInv H c index) (cid : Bytes) :
    (rivals H c.shape (liveEntries c index) cid).length =
      (table index (c.shape.addr (H cid).even.toNat)).length := by
  rw [rivals, liveEntries, hi.placed.filter_live (c.shape.addr_lt _)]

/-- The CID is in the lane iff its bucket has a matching entry. -/
theorem IndexInv.exists_matches_iff {index : Bytes} (hi : IndexInv H c index) (cid : Bytes) :
    (∃ e ∈ table index (c.shape.addr (H cid).even.toNat),
        e.Matches cid (H cid).fingerprint (H cid).hash64) ↔
      ∃ e ∈ liveEntries c index, e.cid = cid := by
  constructor
  · rintro ⟨e, he, -, -, hcid⟩
    refine ⟨e, hi.mem_live.2 ?_, hcid⟩
    rwa [evenHash, hcid]
  · rintro ⟨e, he, rfl⟩
    exact ⟨e, hi.mem_live.1 he, (hi.hashed_live he).1, (hi.hashed_live he).2, rfl⟩

/-- The new extent is apart from those before the append point. -/
theorem DataInv.cons {l : List Entry} (hd : DataInv st d c w l) (c' : Control) {e : Entry}
    {cid data : Bytes} (he : NewEntry H st c cid data e) (hb : Before c' e.fileId e.stop)
    (hc : AppendLe c c') (hk : DataKept d c w w') (hon : OnDisk d w' e) : DataInv st d c' w' (e :: l) := by
  obtain ⟨hlimit, hplace⟩ := rollFile_ok he.place
  have hold := hd.kept hk hc
  refine ⟨?_, ?_, ?_, ?_⟩
  · intro x hx
    rcases List.mem_cons.1 hx with rfl | hx
    · exact hb
    · exact hold.before x hx
  · intro x hx
    rcases List.mem_cons.1 hx with rfl | hx
    · unfold Entry.stop
      rw [he.len]
      exact hlimit
    · exact hold.limit x hx
  · refine List.pairwise_cons.2 ⟨fun x hx hf => ?_, hd.apart⟩
    -- An old extent in the same file ends where the new one starts, or before.
    rcases hd.before x hx with hlt | ⟨hfile, hle⟩ <;> rcases hplace with ⟨hf', ho⟩ | ⟨hlt', -⟩
    · rw [← hf, hf'] at hlt; omega
    · rw [← hf] at hlt; omega
    · rw [ho]; exact .inr hle
    · rw [hf, hfile] at hlt'; omega
  · intro x hx
    rcases List.mem_cons.1 hx with rfl | hx
    · exact hon
    · exact hold.onDisk x hx

theorem not_insertable {l : List Entry} {cid : Bytes} {len n : Nat} {skip : Bool}
    (hnew : skip = false → ∀ x ∈ l, x.cid ≠ cid)
    (h : Fits st c len → ∀ j < n, ¬ Room H c.shape l cid j) :
    ¬ Insertable H st c l cid len skip n := by
  rintro (⟨hs, -, -, x, hx, hxc⟩ | ⟨hfit, j, hj, hroom⟩)
  · exact hnew hs x hx hxc
  · exact h hfit j hj hroom

/-- A table out of bucket numbers has no room after a further split. -/
theorem not_room_of_overflow {index : Bytes} (hi : IndexInv H c index)
    (hover : 2 ^ 32 ≤ c.shape.buckets + 1) (l : List Entry) (cid : Bytes) (j : Nat) :
    ¬ Room H c.shape l cid j := by
  intro hroom
  have hv : c.splitPtr.toNat < 2 ^ c.level.toNat := hi.valid
  have hpow : 2 ^ c.level.toNat ≤ 2 ^ 31 := Nat.pow_le_pow_right (by decide) hi.level
  rw [buckets_eq] at hover
  have hl : ¬ c.level.toNat ≤ 30 := fun h => by
    have : 2 ^ c.level.toNat ≤ 2 ^ 30 := Nat.pow_le_pow_right (by decide) h
    omega
  have hnext : c.shape.next.level = c.level.toNat + 1 := by
    rw [Shape.next, if_neg (by rw [shape_split, shape_level]; omega)]
    rfl
  have hle : c.shape.next.level ≤ (Shape.next^[j + 1] c.shape).level :=
    Shape.iterate_next_level c.shape.next j
  have := hroom.level
  omega

/-- The world after the block's bytes and its entry are written. -/
theorem LaneInv.written (hi : LaneInv H st d c w) {cid data : Bytes} {slot : Nat}
    (hslot : slot < entriesPerBucket)
    (hfree : slotEntry
      (pageAt (w.content (d, .index)) (c.shape.addr (H cid).even.toNat)) slot = none)
    {r : (UInt32 × UInt64 × UInt32) × Control × Batch} {w1 : Disk}
    (hr : Appended st d c data w r w1) {e : Entry}
    (he : e = ⟨(H cid).fingerprint, r.1.1, r.1.2.1, r.1.2.2, (H cid).hash64, cid⟩)
    {page : Page}
    (hch : Changed (pageAt (w.content (d, .index)) (c.shape.addr (H cid).even.toNat)) page slot
      stateFull (some e))
    (hf2 : Frame (· = (d, .index)) w1 w') (ha2 : Aligned (w'.content (d, .index)))
    (hp2 : ∀ b, pageAt (w'.content (d, .index)) b =
      if b = c.shape.addr (H cid).even.toNat then page else pageAt (w1.content (d, .index)) b) :
    LaneInv H st d { r.2.1 with itemCount := saturatingAdd64 r.2.1.itemCount 1 } w' ∧
      (laneEntries d { r.2.1 with itemCount := saturatingAdd64 r.2.1.itemCount 1 } w').Perm
        (e :: laneEntries d c w) ∧
      NewEntry H st c cid data e ∧ AppendLe c r.2.1 ∧ DataKept d c w w' ∧
      blockOf d w' e = data ∧ r.2.1.nextFileId = e.fileId ∧
      r.2.1.nextOffset.toNat = e.stop := by
  have hcidEq : e.cid = cid := by rw [he]
  have hnew : NewEntry H st c cid data e := by
    subst he
    exact ⟨rfl, ⟨rfl, rfl⟩, hr.place, hr.len⟩
  have hidx : w1.content (d, .index) = w.content (d, .index) :=
    hr.quiet.frame.content fun ⟨f, hf⟩ => by cases hf
  rw [hidx] at hp2
  have hcount : (saturatingAdd64 r.2.1.itemCount 1).toNat = c.itemCount.toNat + 1 := by
    have hb := hi.index.buckets_lt
    have hlen := length_liveEntries_le c (w.content (d, .index))
    rw [← hi.index.count] at hlen
    rw [hr.itemCount]
    exact saturatingAdd64_of_lt (by omega)
  obtain ⟨hinv, hlive⟩ := hi.index.insert { r.2.1 with
      itemCount := saturatingAdd64 r.2.1.itemCount 1 } ha2 (by rw [evenHash, hcidEq])
    hnew.hashed hslot hfree hch hp2 hr.shape hcount
  have hstop : e.stop = r.2.1.nextOffset.toNat := by
    rw [hr.nextOffset, ← hr.len, he]
    rfl
  have hfile : e.fileId = r.2.1.nextFileId := by rw [hr.nextFileId, he]
  have happ : AppendLe c r.2.1 := by
    intro f stop hbf
    obtain ⟨-, hplace⟩ := rollFile_ok hr.place
    unfold Before at *
    rw [hr.nextFileId, hr.nextOffset]
    rcases hbf with hlt | ⟨rfl, hle⟩ <;> rcases hplace with ⟨hf', ho⟩ | ⟨hlt', -⟩
    · exact .inl (by rw [hf']; exact hlt)
    · exact .inl (by omega)
    · exact .inr ⟨hf'.symm, by rw [ho]; omega⟩
    · exact .inl hlt'
  have hkept1 : DataKept d c w1 w' := dataKept_of_index c hf2
  have hkept : DataKept d c w w' := hr.quiet.data.trans (.refl c) hkept1
  have hdata : w'.content (d, .data e.fileId) = w1.content (d, .data r.1.1) := by
    rw [hf2.content (by simp), he]
  have hbytes : blockOf d w' e = data := by
    rw [blockOf, hdata, he]
    change Bytes.slice _ r.1.2.1.toNat r.1.2.2.toNat = data
    rw [hr.len]
    exact hr.bytes
  have hon : OnDisk d w' e := by
    refine ⟨?_, ?_⟩
    · rw [hf2.files _ (by simp), he]
      exact hr.isFile
    · rw [hdata, hnew.len]
      refine hr.fits.imp_right fun h => ?_
      rw [he, Entry.stop, hr.len]
      exact h
  refine ⟨⟨hinv, ?_⟩, hlive, hnew, happ, hkept, hbytes, hfile.symm, hstop.symm⟩
  exact (hi.data.cons { r.2.1 with itemCount := saturatingAdd64 r.2.1.itemCount 1 } hnew
    (.inr ⟨hfile, Nat.le_of_eq hstop⟩) happ hkept hon).perm hlive

/-- Growth with a free slot in the CID's bucket. -/
theorem Grown.of_room {s s' : Shape} {n : Nat} {l : List Entry} {cid : Bytes}
    (hfree : (rivals H s l cid).length < entriesPerBucket)
    (hs' : s' = if 2880 * s.buckets ≤ 100 * (n + 1) then s.next else s) : Grown H s n l cid s' :=
  ⟨0, fun i hi => absurd hi (Nat.not_lt_zero i), hfree, hs'⟩

/-- The end of an insertion at a free slot of the CID's bucket. -/
theorem insertAt_spec (hi : LaneInv H st d c w) {cid : Bytes} (data : Bytes) {skip : Bool} (n : Nat)
    (hcid : cid ≠ []) (hcidLen : cid.length ≤ maxCidBytes) {slot : Nat}
    (hslot : slot < entriesPerBucket)
    (hfree : slotEntry
      (pageAt (w.content (d, .index)) (c.shape.addr (H cid).even.toNat)) slot = none)
    (hnew : skip = false → ∀ x ∈ laneEntries d c w, x.cid ≠ cid) {b : Batch}
    (hb : BatchOk d b w) :
    wp (insertAt H st d cid data (c.shape.addr (H cid).even.toNat)
        (pageAt (w.content (d, .index)) (c.shape.addr (H cid).even.toNat)) slot c b)
      (Inserted H st d cid data skip c w)
      (InsertFailed d c w
        (¬ Insertable H st c (laneEntries d c w) cid data.length skip n)) w := by
  unfold insertAt
  have hroom : (rivals H c.shape (laneEntries d c w) cid).length < entriesPerBucket := by
    rw [laneEntries, hi.index.length_rivals]
    exact length_entries_lt hslot hfree
  refine wp_bind (wp_mono (appendData_spec hb) (fun r w1 hr => ?_) fun e w' h => ?_)
  case refine_2 =>
    exact ⟨frame_of_data h.quiet.frame, h.quiet.data,
      fun _ => h.quiet.pagesKept hi.index.aligned,
      fun hf => not_insertable hnew fun hfit => absurd hfit (h.stuck hf), h.error⟩
  obtain ⟨page, hpage, hch⟩ := writeEntryToPage_changed
    (pageAt (w.content (d, .index)) (c.shape.addr (H cid).even.toNat))
    ⟨(H cid).fingerprint, r.1.1, r.1.2.1, r.1.2.2, (H cid).hash64, cid⟩ hslot hcid hcidLen
  refine wp_bind (wp_lift (fun p hp => ?_) fun e he => ?_)
  case refine_2 =>
    rw [hpage] at he
    cases he
  rw [hpage] at hp
  cases hp
  have hpages1 := hr.quiet.pagesKept hi.index.aligned
  have hblt : c.shape.addr (H cid).even.toNat < 2 ^ 32 :=
    (c.shape.addr_lt _).trans hi.index.buckets_lt
  refine wp_bind (wp_mono (writeBucket_spec hpages1.aligned hblt page) (fun _ w2 h2 => ?_)
    fun e w' h => ?_)
  case refine_2 =>
    obtain ⟨he, hf, hfr, hw⟩ := h
    refine ⟨(frame_of_data hr.quiet.frame).trans (frame_of_index hfr),
      hr.quiet.data.trans (.refl c) (dataKept_of_index c hfr), fun heq => ?_,
      fun hnf => absurd (hr.quiet.frame.noFaults.2 hnf) hf, by simp [he, SplitBug]⟩
    have := hr.quiet.writes
    omega
  obtain ⟨hf2, hw2, ha2, hp2⟩ := h2
  rw [hr.quiet.writes] at hw2
  obtain ⟨hinv2, hlive2, hnewE, happ, hkept2, hbytes2, hfile2, hoff2⟩ :=
    hi.written hslot hfree hr rfl hch hf2 ha2 hp2
  have hframe2 := (frame_of_data hr.quiet.frame).trans (frame_of_index hf2)
  have hbatch2 : BatchOk d r.2.2 w2 := hr.batch.kept fun f => (hf2.kept _)
  have hcount2 : (saturatingAdd64 r.2.1.itemCount 1).toNat = c.itemCount.toNat + 1 := by
    have := hlive2.length_eq
    rw [laneEntries, ← hinv2.index.count, List.length_cons, laneEntries, ← hi.index.count] at this
    exact this
  have hshape2 : Control.shape { r.2.1 with itemCount := saturatingAdd64 r.2.1.itemCount 1 } =
      c.shape := hr.shape
  refine wp_bind (wp_lift (fun t ht => ?_) fun e he => ?_)
  case refine_2 =>
    rw [shouldSplit_eq hinv2.index] at he
    cases he
  rw [shouldSplit_eq hinv2.index, hshape2] at ht
  dsimp only at ht
  rw [hcount2] at ht
  by_cases hload : 2880 * c.shape.buckets ≤ 100 * (c.itemCount.toNat + 1)
  · -- The load factor is reached: one more split.
    rw [decide_eq_true hload] at ht
    cases ht
    refine wp_bind (wp_mono (splitOneBucket_spec hinv2.index) (fun c3 w3 h3 => ?_)
      fun e w' h => ?_)
    case refine_2 =>
      refine ⟨hframe2.trans (frame_of_index h.frame),
        hkept2.trans (.refl c) (dataKept_of_index c h.frame), fun heq => ?_, fun hnf => ?_, ?_⟩
      · have := h.frame.writes_le (d, .index)
        omega
      · rcases h.error with ⟨-, hover⟩ | ⟨-, hf⟩
        · refine not_insertable hnew fun _ j _ => not_room_of_overflow hi.index ?_ _ _ j
          rwa [hshape2] at hover
        · exact absurd (hframe2.noFaults.2 hnf) hf
      · rcases h.error with ⟨rfl, -⟩ | ⟨rfl, -⟩ <;> simp [SplitBug]
    have happ3 : AppendLe c c3 := happ.trans (.of_eq h3.nextFileId h3.nextOffset)
    have hshape3 : c3.shape = c.shape.next := by rw [h3.shape, hshape2]
    have hkept3 := dataKept_of_index { r.2.1 with
      itemCount := saturatingAdd64 r.2.1.itemCount 1 } h3.frame
    refine wp_pure ⟨hframe2.trans (frame_of_index h3.frame), hinv2.split h3,
      hkept2.trans happ (dataKept_of_index _ h3.frame), happ3, hbatch2.kept fun f => h3.frame.kept _,
      fun hl => ?_, fun heq => ?_, ?_⟩
    · unfold LoadOk at *
      rw [h3.itemCount, hshape3, c.shape.buckets_next hi.index.valid]
      dsimp only
      rw [hcount2]
      omega
    · have := h3.writes
      omega
    · refine .new _ (h3.live.trans hlive2) hnewE ?_ hnew (h3.nextFileId.trans hfile2)
        (by rw [h3.nextOffset]; exact hoff2)
        (.of_room hroom (by rw [if_pos hload]; exact hshape3))
      rw [(hkept3.blockOf (hinv2.data.before _ (hlive2.mem_iff.2 (.head _)))), hbytes2]
  · rw [decide_eq_false hload] at ht
    cases ht
    refine wp_pure ⟨hframe2, hinv2, hkept2, happ, hbatch2, fun _ => ?_, fun heq => ?_,
      .new _ hlive2 hnewE hbytes2 hnew hfile2 hoff2
        (.of_room hroom (by rw [if_neg hload]; exact hshape2))⟩
    · unfold LoadOk
      rw [hshape2]
      dsimp only
      rw [hcount2]
      omega
    · omega

/-! ## The loop -/

theorem rivals_perm {l l' : List Entry} (h : l'.Perm l) (s : Shape) (cid : Bytes) :
    (rivals H s l' cid).length = (rivals H s l cid).length :=
  (h.filter _).length_eq

theorem Room.of_perm {l l' : List Entry} (h : l'.Perm l) {s : Shape} {cid : Bytes} {j : Nat}
    (hr : Room H s l cid j) : Room H s l' cid j :=
  ⟨hr.addressable, by rw [rivals_perm h]; exact hr.free, hr.level⟩

/-- Room after a split and `j` more is room after `j + 1`. -/
theorem Room.of_succ {l : List Entry} {s : Shape} {cid : Bytes} {j : Nat}
    (hr : Room H s l cid (j + 1)) : Room H s.next l cid j :=
  ⟨fun i hi => hr.addressable (i + 1) (by omega), hr.free, hr.level⟩

/-- Growth after a split of a full bucket. -/
theorem Grown.of_split {s s' : Shape} {n : Nat} {l l1 : List Entry} {cid : Bytes} (hp : l1.Perm l)
    (hfull : (rivals H s l cid).length = entriesPerBucket) (h : Grown H s.next n l1 cid s') :
    Grown H s n l cid s' := by
  obtain ⟨j, hall, hfree, hs'⟩ := h
  refine ⟨j + 1, fun i hi => ?_, ?_, hs'⟩
  · cases i with
    | zero => exact Nat.le_of_eq hfull.symm
    | succ i =>
      have := hall i (by omega)
      rwa [rivals_perm hp] at this
  · rwa [rivals_perm hp] at hfree

/-- The effect of an insertion that had to split first. -/
theorem Effect.of_split {cid data : Bytes} {skip : Bool} {w1 : Disk} {l' : List Entry}
    {c1 : Control} (h1 : SplitDone H d c w c1 w1)
    (hfull : (rivals H c.shape (laneEntries d c w) cid).length = entriesPerBucket)
    (hnew : skip = false → ∀ x ∈ laneEntries d c w, x.cid ≠ cid)
    (h : Effect H st d cid data skip c1 (laneEntries d c1 w1) c' l' w') :
    Effect H st d cid data skip c (laneEntries d c w) c' l' w' := by
  have hp : (laneEntries d c1 w1).Perm (laneEntries d c w) := h1.live
  cases h with
  | found hs hl he hf' ho' _ =>
    obtain ⟨e, he, hcid⟩ := he
    exact absurd hcid (hnew hs e (hp.mem_iff.1 he))
  | new e hl he hb hn hf' ho' hg =>
    refine .new e (hl.trans (hp.cons e)) ⟨he.cid_eq, he.hashed, ?_, he.len⟩ hb hnew hf' ho' ?_
    · rw [← h1.nextFileId, ← h1.nextOffset]
      exact he.place
    · rw [h1.shape, h1.itemCount] at hg
      exact hg.of_split hp hfull

/-- An insertion after reads of the index. -/
theorem Inserted.of_kept {cid data : Bytes} {skip : Bool} {w1 : Disk} {r : Control × Batch}
    (h1 : IndexKept d w w1) (h : Inserted H st d cid data skip c w1 r w') :
    Inserted H st d cid data skip c w r w' := by
  have hl := laneEntries_kept c h1.pagesKept
  refine ⟨(frame_of_index h1.frame).trans h.frame, h.inv,
    (dataKept_of_index c h1.frame).trans (.refl c) h.kept, h.append, h.batch, h.load,
    fun heq => ?_, ?_⟩
  · obtain ⟨hc, hp⟩ := h.quiet (heq.trans h1.writes.symm)
    exact ⟨hc, h1.pagesKept.trans hp⟩
  · rw [← hl]
    exact h.effect

theorem InsertFailed.of_kept {w1 : Disk} {stuck : Prop} {e : StorageError}
    (h1 : IndexKept d w w1) (h : InsertFailed d c w1 stuck e w') : InsertFailed d c w stuck e w' :=
  ⟨(frame_of_index h1.frame).trans h.frame,
    (dataKept_of_index c h1.frame).trans (.refl c) h.kept,
    fun heq => h1.pagesKept.trans (h.quiet (heq.trans h1.writes.symm)),
    fun hf => h.stuck (h1.frame.noFaults.2 hf), h.error⟩

/-- An insertion that had to split first. -/
theorem Inserted.of_split {cid data : Bytes} {skip : Bool} {w1 : Disk} {r : Control × Batch}
    (hv : c.shape.Valid) (h1 : SplitDone H d c w c' w1)
    (hfull : (rivals H c.shape (laneEntries d c w) cid).length = entriesPerBucket)
    (hnew : skip = false → ∀ x ∈ laneEntries d c w, x.cid ≠ cid)
    (h : Inserted H st d cid data skip c' w1 r w') : Inserted H st d cid data skip c w r w' := by
  have happ : AppendLe c c' := .of_eq h1.nextFileId h1.nextOffset
  refine ⟨(frame_of_index h1.frame).trans h.frame, h.inv,
    (dataKept_of_index c h1.frame).trans happ h.kept, happ.trans h.append, h.batch,
    fun hl => h.load ?_, fun heq => ?_, h.effect.of_split h1 hfull hnew⟩
  · unfold LoadOk at *
    rw [h1.itemCount, h1.shape, c.shape.buckets_next hv]
    omega
  · have := h1.writes
    have := h.frame.writes_le (d, .index)
    omega

theorem InsertFailed.of_split {w1 : Disk} {stuck stuck' : Prop} {e : StorageError}
    (h1 : SplitDone H d c w c' w1) (hs : stuck' → stuck)
    (h : InsertFailed d c' w1 stuck' e w') : InsertFailed d c w stuck e w' := by
  have happ : AppendLe c c' := .of_eq h1.nextFileId h1.nextOffset
  refine ⟨(frame_of_index h1.frame).trans h.frame,
    (dataKept_of_index c h1.frame).trans happ h.kept, fun heq => ?_,
    fun hf => hs (h.stuck (h1.frame.noFaults.2 hf)), h.error⟩
  have := h1.writes
  have := h.frame.writes_le (d, .index)
  omega

/-- A step of the loop that fails before the index is written. -/
theorem InsertFailed.of_index {stuck : Prop} {e : StorageError} {w1 : Disk}
    (h1 : IndexKept d w w1) (hs : w.NoFaults → stuck) (he : ¬ SplitBug e) :
    InsertFailed d c w stuck e w1 :=
  ⟨frame_of_index h1.frame, dataKept_of_index c h1.frame, fun _ => h1.pagesKept, hs, he⟩

theorem IndexKept.refl (ha : Aligned (w.content (d, .index))) : IndexKept d w w :=
  ⟨Frame.refl _ w, rfl, fun _ => rfl, ha⟩

/-- **The insertion loop**, by induction on the attempts left. -/
theorem insertLoop_spec (block : Block) {cid : Bytes} (skip : Bool) (hcid : cid ≠ [])
    (hcidLen : cid.length ≤ maxCidBytes) :
    ∀ (n : Nat) (c : Control) (b : Batch) (w : Disk), LaneInv H st d c w → BatchOk d b w →
      wp (insertLoop H st d block cid skip n c b) (Inserted H st d cid block.data skip c w)
        (InsertFailed d c w
          (¬ Insertable H st c (laneEntries d c w) cid block.data.length skip n)) w
  | 0, c, b, w, hi, _ => by
    refine wp_throw (.of_index (.refl hi.index.aligned) (fun _ => ?_) (by simp [SplitBug]))
    rintro (⟨-, h0, -⟩ | ⟨-, j, hj, -⟩) <;> omega
  | n + 1, c, b, w, hi, hb => by
    rw [insertLoop]
    by_cases ha : Addressable c.shape (H cid).even.toNat
    case neg =>
      refine wp_bind (wp_lift (fun k hk => ?_) fun e he => ?_)
      · rw [hi.index.primaryBucket_error ha] at hk
        cases hk
      · rw [hi.index.primaryBucket_error ha] at he
        cases he
        refine .of_index (.refl hi.index.aligned) (fun _ => ?_) (by simp [SplitBug])
        rintro (⟨-, -, ha', -⟩ | ⟨-, j, -, hroom⟩)
        · exact ha ha'
        · exact ha (hroom.addressable 0 (Nat.zero_le _))
    refine wp_bind (wp_lift (fun k hk => ?_) fun e he => ?_)
    case pos.refine_2 =>
      rw [hi.index.primaryBucket_eq ha] at he
      cases he
    rw [hi.index.primaryBucket_eq ha] at hk
    cases hk
    refine wp_bind (wp_mono (readBucket_spec hi.index.aligned _) (fun page w1 h1 => ?_)
      fun e w' h => ?_)
    case refine_2 =>
      exact .of_index (.of_untouched h.2.2 hi.index.aligned) (fun hf => absurd hf h.2.1)
        (by simp [h.1, SplitBug])
    obtain ⟨hpg, hu1⟩ := h1
    have h1 := IndexKept.of_untouched hu1 hi.index.aligned
    have hpage : PageOk page := hpg ▸ hi.index.pages _
    have hi1 : LaneInv H st d c w1 := hi.kept h1.pagesKept (dataKept_of_index c h1.frame)
    have hl1 : laneEntries d c w1 = laneEntries d c w := laneEntries_kept c h1.pagesKept
    have hb1 : BatchOk d b w1 := hb.kept fun f => h1.frame.kept _
    obtain ⟨t, ht, htiff⟩ := pageContainsEntry_spec hpage.decode cid (H cid).fingerprint (H cid).hash64
    have hiff : t = true ↔ ∃ e ∈ laneEntries d c w, e.cid = cid := by
      rw [htiff, hpg]
      exact hi.index.exists_matches_iff cid
    have htest : existsCheck H skip page cid = .ok (!skip && t) := by
      rw [existsCheck, ht]
      cases skip with
      | true => rfl
      | false => rfl
    refine wp_bind (wp_lift (fun a hta => ?_) fun e he => ?_)
    case refine_2 =>
      rw [htest] at he
      cases he
    rw [htest] at hta
    cases hta
    by_cases hfound : (!skip && t) = true
    · obtain ⟨hs, rfl⟩ : skip = false ∧ t = true := by simpa using hfound
      rw [if_pos hfound]
      refine wp_pure ⟨frame_of_index h1.frame, hi1, dataKept_of_index c h1.frame, .refl c, hb1,
        fun h => h, fun _ => ⟨rfl, h1.pagesKept⟩, .found hs ?_ (hiff.1 rfl) rfl rfl rfl⟩
      rw [hl1]
    rw [if_neg hfound]
    have hnew : skip = false → ∀ x ∈ laneEntries d c w, x.cid ≠ cid := by
      intro hs x hx hxc
      have : t = true := hiff.2 ⟨x, hx, hxc⟩
      simp [hs, this] at hfound
    rcases findFreeSlot_spec hpage with ⟨slot, hslot, hlt, hfree⟩ | ⟨hslot, hfull⟩
    · rw [hslot]
      rw [hpg, ← h1.pages] at hfree
      have hins := insertAt_spec hi1 block.data (n + 1) hcid hcidLen hlt hfree
        (by rwa [hl1]) hb1
      rw [h1.pages, hl1, ← hpg] at hins
      exact wp_mono hins (fun r w' h => h.of_kept h1) fun e w' h => h.of_kept h1
    · rw [hslot]
      have hrivals : (rivals H c.shape (laneEntries d c w) cid).length = entriesPerBucket := by
        rw [laneEntries, hi.index.length_rivals, table, ← hpg, hfull]
      refine wp_bind (wp_mono (splitOneBucket_spec hi1.index) (fun c' w2 h2 => ?_)
        fun e w' h => ?_)
      case refine_2 =>
        refine InsertFailed.of_kept h1 ⟨frame_of_index h.frame, dataKept_of_index c h.frame,
          fun heq => (h.quiet heq).pagesKept, fun hf => ?_, ?_⟩
        · rcases h.error with ⟨-, hover⟩ | ⟨-, hnf⟩
          · exact not_insertable hnew fun _ j _ => not_room_of_overflow hi.index hover _ _ j
          · exact absurd hf hnf
        · rcases h.error with ⟨rfl, -⟩ | ⟨rfl, -⟩ <;> simp [SplitBug]
      have ih := insertLoop_spec block skip hcid hcidLen n c'
        { b with touchedIndex := true } w2 (hi1.split h2) (hb1.kept fun f => h2.frame.kept _)
      have hlive2 : (laneEntries d c' w2).Perm (laneEntries d c w) := by
        rw [← hl1]
        exact h2.live
      refine wp_mono ih (fun r w' h => ?_) fun e w' h => ?_
      · exact (Inserted.of_split hi.index.valid h2 (by rwa [hl1]) (by rwa [hl1]) h).of_kept h1
      · refine (InsertFailed.of_split h2 (fun hstuck => ?_) h).of_kept h1
        refine not_insertable hnew fun hfit j hj hroom => ?_
        cases j with
        | zero =>
          have : (rivals H c.shape (laneEntries d c w) cid).length < entriesPerBucket := hroom.free
          omega
        | succ j =>
          refine hstuck (.inr ⟨?_, j, by omega, ?_⟩)
          · unfold Fits at *
            rw [h2.nextFileId, h2.nextOffset]
            exact hfit
          · rw [h2.shape]
            exact hroom.of_succ.of_perm hlive2

/-- **Insertion**: what a call does to the lane, and why it can fail. -/
theorem insertBlockInClass_spec (hi : LaneInv H st d c w) {block : Block} {cid : Bytes}
    {skip : Bool} {b : Batch} (hb : BatchOk d b w) :
    wp (insertBlockInClass H st d block cid skip c b) (Inserted H st d cid block.data skip c w)
      (InsertFailed d c w (cid ≠ [] → cid.length ≤ maxCidBytes →
        ¬ Insertable H st c (laneEntries d c w) cid block.data.length skip
          st.maxProbeSteps.toNat)) w := by
  unfold insertBlockInClass
  split
  · rename_i hbad
    refine wp_throw (.of_index (.refl hi.index.aligned) (fun _ hne hle => ?_) (by simp [SplitBug]))
    rcases hbad with h | h
    · exact absurd h hne
    · omega
  · rename_i hgood
    rw [not_or, Nat.not_lt] at hgood
    refine wp_mono (insertLoop_spec block skip hgood.1 hgood.2 _ c b w hi hb) (fun _ _ h => h)
      fun e w' h => ?_
    exact ⟨h.frame, h.kept, h.quiet, fun hf _ _ => h.stuck hf, h.error⟩

end

end Storage.DeltaFlat
