import Neverust.Storage.DeltaFlat.Proof.Index

/-!
# DeltaFlat data files

Data goes to the append point `(next_file_id, next_offset)` of the control record, which only moves
forward.

* `rollFile_ok`: where the next block goes.
* `appendData_spec`: appending writes the block's bytes there and leaves every byte before the
  append point (`DataKept`), also when it fails.
* `DataInv`: the extents of the entries are apart, within the file size limit, before the append
  point, and on disk.
-/

namespace Storage.DeltaFlat

open Io Rust Bytes LinearHash

/-! ## Extents -/

/-- The end of an entry's extent. -/
def Entry.stop (e : Entry) : Nat := e.offset.toNat + e.len.toNat

/-- An extent of a file that ends at `stop` lies before the append point. -/
def Before (c : Control) (fileId : UInt32) (stop : Nat) : Prop :=
  fileId.toNat < c.nextFileId.toNat ∨ fileId = c.nextFileId ∧ stop ≤ c.nextOffset.toNat

/-- Two extents do not overlap. -/
def Apart (e e' : Entry) : Prop :=
  e.fileId = e'.fileId → e.stop ≤ e'.offset.toNat ∨ e'.stop ≤ e.offset.toNat

theorem Apart.symm {e e' : Entry} (h : Apart e e') : Apart e' e := fun hf => (h hf.symm).symm

/-- The bytes of an entry. -/
def blockOf (d : LaneDir) (w : Disk) (e : Entry) : Bytes :=
  (w.content (d, .data e.fileId)).slice e.offset.toNat e.len.toNat

/-- An entry's data file exists and holds its extent. -/
def OnDisk (d : LaneDir) (w : Disk) (e : Entry) : Prop :=
  (w.files (d, .data e.fileId)).isSome ∧
    (e.len.toNat = 0 ∨ e.stop ≤ (w.content (d, .data e.fileId)).length)

structure DataInv (st : Store) (d : LaneDir) (c : Control) (w : Disk) (l : List Entry) :
    Prop where
  before : ∀ e ∈ l, Before c e.fileId e.stop
  limit : ∀ e ∈ l, e.stop ≤ st.maxFileBytes.toNat
  apart : l.Pairwise Apart
  onDisk : ∀ e ∈ l, OnDisk d w e

/-- What lies before the append point of `c` is the same in both worlds. -/
structure DataKept (d : LaneDir) (c : Control) (w w' : Disk) : Prop where
  slice : ∀ f o n, Before c f (o + n) →
    (w'.content (d, .data f)).slice o n = (w.content (d, .data f)).slice o n
  length : ∀ f, (w.content (d, .data f)).length ≤ (w'.content (d, .data f)).length
  kept : ∀ f, (w.files (d, .data f)).isSome → (w'.files (d, .data f)).isSome

/-- The append point of `c'` is that of `c` or later. -/
def AppendLe (c c' : Control) : Prop := ∀ f stop, Before c f stop → Before c' f stop

section
variable {st : Store} {d : LaneDir} {c c' c'' : Control} {w w' w'' : Disk} {l l' : List Entry}

theorem AppendLe.refl (c : Control) : AppendLe c c := fun _ _ h => h

theorem AppendLe.of_eq (hf : c'.nextFileId = c.nextFileId) (ho : c'.nextOffset = c.nextOffset) :
    AppendLe c c' := by
  intro f stop h
  unfold Before at *
  rwa [hf, ho]

theorem AppendLe.trans (h : AppendLe c c') (h' : AppendLe c' c'') : AppendLe c c'' :=
  fun f stop hb => h' f stop (h f stop hb)

/-- Nothing happened to the data files. -/
theorem DataKept.of_files (c : Control)
    (h : ∀ f, w'.files (d, .data f) = w.files (d, .data f)) : DataKept d c w w' where
  slice f o n _ := by rw [World.content, World.content, h]
  length f := by rw [World.content, World.content, h]
  kept f := by rw [h]; exact id

theorem DataKept.trans (h : DataKept d c w w') (hc : AppendLe c c') (h' : DataKept d c' w' w'') :
    DataKept d c w w'' where
  slice f o n hb := (h'.slice f o n (hc f _ hb)).trans (h.slice f o n hb)
  length f := (h.length f).trans (h'.length f)
  kept f hf := h'.kept f (h.kept f hf)

theorem DataKept.blockOf (h : DataKept d c w w') {e : Entry} (he : Before c e.fileId e.stop) :
    blockOf d w' e = blockOf d w e :=
  h.slice _ _ _ he

theorem DataKept.onDisk (h : DataKept d c w w') {e : Entry} (he : OnDisk d w e) :
    OnDisk d w' e :=
  ⟨h.kept _ he.1, he.2.imp_right fun hs => hs.trans (h.length _)⟩

theorem DataInv.perm (hd : DataInv st d c w l) (hp : l'.Perm l) : DataInv st d c w l' where
  before e he := hd.before e (hp.mem_iff.1 he)
  limit e he := hd.limit e (hp.mem_iff.1 he)
  apart := (hp.pairwise_iff fun h => h.symm).2 hd.apart
  onDisk e he := hd.onDisk e (hp.mem_iff.1 he)

theorem DataInv.kept (hd : DataInv st d c w l) (hk : DataKept d c w w') (hc : AppendLe c c') :
    DataInv st d c' w' l where
  before e he := hc _ _ (hd.before e he)
  limit := hd.limit
  apart := hd.apart
  onDisk e he := hk.onDisk (hd.onDisk e he)

/-! ## The append point -/

/-- **Where a block goes**: to the append point, or to the start of a later file. -/
theorem rollFile_ok {max : UInt64} {len : Nat} {f f' : UInt32} {o o' : UInt64}
    (h : rollFile max len f o = .ok (f', o')) :
    o'.toNat + len ≤ max.toNat ∧ (f' = f ∧ o' = o ∨ f.toNat < f'.toNat ∧ o'.toNat = 0) := by
  induction hn : 2 ^ 32 - f.toNat using Nat.strong_induction_on generalizing f o with
  | _ n ih =>
    rw [rollFile] at h
    cases hs : checkedAdd64 o len with
    | none => rw [hs] at h; cases h
    | some stop =>
      have hstop := checkedAdd64_eq_some hs
      rw [hs] at h
      dsimp only at h
      split at h
      · split at h
        · cases h
        · rename_i f1 hf1
          have hf1 := checkedAdd32_eq_some hf1
          have hlt := f1.toNat_lt
          obtain ⟨hle, hcase⟩ := ih (2 ^ 32 - f1.toNat) (by omega) h rfl
          refine ⟨hle, .inr ?_⟩
          rcases hcase with ⟨rfl, rfl⟩ | ⟨hlt', h0⟩
          · exact ⟨by omega, rfl⟩
          · exact ⟨by omega, h0⟩
      · simp only [Except.ok.injEq, Prod.mk.injEq] at h
        obtain ⟨rfl, rfl⟩ := h
        exact ⟨by omega, .inl ⟨rfl, rfl⟩⟩

theorem rollFile_of_le {max : UInt64} {len : Nat} (f : UInt32) {o : UInt64}
    (h : o.toNat + len ≤ max.toNat) : rollFile max len f o = .ok (f, o) := by
  have hmax := max.toNat_lt
  rw [rollFile]
  cases hs : checkedAdd64 o len with
  | none => have := checkedAdd64_eq_none hs; omega
  | some stop =>
    have := checkedAdd64_eq_some hs
    dsimp only
    rw [if_neg (by omega)]

/-- The error branches of `split_one_bucket` that a sound table does not take. -/
def SplitBug (e : StorageError) : Prop :=
  e = .databaseError .newSplitBucketFull ∨
    ∃ p b, e = .databaseError (.splitPointerOutOfRange p b)

theorem rollFile_error {max : UInt64} {len : Nat} {f : UInt32} {o : UInt64} {e : StorageError}
    (h : rollFile max len f o = .error e) : ¬ SplitBug e := by
  induction hn : 2 ^ 32 - f.toNat using Nat.strong_induction_on generalizing f o with
  | _ n ih =>
    rw [rollFile] at h
    cases hs : checkedAdd64 o len with
    | none => rw [hs] at h; cases h; simp [SplitBug]
    | some stop =>
      rw [hs] at h
      dsimp only at h
      split at h
      · split at h
        · cases h; simp [SplitBug]
        · rename_i f1 hf1
          have hf1 := checkedAdd32_eq_some hf1
          have hlt := f1.toNat_lt
          exact ih (2 ^ 32 - f1.toNat) (by omega) h rfl
      · cases h

/-- The block fits: `append_data` has a place for `len` bytes that an IO system can address. -/
def Fits (st : Store) (c : Control) (len : Nat) : Prop :=
  len < 2 ^ 32 ∧ ∃ f o, rollFile st.maxFileBytes len c.nextFileId c.nextOffset = .ok (f, o) ∧
    o.toNat + len ≤ maxFileLen

/-- The files a batch has open exist. -/
def BatchOk (d : LaneDir) (b : Batch) (w : Disk) : Prop :=
  ∀ f ∈ b.dataFiles, (w.files (d, .data f)).isSome

theorem BatchOk.kept {b : Batch} (h : BatchOk d b w)
    (hk : ∀ f, (w.files (d, .data f)).isSome → (w'.files (d, .data f)).isSome) :
    BatchOk d b w' :=
  fun f hf => hk f (h f hf)

/-! ## Appending -/

/-- A data file of `d`. -/
def IsData (d : LaneDir) (p : Path) : Prop := ∃ f, p = (d, .data f)

/-- From `w` to `w'` data files changed at or past the append point only. -/
structure Quiet (d : LaneDir) (c : Control) (w w' : Disk) : Prop where
  frame : Frame (IsData d) w w'
  writes : w'.writes (d, .index) = w.writes (d, .index)
  data : DataKept d c w w'

theorem Quiet.logged (c : Control) {op : IoOp Path} (hop : ∀ p, op = .write p → IsData d p) :
    Quiet d c w (w.logged op) := by
  refine ⟨Frame.logged _ _ hop, w.writes_logged_ne fun h => ?_, .of_files c fun _ => rfl⟩
  obtain ⟨f, hf⟩ := hop _ h
  cases hf

theorem Quiet.trans (h : Quiet d c w w') (h' : Quiet d c w' w'') : Quiet d c w w'' :=
  ⟨h.frame.trans h'.frame, h'.writes.trans h.writes, h.data.trans (.refl c) h'.data⟩

/-- A file rewritten at or past the append point. -/
theorem Quiet.setFile {f : UInt32} {x : Bytes}
    (hs : ∀ o n, Before c f (o + n) → x.slice o n = (w.content (d, .data f)).slice o n)
    (hl : (w.content (d, .data f)).length ≤ x.length) :
    Quiet d c w (w.setFile (d, .data f) x) := by
  refine ⟨Frame.setFile _ ⟨f, rfl⟩ _ _, rfl, fun g o n hb => ?_, fun g => ?_, fun g hg => ?_⟩
  · by_cases hg : g = f
    · subst hg
      rw [World.content_setFile_self]
      exact hs o n hb
    · rw [World.content_setFile_ne w x (by simpa using hg)]
  · by_cases hg : g = f
    · subst hg
      rw [World.content_setFile_self]
      exact hl
    · rw [World.content_setFile_ne w x (by simpa using hg)]
  · exact (Frame.setFile (IsData d) ⟨f, rfl⟩ w x).kept _ hg

theorem openDataFile_spec (c : Control) {f : UInt32} {o : UInt64} {b : Batch}
    (hb : BatchOk d b w) :
    wp (openDataFile d f o b)
      (fun b' w' => Quiet d c w w' ∧ BatchOk d b' w' ∧ (w'.files (d, .data f)).isSome)
      (fun e w' => e = .ioError .other ∧ ¬ w.NoFaults ∧ Quiet d c w w') w := by
  unfold openDataFile
  split
  · rename_i hmem
    exact wp_pure ⟨⟨Frame.refl _ _, rfl, .of_files c fun _ => rfl⟩, hb, hb f hmem⟩
  · have h1 : Quiet d c w (w.logged .createDir) := .logged c (by simp)
    refine wp_bind (wp_attempt ?_ fun hf => ⟨rfl, hf, h1⟩)
    have h2 : Quiet d c w ((w.logged .createDir).logged (.openFile (d, .data f))) :=
      h1.trans (.logged c (by simp))
    refine wp_bind (wp_openCreate ?_ fun hf => ⟨rfl, h1.frame.noFaults.not.1 hf, h2⟩)
    have h3 := h2.trans (Quiet.setFile (f := f) (x := (w.logged .createDir).content (d, .data f))
      (fun _ _ _ => rfl) (Nat.le_refl _))
    refine wp_pure ⟨h3, fun g hg => ?_, by simp⟩
    rcases List.mem_cons.1 hg with rfl | hg
    · simp
    · exact h3.data.kept g (hb g hg)

/-- What a successful append does. -/
structure Appended (st : Store) (d : LaneDir) (c : Control) (data : Bytes) (w : Disk)
    (r : (UInt32 × UInt64 × UInt32) × Control × Batch) (w' : Disk) : Prop where
  quiet : Quiet d c w w'
  place : rollFile st.maxFileBytes data.length c.nextFileId c.nextOffset = .ok (r.1.1, r.1.2.1)
  len : r.1.2.2.toNat = data.length
  shape : r.2.1.shape = c.shape
  itemCount : r.2.1.itemCount = c.itemCount
  nextFileId : r.2.1.nextFileId = r.1.1
  nextOffset : r.2.1.nextOffset.toNat = r.1.2.1.toNat + data.length
  batch : BatchOk d r.2.2 w'
  isFile : (w'.files (d, .data r.1.1)).isSome
  bytes : (w'.content (d, .data r.1.1)).slice r.1.2.1.toNat data.length = data
  fits : data.length = 0 ∨
    r.1.2.1.toNat + data.length ≤ (w'.content (d, .data r.1.1)).length

/-- How an append fails: without an IO fault only because the block does not fit. -/
structure AppendFailed (st : Store) (d : LaneDir) (c : Control) (data : Bytes) (w : Disk)
    (e : StorageError) (w' : Disk) : Prop where
  quiet : Quiet d c w w'
  stuck : w.NoFaults → ¬ Fits st c data.length
  error : ¬ SplitBug e

/-- A write at or past the append point leaves what lies before it. -/
theorem slice_writeAt_place {len : Nat} {f : UInt32} {o : UInt64}
    (hplace : rollFile st.maxFileBytes len c.nextFileId c.nextOffset = .ok (f, o))
    (x data : Bytes) {i n : Nat} (hb : Before c f (i + n)) :
    (x.writeAt o.toNat data).slice i n = x.slice i n := by
  refine slice_writeAt_disjoint (.inl ?_)
  obtain ⟨-, hcase⟩ := rollFile_ok hplace
  rcases hb with hlt | ⟨hf, hle⟩ <;> rcases hcase with ⟨hf', ho⟩ | ⟨hlt', -⟩
  · rw [hf'] at hlt; omega
  · omega
  · rw [ho]; exact hle
  · rw [hf] at hlt'; omega

/-- The end of an append of `n` bytes at the offset `o` of the file `f`: the next append point. -/
def endAppend (c : Control) (b : Batch) (f : UInt32) (o : UInt64) (len : UInt32) (n : Nat) :
    Act ((UInt32 × UInt64 × UInt32) × Control × Batch) :=
  match checkedAdd64 o n with
  | none => throw (.databaseError .nextOffsetOverflow)
  | some nextOffset =>
    pure ((f, o, len), { c with nextFileId := f, nextOffset },
      { b with
        dataPositions := fun g => if g = f then some (saturatingAdd64 o n) else b.dataPositions g
        touchedData := f :: b.touchedData })

/-- **An append** writes the block at or past the append point, or fails quietly. -/
theorem appendData_spec {data : Bytes} {b : Batch} (hb : BatchOk d b w) :
    wp (appendData st d c data b) (Appended st d c data w) (AppendFailed st d c data w) w := by
  have hrefl : Quiet d c w w := ⟨Frame.refl _ _, rfl, .of_files c fun _ => rfl⟩
  unfold appendData
  cases hlen : tryFrom32 data.length with
  | none =>
    refine wp_throw ⟨hrefl, fun _ hfit => ?_, by simp [SplitBug]⟩
    have := tryFrom32_eq_none hlen
    exact absurd hfit.1 (by omega)
  | some len =>
    refine wp_bind (wp_lift (fun r hr => ?_) fun e he => ?_)
    case refine_2 =>
      refine ⟨hrefl, fun _ hfit => ?_, rollFile_error he⟩
      obtain ⟨-, f, o, hok, -⟩ := hfit
      rw [he] at hok
      cases hok
    obtain ⟨f, o⟩ := r
    refine wp_bind (wp_mono (openDataFile_spec c hb) (fun b1 w1 h1 => ?_) fun e w' h => ?_)
    case refine_2 => exact ⟨h.2.2, fun hf => absurd hf h.2.1, by simp [h.1, SplitBug]⟩
    obtain ⟨hq1, hb1, hfile1⟩ := h1
    -- The recorded position is reset to the append point.
    have hpos : (if (b1.dataPositions f).getD o ≠ o then o else (b1.dataPositions f).getD o) = o := by
      split
      · rfl
      · rename_i h; exact not_not.1 h
    simp only [hpos]
    have hwrite : ∀ x, Quiet d c w ((w1.setFile (d, .data f)
        ((w1.content (d, .data f)).writeAt o.toNat x)).logged (.write (d, .data f))) := by
      intro x
      refine (hq1.trans (Quiet.setFile (fun i n hbf => ?_) (length_le_writeAt _ _ _))).trans
        (.logged c fun p hp => ⟨f, by simpa using hp.symm⟩)
      exact slice_writeAt_place hr _ _ hbf
    have hdone : ∀ w2, Quiet d c w w2 → (w2.files (d, .data f)).isSome →
        (w2.content (d, .data f)).slice o.toNat data.length = data →
        (data.length = 0 ∨ o.toNat + data.length ≤ (w2.content (d, .data f)).length) →
        (∀ g, (w1.files (d, .data g)).isSome → (w2.files (d, .data g)).isSome) →
        wp (endAppend c b1 f o len data.length) (Appended st d c data w)
          (AppendFailed st d c data w) w2 := by
      intro w2 hq2 hfile hbytes hfits hkept
      unfold endAppend
      cases hoff : checkedAdd64 o data.length with
      | none =>
        have hover := checkedAdd64_eq_none hoff
        have hmax := st.maxFileBytes.toNat_lt
        have := (rollFile_ok hr).1
        omega
      | some nextOffset =>
        exact wp_pure ⟨hq2, hr, tryFrom32_eq_some hlen, rfl, rfl, rfl, checkedAdd64_eq_some hoff,
          hb1.kept hkept, hfile, hbytes, hfits⟩
    refine wp_bind (wp_writeAllAt (fun hnil => ?_) (fun hne hmax _ => ?_) (fun hbig => ?_)
      fun k hf _ => ?_)
    · refine hdone w1 hq1 hfile1 ?_ (.inl (by simp [hnil])) fun _ h => h
      rw [hnil]
      rfl
    · refine hdone _ (hwrite data) (by simp) ?_ (.inr ?_) fun g hg => ?_
      · rw [World.content_logged, World.content_setFile_self]
        exact slice_writeAt_same _ _ _
      · rw [World.content_logged, World.content_setFile_self]
        exact end_le_writeAt (.inl hne)
      · rw [World.logged_files]
        exact (Frame.setFile (IsData d) ⟨f, rfl⟩ w1 _).kept _ hg
    · refine ⟨hq1.trans (.logged c fun p hp => ⟨f, by simpa using hp.symm⟩), fun _ hfit => ?_,
        by simp [SplitBug]⟩
      obtain ⟨-, f', o', hok, hle⟩ := hfit
      rw [hr] at hok
      cases hok
      omega
    · refine ⟨hwrite _, fun hnf => ?_, by simp [SplitBug]⟩
      exact absurd (hq1.frame.noFaults.2 hnf) (World.not_noFaults hf)

end

end Storage.DeltaFlat
