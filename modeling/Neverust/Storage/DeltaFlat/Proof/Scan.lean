import Neverust.Storage.DeltaFlat.Proof.Batch

/-!
# Scans over the lanes of a CID

`get`, `has` and `delete` look at the lanes of a CID in the order of the size classes and stop at
the first one that has an entry of it.

* `Reaches`: the control record of a lane gives the CID a bucket. Without an IO fault a scan fails
  only at a lane that does not.
* `findEntry_spec`, `get_spec`, `has_spec`: what a scan finds.
* `deleteFrom_spec`: a deletion takes one item of the CID out of the lane it stops at.
-/

namespace Storage.DeltaFlat

open Io Rust Bytes LinearHash

/-- The control record of the lane, if it has one, gives the CID a bucket. -/
def Reaches (H : Bytes → SplitHash) (d : LaneDir) (w : Disk) (cid : Bytes) : Prop :=
  (w.files (d, .index)).isSome → ∀ c, HoldsControl d w c →
    ∃ bucket, primaryBucket (H cid).even c = .ok bucket

/-- The contents have no item of the CID. -/
def Absent (cid : Bytes) (m : List Item) : Prop := ∀ x ∈ m, x.1 ≠ cid

section
variable {cr : Crates} {st st₀ : Store} {d : LaneDir} {c c' : Control} {w w' w'' : Disk}
  {l : List Entry} {m : List Item} {H : Bytes → SplitHash}

theorem HoldsControl.unique (hi : LaneInv H st d c w) (h : HoldsControl d w c)
    (h' : HoldsControl d w c') : c' = c := by
  have hlevel := hi.index.level
  refine encodeControl_inj (by omega) hi.index.valid ?_
  have hbytes : (encodeControl c').bytes = (encodeControl c).bytes := h'.symm.trans h
  cases h1 : encodeControl c'
  cases h2 : encodeControl c
  rw [h1, h2] at hbytes
  cases hbytes
  rfl

theorem reaches_iff (hi : LaneInv H st d c w) (hc : HoldsControl d w c)
    (hx : (w.files (d, .index)).isSome) (cid : Bytes) :
    Reaches H d w cid ↔ Addressable c.shape (H cid).even.toNat := by
  constructor
  · intro h
    obtain ⟨b, hb⟩ := h hx c hc
    by_contra hna
    rw [hi.index.primaryBucket_error hna] at hb
    cases hb
  · intro ha _ c' hc'
    rw [hc.unique hi hc']
    exact ⟨_, hi.index.primaryBucket_eq ha⟩

theorem reaches_of_blank (hb : Blank d w) (cid : Bytes) : Reaches H d w cid := by
  intro _ c hc
  have h1 := hb.control
  have h2 := hc.length
  omega

theorem Reaches.congr {cid : Bytes} (hf : ∀ f, w'.files (d, f) = w.files (d, f)) :
    Reaches H d w' cid ↔ Reaches H d w cid := by
  unfold Reaches HoldsControl World.content
  rw [hf, hf]

theorem reaches_untouched {cid : Bytes} (hu : Untouched w w') :
    Reaches H d w' cid ↔ Reaches H d w cid :=
  Reaches.congr fun f => by rw [hu.files]

theorem absent_perm {cid : Bytes} {m' : List Item} (h : m.Perm m') :
    Absent cid m ↔ Absent cid m' :=
  ⟨fun ha x hx => ha x (h.mem_iff.2 hx), fun ha x hx => ha x (h.mem_iff.1 hx)⟩

theorem absent_contentOf {cid : Bytes} (h : ∀ e ∈ l, e.cid ≠ cid) :
    Absent cid (contentOf d w l) := by
  intro x hx
  obtain ⟨e, he, hec, -⟩ := mem_contentOf.1 hx
  rw [← hec]
  exact h e he

/-! ## One lane -/

/-- The entry a lookup takes: the first one of the CID on the page of its bucket. -/
def Chosen (H : Bytes → SplitHash) (d : LaneDir) (w : Disk) (cid : Bytes) (e : Entry) : Prop :=
  ∃ c slot, HoldsControl d w c ∧
    findEntrySlot (pageAt (w.content (d, .index)) (c.shape.addr (H cid).even.toNat)) cid
      (H cid).fingerprint (H cid).hash64 = .ok (some (slot, e))

theorem Chosen.congr {cid : Bytes} {e : Entry} (hu : Untouched w w') (h : Chosen H d w' cid e) :
    Chosen H d w cid e := by
  obtain ⟨c, slot, hc, hf⟩ := h
  rw [HoldsControl, hu.content] at hc
  rw [hu.content] at hf
  exact ⟨c, slot, hc, hf⟩

theorem Chosen.unique {cid : Bytes} {e e' : Entry} (hd : LaneHolds H st d w m)
    (h : Chosen H d w cid e) (h' : Chosen H d w cid e') : e = e' := by
  obtain ⟨c, slot, hc, hf⟩ := h
  obtain ⟨c', slot', hc', hf'⟩ := h'
  obtain ⟨l, hl, -⟩ := hd
  cases hl with
  | blank hb =>
    have h1 := hb.control
    have h2 := hc.length
    omega
  | control c₁ hc₁ hi₁ =>
    obtain rfl := hc₁.unique hi₁ hc
    obtain rfl := hc₁.unique hi₁ hc'
    rw [hf] at hf'
    cases hf'
    rfl

/-- What a lookup finds in a lane. -/
inductive Looked (H : Bytes → SplitHash) (d : LaneDir) (w : Disk) (m : List Item) (cid : Bytes) :
    Option Entry → Prop
  | none (h : Absent cid m) : Looked H d w m cid none
  | some (e : Entry) (hx : (cid, blockOf d w e) ∈ m) (ho : OnDisk d w e)
      (hc : Chosen H d w cid e) : Looked H d w m cid (some e)

/-- How a lookup or a deletion fails without an IO fault. -/
def Unreached (H : Bytes → SplitHash) (d : LaneDir) (cid : Bytes) (w : Disk) (e : StorageError) :
    Prop :=
  e = .databaseError .expandedBaseOverflow ∧ ¬ Reaches H d w cid ∨
    e = .ioError .other ∧ ¬ w.NoFaults

theorem lookupControl_spec {cid : Cid} (hd : LaneDisk (hashOf cr) st d w l)
    (hm : (contentOf d w l).Perm m) (hx : (w.files (d, .index)).isSome) :
    wp (lookupControl cr d cid)
      (fun r w' => Untouched w w' ∧ Looked (hashOf cr) d w m (cr.cidToBytes cid) r ∧
        Reaches (hashOf cr) d w (cr.cidToBytes cid))
      (fun e w' => Untouched w w' ∧ Unreached (hashOf cr) d (cr.cidToBytes cid) w e) w := by
  cases hd with
  | blank hb =>
    refine wp_bind (wp_mono (readControlRaw_blank hb.control) (fun r w1 h1 => ?_) fun e w' h => ?_)
    · obtain ⟨rfl, hu⟩ := h1
      refine wp_pure ⟨hu, .none ((absent_perm hm).1 ?_), reaches_of_blank hb _⟩
      exact absent_contentOf fun e he => absurd he List.not_mem_nil
    · exact ⟨h.2.2, .inr ⟨h.1, h.2.1⟩⟩
  | control c hc hi =>
    refine wp_bind (wp_mono (readControlRaw_holds hc hi.index.level hi.index.valid)
      (fun r w1 h1 => ?_) fun e w' h => ?_)
    case refine_2 => exact ⟨h.2.2, .inr ⟨h.1, h.2.1⟩⟩
    obtain ⟨rfl, hu⟩ := h1
    have hi1 := hi.untouched hu
    have hl1 := laneEntries_kept c (pagesKept_of_untouched hu hi.index.aligned)
    have hiff := reaches_iff hi hc hx (cr.cidToBytes cid)
    refine wp_bind (wp_mono (lookupInClass_spec hi1.index _) (fun r w2 h2 => ?_) fun e w' h => ?_)
    case refine_2 =>
      refine ⟨hu.trans h.untouched, h.error.imp (And.imp_right fun hna => ?_) (And.imp_right ?_)⟩
      · rwa [hiff]
      · exact hu.noFaults.not.1
    obtain ⟨hu2, hfound, ha⟩ := h2
    refine wp_pure ⟨hu.trans hu2, ?_, hiff.2 ha⟩
    cases hfound with
    | none hno =>
      rw [hl1] at hno
      exact .none ((absent_perm hm).1 (absent_contentOf hno))
    | some slot e _ _ hmem hcid hf =>
      rw [hl1] at hmem
      rw [hu.content] at hf
      exact .some e (hm.mem_iff.1 (mem_contentOf.2 ⟨e, hmem, hcid, rfl⟩)) (hi.data.onDisk e hmem)
        ⟨c, slot, hc, hf⟩

theorem laneExists_spec (d : LaneDir) (w : Disk) :
    wp (laneExists d) (fun b w' => w' = w ∧
      (b = true ↔ (w.files (d, .control)).isSome ∧ (w.files (d, .index)).isSome))
      (fun _ _ => False) w := by
  refine wp_bind (wp_fileExists (wp_bind (wp_fileExists (wp_pure ⟨rfl, ?_⟩))))
  rw [Bool.and_eq_true]

/-- A lane that is not there holds nothing and stops no scan. -/
theorem LaneHolds.of_missing (hd : LaneHolds H st d w m)
    (hx : ¬ ((w.files (d, .control)).isSome ∧ (w.files (d, .index)).isSome)) (cid : Bytes) :
    Absent cid m ∧ Reaches H d w cid := by
  obtain ⟨l, hd, hm⟩ := hd
  cases hd with
  | blank hb =>
    refine ⟨(absent_perm hm).1 (absent_contentOf fun e he => absurd he List.not_mem_nil),
      reaches_of_blank hb cid⟩
  | control c hc hi =>
    have hctl : (w.files (d, .control)).isSome := by
      cases hf : w.files (d, .control) with
      | none =>
        have hlen := hc.length
        rw [World.content, hf] at hlen
        exact absurd hlen (by decide)
      | some x => rfl
    have hidx : w.files (d, .index) = none := by
      cases hf : w.files (d, .index) with
      | none => rfl
      | some x => exact absurd ⟨hctl, by rw [hf]; rfl⟩ hx
    have hempty : ∀ b, pageAt (w.content (d, .index)) b = Buffer.zero bucketBytes := by
      intro b
      rw [World.content, hidx]
      exact pageAt_of_le (Nat.zero_le _)
    refine ⟨(absent_perm hm).1 (absent_contentOf fun e he => ?_), fun h => ?_⟩
    · rw [laneEntries, liveEntries_zero hempty] at he
      cases he
    · rw [hidx] at h
      cases h

/-- The files of a lane that exists are opened. -/
theorem openLane_spec (hx : (w.files (d, .control)).isSome ∧ (w.files (d, .index)).isSome)
    {α : Type} {k : Act α} {Q : α → Disk → Prop} {E : StorageError → Disk → Prop}
    (hk : ∀ w', Untouched w w' → wp k Q E w')
    (he : ∀ w', Untouched w w' → ¬ w.NoFaults → E (.ioError .other) w') :
    wp (do
      openFile (d, .control) (fromIo .notFound)
      openFile (d, .index) (fromIo .notFound)
      lockControl st d
      k) Q E w := by
  have h1 : Untouched w (w.logged (.openFile (d, .control))) := .logged w (by simp)
  refine wp_bind (wp_openFile (fun _ => ?_) (fun hn => ?_) fun hf => he _ h1 hf)
  case refine_2 =>
    rw [hn] at hx
    cases hx.1
  have h2 : Untouched w ((w.logged (.openFile (d, .control))).logged (.openFile (d, .index))) :=
    h1.trans (.logged _ (by simp))
  refine wp_bind (wp_openFile (fun _ => ?_) (fun hn => ?_) fun hf => he _ h2 hf)
  case refine_2 =>
    rw [World.logged_files] at hn
    rw [hn] at hx
    cases hx.2
  refine wp_bind (wp_mono (lockControl_spec st d _) (fun _ w3 h3 => hk w3 (h2.trans h3))
    fun e w' h => ?_)
  obtain ⟨rfl, hf, hu⟩ := h
  exact he w' (h2.trans hu) hf

theorem Looked.congr {cid : Bytes} {r : Option Entry} (hu : Untouched w w')
    (h : Looked H d w' m cid r) : Looked H d w m cid r := by
  cases h with
  | none ha => exact .none ha
  | some e hx ho hc =>
    refine .some e ?_ ?_ (hc.congr hu)
    · rwa [blockOf, hu.content] at hx
    · rwa [OnDisk, hu.files, hu.content] at ho

theorem Unreached.congr {cid : Bytes} {e : StorageError} (hu : Untouched w w')
    (h : Unreached H d cid w' e) : Unreached H d cid w e := by
  exact h.imp (And.imp_right (reaches_untouched hu).not.1) (And.imp_right hu.noFaults.not.1)

/-- **A round of `get` or `has`.** -/
theorem lookupLane_spec {cid : Cid} (hd : LaneHolds (hashOf cr) st₀ d w m)
    (hx : (w.files (d, .control)).isSome ∧ (w.files (d, .index)).isSome) :
    wp (lookupLane cr st d cid)
      (fun r w' => Untouched w w' ∧ Looked (hashOf cr) d w m (cr.cidToBytes cid) r ∧
        Reaches (hashOf cr) d w (cr.cidToBytes cid))
      (fun e w' => Untouched w w' ∧ Unreached (hashOf cr) d (cr.cidToBytes cid) w e) w := by
  refine openLane_spec hx (fun w1 h1 => ?_) fun w' hu hf => ⟨hu, .inr ⟨rfl, hf⟩⟩
  obtain ⟨l, hd, hm⟩ := (sameLane_of_untouched h1).laneHolds hd
  refine wp_bind (wp_captured (wp_mono (lookupControl_spec hd hm (by rw [h1.files]; exact hx.2))
    (fun r w2 h2 => ?_) fun e w2 h2 => ?_))
  · obtain ⟨hu2, hlook, hr⟩ := h2
    refine wp_bind (wp_mono (unlockControl_spec st d w2) (fun _ w3 h3 => ?_) fun e w' h => ?_)
    · exact wp_pure ⟨(h1.trans hu2).trans h3, hlook.congr h1, (reaches_untouched h1).1 hr⟩
    · exact ⟨(h1.trans hu2).trans h.2.2, .inr ⟨h.1, (h1.trans hu2).noFaults.not.1 h.2.1⟩⟩
  · obtain ⟨hu2, hun⟩ := h2
    refine wp_bind (wp_mono (unlockControl_spec st d w2) (fun _ w3 h3 => ?_) fun e w' h => ?_)
    · exact wp_throw ⟨(h1.trans hu2).trans h3, hun.congr h1⟩
    · exact ⟨(h1.trans hu2).trans h.2.2, .inr ⟨h.1, (h1.trans hu2).noFaults.not.1 h.2.1⟩⟩

theorem readEntry_spec {cid : Cid} {e : Entry} (ho : OnDisk d w e) :
    wp (readEntry cr d cid e)
      (fun b w' => Untouched w w' ∧ b = ⟨cid, blockOf d w e⟩)
      (fun err w' => Untouched w w' ∧ err = .ioError .other ∧ ¬ w.NoFaults) w := by
  have h1 : Untouched w (w.logged (.openFile (d, .data e.fileId))) := .logged w (by simp)
  refine wp_bind (wp_openFile (fun _ => ?_) (fun hn => ?_) fun hf => ⟨h1, rfl, hf⟩)
  case refine_2 =>
    have := ho.1
    rw [hn] at this
    cases this
  have h2 : Untouched w ((w.logged (.openFile (d, .data e.fileId))).logged
      (.read (d, .data e.fileId))) := h1.trans (.logged _ (by simp))
  refine wp_bind (wp_readExactAt (fun hz => ?_) (fun hpos => ?_) fun hf => ⟨h2, rfl, hf⟩)
  · refine wp_pure ⟨h1, ?_⟩
    rw [blockOf, hz]
    rfl
  · have hle : e.offset.toNat + e.len.toNat ≤ (w.content (d, .data e.fileId)).length := by
      rcases ho.2 with h | h
      · omega
      · exact h
    rw [World.content_logged, readAt_of_le hle]
    exact wp_pure ⟨h2, rfl⟩

/-! ## Scans -/

/-- What a scan finds. -/
inductive Scanned (H : Bytes → SplitHash) (w : Disk) (C : LaneDir → List Item) (cid : Bytes)
    (ds : List LaneDir) : Option (LaneDir × Entry) → Prop
  | none (h : ∀ d ∈ ds, Absent cid (C d) ∧ Reaches H d w cid) : Scanned H w C cid ds none
  | some (before : List LaneDir) (d : LaneDir) (after : List LaneDir) (e : Entry)
      (hds : ds = before ++ d :: after)
      (hb : ∀ d' ∈ before, Absent cid (C d') ∧ Reaches H d' w cid) (hr : Reaches H d w cid)
      (hx : (cid, blockOf d w e) ∈ C d) (ho : OnDisk d w e) (hc : Chosen H d w cid e) :
      Scanned H w C cid ds (some (d, e))

/-- How a scan fails: at a lane that does not reach the CID, none before it having an item, or by
an IO fault. -/
def ScanFailed (H : Bytes → SplitHash) (w : Disk) (C : LaneDir → List Item) (cid : Bytes)
    (ds : List LaneDir) (e : StorageError) : Prop :=
  (e = .databaseError .expandedBaseOverflow ∧ ∃ before d after, ds = before ++ d :: after ∧
    (∀ d' ∈ before, Absent cid (C d')) ∧ ¬ Reaches H d w cid) ∨ e = .ioError .other ∧ ¬ w.NoFaults

theorem Scanned.cons {C : LaneDir → List Item} {cid : Bytes} {ds : List LaneDir}
    {r : Option (LaneDir × Entry)} (hd : Absent cid (C d) ∧ Reaches H d w cid)
    (h : Scanned H w C cid ds r) : Scanned H w C cid (d :: ds) r := by
  cases h with
  | none h => exact .none fun d' hd' => (List.mem_cons.1 hd').elim (fun h => h ▸ hd) (h d')
  | some before d' after e hds hb hr hx ho hc =>
    refine .some (d :: before) d' after e (by rw [hds]; rfl) (fun x hx' => ?_) hr hx ho hc
    exact (List.mem_cons.1 hx').elim (fun h => h ▸ hd) (hb x)

theorem ScanFailed.cons {C : LaneDir → List Item} {cid : Bytes} {ds : List LaneDir}
    {e : StorageError} (hd : Absent cid (C d)) (h : ScanFailed H w C cid ds e) :
    ScanFailed H w C cid (d :: ds) e := by
  refine h.imp_left fun ⟨he, before, d', after, hds, hb, hr⟩ => ?_
  refine ⟨he, d :: before, d', after, by rw [hds]; rfl, fun x hx => ?_, hr⟩
  exact (List.mem_cons.1 hx).elim (fun h => h ▸ hd) (hb x)

theorem Scanned.congr {C : LaneDir → List Item} {cid : Bytes} {ds : List LaneDir}
    {r : Option (LaneDir × Entry)} (hu : Untouched w w') (h : Scanned H w' C cid ds r) :
    Scanned H w C cid ds r := by
  have hreach : ∀ d, Reaches H d w' cid ↔ Reaches H d w cid := fun d => reaches_untouched hu
  cases h with
  | none h => exact .none fun d hd => ⟨(h d hd).1, (hreach d).1 (h d hd).2⟩
  | some before d after e hds hb hr hx ho hc =>
    refine .some before d after e hds (fun d' hd' => ⟨(hb d' hd').1, (hreach d').1 (hb d' hd').2⟩)
      ((hreach d).1 hr) ?_ ?_ (hc.congr hu)
    · rwa [blockOf, hu.content] at hx
    · rwa [OnDisk, hu.files, hu.content] at ho

theorem ScanFailed.congr {C : LaneDir → List Item} {cid : Bytes} {ds : List LaneDir}
    {e : StorageError} (hu : Untouched w w') (h : ScanFailed H w' C cid ds e) :
    ScanFailed H w C cid ds e := by
  refine h.imp (fun ⟨he, before, d, after, hds, hb, hr⟩ => ⟨he, before, d, after, hds, hb, ?_⟩)
    (And.imp_right hu.noFaults.not.1)
  exact (reaches_untouched hu).not.1 hr

/-- **The loop of `get` and `has`**, by induction on the lanes left. -/
theorem findEntry_spec {C : LaneDir → List Item} {cid : Cid} (ds : List LaneDir)
    (hall : ∀ d ∈ ds, LaneHolds (hashOf cr) st₀ d w (C d)) :
    wp (findEntry cr st cid ds)
      (fun r w' => Untouched w w' ∧ Scanned (hashOf cr) w C (cr.cidToBytes cid) ds r)
      (fun e w' => Untouched w w' ∧ ScanFailed (hashOf cr) w C (cr.cidToBytes cid) ds e) w := by
  induction ds generalizing w with
  | nil => exact wp_pure ⟨.refl w, .none fun d hd => absurd hd List.not_mem_nil⟩
  | cons d ds ih =>
    have hd := hall d (.head _)
    have hrest : ∀ d' ∈ ds, LaneHolds (hashOf cr) st₀ d' w (C d') :=
      fun d' hd' => hall d' (.tail _ hd')
    refine wp_bind (wp_mono (laneExists_spec d w) (fun b w1 h1 => ?_) fun _ _ h => h.elim)
    obtain ⟨rfl, hb⟩ := h1
    by_cases hx : (w1.files (d, .control)).isSome ∧ (w1.files (d, .index)).isSome
    · rw [if_pos (hb.2 hx)]
      refine wp_bind (wp_mono (lookupLane_spec hd hx) (fun r w2 h2 => ?_) fun e w' h => ?_)
      · obtain ⟨hu, hlook, hr⟩ := h2
        cases hlook with
        | none ha =>
          have hrest2 : ∀ d' ∈ ds, LaneHolds (hashOf cr) st₀ d' w2 (C d') :=
            fun d' hd' => (sameLane_of_untouched hu).laneHolds (hrest d' hd')
          refine wp_mono (ih hrest2) (fun r w3 h3 => ?_) fun e w3 h3 => ?_
          · exact ⟨hu.trans h3.1, (h3.2.congr hu).cons ⟨ha, hr⟩⟩
          · exact ⟨hu.trans h3.1, (h3.2.congr hu).cons ha⟩
        | some e hx' ho hc =>
          exact wp_pure ⟨hu,
            .some [] d ds e rfl (fun _ h => absurd h List.not_mem_nil) hr hx' ho hc⟩
      · obtain ⟨hu, hun⟩ := h
        refine ⟨hu, hun.imp (fun ⟨he, hr⟩ => ?_) fun h => h⟩
        exact ⟨he, [], d, ds, rfl, fun _ h => absurd h List.not_mem_nil, hr⟩
    · rw [if_neg fun h => hx (hb.1 h)]
      obtain ⟨ha, hr⟩ := hd.of_missing hx (cr.cidToBytes cid)
      refine wp_mono (ih hrest) (fun r w3 h3 => ?_) fun e w3 h3 => ?_
      · exact ⟨h3.1, h3.2.cons ⟨ha, hr⟩⟩
      · exact ⟨h3.1, h3.2.cons ha⟩

/-- The contents of every lane. -/
def StoreHolds (H : Bytes → SplitHash) (st : Store) (w : Disk) (C : LaneDir → List Item) : Prop :=
  ∀ d, LaneHolds H st d w (C d)

theorem StoreHolds.untouched {C : LaneDir → List Item} (h : StoreHolds H st w C)
    (hu : Untouched w w') : StoreHolds H st w' C :=
  fun d => (sameLane_of_untouched hu).laneHolds (h d)

/-- What `get` returns. -/
def Got (H : Bytes → SplitHash) (w : Disk) (C : LaneDir → List Item) (cid : Bytes)
    (ds : List LaneDir) (data : Bytes) : Prop :=
  ∃ before d after, ds = before ++ d :: after ∧
    (∀ d' ∈ before, Absent cid (C d') ∧ Reaches H d' w cid) ∧ Reaches H d w cid ∧
    (cid, data) ∈ C d ∧ ∃ e, Chosen H d w cid e ∧ data = blockOf d w e

/-- How `get` fails. -/
def GetFailed (H : Bytes → SplitHash) (w : Disk) (C : LaneDir → List Item) (cid : Bytes)
    (ds : List LaneDir) (key : String) (e : StorageError) : Prop :=
  (e = .blockNotFound key ∧ ∀ d ∈ ds, Absent cid (C d) ∧ Reaches H d w cid) ∨
    ScanFailed H w C cid ds e

/-- **`get`** returns an item of the first lane that has one. -/
theorem get_spec {C : LaneDir → List Item} (cid : Cid) (hS : StoreHolds (hashOf cr) st₀ w C) :
    wp (get cr st cid)
      (fun b w' => Untouched w w' ∧ b.cid = cid ∧
        Got (hashOf cr) w C (cr.cidToBytes cid) (scannedLanes cr st cid) b.data)
      (fun e w' => Untouched w w' ∧ GetFailed (hashOf cr) w C (cr.cidToBytes cid)
        (scannedLanes cr st cid) (cr.cidToString cid) e) w := by
  refine wp_bind (wp_mono (findEntry_spec (scannedLanes cr st cid) fun d _ => hS d)
    (fun r w1 h1 => ?_) fun e w' h => ⟨h.1, .inr h.2⟩)
  obtain ⟨hu, hscan⟩ := h1
  cases hscan with
  | none h => exact wp_throw ⟨hu, .inl ⟨rfl, h⟩⟩
  | some before d after e hds hb hr hx ho hc =>
    have ho1 : OnDisk d w1 e := by
      rw [OnDisk, hu.files, hu.content]
      exact ho
    have hblock : blockOf d w1 e = blockOf d w e := by rw [blockOf, blockOf, hu.content]
    refine wp_mono (readEntry_spec ho1) (fun b w2 h2 => ?_) fun err w' h => ?_
    · obtain ⟨hu2, rfl⟩ := h2
      refine ⟨hu.trans hu2, rfl, before, d, after, hds, hb, hr, ?_, e, hc, hblock⟩
      rw [hblock]
      exact hx
    · exact ⟨hu.trans h.1, .inr (.inr ⟨h.2.1, hu.noFaults.not.1 h.2.2⟩)⟩

/-- **`has`** tells whether a scan finds an item. -/
theorem has_spec {C : LaneDir → List Item} (cid : Cid) (hS : StoreHolds (hashOf cr) st₀ w C) :
    wp (has cr st cid)
      (fun b w' => Untouched w w' ∧
        ((b = true ∧ ∃ data, Got (hashOf cr) w C (cr.cidToBytes cid) (scannedLanes cr st cid) data) ∨
          (b = false ∧ ∃ e, GetFailed (hashOf cr) w C (cr.cidToBytes cid)
            (scannedLanes cr st cid) (cr.cidToString cid) e)))
      (fun _ _ => False) w := by
  refine wp_bind (wp_captured (wp_mono
    (findEntry_spec (scannedLanes cr st cid) fun d _ => hS d) (fun r w1 h1 => ?_) fun e w1 h1 => ?_))
  · obtain ⟨hu, hscan⟩ := h1
    cases hscan with
    | none h => exact wp_pure ⟨hu, .inr ⟨rfl, _, .inl ⟨rfl, h⟩⟩⟩
    | some before d after e hds hb hr hx ho hc =>
      exact wp_pure ⟨hu, .inl ⟨rfl, _, before, d, after, hds, hb, hr, hx, e, hc, rfl⟩⟩
  · exact wp_pure ⟨h1.1, .inr ⟨rfl, e, .inr h1.2⟩⟩

/-! ## Deletion -/

/-- A round of `delete` that took an entry out of the lane. -/
def Cleared (H : Bytes → SplitHash) (st : Store) (d : LaneDir) (cid : Bytes) (w w' : Disk) :
    Prop :=
  ∃ c c' w2, HoldsControl d w c ∧ LaneInv H st d c w ∧ Deleted H st d cid c w c' w2 ∧
    Committed d c' w2 w'

/-- A round of `delete` that failed. -/
inductive ClearFailed (H : Bytes → SplitHash) (st : Store) (d : LaneDir) (cid : Bytes)
    (w : Disk) (e : StorageError) (w' : Disk) : Prop
  | clean (hu : Untouched w w') (he : Unreached H d cid w e)
  | unsettled (hf : Frame (InLane d) w w') (hp : Unsettled d w') (hnf : ¬ w.NoFaults)
  | late (h : Cleared H st d cid w w') (hnf : ¬ w.NoFaults)

theorem Deleted.of_untouched {cid : Bytes} (hi : LaneInv H st d c w) (hu : Untouched w w')
    (h : Deleted H st d cid c w' c' w'') : Deleted H st d cid c w c' w'' := by
  refine ⟨(hu.frame _).trans h.frame, by rw [h.writes, hu.writes], h.inv, h.shape, h.nextFileId,
    h.nextOffset, h.load, ?_⟩
  rw [← laneEntries_kept c (pagesKept_of_untouched hu hi.index.aligned)]
  exact h.effect

theorem Cleared.untouched {cid : Bytes} (h : Cleared H st d cid w w') (hu : Untouched w' w'') :
    Cleared H st d cid w w'' := by
  obtain ⟨c, c', w2, hc, hi, hd, hw⟩ := h
  exact ⟨c, c', w2, hc, hi, hd, hw.untouched hu⟩

theorem Cleared.of_untouched {cid : Bytes} (hu : Untouched w w') (h : Cleared H st d cid w' w'') :
    Cleared H st d cid w w'' := by
  obtain ⟨c, c', w2, hc, hi, hd, hw⟩ := h
  have hiw : LaneInv H st d c w := by
    refine SameLane.laneInv (w := w') ⟨fun f => (hu.content _).symm, fun f => ?_⟩ hi
    rw [hu.files]
    exact id
  refine ⟨c, c', w2, ?_, hiw, hd.of_untouched hiw hu, hw⟩
  rw [HoldsControl, ← hu.content]
  exact hc

theorem Cleared.frame {cid : Bytes} (h : Cleared H st d cid w w') : Frame (InLane d) w w' := by
  obtain ⟨c, c', w2, hc, hi, hd, hw⟩ := h
  exact (inLane_of_index hd.frame).trans (inLane_of_control hw.frame)

theorem ClearFailed.untouched {cid : Bytes} {e : StorageError} (h : ClearFailed H st d cid w e w')
    (hu : Untouched w' w'') : ClearFailed H st d cid w e w'' := by
  cases h with
  | clean hu' he => exact .clean (hu'.trans hu) he
  | unsettled hf hp hnf => exact .unsettled (hf.trans (hu.frame _)) ((Unsettled.congr hu).2 hp) hnf
  | late h hnf => exact .late (h.untouched hu) hnf

theorem ClearFailed.of_untouched {cid : Bytes} {e : StorageError} (hu : Untouched w w')
    (h : ClearFailed H st d cid w' e w'') : ClearFailed H st d cid w e w'' := by
  cases h with
  | clean hu' he => exact .clean (hu.trans hu') (he.congr hu)
  | unsettled hf hp hnf => exact .unsettled ((hu.frame _).trans hf) hp (hu.noFaults.not.1 hnf)
  | late h hnf => exact .late (h.of_untouched hu) (hu.noFaults.not.1 hnf)

theorem deleteControl_spec {cid : Cid} (hd : LaneDisk (hashOf cr) st d w l)
    (hm : (contentOf d w l).Perm m) (hx : (w.files (d, .index)).isSome) :
    wp (deleteControl cr st d cid)
      (fun b w' => Reaches (hashOf cr) d w (cr.cidToBytes cid) ∧
        ((b = false ∧ Untouched w w' ∧ Absent (cr.cidToBytes cid) m) ∨
          (b = true ∧ Cleared (hashOf cr) st d (cr.cidToBytes cid) w w')))
      (ClearFailed (hashOf cr) st d (cr.cidToBytes cid) w) w := by
  cases hd with
  | blank hb =>
    refine wp_bind (wp_mono (readControlRaw_blank hb.control) (fun r w1 h1 => ?_) fun e w' h => ?_)
    · obtain ⟨rfl, hu⟩ := h1
      refine wp_pure ⟨reaches_of_blank hb _, .inl ⟨rfl, hu, (absent_perm hm).1 ?_⟩⟩
      exact absent_contentOf fun e he => absurd he List.not_mem_nil
    · exact .clean h.2.2 (.inr ⟨h.1, h.2.1⟩)
  | control c hc hi =>
    refine wp_bind (wp_mono (readControlRaw_holds hc hi.index.level hi.index.valid)
      (fun r w1 h1 => ?_) fun e w' h => ?_)
    case refine_2 => exact .clean h.2.2 (.inr ⟨h.1, h.2.1⟩)
    obtain ⟨rfl, hu⟩ := h1
    have hi1 := hi.untouched hu
    have hl1 := laneEntries_kept c (pagesKept_of_untouched hu hi.index.aligned)
    have hiff := reaches_iff hi hc hx (cr.cidToBytes cid)
    refine wp_bind (wp_mono (deleteInClass_spec hi1 _) (fun r w2 h2 => ?_) fun e w' h => ?_)
    case refine_2 =>
      rcases h with hl | ⟨hf, hw, -, hnf⟩
      · refine .clean (hu.trans hl.untouched) (hl.error.imp (And.imp_right hiff.not.2) ?_)
        exact And.imp_right hu.noFaults.not.1
      · refine .unsettled ((hu.frame _).trans (inLane_of_index hf))
          (hf.pending_of_write (by omega) (hf.writes _ (by simp))) (hu.noFaults.not.1 hnf)
    cases r with
    | none =>
      obtain ⟨hu2, hno, ha⟩ := h2
      rw [hl1] at hno
      exact wp_pure ⟨hiff.2 ha, .inl ⟨rfl, hu.trans hu2, (absent_perm hm).1 (absent_contentOf hno)⟩⟩
    | some c' =>
      have hdel := h2.1.of_untouched hi hu
      have hlen : (w2.content (d, .control)).length ≤ controlLen := by
        rw [hdel.frame.content (by simp)]
        exact Nat.le_of_eq hc.length
      have hnf2 : w2.NoFaults ↔ w.NoFaults := hdel.frame.noFaults
      refine wp_bind (wp_mono (writeControlRaw_spec hlen c') (fun _ w3 h3 => ?_) fun e w' h => ?_)
      case refine_2 =>
        obtain ⟨-, hf, hw, hp, -⟩ := h
        refine .unsettled ((inLane_of_index hdel.frame).trans (inLane_of_control hw.frame)) ?_
          (hnf2.not.1 hf)
        rw [Unsettled, hp]
        have hwr := hdel.writes
        exact hdel.frame.pending_of_write (by omega) (hdel.frame.writes _ (by simp))
      have hdone : Cleared (hashOf cr) st d (cr.cidToBytes cid) w w3 :=
        ⟨c, c', w2, hc, hi, hdel, h3.1.frame, h3.2.1, by rw [Unsettled, h3.2.2]; decide⟩
      have hnf3 : w3.NoFaults ↔ w.NoFaults := h3.1.frame.noFaults.trans hnf2
      have hreach := hiff.2 h2.2
      cases st.fsyncWrites with
      | true =>
        refine wp_bind (wp_mono (wp_attempt_untouched (.refl w3) (by simp)) (fun _ w4 h4 => ?_)
          fun e w' h => .late (hdone.untouched h.2.2) (hnf3.not.1 h.2.1))
        refine wp_bind (wp_mono (wp_attempt_untouched h4 (by simp)) (fun _ w5 h5 => ?_)
          fun e w' h => .late (hdone.untouched h.2.2) (hnf3.not.1 h.2.1))
        exact wp_pure ⟨hreach, .inr ⟨rfl, hdone.untouched h5⟩⟩
      | false => exact wp_pure ⟨hreach, .inr ⟨rfl, hdone⟩⟩

/-- **A round of `delete`.** -/
theorem deleteLane_spec {cid : Cid} (hd : LaneHolds (hashOf cr) st d w m)
    (hx : (w.files (d, .control)).isSome ∧ (w.files (d, .index)).isSome) :
    wp (deleteLane cr st d cid)
      (fun b w' => Reaches (hashOf cr) d w (cr.cidToBytes cid) ∧
        ((b = false ∧ Untouched w w' ∧ Absent (cr.cidToBytes cid) m) ∨
          (b = true ∧ Cleared (hashOf cr) st d (cr.cidToBytes cid) w w')))
      (ClearFailed (hashOf cr) st d (cr.cidToBytes cid) w) w := by
  refine openLane_spec hx (fun w1 h1 => ?_) fun w' hu hf => .clean hu (.inr ⟨rfl, hf⟩)
  obtain ⟨l, hd, hm⟩ := (sameLane_of_untouched h1).laneHolds hd
  refine wp_bind (wp_captured (wp_mono (deleteControl_spec hd hm (by rw [h1.files]; exact hx.2))
    (fun b w2 h2 => ?_) fun e w2 h2 => ?_))
  · obtain ⟨hr, h2⟩ := h2
    have hreach := (reaches_untouched h1).1 hr
    refine wp_bind (wp_captured (wp_mono (unlockControl_spec st d w2) (fun _ w3 h3 => ?_)
      fun e w3 h3 => ?_))
    · refine wp_pure ⟨hreach, h2.imp (fun ⟨hb, hu, ha⟩ => ⟨hb, ?_, ha⟩) fun ⟨hb, hc⟩ => ⟨hb, ?_⟩⟩
      · exact (h1.trans hu).trans h3
      · exact (hc.of_untouched h1).untouched h3
    · obtain ⟨rfl, hf, hu3⟩ := h3
      rcases h2 with ⟨-, hu, ha⟩ | ⟨-, hc⟩
      · have hu2 := h1.trans hu
        exact wp_throw (.clean (hu2.trans hu3) (.inr ⟨rfl, hu2.noFaults.not.1 hf⟩))
      · refine wp_throw (.late ((hc.of_untouched h1).untouched hu3) ?_)
        exact ((hc.of_untouched h1).frame).noFaults.not.1 hf
  · refine wp_bind (wp_captured (wp_mono (unlockControl_spec st d w2) (fun _ w3 h3 => ?_)
      fun e w3 h3 => ?_))
    · exact wp_throw ((h2.of_untouched h1).untouched h3)
    · exact wp_throw ((h2.of_untouched h1).untouched h3.2.2)

/-- Where `delete` takes its entry from. -/
def ClearedIn (H : Bytes → SplitHash) (st : Store) (C : LaneDir → List Item) (cid : Bytes)
    (ds : List LaneDir) (w w' : Disk) : Prop :=
  ∃ before d after, ds = before ++ d :: after ∧
    (∀ d' ∈ before, Absent cid (C d') ∧ Reaches H d' w cid) ∧ Reaches H d w cid ∧
    Cleared H st d cid w w'

/-- How `delete` fails. -/
inductive DeleteFailed (H : Bytes → SplitHash) (st : Store) (C : LaneDir → List Item)
    (cid : Bytes) (ds : List LaneDir) (key : String) (w : Disk) (e : StorageError) (w' : Disk) :
    Prop
  | clean (hu : Untouched w w') (he : GetFailed H w C cid ds key e)
  | lane (d : LaneDir) (hd : d ∈ ds) (h : ClearFailed H st d cid w e w') (hnf : ¬ w.NoFaults)

/-- **The loop of `delete`**, by induction on the lanes left. -/
theorem deleteFrom_spec {C : LaneDir → List Item} {cid : Cid} (ds : List LaneDir)
    (hall : ∀ d ∈ ds, LaneHolds (hashOf cr) st d w (C d)) :
    wp (deleteFrom cr st cid ds)
      (fun _ w' => ClearedIn (hashOf cr) st C (cr.cidToBytes cid) ds w w')
      (DeleteFailed (hashOf cr) st C (cr.cidToBytes cid) ds (cr.cidToString cid) w) w := by
  induction ds generalizing w with
  | nil =>
    exact wp_throw (.clean (.refl w) (.inl ⟨rfl, fun d hd => absurd hd List.not_mem_nil⟩))
  | cons d ds ih =>
    have hd := hall d (.head _)
    have hrest : ∀ d' ∈ ds, LaneHolds (hashOf cr) st d' w (C d') :=
      fun d' hd' => hall d' (.tail _ hd')
    -- The rest of the scan, after a lane without the CID.
    have hnext : ∀ w1, Untouched w w1 → Absent (cr.cidToBytes cid) (C d) →
        Reaches (hashOf cr) d w (cr.cidToBytes cid) →
        wp (deleteFrom cr st cid ds)
          (fun _ w' => ClearedIn (hashOf cr) st C (cr.cidToBytes cid) (d :: ds) w w')
          (DeleteFailed (hashOf cr) st C (cr.cidToBytes cid) (d :: ds) (cr.cidToString cid) w)
          w1 := by
      intro w1 hu ha hr
      refine wp_mono (ih fun d' hd' => (sameLane_of_untouched hu).laneHolds (hrest d' hd'))
        (fun _ w2 h2 => ?_) fun e w2 h2 => ?_
      · obtain ⟨before, d', after, hds, hb, hr', hc⟩ := h2
        refine ⟨d :: before, d', after, by rw [hds]; rfl, fun x hx => ?_,
          (reaches_untouched hu).1 hr', hc.of_untouched hu⟩
        rcases List.mem_cons.1 hx with rfl | hx
        · exact ⟨ha, hr⟩
        · exact ⟨(hb x hx).1, (reaches_untouched hu).1 (hb x hx).2⟩
      · cases h2 with
        | clean hu2 he =>
          refine .clean (hu.trans hu2) ?_
          rcases he with ⟨he, h⟩ | h
          · refine .inl ⟨he, fun x hx => ?_⟩
            rcases List.mem_cons.1 hx with rfl | hx
            · exact ⟨ha, hr⟩
            · exact ⟨(h x hx).1, (reaches_untouched hu).1 (h x hx).2⟩
          · exact .inr ((h.congr hu).cons ha)
        | lane d' hd' h hnf =>
          exact .lane d' (.tail _ hd') (h.of_untouched hu) (hu.noFaults.not.1 hnf)
    refine wp_bind (wp_mono (laneExists_spec d w) (fun b w1 h1 => ?_) fun _ _ h => h.elim)
    obtain ⟨rfl, hb⟩ := h1
    by_cases hx : (w1.files (d, .control)).isSome ∧ (w1.files (d, .index)).isSome
    · rw [if_pos (hb.2 hx)]
      refine wp_bind (wp_mono (deleteLane_spec hd hx) (fun b w2 h2 => ?_) fun e w' h => ?_)
      · obtain ⟨hr, ⟨rfl, hu, ha⟩ | ⟨rfl, hc⟩⟩ := h2
        · exact hnext w2 hu ha hr
        · exact wp_pure ⟨[], d, ds, rfl, fun _ h => absurd h List.not_mem_nil, hr, hc⟩
      · cases h with
        | clean hu he =>
          refine .clean hu (.inr (he.imp (fun ⟨he, hr⟩ => ?_) fun h => h))
          exact ⟨he, [], d, ds, rfl, fun _ h => absurd h List.not_mem_nil, hr⟩
        | unsettled hf hp hnf => exact .lane d (.head _) (.unsettled hf hp hnf) hnf
        | late h hnf => exact .lane d (.head _) (.late h hnf) hnf
    · rw [if_neg fun h => hx (hb.1 h)]
      obtain ⟨ha, hr⟩ := hd.of_missing hx (cr.cidToBytes cid)
      exact hnext w1 (.refl w1) ha hr

/-- **`delete`** takes an item of the CID out of the first lane that has one. -/
theorem delete_spec {C : LaneDir → List Item} (cid : Cid) (hS : StoreHolds (hashOf cr) st w C) :
    wp (delete cr st cid)
      (fun _ w' => ClearedIn (hashOf cr) st C (cr.cidToBytes cid) (scannedLanes cr st cid) w w')
      (DeleteFailed (hashOf cr) st C (cr.cidToBytes cid) (scannedLanes cr st cid)
        (cr.cidToString cid) w) w :=
  deleteFrom_spec (scannedLanes cr st cid) fun d _ => hS d

/-- The lane after its entry is gone. -/
theorem Cleared.laneHolds {cid : Bytes} (hd : LaneHolds H st d w m)
    (h : Cleared H st d cid w w') :
    ∃ data m', m.Perm ((cid, data) :: m') ∧ LaneHolds H st d w' m' := by
  obtain ⟨c, c', w2, hc, hi, hdel, hw⟩ := h
  obtain ⟨e, hcid, hl⟩ := hdel.effect
  -- The record on disk is the one the contents are about.
  have hm : (laneContent d c w).Perm m := by
    obtain ⟨l, hd, hm⟩ := hd
    cases hd with
    | blank hb =>
      have h1 := hb.control
      have h2 := hc.length
      omega
    | control c1 hc1 hi1 =>
      rw [hc.unique hi hc1] at hm
      exact hm
  have hidx : w'.content (d, .index) = w2.content (d, .index) := hw.frame.content (by simp)
  have hpk : PagesKept d w2 w' :=
    ⟨fun b => by rw [hidx], by rw [hidx]; exact hdel.inv.index.aligned⟩
  have hdk : DataKept d c' w2 w' := .of_files _ fun f => hw.frame.files _ (by simp)
  refine ⟨blockOf d w e, laneContent d c' w', hm.symm.trans ?_,
    .of_inv hw.holds (hdel.inv.kept hpk hdk) (.refl _)⟩
  rw [hdel.inv.laneContent_kept hpk hdk]
  have hdata : contentOf d w2 (laneEntries d c' w2) = contentOf d w (laneEntries d c' w2) :=
    contentOf_congr fun x _ => by rw [blockOf, blockOf, hdel.frame.content (by simp)]
  rw [laneContent, laneContent, hdata, ← hcid]
  exact hl.map _

end

end Storage.DeltaFlat
