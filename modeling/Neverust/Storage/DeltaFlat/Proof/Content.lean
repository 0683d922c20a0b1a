import Neverust.Storage.DeltaFlat.Store
import Neverust.Storage.DeltaFlat.Proof.Control

/-!
# The contents of a DeltaFlat lane

What a lane is for: a list of CIDs with their data (`laneContent`), in no order.

* `insertBlocks_spec`: the blocks of a batch are put in one after the other (`putContent`).
* `LaneHolds`: the contents of a lane on disk. They depend on the lane's files only.
-/

namespace Storage.DeltaFlat

open Io Rust Bytes LinearHash

/-! ## Contents -/

/-- A CID with its data. -/
abbrev Item := Bytes × Bytes

/-- A block joins the contents, unless the exists check finds its CID. -/
def putContent (skip : Bool) (m : List Item) (b : Item) : List Item :=
  if !skip && m.any (fun x => x.1 = b.1) then m else b :: m

def putContents (skip : Bool) (m : List Item) (bs : List Item) : List Item :=
  bs.foldl (putContent skip) m

/-- A block of a batch as an item. -/
def itemOf (b : Block × Bytes) : Item := (b.2, b.1.data)

/-- The CIDs and the data of entries. -/
def contentOf (d : LaneDir) (w : Disk) (l : List Entry) : List Item :=
  l.map fun e => (e.cid, blockOf d w e)

def laneContent (d : LaneDir) (c : Control) (w : Disk) : List Item :=
  contentOf d w (laneEntries d c w)

section
variable {skip : Bool} {m m' : List Item} {b x : Item} {bs : List Item}

theorem any_cid_iff {cid : Bytes} : (m.any fun x => x.1 = cid) = true ↔ ∃ x ∈ m, x.1 = cid := by
  simp

theorem putContent_found (hs : skip = false) (h : ∃ x ∈ m, x.1 = b.1) :
    putContent skip m b = m := by
  rw [putContent, if_pos]
  rw [hs, any_cid_iff.2 h]
  rfl

theorem putContent_new (h : skip = false → ∀ x ∈ m, x.1 ≠ b.1) :
    putContent skip m b = b :: m := by
  rw [putContent, if_neg]
  intro hany
  rw [Bool.and_eq_true, any_cid_iff] at hany
  obtain ⟨hs, x, hx, hxb⟩ := hany
  exact h (by simpa using hs) x hx hxb

/-- Both cases of `putContent`. -/
theorem putContent_cases (skip : Bool) (m : List Item) (b : Item) :
    (skip = false ∧ (∃ x ∈ m, x.1 = b.1) ∧ putContent skip m b = m) ∨
      ((skip = false → ∀ x ∈ m, x.1 ≠ b.1) ∧ putContent skip m b = b :: m) := by
  by_cases h : skip = false ∧ ∃ x ∈ m, x.1 = b.1
  · exact .inl ⟨h.1, h.2, putContent_found h.1 h.2⟩
  · have hnew : skip = false → ∀ x ∈ m, x.1 ≠ b.1 :=
      fun hs x hx hxb => h ⟨hs, x, hx, hxb⟩
    exact .inr ⟨hnew, putContent_new hnew⟩

theorem putContent_perm (h : m.Perm m') (b : Item) :
    (putContent skip m b).Perm (putContent skip m' b) := by
  rcases putContent_cases skip m b with ⟨hs, ⟨x, hx, hxb⟩, heq⟩ | ⟨hnew, heq⟩
  · rw [heq, putContent_found hs ⟨x, h.mem_iff.1 hx, hxb⟩]
    exact h
  · rw [heq, putContent_new fun hs x hx => hnew hs x (h.mem_iff.2 hx)]
    exact h.cons b

theorem putContents_perm (h : m.Perm m') (bs : List Item) :
    (putContents skip m bs).Perm (putContents skip m' bs) := by
  induction bs generalizing m m' with
  | nil => exact h
  | cons b bs ih => exact ih (putContent_perm h b)

/-- Contents are kept. -/
theorem mem_putContents_of_mem (h : x ∈ m) (bs : List Item) : x ∈ putContents skip m bs := by
  induction bs generalizing m with
  | nil => exact h
  | cons b bs ih =>
    refine ih ?_
    rcases putContent_cases skip m b with ⟨-, -, heq⟩ | ⟨-, heq⟩
    · rw [heq]; exact h
    · rw [heq]; exact .tail _ h

/-- What is there after a batch was there before or is a block of the batch. -/
theorem mem_of_mem_putContents (h : x ∈ putContents skip m bs) : x ∈ m ∨ x ∈ bs := by
  induction bs generalizing m with
  | nil => exact .inl h
  | cons b bs ih =>
    rcases ih h with hx | hx
    · rcases putContent_cases skip m b with ⟨-, -, heq⟩ | ⟨-, heq⟩
      · rw [heq] at hx
        exact .inl hx
      · rw [heq] at hx
        rcases List.mem_cons.1 hx with rfl | hx
        · exact .inr (.head _)
        · exact .inl hx
    · exact .inr (.tail _ hx)

/-- Every block of the batch has its CID in the contents afterwards. -/
theorem exists_mem_putContents (h : b ∈ bs) : ∃ x ∈ putContents skip m bs, x.1 = b.1 := by
  induction bs generalizing m with
  | nil => cases h
  | cons b' bs ih =>
    rcases List.mem_cons.1 h with rfl | h
    · rcases putContent_cases skip m b with ⟨-, ⟨x, hx, hxb⟩, heq⟩ | ⟨-, heq⟩
      · exact ⟨x, mem_putContents_of_mem (by rw [heq]; exact hx) bs, hxb⟩
      · exact ⟨b, mem_putContents_of_mem (by rw [heq]; exact .head _) bs, rfl⟩
    · exact ih h

/-- With the exists check a CID stays unique. -/
theorem nodup_putContents (hs : skip = false) (h : (m.map Prod.fst).Nodup) (bs : List Item) :
    ((putContents skip m bs).map Prod.fst).Nodup := by
  induction bs generalizing m with
  | nil => exact h
  | cons b bs ih =>
    refine ih ?_
    rcases putContent_cases skip m b with ⟨-, -, heq⟩ | ⟨hnew, heq⟩
    · rw [heq]; exact h
    · rw [heq, List.map_cons, List.nodup_cons]
      refine ⟨fun hmem => ?_, h⟩
      obtain ⟨x, hx, hxb⟩ := List.mem_map.1 hmem
      exact hnew hs x hx hxb

end

section
variable {H : Bytes → SplitHash} {st : Store} {d : LaneDir} {c c' : Control} {w w' : Disk}
  {l l' : List Entry} {m m' : List Item}

theorem mem_contentOf {x : Item} :
    x ∈ contentOf d w l ↔ ∃ e ∈ l, e.cid = x.1 ∧ blockOf d w e = x.2 := by
  rw [contentOf, List.mem_map]
  refine exists_congr fun e => and_congr_right fun _ => ?_
  rw [Prod.ext_iff]

theorem exists_cid_contentOf {cid : Bytes} :
    (∃ x ∈ contentOf d w l, x.1 = cid) ↔ ∃ e ∈ l, e.cid = cid := by
  simp only [mem_contentOf]
  constructor
  · rintro ⟨x, ⟨e, he, hcid, -⟩, rfl⟩
    exact ⟨e, he, hcid⟩
  · rintro ⟨e, he, rfl⟩
    exact ⟨(e.cid, blockOf d w e), ⟨e, he, rfl, rfl⟩, rfl⟩

theorem contentOf_congr (h : ∀ e ∈ l, blockOf d w' e = blockOf d w e) :
    contentOf d w' l = contentOf d w l :=
  List.map_congr_left fun e he => by rw [h e he]

/-- The data of the entries is kept. -/
theorem DataInv.contentOf_kept (hd : DataInv st d c w l) (hk : DataKept d c w w') :
    contentOf d w' l = contentOf d w l :=
  contentOf_congr fun e he => hk.blockOf (hd.before e he)

theorem LaneInv.laneContent_kept (hi : LaneInv H st d c w) (hp : PagesKept d w w')
    (hk : DataKept d c w w') : laneContent d c w' = laneContent d c w := by
  rw [laneContent, laneEntries_kept c hp]
  exact hi.data.contentOf_kept hk

/-! ## Batches -/

/-- **An insertion** puts its block into the contents. -/
theorem Inserted.content (hi : LaneInv H st d c w) {cid data : Bytes} {skip : Bool}
    {r : Control × Batch} (h : Inserted H st d cid data skip c w r w') :
    (laneContent d r.1 w').Perm (putContent skip (laneContent d c w) (cid, data)) := by
  have hkept : contentOf d w' (laneEntries d c w) = laneContent d c w :=
    hi.data.contentOf_kept h.kept
  cases h.effect with
  | found hs hl he _ _ _ =>
    have hfound : ∃ x ∈ laneContent d c w, x.1 = cid := exists_cid_contentOf.2 he
    rw [putContent_found hs hfound, ← hkept]
    exact hl.map _
  | new e hl he hb hn _ _ _ =>
    have hnew : skip = false → ∀ x ∈ laneContent d c w, x.1 ≠ cid := by
      intro hs x hx hxc
      obtain ⟨y, hy, hyc, -⟩ := mem_contentOf.1 hx
      exact hn hs y hy (hyc.trans hxc)
    rw [putContent_new hnew, ← hkept]
    have hitem : (e.cid, blockOf d w' e) = (cid, data) := by rw [he.cid_eq, hb]
    have := hl.map fun e => (e.cid, blockOf d w' e)
    rwa [List.map_cons, hitem] at this

/-- What the loop of `put_many` does to a lane. -/
structure Batched (H : Bytes → SplitHash) (st : Store) (d : LaneDir) (bs : List Item)
    (c : Control) (w : Disk) (s : Control × Batch) (w' : Disk) : Prop where
  frame : Frame (NotControl d) w w'
  inv : LaneInv H st d s.1 w'
  kept : DataKept d c w w'
  append : AppendLe c s.1
  batch : BatchOk d s.2 w'
  quiet : w'.writes (d, .index) = w.writes (d, .index) → s.1 = c ∧ PagesKept d w w'
  content : (laneContent d s.1 w').Perm (putContents st.skipExistsCheck (laneContent d c w) bs)

/-- How it fails. -/
structure BatchFailed (d : LaneDir) (c : Control) (w w' : Disk) : Prop where
  frame : Frame (NotControl d) w w'
  kept : DataKept d c w w'
  quiet : w'.writes (d, .index) = w.writes (d, .index) → PagesKept d w w'

/-- **The loop of `put_many`**, by induction on the blocks. -/
theorem insertBlocks_spec (bs : List (Block × Bytes)) {b : Batch} (hi : LaneInv H st d c w)
    (hb : BatchOk d b w) :
    wp (insertBlocks H st d bs (c, b)) (Batched H st d (bs.map itemOf) c w)
      (fun _ w' => BatchFailed d c w w') w := by
  induction bs generalizing c b w with
  | nil =>
    exact wp_pure ⟨Frame.refl _ w, hi, .of_files c fun _ => rfl, .refl c, hb,
      fun _ => ⟨rfl, fun _ => rfl, hi.index.aligned⟩, .refl _⟩
  | cons x bs ih =>
    refine wp_bind (wp_mono (insertBlockInClass_spec hi hb) (fun r w1 h1 => ?_) fun e w' h => ?_)
    case refine_2 => exact ⟨h.frame, h.kept, h.quiet⟩
    refine wp_mono (ih h1.inv h1.batch) (fun s w2 h2 => ?_) fun e w' h2 => ?_
    · have hframe := h1.frame.trans h2.frame
      refine ⟨hframe, h2.inv, h1.kept.trans h1.append h2.kept, h1.append.trans h2.append, h2.batch,
        fun heq => ?_, h2.content.trans ?_⟩
      · have h01 := h1.frame.writes_le (d, .index)
        have h12 := h2.frame.writes_le (d, .index)
        obtain ⟨hc1, hp1⟩ := h1.quiet (by omega)
        obtain ⟨hc2, hp2⟩ := h2.quiet (by omega)
        exact ⟨hc2.trans hc1, hp1.trans hp2⟩
      · exact putContents_perm (h1.content hi) _
    · refine ⟨h1.frame.trans h2.frame, h1.kept.trans h1.append h2.kept, fun heq => ?_⟩
      have h01 := h1.frame.writes_le (d, .index)
      have h12 := h2.frame.writes_le (d, .index)
      exact (h1.quiet (by omega)).2.trans (h2.quiet (by omega))

/-! ## Lanes on disk -/

/-- The lane `d` on disk has the contents `m`. -/
def LaneHolds (H : Bytes → SplitHash) (st : Store) (d : LaneDir) (w : Disk) (m : List Item) :
    Prop :=
  ∃ l, LaneDisk H st d w l ∧ (contentOf d w l).Perm m

theorem LaneHolds.of_inv (hc : HoldsControl d w c) (hi : LaneInv H st d c w)
    (hm : (laneContent d c w).Perm m) : LaneHolds H st d w m :=
  ⟨_, .control c hc hi, hm⟩

/-- The files of the lane have the same contents in both worlds. -/
structure SameLane (d : LaneDir) (w w' : Disk) : Prop where
  content : ∀ f, w'.content (d, f) = w.content (d, f)
  kept : ∀ f, (w.files (d, f)).isSome → (w'.files (d, f)).isSome

theorem SameLane.of_files (h : ∀ f, w'.files (d, f) = w.files (d, f)) : SameLane d w w' where
  content f := by rw [World.content, World.content, h]
  kept f := by rw [h]; exact id

theorem SameLane.dataKept (h : SameLane d w w') (c : Control) : DataKept d c w w' where
  slice f o n _ := by rw [h.content]
  length f := by rw [h.content]
  kept f := h.kept _

theorem SameLane.pagesKept (h : SameLane d w w') (ha : Aligned (w.content (d, .index))) :
    PagesKept d w w' :=
  ⟨fun b => by rw [h.content], by rw [h.content]; exact ha⟩

theorem SameLane.laneInv (h : SameLane d w w') (hi : LaneInv H st d c w) : LaneInv H st d c w' :=
  hi.kept (h.pagesKept hi.index.aligned) (h.dataKept c)

theorem SameLane.laneDisk (h : SameLane d w w') (hd : LaneDisk H st d w l) :
    LaneDisk H st d w' l := by
  cases hd with
  | blank hb =>
    exact .blank ⟨by rw [h.content]; exact hb.control, by rw [h.content]; exact hb.aligned,
      fun b => by rw [h.content]; exact hb.pages b⟩
  | control c hc hi =>
    rw [← laneEntries_kept c (h.pagesKept hi.index.aligned)]
    exact .control c (by rw [HoldsControl, h.content]; exact hc) (h.laneInv hi)

theorem SameLane.contentOf_eq (h : SameLane d w w') (l : List Entry) :
    contentOf d w' l = contentOf d w l :=
  contentOf_congr fun e _ => by rw [blockOf, blockOf, h.content]

theorem SameLane.laneHolds (h : SameLane d w w') (hd : LaneHolds H st d w m) :
    LaneHolds H st d w' m := by
  obtain ⟨l, hl, hp⟩ := hd
  exact ⟨l, h.laneDisk hl, by rw [h.contentOf_eq]; exact hp⟩

/-- A lane of which nothing is on disk. -/
theorem LaneHolds.of_empty (h : ∀ f, w.content (d, f) = []) : LaneHolds H st d w [] := by
  refine ⟨[], .blank ⟨by rw [h]; decide, by rw [h]; rfl, fun k => ?_⟩, .nil⟩
  rw [h]
  exact pageAt_of_le (Nat.zero_le _)

end

end Storage.DeltaFlat
