import Neverust.Storage.Contents
import Neverust.Storage.DeltaFlat.Proof.Requests

/-!
# DeltaFlat keeps its contents

`Filed`: every datum is an item of the lane of its size class and its CID's hash, and there are no
other items. A put of a CID that is there with data of another class would file it twice; for the
other calls the lanes stay filed.

* `Takes`: the calls that the store takes: a CID is put again with data of its class only, the lanes
  have room, and the lanes that are looked at give the CID a bucket.
* `listCids_filed`: a listing has the CIDs of all items.
* `keeps`: calls that fit are answered as the contents say.
-/

namespace Storage.DeltaFlat

open Io Rust Bytes LinearHash

/-! ## Calls -/

section
variable (cr : Crates) (st : Store)

def calls : DiskCalls Path where
  putMany := putMany cr st
  get := get cr st
  has := has cr st
  delete := delete cr st
  listCids := listCids cr st

/-- What is put under a CID that is there, now or by an earlier block of the batch, has data of the
same size class. -/
def SameClasses : Contents → List Block → Prop
  | _, [] => True
  | m, b :: bs =>
    (∀ data, m b.cid = some data → (classForLen data.length).1 = (classForLen b.data.length).1) ∧
      SameClasses (m.put b) bs

/-- The lane after the blocks of a batch that belong to it. -/
def fillModel (Ls : LaneDir → LaneModel) (blocks : List Block) (d : LaneDir) : Option LaneModel :=
  (Ls d).insertAll (hashOf cr) st ((blocksIn cr st d blocks).map itemOf)

/-- The first lane with an item of the CID, and those before it, give the CID a bucket. -/
def Reached (Ls : LaneDir → LaneModel) (cid : Cid) : Prop :=
  ∀ before d after, scannedLanes cr st cid = before ++ d :: after →
    (∀ d' ∈ before, Absent (cr.cidToBytes cid) (Ls d').items) →
    Addressable (Ls d).shape (hashOf cr (cr.cidToBytes cid)).even.toNat

/-- The calls that the store takes. -/
def Takes (m : Contents) (Ls : LaneDir → LaneModel) : StoreReq → Prop
  | .putMany blocks => SameClasses m blocks ∧ ∀ d, (fillModel cr st Ls blocks d).isSome
  | .get cid | .has cid | .delete cid => (m cid).isSome → Reached cr st Ls cid
  | .listCids => True

/-- The model of a lane without the items of a CID. -/
def LaneModel.without (L : LaneModel) (cid : Bytes) : LaneModel :=
  { L with items := L.items.filter fun x => x.1 ≠ cid }

/-- The lanes after a call. -/
def lanesAfter (Ls : LaneDir → LaneModel) : StoreReq → LaneDir → LaneModel
  | .putMany blocks, d => (fillModel cr st Ls blocks d).getD (Ls d)
  | .delete cid, d => (Ls d).without (cr.cidToBytes cid)
  | .get _, d | .has _, d | .listCids, d => Ls d

/-- The items are the data of the contents, each in the lane of its class and hash. -/
structure Filed (m : Contents) (C : LaneDir → List Item) : Prop where
  mem : ∀ d cid data, (cr.cidToBytes cid, data) ∈ C d ↔
    m cid = some data ∧ homeOf cr st { cid, data } = d
  source : ∀ d, ∀ x ∈ C d, ∃ cid, cr.cidToBytes cid = x.1
  nodup : ∀ d, ((C d).map Prod.fst).Nodup

/-- The disk has the contents, in lanes as the models describe them. -/
structure Shelved (m : Contents) (Ls : LaneDir → LaneModel) (w : Disk) : Prop where
  noFaults : w.NoFaults
  lanes : StoreIs (hashOf cr) st w Ls
  filed : Filed cr st m fun d => (Ls d).items

end

/-! ## Filing -/

section
variable {cr : Crates} {st : Store} {m : Contents} {C : LaneDir → List Item} {cid : Cid}

/-- The contents of the lanes after one block. -/
def fileOne (cr : Crates) (st : Store) (C : LaneDir → List Item) (b : Block) (d : LaneDir) :
    List Item :=
  if homeOf cr st b = d then putContent false (C d) (cr.cidToBytes b.cid, b.data) else C d

theorem Filed.none_iff (h : Filed cr st m C) :
    m cid = none ↔ ∀ d, Absent (cr.cidToBytes cid) (C d) := by
  constructor
  · intro hm d x hx hc
    obtain ⟨c, y⟩ := x
    obtain rfl : c = cr.cidToBytes cid := hc
    rw [((h.mem d cid y).1 hx).1] at hm
    cases hm
  · intro hno
    cases hm : m cid with
    | none => rfl
    | some data => exact absurd rfl (hno _ _ ((h.mem _ cid data).2 ⟨hm, rfl⟩))

theorem homeOf_congr {b b' : Block} (hc : b.cid = b'.cid)
    (hk : (classForLen b.data.length).1 = (classForLen b'.data.length).1) :
    homeOf cr st b = homeOf cr st b' := by
  rw [homeOf, homeOf, hc, hk]

/-- **One block** is filed, if its CID is new or has data of its class. -/
theorem Filed.put (h : Filed cr st m C) {b : Block}
    (hk : ∀ data, m b.cid = some data →
      (classForLen data.length).1 = (classForLen b.data.length).1) :
    Filed cr st (m.put b) (fileOne cr st C b) := by
  cases hm : m b.cid with
  | some data =>
    -- the exists check finds the CID
    have hmem : (cr.cidToBytes b.cid, data) ∈ C (homeOf cr st b) :=
      (h.mem _ _ _).2 ⟨hm, homeOf_congr rfl (hk data hm)⟩
    have hsame : fileOne cr st C b = C := by
      funext d
      unfold fileOne
      split
      · rename_i hd
        rw [← hd]
        exact putContent_found (b := (cr.cidToBytes b.cid, b.data)) rfl ⟨_, hmem, rfl⟩
      · rfl
    rw [Contents.put_of_some hm, hsame]
    exact h
  | none =>
    have hno := h.none_iff.1 hm
    have hnew : ∀ d, putContent false (C d) (cr.cidToBytes b.cid, b.data) =
        (cr.cidToBytes b.cid, b.data) :: C d := fun d => putContent_new fun _ x hx => hno d x hx
    constructor
    · intro d cid data
      unfold fileOne
      by_cases hc : cid = b.cid
      · subst hc
        rw [Contents.put_self, hm, Option.getD_none]
        have hnot : (cr.cidToBytes b.cid, data) ∉ C d := fun hx => hno d _ hx rfl
        split
        · rename_i hd
          rw [hnew, List.mem_cons, or_iff_left hnot, Prod.mk.injEq, Option.some.injEq,
            and_iff_right rfl]
          refine ⟨fun hdata => ?_, fun hdata => hdata.1.symm⟩
          subst hdata
          exact ⟨rfl, hd⟩
        · rename_i hd
          refine iff_of_false hnot fun hx => hd ?_
          rw [← hx.2, ← Option.some.inj hx.1]
      · rw [Contents.put_of_ne hc, ← h.mem]
        split
        · rw [hnew, List.mem_cons, or_iff_right]
          exact fun hx => hc (cr.cidToBytes_inj (congrArg Prod.fst hx))
        · rfl
    · intro d x hx
      unfold fileOne at hx
      split at hx
      · rw [hnew] at hx
        rcases List.mem_cons.1 hx with rfl | hx
        · exact ⟨b.cid, rfl⟩
        · exact h.source d x hx
      · exact h.source d x hx
    · intro d
      unfold fileOne
      split
      · rw [hnew, List.map_cons, List.nodup_cons]
        refine ⟨fun hx => ?_, h.nodup d⟩
        obtain ⟨x, hx, hxc⟩ := List.mem_map.1 hx
        exact hno d x hx hxc
      · exact h.nodup d

/-- A CID that is not there may be put with any data. -/
theorem sameClasses_new {b : Block} (h : m b.cid = none) : SameClasses m [b] := by
  refine ⟨fun data hd => ?_, trivial⟩
  rw [h] at hd
  cases hd

theorem putStore_cons (hs : st.skipExistsCheck = false) (b : Block) (bs : List Block) :
    putStore cr st C (b :: bs) = putStore cr st (fileOne cr st C b) bs := by
  funext d
  unfold putStore fileOne blocksIn
  rw [hs, List.filter_cons]
  by_cases hd : homeOf cr st b = d
  · rw [if_pos (decide_eq_true hd), if_pos hd]
    rfl
  · rw [if_neg (by simpa using hd), if_neg hd]

/-- **A batch** is filed. -/
theorem Filed.putMany (hs : st.skipExistsCheck = false) {blocks : List Block} :
    ∀ {m : Contents} {C : LaneDir → List Item}, Filed cr st m C → SameClasses m blocks →
      Filed cr st (blocks.foldl Contents.put m) (putStore cr st C blocks) := by
  induction blocks with
  | nil => exact fun h _ => h
  | cons b bs ih =>
    intro m C h hk
    rw [putStore_cons hs]
    exact ih (h.put hk.1) hk.2

theorem Filed.delete (h : Filed cr st m C) (cid : Cid) :
    Filed cr st (m.delete cid) fun d => (C d).filter fun x => x.1 ≠ cr.cidToBytes cid where
  mem d c data := by
    rw [List.mem_filter, h.mem, decide_eq_true_eq]
    by_cases hc : c = cid
    · subst hc
      rw [Contents.delete_self]
      exact iff_of_false (fun hx => hx.2 rfl) fun hx => nomatch hx.1
    · rw [Contents.delete_of_ne hc]
      exact and_iff_left fun hx => hc (cr.cidToBytes_inj hx)
  source d x hx := h.source d x (List.mem_of_mem_filter hx)
  nodup d := (h.nodup d).sublist (List.filter_sublist.map _)

/-! ## Calls -/

variable {Ls : LaneDir → LaneModel} {w w' : Disk}

theorem Filed.of_mem (h : Filed cr st m C) {d : LaneDir} {data : Bytes}
    (hx : (cr.cidToBytes cid, data) ∈ C d) : m cid = some data := ((h.mem d cid data).1 hx).1

/-- The lane of data is one of those the CID is looked up in. -/
theorem homeOf_mem (cid : Cid) (data : Bytes) :
    homeOf cr st { cid, data } ∈ scannedLanes cr st cid :=
  List.mem_map.2 ⟨_, List.mem_range.2 (classForLen_lt data.length), rfl⟩

theorem Shelved.untouched (h : Shelved cr st m Ls w) (hu : Untouched w w') :
    Shelved cr st m Ls w' where
  noFaults := hu.noFaults.2 h.noFaults
  lanes d := (sameLane_of_untouched hu).laneIs (h.lanes d)
  filed := h.filed

theorem shelved_empty (cr : Crates) (st : Store) (hnf : w.NoFaults) (h : ∀ p, w.files p = none) :
    Shelved cr st .empty (fun _ => .new st) w where
  noFaults := hnf
  lanes := storeIs_empty _ st h
  filed :=
    { mem := fun _ _ _ => iff_of_false List.not_mem_nil fun hx => nomatch hx.1
      source := fun _ _ hx => absurd hx List.not_mem_nil
      nodup := fun _ => .nil }

/-- **A batch** that fits. -/
theorem putMany_shelved (hs : st.skipExistsCheck = false) (hv : st.verifyBlocksOnWrite = false)
    (h : Shelved cr st m Ls w) {blocks : List Block} (hsame : SameClasses m blocks)
    (hroom : ∀ d, (fillModel cr st Ls blocks d).isSome) :
    wp (putMany cr st blocks)
      (fun _ w' => Shelved cr st (blocks.foldl Contents.put m)
        (lanesAfter cr st Ls (.putMany blocks)) w')
      (fun _ _ => False) w := by
  have hins : ∀ d, (Ls d).insertAll (hashOf cr) st ((blocksIn cr st d blocks).map itemOf) =
      some (lanesAfter cr st Ls (.putMany blocks) d) := by
    intro d
    obtain ⟨L, hL⟩ := Option.isSome_iff_exists.1 (hroom d)
    rw [lanesAfter, hL]
    exact hL
  refine wp_mono (putMany_modeled blocks (by rw [hv]; rfl) h.lanes h.noFaults hins) (fun _ w' h' => ?_)
    fun _ _ hf => hf
  refine ⟨h'.1, h'.2.1, ?_⟩
  have hitems : (fun d => (lanesAfter cr st Ls (.putMany blocks) d).items) =
      putStore cr st (fun d => (Ls d).items) blocks :=
    funext fun d => LaneModel.items_insertAll (hins d)
  rw [hitems]
  exact h.filed.putMany hs hsame

/-- A scan fails only for a CID that is not there. -/
theorem Shelved.none_of_failed (h : Shelved cr st m Ls w)
    (hreach : (m cid).isSome → Reached cr st Ls cid) {e : StorageError}
    (he : GetFailed (hashOf cr) w (fun d => (Ls d).items) (cr.cidToBytes cid)
      (scannedLanes cr st cid) (cr.cidToString cid) e) : m cid = none := by
  cases hm : m cid with
  | none => rfl
  | some data =>
    rcases he with ⟨-, hall⟩ | ⟨-, before, d, after, hds, hb, hr⟩ | ⟨-, hf⟩
    · exact absurd rfl ((hall _ (homeOf_mem cid data)).1 _ ((h.filed.mem _ _ _).2 ⟨hm, rfl⟩))
    · refine absurd ((h.lanes d).reaches (hreach ?_ before d after hds hb)) hr
      rw [hm]
      rfl
    · exact absurd h.noFaults hf

theorem get_shelved (h : Shelved cr st m Ls w) (hreach : (m cid).isSome → Reached cr st Ls cid) :
    wp (get cr st cid) (fun b w' => m cid = some b.data ∧ b.cid = cid ∧ Shelved cr st m Ls w')
      (fun _ w' => m cid = none ∧ Shelved cr st m Ls w') w := by
  refine wp_mono (get_spec cid h.lanes.storeHolds) (fun b w' h' => ?_) fun e w' h' => ?_
  · obtain ⟨hu, hcid, before, d, after, -, -, -, hx, -⟩ := h'
    exact ⟨h.filed.of_mem hx, hcid, h.untouched hu⟩
  · exact ⟨h.none_of_failed hreach h'.2, h.untouched h'.1⟩

theorem has_shelved (h : Shelved cr st m Ls w) (hreach : (m cid).isSome → Reached cr st Ls cid) :
    wp (has cr st cid) (fun b w' => b = (m cid).isSome ∧ Shelved cr st m Ls w')
      (fun _ _ => False) w := by
  refine wp_mono (has_spec cid h.lanes.storeHolds) (fun b w' h' => ⟨?_, h.untouched h'.1⟩)
    fun _ _ hf => hf
  rcases h'.2 with ⟨rfl, data, before, d, after, -, -, -, hx, -⟩ | ⟨rfl, e, he⟩
  · rw [h.filed.of_mem hx]
    rfl
  · rw [h.none_of_failed hreach he]
    rfl

/-- The only item of a CID in a lane goes. -/
theorem erase_eq_filter {c data : Bytes} {l : List Item} (hx : (c, data) ∈ l)
    (hn : (l.map Prod.fst).Nodup) : l.erase (c, data) = l.filter fun x => x.1 ≠ c := by
  induction l with
  | nil => cases hx
  | cons y l ih =>
    rw [List.map_cons, List.nodup_cons] at hn
    by_cases hy : y.1 = c
    · have hno : ∀ x ∈ l, x.1 ≠ c := fun x hx' hc =>
        hn.1 (List.mem_map.2 ⟨x, hx', hc.trans hy.symm⟩)
      rcases List.mem_cons.1 hx with rfl | hx'
      · rw [List.erase_cons_head, List.filter_cons_of_neg (by simp), List.filter_eq_self.2]
        exact fun x hx' => decide_eq_true (hno x hx')
      · exact absurd rfl (hno _ hx')
    · have hne : y ≠ (c, data) := fun heq => hy (congrArg Prod.fst heq)
      rw [List.erase_cons_tail (by simpa using hne), List.filter_cons_of_pos (by simpa using hy),
        ih (List.mem_of_ne_of_mem (Ne.symm hne) hx) hn.2]

theorem filter_eq_of_absent {c : Bytes} {l : List Item} (h : Absent c l) :
    (l.filter fun x => x.1 ≠ c) = l :=
  List.filter_eq_self.2 fun x hx => decide_eq_true (h x hx)

/-- **A deletion** takes the item of the CID out of its lane. -/
theorem delete_shelved (h : Shelved cr st m Ls w)
    (hreach : (m cid).isSome → Reached cr st Ls cid) :
    wp (delete cr st cid)
      (fun _ w' => (m cid).isSome ∧
        Shelved cr st (m.delete cid) (lanesAfter cr st Ls (.delete cid)) w')
      (fun _ w' => m cid = none ∧ Shelved cr st m Ls w') w := by
  refine wp_mono (delete_spec cid h.lanes.storeHolds) (fun _ w' h' => ?_) fun e w' h' => ?_
  · obtain ⟨before, d, after, -, -, -, hc⟩ := h'
    obtain ⟨data, hx, hlane⟩ := hc.laneIs (h.lanes d)
    obtain ⟨hm, hhome⟩ := (h.filed.mem d cid data).1 hx
    refine ⟨by rw [hm]; rfl, hc.frame.noFaults.2 h.noFaults, fun d' => ?_, h.filed.delete cid⟩
    by_cases hd : d' = d
    · subst hd
      show LaneIs _ _ _ _ ((Ls d').without (cr.cidToBytes cid))
      rw [LaneModel.without, ← erase_eq_filter hx (h.filed.nodup d')]
      exact hlane
    · have habsent : Absent (cr.cidToBytes cid) (Ls d').items := by
        intro x hx' hxc
        obtain ⟨c, data'⟩ := x
        obtain rfl : c = cr.cidToBytes cid := hxc
        obtain ⟨hm', hhome'⟩ := (h.filed.mem d' cid data').1 hx'
        rw [hm] at hm'
        obtain rfl := Option.some.inj hm'
        exact hd (hhome'.symm.trans hhome)
      show LaneIs _ _ _ _ ((Ls d').without (cr.cidToBytes cid))
      rw [LaneModel.without, filter_eq_of_absent habsent]
      exact (SameFiles.of_frame hc.frame hd).sameLane.laneIs (h.lanes d')
  · cases h' with
    | clean hu he => exact ⟨h.none_of_failed hreach he, h.untouched hu⟩
    | lane d _ _ hf => exact absurd h.noFaults hf

/-! ## Listing -/

/-- The CIDs that a listing gives for entries. -/
def cidsOf (cr : Crates) (l : List Entry) : List Cid := l.filterMap fun e => cr.cidOfBytes e.cid

theorem cidsOf_append (l l' : List Entry) : cidsOf cr (l ++ l') = cidsOf cr l ++ cidsOf cr l' :=
  List.filterMap_append

theorem mem_cidsOf {d : LaneDir} {l : List Entry} {items : List Item}
    (hm : (contentOf d w l).Perm items) :
    cid ∈ cidsOf cr l ↔ ∃ x ∈ items, cr.cidOfBytes x.1 = some cid := by
  rw [cidsOf, List.mem_filterMap]
  constructor
  · rintro ⟨e, he, hcid⟩
    exact ⟨(e.cid, blockOf d w e), hm.mem_iff.1 (mem_contentOf.2 ⟨e, he, rfl, rfl⟩), hcid⟩
  · rintro ⟨x, hx, hcid⟩
    obtain ⟨e, he, hec, -⟩ := mem_contentOf.1 (hm.mem_iff.2 hx)
    exact ⟨e, he, by rw [hec]; exact hcid⟩

theorem pageCids_eq {page : Page} (hp : PageOk page) :
    pageCids cr page = .ok (cidsOf cr (entries page)) := by
  have hslots : (List.range entriesPerBucket).mapM (decodeEntry page) =
      .ok ((List.range entriesPerBucket).map (slotEntry page)) :=
    mapM_ok fun slot hslot => hp.decode slot (List.mem_range.1 hslot)
  rw [pageCids, hslots, cidsOf, entries, ← List.filterMap_eq_flatMap_toList]
  show Except.ok
    ((((List.range entriesPerBucket).map (slotEntry page)).filterMap id).filterMap _) = _
  rw [List.filterMap_map]
  rfl

/-- The files of a lane that exists are opened for a listing. -/
theorem openFiles_ok {d : LaneDir} (hnf : w.NoFaults)
    (hx : (w.files (d, .control)).isSome ∧ (w.files (d, .index)).isSome)
    {α : Type} {k : Act α} {Q : α → Disk → Prop} {E : StorageError → Disk → Prop}
    (hk : ∀ w', Untouched w w' → wp k Q E w') :
    wp (do
      openFile (d, .control) (fromIo .notFound)
      openFile (d, .index) (fromIo .notFound)
      k) Q E w := by
  have h1 : Untouched w (w.logged (.openFile (d, .control))) := .logged w (by simp)
  refine wp_bind (wp_openFile (fun _ => ?_) (fun hn => ?_) fun hf => absurd hnf hf)
  · refine wp_bind (wp_openFile (fun _ => hk _ (h1.trans (.logged _ (by simp)))) (fun hn => ?_)
      fun hf => absurd hnf hf)
    rw [World.logged_files] at hn
    rw [hn] at hx
    cases hx.2
  · rw [hn] at hx
    cases hx.1

/-- **A round of `list_cids`.** -/
theorem listLane_spec {d : LaneDir} {l : List Entry} (hd : LaneDisk (hashOf cr) st d w l)
    (hnf : w.NoFaults) (hx : (w.files (d, .control)).isSome ∧ (w.files (d, .index)).isSome) :
    wp (listLane cr d) (fun cids w' => Untouched w w' ∧ cids = cidsOf cr l) (fun _ _ => False)
      w := by
  refine openFiles_ok hnf hx fun w1 h1 => ?_
  have hnf1 := h1.noFaults.2 hnf
  cases (sameLane_of_untouched h1).laneDisk hd with
  | blank hb =>
    refine wp_bind (wp_mono (readControlRaw_blank hb.control) (fun r w2 h2 => ?_)
      fun _ _ hf => hf.2.1 hnf1)
    obtain ⟨rfl, hu⟩ := h2
    exact wp_pure ⟨h1.trans hu, rfl⟩
  | control c hc hi =>
    refine wp_bind (wp_mono (readControlRaw_holds hc hi.index.level hi.index.valid)
      (fun r w2 h2 => ?_) fun _ _ hf => hf.2.1 hnf1)
    obtain ⟨rfl, hu⟩ := h2
    dsimp only
    rw [hi.index.bucketCount_eq]
    refine wp_bind (wp_lift (fun buckets hb => ?_) fun _ he => nomatch he)
    obtain rfl := Except.ok.inj hb
    -- the CIDs so far and those of the buckets to come
    refine wp_mono (wp_foldlM (fun rest out w' => Untouched w1 w' ∧
      out ++ cidsOf cr (rest.flatMap (table (w1.content (d, .index)))) =
        cidsOf cr (laneEntries d c w1)) (fun b rest out w3 h3 => ?_) _ [] w2 ⟨hu, rfl⟩)
      (fun out w3 h3 => ⟨h1.trans h3.1, ?_⟩) fun _ _ hf => hf
    · obtain ⟨hu3, hout⟩ := h3
      have ha : Aligned (w3.content (d, .index)) := by
        rw [hu3.content]
        exact hi.index.aligned
      refine wp_bind (wp_mono (readBucket_spec ha b) (fun page w4 h4 => ?_)
        fun _ _ hf => hf.2.1 (hu3.noFaults.2 hnf1))
      obtain ⟨rfl, hu4⟩ := h4
      rw [hu3.content, pageCids_eq (hi.index.pages b)]
      refine wp_bind (wp_lift (fun cids hcids => ?_) fun _ he => nomatch he)
      obtain rfl := Except.ok.inj hcids
      refine wp_pure ⟨hu3.trans hu4, ?_⟩
      rw [← hout, List.flatMap_cons, cidsOf_append, List.append_assoc]
      rfl
    · have hout := h3.2
      rw [List.flatMap_nil] at hout
      exact (List.append_nil out).symm.trans hout

/-- The CID of an item is listed for the lane. -/
def Listed (cr : Crates) (Ls : LaneDir → LaneModel) (cid : Cid) (d : LaneDir) : Prop :=
  ∃ x ∈ (Ls d).items, cr.cidOfBytes x.1 = some cid

theorem listLanes_spec (hS : StoreIs (hashOf cr) st w Ls) (hnf : w.NoFaults) :
    wp (listLanes cr st) (fun cids w' => Untouched w w' ∧
      ∀ cid, cid ∈ cids ↔ ∃ d ∈ allLanes st, Listed cr Ls cid d) (fun _ _ => False) w := by
  -- a CID is in the list, or its lane is still to come
  refine wp_mono (wp_foldlM (fun rest out w' => Untouched w w' ∧ ∀ cid,
    (cid ∈ out ∨ ∃ d ∈ rest, Listed cr Ls cid d) ↔ ∃ d ∈ allLanes st, Listed cr Ls cid d)
    (fun d rest out w1 h1 => ?_) _ [] w ⟨.refl w, fun cid => ?_⟩) (fun out w1 h1 => ⟨h1.1, ?_⟩)
    fun _ _ hf => hf
  · obtain ⟨hu, hout⟩ := h1
    refine wp_bind (wp_mono (laneExists_spec d w1) (fun b w2 h2 => ?_) fun _ _ hf => hf)
    obtain ⟨rfl, hb⟩ := h2
    have hholds := ((sameLane_of_untouched hu).laneIs (hS d)).laneHolds
    by_cases hx : (w2.files (d, .control)).isSome ∧ (w2.files (d, .index)).isSome
    · rw [if_pos (hb.2 hx)]
      obtain ⟨l, hl, hm⟩ := hholds
      refine wp_bind (wp_mono (listLane_spec hl (hu.noFaults.2 hnf) hx) (fun cids w3 h3 => ?_)
        fun _ _ hf => hf)
      obtain ⟨hu3, rfl⟩ := h3
      refine wp_pure ⟨hu.trans hu3, fun cid => ?_⟩
      rw [← hout cid, List.mem_append, mem_cidsOf hm, or_assoc, List.exists_mem_cons_iff]
      rfl
    · rw [if_neg fun h => hx (hb.1 h)]
      refine wp_pure ⟨hu, fun cid => ?_⟩
      rw [← hout cid, List.exists_mem_cons_iff, or_iff_right (a := Listed cr Ls cid d)]
      rintro ⟨x, hmem, -⟩
      exact (hholds.of_missing hx x.1).1 x hmem rfl
  · rw [or_iff_right List.not_mem_nil]
  · intro cid
    rw [← h1.2 cid, or_iff_left]
    rintro ⟨d, hd, -⟩
    cases hd

/-- The lane of data is listed. -/
theorem homeOf_mem_allLanes (hl : 0 < st.laneCount) (b : Block) :
    homeOf cr st b ∈ allLanes st := by
  refine List.mem_flatMap.2 ⟨_, List.mem_range.2 (classForLen_lt b.data.length),
    List.mem_map.2 ⟨_, List.mem_range.2 ?_, rfl⟩⟩
  unfold laneForCid
  split
  · exact hl
  · exact Nat.mod_lt _ hl

/-- **A listing** has the CIDs of the contents. -/
theorem listCids_shelved (hl : 0 < st.laneCount) (h : Shelved cr st m Ls w) :
    wp (listCids cr st)
      (fun cids w' => (∀ cid, cid ∈ cids ↔ (m cid).isSome) ∧ Shelved cr st m Ls w')
      (fun _ _ => False) w := by
  refine wp_bind (wp_captured (wp_mono (listLanes_spec h.lanes h.noFaults) (fun cids w' h' => ?_)
    fun _ _ hf => hf.elim))
  refine wp_pure ⟨fun cid => ?_, h.untouched h'.1⟩
  rw [h'.2]
  constructor
  · rintro ⟨d, -, ⟨c, data⟩, hx, hcid⟩
    obtain ⟨cid', hc⟩ := h.filed.source d _ hx
    obtain rfl : cr.cidToBytes cid' = c := hc
    rw [cr.cidOfBytes_toBytes] at hcid
    obtain rfl := Option.some.inj hcid
    rw [h.filed.of_mem hx]
    rfl
  · intro hsome
    obtain ⟨data, hm⟩ := Option.isSome_iff_exists.1 hsome
    exact ⟨_, homeOf_mem_allLanes hl _, _, (h.filed.mem _ _ _).2 ⟨hm, rfl⟩,
      cr.cidOfBytes_toBytes cid⟩

/-- Without an item of the CID the lanes stay as they are. -/
theorem lanesAfter_delete (h : Shelved cr st m Ls w) (hm : m cid = none) :
    lanesAfter cr st Ls (.delete cid) = Ls := by
  funext d
  show (Ls d).without (cr.cidToBytes cid) = Ls d
  rw [LaneModel.without, filter_eq_of_absent (h.filed.none_iff.1 hm d)]

/-- **DeltaFlat keeps its contents**, as long as the calls fit. -/
theorem keeps (hs : st.skipExistsCheck = false) (hv : st.verifyBlocksOnWrite = false)
    (hl : 0 < st.laneCount) :
    (calls cr st).backend.Keeps (Takes cr st) (fun _ => lanesAfter cr st) (Shelved cr st) :=
  DiskCalls.keeps (fun _ h hfit => putMany_shelved hs hv h hfit.1 hfit.2)
    (fun _ h hfit => get_shelved h hfit) (fun _ h hfit => has_shelved h hfit)
    (fun _ h hfit => wp_mono (delete_shelved h hfit) (fun _ _ h' => h') fun _ _ h' => by
      rw [lanesAfter_delete h h'.1]
      exact h') fun h _ => listCids_shelved hl h

/-! ## One block -/

theorem fillModel_singleton (b : Block) (d : LaneDir) :
    fillModel cr st Ls [b] d =
      if homeOf cr st b = d then (Ls d).insert (hashOf cr) st (cr.cidToBytes b.cid, b.data)
      else some (Ls d) := by
  rw [fillModel, blocksIn_singleton]
  split
  · rw [List.map_singleton, LaneModel.insertAll, List.foldlM_cons]
    exact bind_pure _
  · rfl

/-- One block that its lane has room for. -/
theorem lanesAfter_one (Ls : LaneDir → LaneModel) {b : Block} {L : LaneModel}
    (hins : (Ls (homeOf cr st b)).insert (hashOf cr) st (cr.cidToBytes b.cid, b.data) = some L) :
    (∀ d, (fillModel cr st Ls [b] d).isSome) ∧
      lanesAfter cr st Ls (.putMany [b]) = Function.update Ls (homeOf cr st b) L := by
  have hfill : ∀ d, fillModel cr st Ls [b] d = some (Function.update Ls (homeOf cr st b) L d) := by
    intro d
    rw [fillModel_singleton]
    by_cases hd : homeOf cr st b = d
    · subst hd
      rw [if_pos rfl, hins, Function.update_self]
    · rw [if_neg hd, Function.update_of_ne (Ne.symm hd)]
  refine ⟨fun d => by rw [hfill]; rfl, funext fun d => ?_⟩
  rw [lanesAfter, hfill, Option.getD_some]

/-- A new lane with one item. -/
def LaneModel.one (st : Store) (x : Item) : LaneModel :=
  (LaneModel.new st).grow x (0, 0) (initialControl st).shape

theorem addressable_one (st : Store) (x : Item) (hash : Nat) :
    Addressable (LaneModel.one st x).shape hash :=
  .of_level (LaneModel.level_grow_new st x (0, 0)) hash

theorem reached_of_addressable
    (h : ∀ d, Addressable (Ls d).shape (hashOf cr (cr.cidToBytes cid)).even.toNat) :
    Reached cr st Ls cid := fun _ d _ _ _ => h d

theorem addressable_new (st : Store) (hash : Nat) : Addressable (LaneModel.new st).shape hash :=
  .of_level ((initialControl_level st).2.trans (by decide)) hash

/-! ## A CID with data of two classes -/

/-- A CID with items in several lanes is read from the first of them. -/
theorem get_first {k : Nat} (data : Bytes) (hS : StoreIs (hashOf cr) st w Ls) (hnf : w.NoFaults)
    (hk : k < deltaSizeClasses.length)
    (hx : (cr.cidToBytes cid, data) ∈ (Ls (laneOf (hashOf cr) st k (cr.cidToBytes cid))).items)
    (honly : ∀ x ∈ (Ls (laneOf (hashOf cr) st k (cr.cidToBytes cid))).items,
      x.1 = cr.cidToBytes cid → x.2 = data)
    (hbefore : ∀ i < k, Absent (cr.cidToBytes cid)
      (Ls (laneOf (hashOf cr) st i (cr.cidToBytes cid))).items)
    (hreach : ∀ d, Addressable (Ls d).shape (hashOf cr (cr.cidToBytes cid)).even.toNat) :
    wp (get cr st cid) (fun b _ => b = { cid, data }) (fun _ _ => False) w := by
  have hmem : laneOf (hashOf cr) st k (cr.cidToBytes cid) ∈ scannedLanes cr st cid :=
    List.mem_map.2 ⟨k, List.mem_range.2 hk, rfl⟩
  refine wp_mono (get_spec cid hS.storeHolds) (fun b w' h => ?_) fun e w' h => ?_
  · obtain ⟨-, hcid, before, d, after, hds, hb, -, hmem', -⟩ := h
    obtain ⟨hlt, rfl, hbefore'⟩ := map_range_eq_append hds
    obtain heq | hlt' | hgt := Nat.lt_trichotomy before.length k
    · exact absurd rfl (hbefore _ heq _ hmem')
    · rw [hlt'] at hmem'
      obtain ⟨c, d⟩ := b
      obtain rfl : c = cid := hcid
      rw [show d = data from honly _ hmem' rfl]
    · refine absurd rfl ((hb _ ?_).1 _ hx)
      rw [hbefore']
      exact List.mem_map.2 ⟨k, List.mem_range.2 hgt, rfl⟩
  · rcases h.2 with ⟨-, hall⟩ | ⟨-, before, d, after, -, -, hr⟩ | ⟨-, hf⟩
    · exact (hall _ hmem).1 _ hx rfl
    · exact hr ((hS d).reaches (hreach d))
    · exact hf hnf

/-- **A CID that is put again** with data of a smaller class: the store returns the later data. -/
theorem put_again (hs : st.skipExistsCheck = false) (hv : st.verifyBlocksOnWrite = false)
    (h : Shelved cr st m Ls w) {b : Block} {data : Bytes} (hm : m b.cid = some data)
    (hlt : (classForLen b.data.length).1 < (classForLen data.length).1)
    (hroom : ∀ d, (fillModel cr st Ls [b] d).isSome)
    (hreach : ∀ d, Addressable (lanesAfter cr st Ls (.putMany [b]) d).shape
      (hashOf cr (cr.cidToBytes b.cid)).even.toNat) :
    wp (putMany cr st [b])
      (fun _ w' => wp (get cr st b.cid) (fun b' _ => b' = b) (fun _ _ => False) w')
      (fun _ _ => False) w := by
  have hins : ∀ d, (Ls d).insertAll (hashOf cr) st ((blocksIn cr st d [b]).map itemOf) =
      some (lanesAfter cr st Ls (.putMany [b]) d) := by
    intro d
    obtain ⟨L, hL⟩ := Option.isSome_iff_exists.1 (hroom d)
    rw [lanesAfter, hL]
    exact hL
  have hitems : ∀ d, (lanesAfter cr st Ls (.putMany [b]) d).items =
      fileOne cr st (fun d => (Ls d).items) b d := by
    intro d
    rw [LaneModel.items_insertAll (hins d)]
    exact congrFun (putStore_cons (C := fun d => (Ls d).items) hs b []) d
  -- the CID is in the lane of the stored data only
  have hclass : ∀ i, ∀ x ∈ (Ls (laneOf (hashOf cr) st i (cr.cidToBytes b.cid))).items,
      x.1 = cr.cidToBytes b.cid → i = (classForLen data.length).1 := by
    rintro i ⟨c, y⟩ hx rfl
    obtain ⟨hy, hhome⟩ := (h.filed.mem _ b.cid y).1 hx
    rw [hm] at hy
    obtain rfl := Option.some.inj hy
    exact (laneOf_inj hhome).symm
  have hnew : Absent (cr.cidToBytes b.cid) (Ls (homeOf cr st b)).items := fun x hx hxc =>
    Nat.ne_of_lt hlt (hclass _ x hx hxc)
  have hhome : (lanesAfter cr st Ls (.putMany [b]) (homeOf cr st b)).items =
      (cr.cidToBytes b.cid, b.data) :: (Ls (homeOf cr st b)).items := by
    rw [hitems, fileOne, if_pos rfl]
    exact putContent_new fun _ => hnew
  refine wp_mono (putMany_modeled [b] (by rw [hv]; rfl) h.lanes h.noFaults hins) (fun _ w' h' => ?_)
    fun _ _ hf => hf
  refine wp_mono (get_first b.data h'.2.1 h'.1 (classForLen_lt b.data.length)
    ?_ (fun x hx hxc => ?_) (fun i hi => ?_) hreach) (fun b' _ hb => hb) fun _ _ hf => hf
  · show _ ∈ (lanesAfter cr st Ls (.putMany [b]) (homeOf cr st b)).items
    rw [hhome]
    exact .head _
  · change x ∈ (lanesAfter cr st Ls (.putMany [b]) (homeOf cr st b)).items at hx
    rw [hhome] at hx
    rcases List.mem_cons.1 hx with rfl | hx
    · rfl
    · exact absurd hxc (hnew x hx)
  · have hne : homeOf cr st b ≠ laneOf (hashOf cr) st i (cr.cidToBytes b.cid) := fun heq =>
      Nat.ne_of_gt hi (laneOf_inj heq)
    rw [hitems, fileOne, if_neg hne]
    intro x hx hxc
    have hi' := hclass i x hx hxc
    omega

/-- A block that a new lane takes. -/
def FitsNew (cr : Crates) (st : Store) (b : Block) : Prop :=
  (cr.cidToBytes b.cid).length ≤ maxCidBytes ∧ b.data.length ≤ st.maxFileBytes.toNat ∧
    b.data.length < 2 ^ 32

theorem FitsNew.insert {b : Block} (h : FitsNew cr st b) (hprobe : 0 < st.maxProbeSteps.toNat) :
    (LaneModel.new st).insert (hashOf cr) st (cr.cidToBytes b.cid, b.data) =
      some (.one st (cr.cidToBytes b.cid, b.data)) :=
  LaneModel.insert_new (hashOf cr) ⟨cr.cidToBytes_ne _, h.1⟩ h.2.1 h.2.2 hprobe

/-- A new store after two blocks of one CID. -/
theorem put_twice (hs : st.skipExistsCheck = false) (hv : st.verifyBlocksOnWrite = false)
    (hprobe : 0 < st.maxProbeSteps.toNat) (hnf : w.NoFaults) (hempty : ∀ p, w.files p = none)
    {a b : Block} (ha : FitsNew cr st a) (hb : FitsNew cr st b) (hcid : a.cid = b.cid)
    (hlt : (classForLen b.data.length).1 < (classForLen a.data.length).1) :
    wp (putMany cr st [a])
      (fun _ w1 => wp (putMany cr st [b])
        (fun _ w2 => wp (get cr st b.cid) (fun b' _ => b' = b) (fun _ _ => False) w2)
        (fun _ _ => False) w1)
      (fun _ _ => False) w := by
  have hne : homeOf cr st b ≠ homeOf cr st a := by
    intro heq
    rw [homeOf, homeOf, hcid] at heq
    exact Nat.ne_of_lt hlt (laneOf_inj heq)
  obtain ⟨hroom, hlanes⟩ := lanesAfter_one (fun _ => .new st) (ha.insert hprobe)
  refine wp_mono (putMany_shelved hs hv (shelved_empty cr st hnf hempty)
    (sameClasses_new rfl) hroom) (fun _ w1 h1 => ?_) fun _ _ hf => hf
  rw [hlanes] at h1
  have hm : ([a].foldl Contents.put Contents.empty) b.cid = some a.data := by
    rw [← hcid]
    exact Contents.put_self
  have hins : (Function.update (fun _ => LaneModel.new st) (homeOf cr st a)
      (.one st (cr.cidToBytes a.cid, a.data)) (homeOf cr st b)).insert (hashOf cr) st
        (cr.cidToBytes b.cid, b.data) = some (.one st (cr.cidToBytes b.cid, b.data)) := by
    rw [Function.update_of_ne hne]
    exact hb.insert hprobe
  obtain ⟨hroom', hlanes'⟩ := lanesAfter_one _ hins
  refine put_again hs hv h1 hm hlt hroom' fun d => ?_
  rw [hlanes']
  by_cases hdb : d = homeOf cr st b
  · rw [hdb, Function.update_self]
    exact addressable_one st _ _
  · rw [Function.update_of_ne hdb]
    by_cases hda : d = homeOf cr st a
    · rw [hda, Function.update_self]
      exact addressable_one st _ _
    · rw [Function.update_of_ne hda]
      exact addressable_new st _

end

end Storage.DeltaFlat
