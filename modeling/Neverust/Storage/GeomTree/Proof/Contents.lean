import Neverust.Storage.Contents
import Neverust.Storage.GeomTree.Proof.Retry

/-!
# GeomTree keeps its contents

The file of a CID has the data of the CID, and there is no other file. Nothing else decides whether
a call goes through, but that a file holds no more than `maxFileLen` bytes.
-/

namespace Storage.GeomTree

open Io

section
variable (cr : Crates) (st : Store)

def calls : DiskCalls FilePath where
  putMany := putMany cr st
  get := get cr st
  has := has cr st
  delete := delete cr st
  listCids := listCids cr

/-- A file comes to the disk by an operation that opens it. -/
def Tracked (w : Disk) : Prop := ∀ path, (w.files path).isSome → .openFile path ∈ w.log

/-- The disk has the contents. -/
structure Shelved (m : Contents) (w : Disk) : Prop where
  noFaults : w.NoFaults
  tracked : Tracked w
  file : ∀ cid, w.files (blockPath cr st cid) = m cid
  only : ∀ path, (w.files path).isSome → ∃ cid, path = blockPath cr st cid

end

section
variable {cr : Crates} {st : Store} {w w' : Disk} {m : Contents} {cid : Cid}

theorem Tracked.logged (h : Tracked w) (op : IoOp FilePath) : Tracked (w.logged op) :=
  fun path hp => List.mem_append_left _ (h path hp)

theorem Tracked.setFile (h : Tracked w) {path : FilePath} (hp : .openFile path ∈ w.log)
    (c : Bytes) : Tracked (w.setFile path c) := by
  intro path' hp'
  by_cases heq : path' = path
  · rw [heq]
    exact hp
  · rw [World.setFile_files_ne w c heq] at hp'
    exact h path' hp'

/-- Without faults a put of data that a file can hold does not fail. -/
theorem putBlock_tracked {b : Block} (hlen : b.data.length ≤ maxFileLen) (hnf : w.NoFaults)
    (ht : Tracked w) :
    wp (putBlock cr st b) (fun _ w' => w'.NoFaults ∧ Tracked w') (fun _ _ => False) w := by
  set path := blockPath cr st b.cid with hpath
  have hsync : ∀ w' : Disk, w'.NoFaults → Tracked w' →
      wp (if st.fsyncWrites then attempt (.sync path) else pure () : Act Unit)
        (fun _ w' => w'.NoFaults ∧ Tracked w') (fun _ _ => False) w' := by
    intro w' hnf' ht'
    split
    · exact wp_attempt ⟨hnf', ht'.logged _⟩ fun h => h hnf'
    · exact wp_pure ⟨hnf', ht'⟩
  have hopen : .openFile path ∈ ((w.logged .createDir).logged (.openFile path)).log :=
    List.mem_append_right _ List.mem_cons_self
  have htrack : ∀ c, Tracked (((w.logged .createDir).logged (.openFile path)).setFile path c) :=
    fun c => ((ht.logged _).logged _).setFile hopen c
  refine wp_bind (wp_attempt (wp_bind (wp_createNew (fun _ => ?_) (fun _ => ?_) fun h => h hnf))
    fun h => h hnf)
  · exact wp_pure ⟨hnf, (ht.logged _).logged _⟩
  · refine wp_bind (wp_writeAllAt (fun _ => hsync _ hnf (htrack _)) (fun _ _ _ => hsync _ hnf ?_)
      (fun hbig => ?_) fun k hk _ => ?_)
    · exact ((htrack []).setFile hopen _).logged _
    · omega
    · exact World.not_noFaults hk hnf

theorem Shelved.put (h : Shelved cr st m w) {b : Block} (hf : w'.files = withBlock cr st w.files b)
    (hnf : w'.NoFaults) (ht : Tracked w') : Shelved cr st (m.put b) w' where
  noFaults := hnf
  tracked := ht
  file cid := by
    rw [hf, withBlock]
    by_cases hc : cid = b.cid
    · rw [hc, if_pos rfl, h.file, Contents.put_self]
    · rw [if_neg fun hp => hc (blockPath_inj hp), h.file, Contents.put_of_ne hc]
  only path hp := by
    rw [hf, withBlock] at hp
    split at hp
    · rename_i heq
      exact ⟨b.cid, heq⟩
    · exact h.only path hp

/-- **A batch** whose data files can hold. -/
theorem putMany_shelved (h : Shelved cr st m w) (hv : st.verifyBlocksOnWrite = false)
    {blocks : List Block} (hlen : ∀ b ∈ blocks, b.data.length ≤ maxFileLen) :
    wp (putMany cr st blocks) (fun _ w' => Shelved cr st (blocks.foldl Contents.put m) w')
      (fun _ _ => False) w := by
  unfold putMany
  split
  · rename_i hnil
    rw [hnil]
    exact wp_pure h
  · refine wp_bind (wp_lift (fun _ _ => ?_) fun e he => ?_)
    · refine wp_mono (wp_foldlM (fun rest _ w' => ∃ m', Shelved cr st m' w' ∧
        (∀ b ∈ rest, b.data.length ≤ maxFileLen) ∧
        rest.foldl Contents.put m' = blocks.foldl Contents.put m) (fun b rest _ w1 h1 => ?_)
        blocks () w ⟨m, h, hlen, rfl⟩) (fun _ w' h' => ?_) fun _ _ h => h
      · obtain ⟨m', h', hlen', hfold⟩ := h1
        refine wp_mono (wp_and (putBlock_wp b w1) (putBlock_tracked (hlen' b List.mem_cons_self)
          h'.noFaults h'.tracked)) (fun _ w2 h2 => ?_) fun _ _ h2 => h2.2
        exact ⟨m'.put b, h'.put h2.1 h2.2.1 h2.2.2, fun b' hb' => hlen' b' (.tail _ hb'), hfold⟩
      · obtain ⟨m', h', -, hfold⟩ := h'
        rw [← hfold]
        exact h'
    · rw [verifyBlocks, hv] at he
      cases he

theorem Shelved.logged (h : Shelved cr st m w) (op : IoOp FilePath) :
    Shelved cr st m (w.logged op) :=
  ⟨h.noFaults, h.tracked.logged op, h.file, h.only⟩

theorem get_shelved (h : Shelved cr st m w) (cid : Cid) :
    wp (get cr st cid) (fun b w' => m cid = some b.data ∧ b.cid = cid ∧ Shelved cr st m w')
      (fun _ w' => m cid = none ∧ Shelved cr st m w') w := by
  refine wp_bind (wp_readFile (fun c _ hc _ => wp_pure ⟨?_, rfl, (h.logged _).logged _⟩)
    (fun _ hnone => ⟨?_, h.logged _⟩) (fun hf => absurd h.noFaults.fault hf)
    fun _ _ hf => absurd (h.logged _).noFaults.fault hf)
  · rw [← h.file, hc]
  · rw [← h.file, hnone]

theorem Shelved.delete (h : Shelved cr st m w) (cid : Cid) :
    Shelved cr st (m.delete cid) { w with
      files := fun r => if r = blockPath cr st cid then none else w.files r } where
  noFaults := h.noFaults
  tracked path hp := by
    dsimp only at hp
    split at hp
    · cases hp
    · exact h.tracked path hp
  file c := by
    dsimp only
    by_cases hc : c = cid
    · rw [hc, if_pos rfl, Contents.delete_self]
    · rw [if_neg fun hp => hc (blockPath_inj hp), h.file, Contents.delete_of_ne hc]
  only path hp := by
    dsimp only at hp
    split at hp
    · cases hp
    · exact h.only path hp

theorem delete_shelved (h : Shelved cr st m w) (cid : Cid) :
    wp (delete cr st cid)
      (fun _ w' => (m cid).isSome ∧ Shelved cr st (m.delete cid) w')
      (fun _ w' => m cid = none ∧ Shelved cr st m w') w := by
  refine wp_bind (wp_attempt (wp_bind (wp_get ?_)) fun hf => absurd h.noFaults hf)
  have hfile := h.file cid
  cases hm : m cid with
  | none =>
    rw [hm] at hfile
    simp only [World.logged_files, hfile, Option.isNone_none, if_true]
    exact wp_throw ⟨trivial, h.logged _⟩
  | some data =>
    rw [hm] at hfile
    simp only [World.logged_files, hfile, Option.isNone_some, Bool.false_eq_true, if_false]
    exact wp_modify ⟨rfl, (h.logged _).delete cid⟩

/-! ## Listing -/

theorem stripExt_append (s : String) : stripExt (s ++ fileExt) = some s := by
  have htake : (s ++ fileExt).toList.take ((s ++ fileExt).toList.length - fileExt.toList.length) =
      s.toList := by
    rw [String.toList_append, List.length_append, Nat.add_sub_cancel, List.take_left]
  have hsuffix : fileExt.toList <:+ (s ++ fileExt).toList := by
    rw [String.toList_append]
    exact List.suffix_append _ _
  unfold stripExt
  dsimp only
  rw [if_pos hsuffix, htake, String.ofList_toList]

theorem stripExt_blockPath (cid : Cid) :
    (blockPath cr st cid).getLast?.bind stripExt = some (cr.cidToString cid) := by
  rw [blockPath, List.getLast?_append, List.getLast?_singleton]
  exact stripExt_append _

theorem mem_treeFiles (ht : Tracked w) {path : FilePath} :
    path ∈ treeFiles w ↔ (w.files path).isSome := by
  rw [treeFiles, List.mem_filter, List.mem_eraseDups, List.mem_filterMap]
  exact ⟨fun h => h.2, fun h => ⟨⟨.openFile path, ht path h, rfl⟩, h⟩⟩

/-- The walk finds the block files. -/
theorem walkBlockFiles_shelved (h : Shelved cr st m w) :
    wp walkBlockFiles (fun files w' => Shelved cr st m w' ∧
      ∀ path, path ∈ files ↔ ∃ cid, path = blockPath cr st cid ∧ (m cid).isSome)
      (fun _ _ => False) w := by
  refine wp_bind (wp_get (wp_bind (wp_mono (wp_foldlM (fun _ _ w' => Shelved cr st m w')
    (fun dir rest _ w' h' => ?_) _ () w h) (fun _ w' h' => ?_) fun _ _ h => h)))
  · exact wp_attempt (h'.logged _) fun hf => hf h'.noFaults
  · refine wp_pure ⟨h', fun path => ?_⟩
    rw [List.mem_filter, mem_treeFiles h.tracked]
    constructor
    · rintro ⟨hsome, -⟩
      obtain ⟨cid, rfl⟩ := h.only path hsome
      rw [h.file] at hsome
      exact ⟨cid, rfl, hsome⟩
    · rintro ⟨cid, rfl, hsome⟩
      rw [h.file, stripExt_blockPath]
      exact ⟨hsome, rfl⟩

theorem listCids_shelved (h : Shelved cr st m w) :
    wp (listCids cr) (fun cids w' => (∀ cid, cid ∈ cids ↔ (m cid).isSome) ∧ Shelved cr st m w')
      (fun _ _ => False) w := by
  refine wp_bind (wp_captured (wp_mono (walkBlockFiles_shelved h) (fun files w' h' => ?_)
    fun _ _ h => h.elim))
  refine wp_pure ⟨fun cid => ?_, h'.1⟩
  rw [List.mem_filterMap]
  constructor
  · rintro ⟨path, hpath, hcid⟩
    obtain ⟨cid', rfl, hsome⟩ := (h'.2 path).1 hpath
    rw [stripExt_blockPath] at hcid
    have heq := hcid.symm.trans (cr.cidOfString_toString cid')
    rw [Option.some.inj heq]
    exact hsome
  · intro hsome
    refine ⟨blockPath cr st cid, (h'.2 _).2 ⟨cid, rfl, hsome⟩, ?_⟩
    rw [stripExt_blockPath]
    exact cr.cidOfString_toString cid

/-! ## Calls -/

/-- A call that puts no data that are longer than a file. -/
def Takes (_ : Contents) (_ : Unit) : StoreReq → Prop
  | .putMany blocks => ∀ b ∈ blocks, b.data.length ≤ maxFileLen
  | _ => True

theorem shelved_empty (cr : Crates) (st : Store) : Shelved cr st .empty World.empty where
  noFaults := World.noFaults_empty
  tracked _ h := nomatch h
  file _ := rfl
  only _ h := nomatch h

/-- **GeomTree keeps its contents.** -/
theorem keeps (hv : st.verifyBlocksOnWrite = false) :
    (calls cr st).backend.Keeps Takes (fun _ _ _ => ()) fun m _ w => Shelved cr st m w := by
  refine DiskCalls.keeps (fun blocks h hfit => putMany_shelved h hv hfit)
    (fun cid h _ => get_shelved h cid) (fun cid h _ => ?_) (fun cid h _ => delete_shelved h cid)
    fun h _ => listCids_shelved h
  refine wp_fileExists ⟨?_, h⟩
  rw [h.file]

end

end Storage.GeomTree
