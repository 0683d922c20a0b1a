import Neverust.Storage.GeomTree

/-!
# Puts that are tried again

A call of `put_many` that succeeds leaves every file that was there, and makes one for each new CID
with the data of its first block (`putMany_files`). A call that fails leaves the files that were
there, too, but one of those it has made may have a part of its data.

* `retry_iff`: when the blocks of the calls that succeed can be read back, over a run of calls any
  write of which may fail.
-/

namespace Storage.GeomTree

open Io

section
variable {cr : Crates} {st : Store}

/-- The path tells the CID. -/
theorem blockPath_inj {c c' : Cid} (h : blockPath cr st c = blockPath cr st c') : c = c' := by
  have hname := (List.append_inj' h rfl).2
  have htext := congrArg String.toList (List.singleton_inj.1 hname)
  simp only [String.toList_append] at htext
  exact cr.cidToString_inj (String.toList_inj.1 (List.append_inj_left' htext rfl))

/-- The files that are there stay as they are. -/
def Kept (w w' : Disk) : Prop := ∀ (r : FilePath) (c : Bytes), w.files r = some c → w'.files r = some c

theorem Kept.refl (w : Disk) : Kept w w := fun _ _ h => h

theorem Kept.trans {w w' w'' : Disk} (h : Kept w w') (h' : Kept w' w'') : Kept w w'' :=
  fun r c hc => h' r c (h r c hc)

theorem Kept.setFile {w w' : Disk} {r : FilePath} (hr : w.files r = none) (h : Kept w w')
    (c : Bytes) : Kept w (w'.setFile r c) := by
  intro r' c' hc
  rw [World.setFile_files, if_neg]
  · exact h r' c' hc
  · rintro rfl
    rw [hr] at hc
    cases hc

theorem wp_createNew {r : FilePath} {w : Disk} {Q : Bool → Disk → Prop}
    {E : StorageError → Disk → Prop}
    (hthere : (w.files r).isSome → Q false (w.logged (.openFile r)))
    (hnew : w.files r = none → Q true ((w.logged (.openFile r)).setFile r []))
    (herr : ¬ w.NoFaults → E (.ioError .other) (w.logged (.openFile r))) :
    wp (createNew r) Q E w := by
  refine wp_bind (wp_attempt (wp_bind (wp_get ?_)) herr)
  cases hr : w.files r with
  | some c => simpa [hr] using wp_pure (hthere (by rw [hr]; rfl))
  | none =>
    simp only [World.logged_files, hr, Option.isSome_none, Bool.false_eq_true, if_false]
    exact wp_bind (wp_modify (wp_pure (hnew hr)))

theorem setFile_setFile (w : Disk) (r : FilePath) (c c' : Bytes) :
    (w.setFile r c).setFile r c' = w.setFile r c' := by
  simp only [World.setFile, World.mk.injEq, and_true]
  funext r'
  split <;> rfl

/-- The files after a block was put: a new one with its data, if there was none. -/
def withBlock (cr : Crates) (st : Store) (files : FilePath → Option Bytes) (b : Block) :
    FilePath → Option Bytes :=
  fun r => if r = blockPath cr st b.cid then some ((files r).getD b.data) else files r

theorem kept_withBlock {w w' : Disk} {b : Block} (h : w'.files = withBlock cr st w.files b) :
    Kept w w' := fun r c hc => by
  rw [h, withBlock]
  split
  · rw [hc, Option.getD_some]
  · exact hc

/-- **One block.** -/
theorem putBlock_wp (b : Block) (w : Disk) :
    wp (putBlock cr st b) (fun _ w' => w'.files = withBlock cr st w.files b)
      (fun _ w' => Kept w w') w := by
  refine wp_bind (wp_attempt (wp_bind (wp_createNew ?_ ?_ fun _ => Kept.refl w)) fun _ => Kept.refl w)
  · intro hsome
    obtain ⟨c, hc⟩ := Option.isSome_iff_exists.1 hsome
    refine wp_pure (funext fun r => ?_)
    show w.files r = if r = _ then _ else _
    split
    · rename_i heq
      subst heq
      change w.files _ = some c at hc
      rw [hc, Option.getD_some]
    · rfl
  · intro hnone
    change w.files _ = none at hnone
    have hkept : ∀ {w' : Disk}, w'.files = w.files → Kept w w' := fun h r c hc => by
      rw [h]
      exact hc
    have hend : ∀ {w' : Disk}, w'.files = withBlock cr st w.files b →
        wp (if st.fsyncWrites then attempt (.sync (blockPath cr st b.cid)) else pure () : Act Unit)
          (fun _ w' => w'.files = withBlock cr st w.files b) (fun _ w' => Kept w w') w' := by
      intro w' hw'
      split
      · exact wp_attempt hw' fun _ => kept_withBlock hw'
      · exact wp_pure hw'
    have hfilled : ∀ {w' : Disk}, w'.files = (w.setFile (blockPath cr st b.cid) b.data).files →
        w'.files = withBlock cr st w.files b := by
      intro w' hw'
      rw [hw']
      funext r
      rw [World.setFile_files, withBlock]
      split
      · rename_i heq
        rw [heq, hnone, Option.getD_none]
      · rfl
    refine wp_bind (wp_writeAllAt (fun hnil => hend (hfilled ?_)) (fun hne _ _ => hend (hfilled ?_))
      (fun _ => ?_) fun k _ _ => ?_)
    · rw [hnil]
      rfl
    · simp only [World.logged_files, World.content_setFile_self]
      rw [setFile_setFile, show Bytes.writeAt [] 0 b.data = b.data from Bytes.writeAt_length [] _]
      rfl
    · exact Kept.setFile hnone (hkept rfl) []
    · exact Kept.setFile hnone (Kept.setFile hnone (hkept rfl) []) _

/-- The files after a call of `put_many` that succeeds: the first block of a CID counts. -/
def withBlocks (cr : Crates) (st : Store) (files : FilePath → Option Bytes) (blocks : List Block) :
    FilePath → Option Bytes :=
  blocks.foldl (withBlock cr st) files

/-- **A call** leaves the files that were there, and makes the others if it succeeds. -/
theorem putMany_wp (blocks : List Block) (w : Disk) :
    wp (putMany cr st blocks) (fun _ w' => w'.files = withBlocks cr st w.files blocks ∧ Kept w w')
      (fun _ w' => Kept w w') w := by
  unfold putMany
  split
  · rename_i hnil
    rw [hnil]
    exact wp_pure ⟨rfl, Kept.refl w⟩
  · refine wp_bind (wp_lift (fun _ _ => ?_) fun _ _ => Kept.refl w)
    refine wp_mono (wp_foldlM (fun rest _ w' =>
      withBlocks cr st w'.files rest = withBlocks cr st w.files blocks ∧ Kept w w')
      (fun b rest _ w' h => ?_) blocks () w ⟨rfl, Kept.refl w⟩) (fun _ _ h => h) fun _ _ h => h
    obtain ⟨hfiles, hkept⟩ := h
    refine wp_mono (putBlock_wp b w') (fun _ w'' h' => ⟨?_, ?_⟩) fun _ _ h' => hkept.trans h'
    · rw [← hfiles, h']
      rfl
    · exact hkept.trans (kept_withBlock h')

/-- What a file holds after a call that succeeds. -/
theorem withBlocks_path (files : FilePath → Option Bytes) (blocks : List Block) (r : FilePath) :
    withBlocks cr st files blocks r =
      (files r).or ((blocks.find? fun b => r = blockPath cr st b.cid).map Block.data) := by
  induction blocks generalizing files with
  | nil => simp [withBlocks]
  | cons b blocks ih =>
    change withBlocks cr st (withBlock cr st files b) blocks r = _
    rw [ih, withBlock, List.find?_cons]
    by_cases hr : r = blockPath cr st b.cid
    · rw [if_pos hr, decide_eq_true hr]
      cases files r <;> rfl
    · rw [if_neg hr, decide_eq_false hr]

/-- `get` returns what is in the file, if nothing fails. -/
theorem get_healed_iff {w : Disk} {cid : Cid} {b : Block} :
    (∃ w', get cr st cid w.healed = .ok b w') ↔
      b.cid = cid ∧ w.files (blockPath cr st cid) = some b.data := by
  have hget : wp (get cr st cid)
      (fun b' _ => b'.cid = cid ∧ w.files (blockPath cr st cid) = some b'.data)
      (fun _ _ => w.files (blockPath cr st cid) = none) w.healed :=
    wp_bind (wp_readFile (fun c _ hc _ => wp_pure ⟨rfl, hc⟩) (fun _ hnone => hnone)
      (fun hf => absurd rfl hf) fun _ _ hf => absurd rfl hf)
  constructor
  · rintro ⟨w', hw'⟩
    exact wp_ok hget hw'
  · rintro ⟨rfl, hdata⟩
    obtain ⟨b', w', hw', hcid, hdata'⟩ := wp_total hget fun _ _ hnone => by
      rw [hdata] at hnone
      cases hnone
    rw [hdata] at hdata'
    cases b
    cases b'
    cases hcid
    cases hdata'
    exact ⟨w', hw'⟩

end

/-! ## Runs -/

section
variable (cr : Crates) (st : Store)

/-- The disk after a call. -/
def after (blocks : List Block) (w : Disk) : Disk :=
  match putMany cr st blocks w with
  | .ok _ w' => w'
  | .error _ w' => w'

def Succeeds (blocks : List Block) (w : Disk) : Prop := ∃ w', putMany cr st blocks w = .ok () w'

/-- The disk after calls. -/
def run (calls : List (List Block)) (w : Disk) : Disk :=
  calls.foldl (fun w blocks => after cr st blocks w) w

/-- The block can be read. -/
def ReadsBack (b : Block) (w : Disk) : Prop := ∃ w', get cr st b.cid w.healed = .ok b w'

/-- The files of the blocks that are there are complete, and a CID has one data among the blocks. -/
def Clean (blocks : List Block) (w : Disk) : Prop :=
  ∀ b ∈ blocks, (∀ c, w.files (blockPath cr st b.cid) = some c → c = b.data) ∧
    ∀ b' ∈ blocks, b'.cid = b.cid → b'.data = b.data

end

section
variable {cr : Crates} {st : Store}

theorem readsBack_iff {b : Block} {w : Disk} :
    ReadsBack cr st b w ↔ w.files (blockPath cr st b.cid) = some b.data :=
  get_healed_iff.trans (and_iff_right rfl)

theorem after_kept (blocks : List Block) (w : Disk) : Kept w (after cr st blocks w) := by
  have hput := @putMany_wp cr st blocks w
  unfold after
  unfold wp at hput
  split at hput
  · rename_i heq
    rw [heq]
    exact hput.2
  · rename_i heq
    rw [heq]
    exact hput

theorem run_kept : ∀ (calls : List (List Block)) (w : Disk), Kept w (run cr st calls w)
  | [], w => Kept.refl w
  | blocks :: calls, w => (after_kept blocks w).trans (run_kept calls _)

theorem after_of_succeeds {blocks : List Block} {w : Disk} (h : Succeeds cr st blocks w) :
    (after cr st blocks w).files = withBlocks cr st w.files blocks := by
  obtain ⟨w', hw'⟩ := h
  rw [after, hw']
  exact (wp_ok (putMany_wp blocks w) hw').1

/-- A block of a call that succeeds has a file. -/
theorem exists_file {blocks : List Block} {w : Disk} (h : Succeeds cr st blocks w) {b : Block}
    (hb : b ∈ blocks) :
    ∃ c, (after cr st blocks w).files (blockPath cr st b.cid) = some c ∧
      (w.files (blockPath cr st b.cid) = some c ∨ w.files (blockPath cr st b.cid) = none ∧
        ∃ b' ∈ blocks, b'.cid = b.cid ∧ b'.data = c) := by
  rw [after_of_succeeds h, withBlocks_path]
  cases hold : w.files (blockPath cr st b.cid) with
  | some c => exact ⟨c, rfl, .inl rfl⟩
  | none =>
    cases hfind : blocks.find? fun b' => blockPath cr st b.cid = blockPath cr st b'.cid with
    | none =>
      have := List.find?_eq_none.1 hfind b hb
      simp at this
    | some b' =>
      have hpath : blockPath cr st b.cid = blockPath cr st b'.cid := by
        simpa using List.find?_some hfind
      exact ⟨b'.data, rfl, .inr ⟨rfl, b', List.mem_of_find?_eq_some hfind,
        (blockPath_inj hpath).symm, rfl⟩⟩

/-- **One call.** -/
theorem after_readsBack_iff {blocks : List Block} {w : Disk} (h : Succeeds cr st blocks w) :
    (∀ b ∈ blocks, ReadsBack cr st b (after cr st blocks w)) ↔ Clean cr st blocks w := by
  simp only [readsBack_iff]
  constructor
  · intro hall b hb
    refine ⟨fun c hc => ?_, fun b' hb' hcid => ?_⟩
    · exact Option.some.inj ((after_kept blocks w _ c hc).symm.trans (hall b hb))
    · have hsame := hall b' hb'
      rw [hcid, hall b hb] at hsame
      exact (Option.some.inj hsame).symm
  · intro hclean b hb
    obtain ⟨hcomplete, hone⟩ := hclean b hb
    obtain ⟨c, hc, hold | ⟨-, b', hb', hcid, rfl⟩⟩ := exists_file h hb
    · rw [hc, hcomplete c hold]
    · rw [hc, hone b' hb' hcid]

/-- **When blocks can be read back after puts that may fail**: each call that succeeds has found
no file of its blocks that was left without all of its data. -/
theorem retry_iff (cr : Crates) (st : Store) (calls : List (List Block)) (w : Disk) :
    (∀ before blocks later, calls = before ++ blocks :: later →
        Succeeds cr st blocks (run cr st before w) →
        ∀ b ∈ blocks, ReadsBack cr st b (run cr st calls w)) ↔
      ∀ before blocks later, calls = before ++ blocks :: later →
        Succeeds cr st blocks (run cr st before w) → Clean cr st blocks (run cr st before w) := by
  have hrun : ∀ before blocks later, run cr st (before ++ blocks :: later) w =
      run cr st later (after cr st blocks (run cr st before w)) := fun before blocks later => by
    rw [run, List.foldl_append, List.foldl_cons]
    rfl
  refine forall_congr' fun before => forall_congr' fun blocks => forall_congr' fun later =>
    forall_congr' fun hcalls => forall_congr' fun hok => ?_
  rw [← after_readsBack_iff hok, hcalls, hrun]
  refine forall_congr' fun b => forall_congr' fun hb => ?_
  rw [readsBack_iff, readsBack_iff]
  have hkept := @run_kept cr st later (after cr st blocks (run cr st before w))
  constructor
  · intro hend
    obtain ⟨c, hc, -⟩ := exists_file hok hb
    rw [hc, Option.some.inj ((hkept _ c hc).symm.trans hend)]
  · exact hkept _ _

end

/-! ## A write that fails after its first byte -/

/-- Two bytes under a CID of the block codec. -/
def twoBytes : Block :=
  { cid := Cid.newV1 CidBlake3.archivistBlockCodec
      ⟨CidBlake3.blake3Code, Crates.standard.blake3 [1, 2]⟩,
    data := [1, 2] }

def plainStore : Store :=
  { fsyncWrites := false, shardLevels := 3, bytesPerLevel := 2, verifyBlocksOnWrite := false }

/-- An empty disk whose third operation fails after one byte. -/
def oneByteDisk : Disk := { World.empty with faults := fun n => if n = 2 then some 1 else none }

theorem twoBytes_partial :
    (run .standard plainStore [[twoBytes], [twoBytes]] oneByteDisk).files
      (blockPath .standard plainStore twoBytes.cid) = some [1] := by
  decide +kernel

theorem twoBytes_succeeds :
    Succeeds .standard plainStore [twoBytes] (run .standard plainStore [[twoBytes]] oneByteDisk) := by
  have hok : (match putMany .standard plainStore [twoBytes]
      (run .standard plainStore [[twoBytes]] oneByteDisk) with
      | .ok _ _ => true
      | .error _ _ => false) = true := by decide +kernel
  unfold Succeeds
  cases hput : putMany .standard plainStore [twoBytes]
      (run .standard plainStore [[twoBytes]] oneByteDisk) with
  | ok u w' => exact ⟨w', rfl⟩
  | error e w' =>
    rw [hput] at hok
    cases hok

/-- The second try reports success, and the block has lost its second byte. -/
theorem retry_keeps_partial :
    ¬ ∀ (calls : List (List Block)) (w : Disk) (before : List (List Block)) (blocks : List Block)
        (later : List (List Block)), calls = before ++ blocks :: later →
      Succeeds .standard plainStore blocks (run .standard plainStore before w) →
      ∀ b ∈ blocks, ReadsBack .standard plainStore b (run .standard plainStore calls w) := by
  intro h
  have hread := h [[twoBytes], [twoBytes]] oneByteDisk [[twoBytes]] [twoBytes] [] rfl
    twoBytes_succeeds twoBytes List.mem_cons_self
  rw [readsBack_iff, twoBytes_partial] at hread
  exact absurd hread (by decide)

end Storage.GeomTree
