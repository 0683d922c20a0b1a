import Neverust.CidForms
import Neverust.Storage.DeltaStore.Proof.Committed

/-!
# DeltaStore and the size limit of its files

The loop of `put_many` compares `max_file_bytes` with the next offset of the class. Only when it
opens the file it learns how long the file really is, and then it no longer compares. The two differ
after a batch that failed, whose bytes stay in the file.

* `HasRoom`: the file that a block opens has room for the block.
* `putBlock_within`: such a block leaves the files within the limit, whatever fails.
* `limit_kept`: so does every run of such calls.
* `limit_exceeded`: two blocks of which the second has no room, after a batch that failed.
-/

open Std (ExtTreeMap)

namespace Storage.DeltaStore

open Io Rust Bytes

/-! ## Files within the limit -/

/-- No file is longer than `max_file_bytes`. -/
def Within (max : UInt64) (w : Disk) : Prop := ∀ f, (w.content f).length ≤ max.toNat

/-- The files have their bytes still. -/
def Kept (w w' : Disk) : Prop := ∀ f, w'.content f = w.content f

namespace Kept

variable {w w' w'' : Disk}

theorem refl (w : Disk) : Kept w w := fun _ => rfl

theorem trans (h : Kept w w') (h' : Kept w' w'') : Kept w w'' := fun f => (h' f).trans (h f)

theorem logged (h : Kept w w') (op : IoOp BlockFile) : Kept w (w'.logged op) := h

theorem within (h : Kept w w') {max : UInt64} (hw : Within max w) : Within max w' := fun f => by
  rw [h]
  exact hw f

end Kept

/-- The class state from which the next block of a class goes on. -/
def classStateOf (classState : ExtTreeMap String Bytes) (cache : List (UInt8 × DeltaClassState))
    (classId : UInt8) : Except StorageError DeltaClassState :=
  match cachedState cache classId with
  | some state => .ok state
  | none =>
    match classState[classStateKey classId]? with
    | some v => decodeClassState v
    | none => .ok { fileId := 0, nextOffset := 0 }

section
variable (cr : Crates) (st : Store)

/-- If the batch opens a file for the block, the file has room for it. -/
def HasRoom (classState : ExtTreeMap String Bytes) (batch : Batch) (block : Block) (w : Disk) :
    Prop :=
  ∀ state state', ¬ (st.skipExistsCheck = false ∧
      (batch.index[cr.cidToString block.cid]?).isSome) →
    classStateOf classState batch.stateCache (UInt8.ofNat (classForLen block.data.length).1) =
      .ok state →
    roll st.maxFileBytes block.data.length state = .ok state' →
    (UInt8.ofNat (classForLen block.data.length).1, state'.fileId) ∉ batch.fileCache →
    (w.content (UInt8.ofNat (classForLen block.data.length).1, state'.fileId)).length +
      block.data.length ≤ st.maxFileBytes.toNat

/-- So it is for each of the blocks when the batch comes to it. -/
def BatchHasRoom (classState : ExtTreeMap String Bytes) : List Block → Batch → Disk → Prop
  | [], _, _ => True
  | block :: blocks, batch, w =>
    HasRoom cr st classState batch block w ∧
      ∀ batch' w', putBlock cr st classState batch block w = .ok batch' w' →
        BatchHasRoom classState blocks batch' w'

/-- The disk after the three operations of the database with which a call begins. -/
def begun (w : Disk) : Disk := ((w.logged .database).logged .database).logged .database

def CallHasRoom (s : State) : StoreReq → Prop
  | .putMany blocks => BatchHasRoom cr st s.db.classState blocks
      { index := s.db.index, stateCache := [], fileCache := [] } (begun s.disk)
  | _ => True

/-- So it is for each of the calls in the state it is made in. -/
def RunHasRoom : List StoreReq → State → Prop
  | [], _ => True
  | r :: calls, s => CallHasRoom cr st s r ∧ RunHasRoom calls (answer cr st r s).2

end

/-! ## One block -/

section
variable {cr : Crates} {st : Store} {w : Disk} {t : Ledger} {batch : Batch}

theorem roll_le {max : UInt64} {len : Nat} {state state' : DeltaClassState}
    (h : roll max len state = .ok state') : state'.nextOffset.toNat + len ≤ max.toNat := by
  unfold roll at h
  split at h
  · rename_i hr
    cases h
    exact (DeltaFlat.rollFile_ok hr).1
  · cases h

theorem wp_dbCall_kept {w₀ : Disk} (h : Kept w₀ w) :
    wp dbCall (fun _ w' => Kept w₀ w') (fun _ w' => Kept w₀ w') w :=
  wp_dbCall (h.logged _) fun _ => h.logged _

theorem existsCheck_kept (index : ExtTreeMap String Bytes) (key : String) :
    wp (existsCheck st index key)
      (fun found w' => Kept w w' ∧
        (found = true ↔ st.skipExistsCheck = false ∧ (index[key]?).isSome))
      (fun _ w' => Kept w w') w := by
  unfold existsCheck
  split
  · rename_i hskip
    exact wp_pure ⟨.refl w, by simp [hskip]⟩
  · rename_i hskip
    refine wp_bind (wp_mono (wp_dbCall_kept (.refl w)) (fun _ w' h => ?_) fun _ _ h => h)
    exact wp_pure ⟨h, by simp [hskip]⟩

theorem loadState_kept (classState : ExtTreeMap String Bytes)
    (cache : List (UInt8 × DeltaClassState)) (classId : UInt8) :
    wp (loadState classState cache classId)
      (fun state w' => Kept w w' ∧ classStateOf classState cache classId = .ok state)
      (fun _ w' => Kept w w') w := by
  unfold loadState classStateOf
  cases cachedState cache classId with
  | some state => exact wp_pure ⟨.refl w, rfl⟩
  | none =>
    refine wp_bind (wp_mono (wp_dbCall_kept (.refl w)) (fun _ w' h => ?_) fun _ _ h => h)
    cases classState[classStateKey classId]? with
    | some v => exact wp_lift (fun state hv => ⟨h, hv⟩) fun _ _ => h
    | none => exact wp_pure ⟨h, rfl⟩

theorem openBlockFile_kept (classId : UInt8) (state : DeltaClassState) (cache : List BlockFile) :
    wp (openBlockFile classId state cache) (fun _ w' => Kept w w') (fun _ w' => Kept w w') w := by
  unfold openBlockFile
  dsimp only
  split
  · exact wp_pure (.refl w)
  · have hset : ∀ r : BlockFile, Kept w ((w.logged (.openFile r)).setFile r (w.content r)) := by
      intro r f
      by_cases hf : f = r
      · subst hf
        rw [World.content_setFile_self]
      · rw [World.content_setFile_ne _ _ hf, World.content_logged]
    have hdir : Kept w (w.logged .createDir) := .logged (.refl w) _
    refine wp_bind (wp_attempt ?_ fun _ => hdir)
    refine wp_bind (wp_openCreate ?_ fun _ => hdir.logged _)
    have hopen := hset (classId, state.fileId)
    refine wp_bind (wp_fileLen ?_ fun _ => hopen)
    exact wp_bind (wp_attempt (wp_pure hopen) fun _ => hopen)

/-- A write at the end of a file that has room, all of it or a part. -/
theorem wp_append_within {max : UInt64} {r : BlockFile} {off : Nat} {data : Bytes}
    (hw : Within max w) (hoff : off = (w.content r).length)
    (hfit : (w.content r).length + data.length ≤ max.toNat) :
    wp (writeAllAt r off data : Act Unit) (fun _ w' => Within max w') (fun _ w' => Within max w')
      w := by
  subst hoff
  have happ : ∀ d : Bytes, d.length ≤ data.length →
      Within max ((w.setFile r ((w.content r).writeAt (w.content r).length d)).logged (.write r)) := by
    intro d hd f
    rw [World.content_logged, writeAt_length]
    by_cases hf : f = r
    · subst hf
      rw [World.content_setFile_self, List.length_append]
      omega
    · rw [World.content_setFile_ne _ _ hf]
      exact hw f
  exact wp_writeAllAt (fun _ => hw) (fun _ _ _ => happ data (Nat.le_refl _)) (fun _ => hw)
    fun k _ _ => happ (data.take k) (List.length_take_le' _ _)

theorem placeData_within {classId : UInt8} {state : DeltaClassState} {cache : List BlockFile}
    {data : Bytes} (hb : Bounded w) (hs : Synced classId state cache w)
    (hw : Within st.maxFileBytes w)
    (hroom : ∀ state', roll st.maxFileBytes data.length state = .ok state' →
      (classId, state'.fileId) ∉ cache →
      (w.content (classId, state'.fileId)).length + data.length ≤ st.maxFileBytes.toNat) :
    wp (placeData st classId state cache data) (fun _ w' => Within st.maxFileBytes w')
      (fun _ w' => Within st.maxFileBytes w') w := by
  unfold placeData
  refine wp_bind (wp_lift (fun state1 hr => ?_) fun _ _ => hw)
  have hs1 := hs.roll hr
  -- the check was right for a file of the batch; the condition speaks of the others
  have hfit : (w.content (classId, state1.fileId)).length + data.length ≤
      st.maxFileBytes.toNat := by
    by_cases hmem : (classId, state1.fileId) ∈ cache
    · rw [← (hs1 _ hmem).2.2 rfl]
      exact roll_le hr
    · exact hroom state1 hr hmem
  refine wp_bind (wp_mono (wp_and (openBlockFile_spec hb hs1) (openBlockFile_kept classId state1
    cache)) (fun r w1 h1 => ?_) fun _ _ h1 => h1.2.within hw)
  obtain ⟨⟨⟨-, -, hs2, hmem⟩, hfile, -⟩, hk⟩ := h1
  obtain ⟨state2, cache2⟩ := r
  dsimp only at hs2 hmem hfile ⊢
  rw [← hfile, ← hk] at hfit
  have hw1 : Within st.maxFileBytes (w1.logged (.seek (classId, state2.fileId))) := hk.within hw
  refine wp_bind (wp_attempt ?_ fun _ => hw1)
  refine wp_bind (wp_mono (wp_append_within hw1 ((hs2 _ hmem).2.2 rfl) hfit) (fun _ w2 hw2 => ?_)
    fun _ _ h => h)
  exact wp_bind (wp_lift (fun _ _ => wp_pure hw2) fun _ _ => hw2)

/-- **One block**: with room for it the files stay within the limit, whatever fails. -/
theorem putBlock_within {classState : ExtTreeMap String Bytes} (hb : BatchOk batch w t)
    (hw : Within st.maxFileBytes w) {block : Block}
    (hroom : HasRoom cr st classState batch block w) :
    wp (putBlock cr st classState batch block) (fun _ w' => Within st.maxFileBytes w')
      (fun _ w' => Within st.maxFileBytes w') w := by
  unfold putBlock
  dsimp only
  refine wp_bind (wp_mono (wp_and (existsCheck_spec hb _) (existsCheck_kept batch.index _))
    (fun found w1 h1 => ?_) fun _ _ h1 => h1.2.within hw)
  obtain ⟨⟨hb1, -, -⟩, hk1, hfound⟩ := h1
  by_cases hf : found = true
  · rw [if_pos hf]
    exact wp_pure (hk1.within hw)
  · rw [if_neg hf]
    refine wp_bind (wp_mono (wp_and (loadState_spec classState hb1 _)
      (loadState_kept classState batch.stateCache _)) (fun state w2 h2 => ?_)
      fun _ _ h2 => (hk1.trans h2.2).within hw)
    obtain ⟨⟨-, hsame, hs⟩, hk2, hstate⟩ := h2
    have hk := hk1.trans hk2
    refine wp_bind (wp_mono (placeData_within (hb1.bounded.same hsame) hs (hk.within hw)
      fun state' hr hn => ?_) (fun r w3 hw3 => ?_) fun _ _ h => h)
    · rw [hk]
      exact hroom state state' (fun h => hf (hfound.2 h)) hstate hr hn
    · exact wp_bind (wp_dbCall (wp_pure hw3) fun _ => hw3)

/-! ## Calls and runs -/

theorem putBlocks_within {classState : ExtTreeMap String Bytes} :
    ∀ (blocks : List Block) {batch : Batch} {w : Disk} {t : Ledger}, BatchOk batch w t →
      Within st.maxFileBytes w → BatchHasRoom cr st classState blocks batch w →
      wp (blocks.foldlM (putBlock cr st classState) batch) (fun _ w' => Within st.maxFileBytes w')
        (fun _ w' => Within st.maxFileBytes w') w
  | [], _, _, _, _, hw, _ => wp_pure hw
  | block :: blocks, batch, w, t, hb, hw, hroom => by
    rw [List.foldlM_cons]
    refine wp_bind (wp_mono (wp_and (wp_and (putBlock_spec classState hb block)
      (putBlock_within hb hw hroom.1)) (wp_run _)) (fun batch' w' h => ?_) fun _ _ h => h.1.2)
    exact putBlocks_within blocks h.1.1.2 h.1.2 (hroom.2 batch' w' h.2)

theorem saveStates_kept (classState : ExtTreeMap String Bytes)
    (cache : List (UInt8 × DeltaClassState)) :
    wp (saveStates classState cache) (fun _ w' => Kept w w') (fun _ w' => Kept w w') w := by
  refine wp_foldlM (fun _ _ w' => Kept w w') (fun p rest t' w' h => ?_) cache classState w (.refl w)
  exact wp_bind (wp_mono (wp_dbCall_kept h) (fun _ _ h' => wp_pure h') fun _ _ h' => h')

theorem syncFiles_kept (files : List BlockFile) :
    wp (syncFiles files) (fun _ w' => Kept w w') (fun _ w' => Kept w w') w := by
  refine wp_foldlM (fun _ _ w' => Kept w w') (fun f rest _ w' h => ?_) files () w (.refl w)
  exact wp_attempt (h.logged _) fun _ => h.logged _

variable {s : State}

theorem putMany_within (hi : Intact s t) (hw : Within st.maxFileBytes s.disk) {blocks : List Block}
    (hroom : CallHasRoom cr st s (.putMany blocks)) :
    wp (putMany cr st s.db blocks) (fun _ w' => Within st.maxFileBytes w')
      (fun _ w' => Within st.maxFileBytes w') s.disk := by
  unfold putMany
  split
  · exact wp_pure hw
  · have hbatch : BatchOk { index := s.db.index, stateCache := [], fileCache := [] }
        (begun s.disk) t :=
      ⟨hi.bounded, hi.stored.of_files rfl, nofun, nofun⟩
    refine wp_bind (wp_lift (fun _ _ => ?_) fun _ _ => hw)
    refine wp_bind (wp_dbCall ?_ fun _ => hw)
    refine wp_bind (wp_dbCall ?_ fun _ => hw)
    refine wp_bind (wp_dbCall ?_ fun _ => hw)
    refine wp_bind (wp_mono (putBlocks_within blocks hbatch hw hroom) (fun batch w1 hw1 => ?_)
      fun _ _ h => h)
    have hend : ∀ w2, Within st.maxFileBytes w2 → wp (do
        let classState ← saveStates s.db.classState batch.stateCache
        dbCall
        return { index := batch.index, classState } : Act Db)
        (fun _ w' => Within st.maxFileBytes w') (fun _ w' => Within st.maxFileBytes w') w2 := by
      intro w2 hw2
      refine wp_bind (wp_mono (saveStates_kept _ _) (fun _ w3 hk => ?_) fun _ _ hk => hk.within hw2)
      have hw3 := hk.within hw2
      exact wp_bind (wp_dbCall (wp_pure hw3) fun _ => hw3)
    split
    · exact wp_bind (wp_mono (syncFiles_kept _) (fun _ w2 hk => hend w2 (hk.within hw1))
        fun _ _ hk => hk.within hw1)
    · exact hend w1 hw1

/-- The calls that only read, and `delete`, which writes to the tables alone. -/
theorem wp_begin_kept {α : Type} {x : Act α}
    (hx : ∀ w', Kept w w' → wp x (fun _ w'' => Kept w w'') (fun _ w'' => Kept w w'') w') :
    wp (do dbCall; dbCall; dbCall; x) (fun _ w' => Kept w w') (fun _ w' => Kept w w') w := by
  refine wp_bind (wp_mono (wp_dbCall_kept (.refl w)) (fun _ w1 h1 => ?_) fun _ _ h => h)
  refine wp_bind (wp_mono (wp_dbCall_kept h1) (fun _ w2 h2 => ?_) fun _ _ h => h)
  exact wp_bind (wp_mono (wp_dbCall_kept h2) (fun _ w3 h3 => hx w3 h3) fun _ _ h => h)

theorem readLocation_kept {w₀ : Disk} (h : Kept w₀ w) (key : String) (loc : DeltaLocation) :
    wp (readLocation key loc) (fun _ w' => Kept w₀ w') (fun _ w' => Kept w₀ w') w := by
  unfold readLocation
  refine wp_bind (wp_openFile (fun _ => ?_) (fun _ => h.logged _) fun _ => h.logged _)
  have h1 := (h.logged (.openFile (loc.classId, loc.fileId))).logged (.seek (loc.classId, loc.fileId))
  refine wp_bind (wp_attempt ?_ fun _ => h1)
  refine wp_bind (wp_readExactAt (fun _ => wp_pure h1) (fun _ => ?_) fun _ => h1.logged _)
  split
  · exact wp_pure (h1.logged _)
  · exact wp_throw (h1.logged _)

theorem get_kept (db : Db) (cid : Cid) :
    wp (get cr db cid) (fun _ w' => Kept w w') (fun _ w' => Kept w w') w := by
  refine wp_begin_kept fun w' h => ?_
  split
  · exact wp_throw h
  · refine wp_bind (wp_lift (fun loc _ => ?_) fun _ _ => h)
    exact wp_bind (wp_mono (readLocation_kept h _ loc) (fun _ _ h' => wp_pure h') fun _ _ h' => h')

theorem delete_kept (db : Db) (cid : Cid) :
    wp (delete cr db cid) (fun _ w' => Kept w w') (fun _ w' => Kept w w') w := by
  refine wp_begin_kept fun w' h => ?_
  split
  · exact wp_throw h
  · exact wp_bind (wp_mono (wp_dbCall_kept h) (fun _ _ h' => wp_pure h') fun _ _ h' => h')

theorem commit_disk {P : Disk → Prop} {x : Act Db} (hx : wp x (fun _ w' => P w') (fun _ w' => P w')
    s.disk) : P (commit x s).2.disk := by
  unfold wp at hx
  unfold commit
  cases hr : x s.disk <;> rw [hr] at hx <;> exact hx

theorem query_disk {P : Disk → Prop} {α : Type} {x : Act α}
    (hx : wp x (fun _ w' => P w') (fun _ w' => P w') s.disk) : P (query x s).2.disk := by
  unfold wp at hx
  unfold query
  cases hr : x s.disk <;> rw [hr] at hx <;> exact hx

/-- **A call** whose blocks have room leaves the files within the limit. -/
theorem answer_within (hi : Intact s t) (hw : Within st.maxFileBytes s.disk) {r : StoreReq}
    (hroom : CallHasRoom cr st s r) : Within st.maxFileBytes (answer cr st r s).2.disk := by
  cases r with
  | putMany blocks => exact commit_disk (P := Within st.maxFileBytes) (putMany_within hi hw hroom)
  | get cid => exact (query_disk (P := Kept s.disk) (get_kept s.db cid)).within hw
  | has cid =>
    exact (query_disk (P := Kept s.disk) (x := has cr s.db cid)
      (wp_begin_kept fun _ h => wp_pure h)).within hw
  | delete cid => exact (commit_disk (P := Kept s.disk) (delete_kept s.db cid)).within hw
  | listCids =>
    exact (query_disk (P := Kept s.disk) (x := listCids cr s.db)
      (wp_begin_kept fun _ h => wp_pure h)).within hw

theorem run_within : ∀ (calls : List StoreReq) {s : State} {t : Ledger}, Intact s t →
    Within st.maxFileBytes s.disk → RunHasRoom cr st calls s →
    Within st.maxFileBytes (run cr st (s, t) calls).1.disk
  | [], _, _, _, hw, _ => hw
  | r :: calls, s, t, hi, hw, hroom =>
    run_within calls (@answer_spec cr st t s hi r).2 (answer_within hi hw hroom.1) hroom.2

theorem RunHasRoom.before : ∀ {before later : List StoreReq} {s : State},
    RunHasRoom cr st (before ++ later) s → RunHasRoom cr st before s
  | [], _, _, _ => trivial
  | _ :: _, _, _, h => ⟨h.1, h.2.before⟩

/-- **The files stay within the limit** in every state of a run, whatever fails and when, if every
block for which a call opens a file has room in it. -/
theorem limit_kept (cr : Crates) (st : Store) (faults : Nat → Option Nat)
    (before later : List StoreReq) (h : RunHasRoom cr st (before ++ later) (State.start faults)) :
    ∀ f, ((run cr st (State.start faults, ∅) before).1.disk.content f).length ≤
      st.maxFileBytes.toNat :=
  run_within before (intact_start faults) (fun _ => Nat.zero_le _) h.before

/-- A store whose files hold 512 MiB. -/
def smallFiles : Store := .open false (some 1) false false

/-- A block of zeros. -/
def zeros (codec : UInt64) (n : Nat) : Block :=
  { cid := Cid.newV1 codec ⟨0, []⟩, data := List.replicate n 0 }

/-- One call whose commit fails, and one that returns `Ok`. -/
def commitFails (n : Nat) : Option Nat := if n = 13 then some 0 else none

theorem limit_kept_sample :
    ((run .standard smallFiles (State.start commitFails, ∅) [.putMany [zeros 0x55 3]]).1.disk.content
      (0, 0)).length ≤ smallFiles.maxFileBytes.toNat := by
  refine limit_kept .standard smallFiles commitFails [.putMany [zeros 0x55 3]]
    [.delete (zeros 0x55 3).cid] ⟨⟨fun state state' _ _ hr _ => ?_, fun _ _ _ => trivial⟩, trivial,
      trivial⟩ (0, 0)
  have hle := roll_le hr
  show 0 + _ ≤ _
  omega

/-! ## A batch that fails at its commit -/

/-- `n` operations without an effect on the files. -/
structure Quiet (w : Disk) (n : Nat) (w' : Disk) : Prop where
  faults : w'.faults = w.faults
  log : w'.log.length = w.log.length + n
  kept : Kept w w'

namespace Quiet

variable {w' : Disk} {n : Nat}

theorem refl (w : Disk) : Quiet w 0 w := ⟨rfl, rfl, .refl w⟩

theorem logged (h : Quiet w n w') (op : IoOp BlockFile) : Quiet w (n + 1) (w'.logged op) :=
  ⟨h.faults, by simp [h.log, Nat.add_assoc], h.kept⟩

theorem opened (h : Quiet w n w') (r : BlockFile) :
    Quiet w (n + 1) ((w'.logged (.openFile r)).setFile r (w'.content r)) where
  faults := h.faults
  log := by simp [h.log, Nat.add_assoc]
  kept f := by
    by_cases hf : f = r
    · subst hf
      rw [World.content_setFile_self, h.kept]
    · rw [World.content_setFile_ne _ _ hf, World.content_logged, h.kept]

theorem fault (h : Quiet w n w') : w'.fault = w.faults (w.log.length + n) := by
  rw [World.fault, h.faults, h.log]

end Quiet

theorem wp_dbCall_fault {Q : Unit → Disk → Prop} {E : StorageError → Disk → Prop}
    (hok : w.fault = none → Q () (w.logged .database))
    (herr : w.fault ≠ none → E (.databaseError .redb) (w.logged .database)) :
    wp dbCall Q E w := by
  unfold wp dbCall
  cases hf : w.fault with
  | none => exact hok hf
  | some k => exact herr (by simp [hf])

/-- The file in which the first block of a class goes. -/
abbrev firstFile (len : Nat) : BlockFile := (UInt8.ofNat (classForLen len).1, 0)

/-- The data were added to the first file of their class by a call of `n` operations. -/
structure Wrote (data : Bytes) (n : Nat) (w w' : Disk) : Prop where
  faults : w'.faults = w.faults
  log : w'.log.length = w.log.length + n
  content : w'.content (firstFile data.length) = w.content (firstFile data.length) ++ data

theorem Wrote.logged {data : Bytes} {n : Nat} {w' : Disk} (h : Wrote data n w w')
    (op : IoOp BlockFile) : Wrote data (n + 1) w (w'.logged op) :=
  ⟨h.faults, by simp [h.log, Nat.add_assoc], h.content⟩

theorem Wrote.fault {data : Bytes} {n : Nat} {w' : Disk} (h : Wrote data n w w') :
    w'.fault = w.faults (w.log.length + n) := by
  rw [World.fault, h.faults, h.log]

theorem openBlockFile_quiet {w' : Disk} {n : Nat} (hq : Quiet w n w') (classId : UInt8)
    (state : DeltaClassState) (hf : ∀ k < n + 4, w.faults (w.log.length + k) = none) :
    wp (openBlockFile classId state [])
      (fun r w'' => Quiet w (n + 4) w'' ∧ r.1 = { state with
        nextOffset := UInt64.ofNat (w.content (classId, state.fileId)).length })
      (fun _ _ => False) w' := by
  have hok : ∀ {m w''}, Quiet w m w'' → m < n + 4 → w''.fault ≠ none → False :=
    fun h hm hne => hne (h.fault.trans (hf _ hm))
  unfold openBlockFile
  dsimp only
  rw [if_neg List.not_mem_nil]
  have q1 := hq.logged .createDir
  refine wp_bind (wp_attempt_fault (fun _ => ?_) (hok hq (by omega)))
  have q2 := q1.opened (classId, state.fileId)
  refine wp_bind (wp_bind (wp_attempt_fault (fun _ => wp_modify ?_) (hok q1 (by omega))))
  have q3 := q2.logged (.metadata (classId, state.fileId))
  refine wp_bind (wp_bind (wp_attempt_fault (fun _ => wp_bind (wp_get (wp_pure ?_)))
    (hok q2 (by omega))))
  refine wp_bind (wp_attempt_fault (fun _ => wp_pure ⟨q3.logged _, ?_⟩) (hok q3 (by omega)))
  exact congrArg (fun c : Bytes => { state with nextOffset := UInt64.ofNat c.length }) (q3.kept _)

theorem placeData_wrote {data : Bytes} {w' : Disk} (hq : Quiet w 5 w') (hne : data ≠ [])
    (hfit : data.length ≤ st.maxFileBytes.toNat) (hlen : data.length < 2 ^ 32)
    (hmax : (w.content (firstFile data.length)).length + data.length ≤ maxFileLen)
    (hf : ∀ k < 11, w.faults (w.log.length + k) = none) :
    wp (placeData st (UInt8.ofNat (classForLen data.length).1) { fileId := 0, nextOffset := 0 } []
      data) (fun _ w'' => Wrote data 11 w w'') (fun _ _ => False) w' := by
  have hoff : (UInt64.ofNat (w.content (firstFile data.length)).length).toNat =
      (w.content (firstFile data.length)).length :=
    UInt64.toNat_ofNat_of_lt' (by unfold maxFileLen at hmax; unfold UInt64.size; omega)
  have hroll : roll st.maxFileBytes data.length { fileId := 0, nextOffset := 0 } =
      .ok { fileId := 0, nextOffset := 0 } := by
    rw [roll, DeltaFlat.rollFile_of_le 0 (by simpa using hfit)]
  unfold placeData
  rw [hroll]
  refine wp_bind (wp_lift (fun state hs => ?_) fun _ h => nomatch h)
  obtain rfl := Except.ok.inj hs
  refine wp_bind (wp_mono (openBlockFile_quiet hq _ _ fun k hk => hf k (by omega))
    (fun r w1 h1 => ?_) fun _ _ h => h)
  obtain ⟨⟨state, cache⟩, q1, rfl⟩ := r, h1
  refine wp_bind (wp_attempt_fault (fun _ => ?_) fun h => h (q1.fault.trans (hf _ (by omega))))
  have q2 := q1.logged (.seek (firstFile data.length))
  refine wp_bind (wp_writeAllAt (fun h => absurd h hne) (fun _ _ _ => ?_) (fun hbig => ?_)
    fun k hk => ?_)
  · have hcontent : (w1.logged (.seek (firstFile data.length))).content (firstFile data.length) =
        w.content (firstFile data.length) := q2.kept _
    have hloc : ∃ r, locate (UInt8.ofNat (classForLen data.length).1)
        { fileId := 0, nextOffset := UInt64.ofNat (w.content (firstFile data.length)).length }
        data.length = .ok r := by
      refine locate_of_lt _ _ hlen ?_
      show (UInt64.ofNat (w.content (firstFile data.length)).length).toNat + data.length < _
      unfold maxFileLen at hmax
      omega
    refine wp_bind (wp_lift (fun _ _ => wp_pure ⟨q2.faults, ?_, ?_⟩) fun e he => ?_)
    · show ((w1.logged (.seek (firstFile data.length))).log ++ [_]).length = _
      rw [List.length_append, q2.log]
      rfl
    · rw [World.content_logged]
      refine (World.content_setFile_self _ _ _).trans ?_
      show Bytes.writeAt _ (UInt64.ofNat (w.content (firstFile data.length)).length).toNat data = _
      rw [hoff, ← hcontent]
      exact writeAt_length _ _
    · obtain ⟨r, hr⟩ := hloc
      exact absurd (hr.symm.trans he) nofun
  · change maxFileLen < (UInt64.ofNat (w.content (firstFile data.length)).length).toNat + _ at hbig
    omega
  · rw [q2.fault, hf _ (by omega)] at hk
    cases hk

/-- A batch of one block on empty tables, of whose operations at most the commit fails. -/
theorem putMany_wrote (hfsync : st.fsyncWrites = false) (hskip : st.skipExistsCheck = false)
    (hverify : st.verifyBlocksOnWrite = false) {block : Block} (hne : block.data ≠ [])
    (hfit : block.data.length ≤ st.maxFileBytes.toNat) (hlen : block.data.length < 2 ^ 32)
    (hmax : (w.content (firstFile block.data.length)).length + block.data.length ≤ maxFileLen)
    (hf : ∀ k < 13, w.faults (w.log.length + k) = none) :
    wp (putMany cr st { index := ∅, classState := ∅ } [block])
      (fun _ w' => Wrote block.data 14 w w' ∧ w.faults (w.log.length + 13) = none)
      (fun _ w' => Wrote block.data 14 w w') w := by
  have hok : ∀ {n w' E}, Quiet w n w' → n < 13 → w'.fault ≠ none → E :=
    fun h hn hne => absurd (h.fault.trans (hf _ hn)) hne
  have hok' : ∀ {n w' E}, Wrote block.data n w w' → n < 13 → w'.fault ≠ none → E :=
    fun h hn hne => absurd (h.fault.trans (hf _ hn)) hne
  have q3 := (((Quiet.refl w).logged .database).logged .database).logged .database
  unfold putMany
  rw [if_neg (List.cons_ne_nil _ _)]
  refine wp_bind (wp_lift (fun _ _ => ?_) fun e he => by simp [verifyBlocks, hverify] at he)
  refine wp_bind (wp_dbCall_fault (fun _ => ?_) (hok (.refl w) (by decide)))
  refine wp_bind (wp_dbCall_fault (fun _ => ?_) (hok ((Quiet.refl w).logged _) (by decide)))
  refine wp_bind (wp_dbCall_fault (fun _ => ?_) (hok (((Quiet.refl w).logged _).logged _)
    (by decide)))
  have hput : wp (putBlock cr st ∅ { index := ∅, stateCache := [], fileCache := [] } block)
      (fun batch w' => Wrote block.data 12 w w' ∧ ∃ p, batch.stateCache = [p]) (fun _ _ => False)
      (begun w) := by
    unfold putBlock existsCheck
    dsimp only
    rw [hskip]
    refine wp_bind (wp_bind (wp_dbCall_fault (fun _ => wp_pure ?_) (hok q3 (by decide))))
    rw [ExtTreeMap.getElem?_empty, if_neg (by simp)]
    have q4 := q3.logged .database
    refine wp_bind (wp_bind (wp_dbCall_fault (fun _ => ?_) (hok q4 (by decide))))
    rw [ExtTreeMap.getElem?_empty]
    refine wp_pure (wp_bind (wp_mono (placeData_wrote (q4.logged .database) hne hfit hlen hmax
      fun k hk => hf k (by omega)) (fun r w1 h1 => ?_) fun _ _ h => h))
    exact wp_bind (wp_dbCall_fault (fun _ => wp_pure ⟨h1.logged _, _, rfl⟩)
      (hok' h1 (by decide)))
  rw [List.foldlM_cons]
  refine wp_bind (wp_bind (wp_mono hput (fun batch w1 h1 => wp_pure ?_) fun _ _ h => h.elim))
  obtain ⟨hw1, p, hp⟩ := h1
  rw [hfsync, hp]
  refine wp_bind (wp_bind (wp_bind (wp_dbCall_fault (fun _ => wp_pure (wp_pure ?_))
    (hok' hw1 (by decide)))))
  have hw2 := hw1.logged .database
  refine wp_bind (wp_dbCall_fault (fun hnone => wp_pure ⟨hw2.logged _, ?_⟩)
    fun _ => hw2.logged _)
  rw [← hw2.fault, hnone]

end

theorem commit_fails {s : State} {P : Disk → Prop} {x : Act Db}
    (hx : wp x (fun _ _ => False) (fun _ w' => P w') s.disk) :
    (commit x s).2.db = s.db ∧ P (commit x s).2.disk := by
  unfold wp at hx
  unfold commit
  cases hr : x s.disk with
  | ok db w' =>
    rw [hr] at hx
    exact hx.elim
  | error e w' =>
    rw [hr] at hx
    exact ⟨rfl, hx⟩

/-- Two blocks of one class, each of at most 512 MiB: the call with the first fails at its commit,
and the data of the second go behind those of the first. -/
theorem content_commitFails {a b : Block} (ha : a.data.length = 2 ^ 29)
    (hb : b.data.length = 2 ^ 28 + 1) :
    (run .standard smallFiles (State.start commitFails, ∅)
      [.putMany [a], .putMany [b]]).1.disk.content (10, 0) = a.data ++ b.data := by
  have hmax : smallFiles.maxFileBytes.toNat = 2 ^ 29 := by decide
  have hfa : firstFile a.data.length = (10, 0) := by rw [ha]; decide
  have hfb : firstFile b.data.length = (10, 0) := by rw [hb]; decide
  let s := State.start commitFails
  have h1 : (commit (putMany .standard smallFiles s.db [a]) s).2.db = s.db ∧
      Wrote a.data 14 s.disk (commit (putMany .standard smallFiles s.db [a]) s).2.disk := by
    refine commit_fails (wp_mono (putMany_wrote rfl rfl rfl ?_ ?_ ?_ ?_ ?_) (fun _ _ h => ?_)
      fun _ _ h => h)
    · intro hnil
      rw [hnil] at ha
      exact absurd ha (by decide)
    · omega
    · omega
    · show 0 + _ ≤ _
      unfold maxFileLen
      omega
    · intro k hk
      have hne : 0 + k ≠ 13 := by omega
      exact if_neg hne
    · exact absurd h.2 (by decide)
  obtain ⟨hdb, hw1⟩ := h1
  let s' := (commit (putMany .standard smallFiles s.db [a]) s).2
  have hempty : s.disk.content (10, 0) = [] := rfl
  have hcontent : s'.disk.content (10, 0) = a.data := by
    have := hw1.content
    rwa [hfa, hempty, List.nil_append] at this
  have h2 : Wrote b.data 14 s'.disk (commit (putMany .standard smallFiles s'.db [b]) s').2.disk := by
    rw [hdb]
    refine commit_disk (wp_mono (putMany_wrote rfl rfl rfl ?_ ?_ ?_ ?_ ?_) (fun _ _ h => h.1)
      fun _ _ h => h)
    · intro hnil
      rw [hnil] at hb
      exact absurd hb (by decide)
    · omega
    · omega
    · rw [hfb, hcontent]
      unfold maxFileLen
      omega
    · intro k _
      rw [hw1.faults, hw1.log]
      have hne : 0 + 14 + k ≠ 13 := by omega
      exact if_neg hne
  have := h2.content
  rwa [hfb, hcontent] at this

/-- A block file of 512 MiB and more than 256 MiB, with a limit of 512 MiB. -/
theorem limit_exceeded :
    ¬ ∀ (st : Store) (faults : Nat → Option Nat) (calls : List StoreReq),
      (∀ blocks, StoreReq.putMany blocks ∈ calls →
        ∀ b ∈ blocks, b.data.length ≤ st.maxFileBytes.toNat) →
      ∀ f, ((run .standard st (State.start faults, ∅) calls).1.disk.content f).length ≤
        st.maxFileBytes.toNat := by
  intro h
  have hmax : smallFiles.maxFileBytes.toNat = 2 ^ 29 := by decide
  have ha : (zeros 0x55 (2 ^ 29)).data.length = 2 ^ 29 := List.length_replicate
  have hb : (zeros 0x55 (2 ^ 28 + 1)).data.length = 2 ^ 28 + 1 := List.length_replicate
  have hle := h smallFiles commitFails
    [.putMany [zeros 0x55 (2 ^ 29)], .putMany [zeros 0x55 (2 ^ 28 + 1)]] (fun blocks hm b hmem => ?_)
    (10, 0)
  · rw [content_commitFails ha hb, List.length_append] at hle
    omega
  · simp only [List.mem_cons, List.not_mem_nil, or_false, StoreReq.putMany.injEq] at hm
    rcases hm with rfl | rfl <;> obtain rfl := List.mem_singleton.1 hmem <;> omega

end Storage.DeltaStore
