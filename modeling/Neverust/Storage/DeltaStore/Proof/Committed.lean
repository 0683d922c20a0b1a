import Neverust.Storage.DeltaStore.Proof.Append

/-!
# DeltaStore never overwrites committed data

`Ledger`: the data that the calls which returned `Ok` have put, by key; a map that knows nothing of
files. Whatever fails, the index and the files stay in step with it (`Intact`).

* `answer_spec`: a call keeps the store intact, and the files have grown.
* `committed_intact`: after every run the committed extents are apart and lie within their files, no
  later call changes a byte of them, and `get` returns what the ledger has.
-/

open Std (ExtTreeMap)

namespace Storage.DeltaStore

open Io Rust Bytes

/-! ## The ledger -/

abbrev Ledger := ExtTreeMap String Bytes

section
variable (cr : Crates) (st : Store)

/-- A block of a batch that is committed. -/
def ledgerPut (t : Ledger) (block : Block) : Ledger :=
  if st.skipExistsCheck = false ∧ (t[cr.cidToString block.cid]?).isSome then t
  else t.insert (cr.cidToString block.cid) block.data

/-- A call with its answer. -/
def ledgerStep (t : Ledger) : (r : StoreReq) → StoreAns r → Ledger
  | .putMany blocks, .ok () => blocks.foldl (ledgerPut cr st) t
  | .delete cid, .ok () => t.erase (cr.cidToString cid)
  | _, _ => t

/-- The store and the ledger after some calls. -/
def run (s : State × Ledger) (calls : List StoreReq) : State × Ledger :=
  calls.foldl
    (fun s r => ((answer cr st r s.1).2, ledgerStep cr st s.2 r (answer cr st r s.1).1)) s

end

/-! ## The index and the ledger -/

/-- The index tells for each key of the ledger an extent with its data. -/
structure Stored (index : ExtTreeMap String Bytes) (w : Disk) (t : Ledger) : Prop where
  entry : ∀ (key : String) bytes, index[key]? = some bytes → ∃ loc : DeltaLocation,
    bytes = encodeLocation loc ∧ (w.files loc.file).isSome ∧
      loc.stop ≤ (w.content loc.file).length ∧ t[key]? = some (loc.bytes w)
  absent : ∀ key : String, index[key]? = none → t[key]? = none
  apart : ∀ (key key' : String) (loc loc' : DeltaLocation), index[key]? = some (encodeLocation loc) →
    index[key']? = some (encodeLocation loc') → key ≠ key' → loc.Apart loc'

namespace Stored

variable {index : ExtTreeMap String Bytes} {w w' : Disk} {t : Ledger}

theorem grown (h : Stored index w t) (hg : Grown w w') : Stored index w' t where
  entry key bytes hkey := by
    obtain ⟨loc, hb, hf, hs, ht⟩ := h.entry key bytes hkey
    refine ⟨loc, hb, hg.kept _ hf, Nat.le_trans hs (hg.length_le _), ?_⟩
    rw [ht, DeltaLocation.bytes, DeltaLocation.bytes, hg.slice_eq hs]
  absent := h.absent
  apart := h.apart

theorem of_files (h : Stored index w t) (hf : w'.files = w.files) : Stored index w' t where
  entry key bytes hkey := by
    obtain ⟨loc, hb, hsome, hs, ht⟩ := h.entry key bytes hkey
    have hc : w'.content loc.file = w.content loc.file := by rw [World.content, World.content, hf]
    refine ⟨loc, hb, by rwa [hf], by rwa [hc], ?_⟩
    rw [ht, DeltaLocation.bytes, DeltaLocation.bytes, hc]
  absent := h.absent
  apart := h.apart

theorem isSome_iff (h : Stored index w t) (key : String) :
    (index[key]?).isSome = (t[key]?).isSome := by
  cases hi : index[key]? with
  | none => rw [h.absent key hi]
  | some bytes =>
    obtain ⟨loc, -, -, -, ht⟩ := h.entry key bytes hi
    rw [ht]
    rfl

theorem getElem?_insert (t : ExtTreeMap String Bytes) (k k' : String) (d : Bytes) :
    (t.insert k d)[k']? = if k = k' then some d else t[k']? := by
  rw [ExtTreeMap.getElem?_insert]
  simp only [Std.LawfulEqCmp.compare_eq_iff_eq]

theorem getElem?_erase (t : ExtTreeMap String Bytes) (k k' : String) :
    (t.erase k)[k']? = if k = k' then none else t[k']? := by
  rw [ExtTreeMap.getElem?_erase]
  simp only [Std.LawfulEqCmp.compare_eq_iff_eq]

/-- A block that was placed at the end of a file. -/
theorem insert (h : Stored index w t) {classId : UInt8} {data : Bytes} {cache : List BlockFile}
    {r : DeltaLocation × DeltaClassState × List BlockFile} (hp : Placed classId data cache w r w')
    (key : String) : Stored (index.insert key (encodeLocation r.1)) w' (t.insert key data) := by
  have hnew : ∀ (key' : String) (loc : DeltaLocation), index[key']? = some (encodeLocation loc) →
      loc.Apart r.1 := by
    intro key' loc hloc hfile
    obtain ⟨loc', hb, -, hs, -⟩ := h.entry key' _ hloc
    obtain rfl := encodeLocation_inj hb
    rw [hfile] at hs
    exact .inl (Nat.le_trans hs hp.fresh)
  have hold := h.grown hp.grown
  constructor
  · intro key' bytes hkey
    rw [getElem?_insert] at hkey ⊢
    split at hkey
    · rename_i heq
      refine ⟨r.1, (Option.some.inj hkey).symm, hp.isFile, hp.stop, ?_⟩
      rw [if_pos heq, hp.bytes]
    · rename_i hne
      rw [if_neg hne]
      exact hold.entry key' bytes hkey
  · intro key' hkey
    rw [getElem?_insert] at hkey ⊢
    split at hkey
    · cases hkey
    · rename_i hne
      rw [if_neg hne]
      exact hold.absent key' hkey
  · intro key₁ key₂ loc₁ loc₂ h₁ h₂ hne
    rw [getElem?_insert] at h₁ h₂
    split at h₁
    · rename_i e₁
      rw [if_neg (by rintro rfl; exact hne e₁.symm)] at h₂
      obtain rfl := encodeLocation_inj (Option.some.inj h₁)
      exact (hnew key₂ loc₂ h₂).symm
    · split at h₂
      · obtain rfl := encodeLocation_inj (Option.some.inj h₂)
        exact hnew key₁ loc₁ h₁
      · exact hold.apart key₁ key₂ loc₁ loc₂ h₁ h₂ hne

theorem erase (h : Stored index w t) (key : String) :
    Stored (index.erase key) w (t.erase key) := by
  constructor
  · intro key' bytes hkey
    rw [getElem?_erase] at hkey ⊢
    split at hkey
    · cases hkey
    · rename_i hne
      rw [if_neg hne]
      exact h.entry key' bytes hkey
  · intro key' hkey
    rw [getElem?_erase] at hkey ⊢
    split at hkey
    · rename_i heq
      rw [if_pos heq]
    · rename_i hne
      rw [if_neg hne]
      exact h.absent key' hkey
  · intro key₁ key₂ loc₁ loc₂ h₁ h₂ hne
    rw [getElem?_erase] at h₁ h₂
    split at h₁
    · cases h₁
    · split at h₂
      · cases h₂
      · exact h.apart key₁ key₂ loc₁ loc₂ h₁ h₂ hne

end Stored

/-! ## Batches -/

/-- A batch that has put some blocks: its index and the files are in step with the ledger, and so
are the class states with the files it has opened. -/
structure BatchOk (batch : Batch) (w : Disk) (t : Ledger) : Prop where
  bounded : Bounded w
  stored : Stored batch.index w t
  cached : ∀ c state, cachedState batch.stateCache c = some state →
    Synced c state batch.fileCache w
  uncached : ∀ c, cachedState batch.stateCache c = none → ∀ f, (c, f) ∉ batch.fileCache

theorem cachedState_setState (cache : List (UInt8 × DeltaClassState)) (c c' : UInt8)
    (state : DeltaClassState) :
    cachedState (setState cache c state) c' =
      if c' = c then some state else cachedState cache c' := by
  unfold cachedState setState
  by_cases h : c' = c
  · subst h
    rw [if_pos rfl, List.lookup_cons_self]
  · rw [if_neg h, List.lookup_cons, beq_eq_false_iff_ne.2 h]
    show (cache.filter (·.1 ≠ c)).lookup c' = cache.lookup c'
    induction cache with
    | nil => rfl
    | cons p cache ih =>
      by_cases hp : p.1 = c
      · rw [List.filter_cons_of_neg (by simpa using hp), ih, List.lookup_cons,
          beq_eq_false_iff_ne.2 (by rw [hp]; exact h)]
      · rw [List.filter_cons_of_pos (by simpa using hp), List.lookup_cons, List.lookup_cons, ih]

section
variable {cr : Crates} {st : Store} {w : Disk} {t : Ledger} {batch : Batch}

theorem loadState_spec (classState : ExtTreeMap String Bytes) (hb : BatchOk batch w t)
    (classId : UInt8) :
    wp (loadState classState batch.stateCache classId)
      (fun state w' => Grown w w' ∧ (∀ f, w'.content f = w.content f) ∧
        Synced classId state batch.fileCache w')
      (fun _ w' => Aborted w w') w := by
  unfold loadState
  cases hc : cachedState batch.stateCache classId with
  | some state => exact wp_pure ⟨.refl w, fun _ => rfl, hb.cached classId state hc⟩
  | none =>
    have hg : Grown w (w.logged .database) := .logged w _
    refine wp_bind (wp_dbCall ?_ fun _ => ⟨hg, hb.bounded⟩)
    have hs : ∀ state, Synced classId state batch.fileCache (w.logged .database) :=
      fun state f hf => absurd hf (hb.uncached classId hc f)
    split
    · exact wp_lift (fun state _ => ⟨hg, fun _ => rfl, hs state⟩) fun _ _ => ⟨hg, hb.bounded⟩
    · exact wp_pure ⟨hg, fun _ => rfl, hs _⟩

theorem existsCheck_spec (hb : BatchOk batch w t) (key : String) :
    wp (existsCheck st batch.index key)
      (fun found w' => BatchOk batch w' t ∧ Grown w w' ∧
        (found = true ↔ st.skipExistsCheck = false ∧ (t[key]?).isSome))
      (fun _ w' => Aborted w w') w := by
  unfold existsCheck
  split
  · rename_i hskip
    refine wp_pure ⟨hb, .refl w, ?_⟩
    rw [hskip]
    simp
  · rename_i hskip
    have hg : Grown w (w.logged .database) := .logged w _
    refine wp_bind (wp_dbCall (wp_pure ⟨?_, hg, ?_⟩) fun _ => ⟨hg, hb.bounded⟩)
    · exact ⟨hb.bounded, hb.stored.grown hg, hb.cached, hb.uncached⟩
    · rw [hb.stored.isSome_iff]
      simp [hskip]

/-- **One block of a batch.** -/
theorem putBlock_spec (classState : ExtTreeMap String Bytes) (hb : BatchOk batch w t)
    (block : Block) :
    wp (putBlock cr st classState batch block)
      (fun batch' w' => Grown w w' ∧ BatchOk batch' w' (ledgerPut cr st t block))
      (fun _ w' => Aborted w w') w := by
  unfold putBlock
  dsimp only
  refine wp_bind (wp_mono (existsCheck_spec hb _) (fun found w1 h1 => ?_) fun _ _ h => h)
  obtain ⟨hb1, hg1, hfound⟩ := h1
  by_cases hf : found = true
  · rw [if_pos hf, ledgerPut, if_pos (hfound.1 hf)]
    exact wp_pure ⟨hg1, hb1⟩
  · rw [if_neg hf, ledgerPut, if_neg (fun h => hf (hfound.2 h))]
    have habort : ∀ w', Aborted w1 w' → Aborted w w' := fun w' h => ⟨hg1.trans h.1, h.2⟩
    refine wp_bind (wp_mono (loadState_spec classState hb1 _) (fun state w2 h2 => ?_)
      fun _ _ h => habort _ h)
    obtain ⟨hg2, hsame2, hs2⟩ := h2
    have hb2 := hb1.bounded.same hsame2
    refine wp_bind (wp_mono (placeData_spec st hb2 hs2) (fun r w3 h3 => ?_)
      fun _ _ h => habort _ ⟨hg2.trans h.1, h.2⟩)
    obtain ⟨loc, state', fileCache⟩ := r
    have hg3 := hg1.trans (hg2.trans h3.grown)
    refine wp_bind (wp_dbCall ?_ fun _ => ⟨hg3.trans (.logged _ _), h3.bounded⟩)
    refine wp_pure ⟨hg3.trans (.logged _ _), h3.bounded,
      ((hb1.stored.grown hg2).insert h3 _).grown (.logged _ _), fun c s hc => ?_, fun c hc f hmem => ?_⟩
    · dsimp only at hc ⊢
      rw [cachedState_setState] at hc
      split at hc
      · rename_i heq
        cases hc
        rw [heq]
        exact h3.synced
      · rename_i hne
        -- a class that the block does not touch
        intro f hmem
        rcases h3.files _ hmem with hmem | hmem
        · obtain ⟨hle, hsome, hoff⟩ := hb1.cached c s hc f hmem
          refine ⟨hle, (hg2.trans h3.grown).kept _ hsome, fun heq => ?_⟩
          rw [World.content_logged, h3.others _ hne, hsame2]
          exact hoff heq
        · exact absurd hmem hne
    · dsimp only at hc hmem
      rw [cachedState_setState] at hc
      split at hc
      · cases hc
      · rename_i hne
        rcases h3.files _ hmem with hmem | hmem
        · exact hb1.uncached c hc f hmem
        · exact hne hmem

theorem putBlocks_spec (classState : ExtTreeMap String Bytes) (hb : BatchOk batch w t)
    (blocks : List Block) :
    wp (blocks.foldlM (putBlock cr st classState) batch)
      (fun batch' w' => Grown w w' ∧ BatchOk batch' w' (blocks.foldl (ledgerPut cr st) t))
      (fun _ w' => Aborted w w') w := by
  refine wp_mono (wp_foldlM (fun rest b w' => ∃ t', Grown w w' ∧ BatchOk b w' t' ∧
    rest.foldl (ledgerPut cr st) t' = blocks.foldl (ledgerPut cr st) t) ?_ blocks batch w
    ⟨t, .refl w, hb, rfl⟩) (fun b w' h => ?_) fun _ _ h => h
  · rintro block rest b w' ⟨t', hg, hb', hfold⟩
    refine wp_mono (putBlock_spec classState hb' block) (fun b' w'' h => ?_)
      fun _ w'' h => ⟨hg.trans h.1, h.2⟩
    exact ⟨_, hg.trans h.1, h.2, hfold⟩
  · obtain ⟨t', hg, hb', hfold⟩ := h
    rw [← hfold]
    exact ⟨hg, hb'⟩

theorem saveStates_spec (hb : Bounded w) (classState : ExtTreeMap String Bytes)
    (cache : List (UInt8 × DeltaClassState)) :
    wp (saveStates classState cache) (fun _ w' => Aborted w w') (fun _ w' => Aborted w w') w := by
  refine wp_foldlM (fun _ _ w' => Aborted w w') ?_ cache classState w ⟨.refl w, hb⟩
  intro p rest t' w' h
  exact wp_bind (wp_dbCall (wp_pure (h.logged _)) fun _ => h.logged _)

theorem syncFiles_spec (hb : Bounded w) (files : List BlockFile) :
    wp (syncFiles files) (fun _ w' => Aborted w w') (fun _ w' => Aborted w w') w := by
  refine wp_foldlM (fun _ _ w' => Aborted w w') ?_ files () w ⟨.refl w, hb⟩
  intro f rest _ w' h
  exact wp_attempt (h.logged _) fun _ => h.logged _

/-! ## Calls -/

/-- The tables and the files are in step with the ledger. -/
structure Intact (s : State) (t : Ledger) : Prop where
  bounded : Bounded s.disk
  stored : Stored s.db.index s.disk t

variable {s : State}

theorem Intact.grown (h : Intact s t) {w' : Disk} (hg : Aborted s.disk w') :
    Intact { s with disk := w' } t :=
  ⟨hg.2, h.stored.grown hg.1⟩

/-- **A batch** adds its blocks to the ledger, or it fails and the files have grown. -/
theorem putMany_spec (h : Intact s t) (blocks : List Block) :
    wp (putMany cr st s.db blocks)
      (fun db w' => Aborted s.disk w' ∧
        Intact { db, disk := w' } (blocks.foldl (ledgerPut cr st) t))
      (fun _ w' => Aborted s.disk w') s.disk := by
  unfold putMany
  split
  · rename_i hnil
    subst hnil
    exact wp_pure ⟨⟨.refl _, h.bounded⟩, h⟩
  · have h0 : Aborted s.disk s.disk := ⟨.refl _, h.bounded⟩
    refine wp_bind (wp_lift (fun _ _ => ?_) fun _ _ => h0)
    refine wp_bind (wp_dbCall ?_ fun _ => h0.logged _)
    refine wp_bind (wp_dbCall ?_ fun _ => (h0.logged _).logged _)
    refine wp_bind (wp_dbCall ?_ fun _ => ((h0.logged _).logged _).logged _)
    have h3 := ((h0.logged .database).logged .database).logged .database
    have hbatch : BatchOk { index := s.db.index, stateCache := [], fileCache := [] }
        (((s.disk.logged .database).logged .database).logged .database) t :=
      ⟨h3.2, h.stored.grown h3.1, nofun, nofun⟩
    refine wp_bind (wp_mono (putBlocks_spec s.db.classState hbatch blocks) (fun batch w4 h4 => ?_)
      fun _ w' hab => ⟨h3.1.trans hab.1, hab.2⟩)
    obtain ⟨hg4, hb4⟩ := h4
    have hg4 := h3.1.trans hg4
    have hend : ∀ w5, Aborted w4 w5 → wp (do
        let classState ← saveStates s.db.classState batch.stateCache
        dbCall
        return { index := batch.index, classState } : Act Db)
        (fun db w' => Aborted s.disk w' ∧
          Intact { db, disk := w' } (blocks.foldl (ledgerPut cr st) t))
        (fun _ w' => Aborted s.disk w') w5 := by
      intro w5 h5
      refine wp_bind (wp_mono (saveStates_spec h5.2 _ _) (fun classState w6 h6 => ?_)
        fun _ w' hab => ⟨hg4.trans (h5.1.trans hab.1), hab.2⟩)
      have h7 : Aborted s.disk (w6.logged .database) :=
        ⟨hg4.trans (h5.1.trans (h6.1.trans (.logged _ _))), h6.2⟩
      refine wp_bind (wp_dbCall (wp_pure ⟨h7, h7.2, ?_⟩) fun _ => h7)
      exact hb4.stored.grown (h5.1.trans (h6.1.trans (.logged _ _)))
    split
    · refine wp_bind (wp_mono (syncFiles_spec hb4.bounded _) (fun _ w5 h5 => hend w5 h5)
        fun _ w' hab => ⟨hg4.trans hab.1, hab.2⟩)
    · exact hend w4 ⟨.refl _, hb4.bounded⟩

theorem Aborted.noFaults {w w' : Disk} (h : Aborted w w') : w'.NoFaults ↔ w.NoFaults := h.1.noFaults

/-- Three operations of the database, as each call begins. -/
theorem wp_begin {α : Type} {x : Act α} {Q : α → Disk → Prop} {E : StorageError → Disk → Prop}
    (hb : Bounded w) (hx : ∀ w', Aborted w w' → wp x Q E w')
    (herr : ∀ e w', Aborted w w' → ¬ w.NoFaults → E e w') :
    wp (do dbCall; dbCall; dbCall; x) Q E w := by
  have h1 : Aborted w (w.logged .database) := ⟨.logged w _, hb⟩
  have h2 := h1.logged .database
  have h3 := h2.logged .database
  refine wp_bind (wp_dbCall ?_ fun hf => herr _ _ h1 hf)
  refine wp_bind (wp_dbCall ?_ fun hf => herr _ _ h2 (h1.noFaults.not.1 hf))
  exact wp_bind (wp_dbCall (hx _ h3) fun hf => herr _ _ h3 (h2.noFaults.not.1 hf))

/-- The data of a location that lies in its file. -/
theorem readLocation_spec (hb : Bounded w) {loc : DeltaLocation} {key : String}
    (hf : (w.files loc.file).isSome) (hs : loc.stop ≤ (w.content loc.file).length) :
    wp (readLocation key loc) (fun data w' => Aborted w w' ∧ data = loc.bytes w)
      (fun _ w' => Aborted w w' ∧ ¬ w.NoFaults) w := by
  have h1 : Aborted w (w.logged (.openFile loc.file)) := ⟨.logged w _, hb⟩
  have h2 := h1.logged (.seek loc.file)
  have h3 := h2.logged (.read loc.file)
  unfold readLocation
  refine wp_bind (wp_openFile (fun _ => ?_) (fun hn => ?_) fun hfault => ⟨h1, hfault⟩)
  · refine wp_bind (wp_attempt ?_ fun hfault => ⟨h2, h1.noFaults.not.1 hfault⟩)
    refine wp_bind (wp_readExactAt (fun hzero => ?_) (fun _ => ?_)
      fun hfault => ⟨h3, h2.noFaults.not.1 hfault⟩)
    · refine wp_pure ⟨h2, ?_⟩
      rw [DeltaLocation.bytes, hzero]
      rfl
    · have hread : (((w.logged (.openFile loc.file)).logged (.seek loc.file)).content
          loc.file).readAt loc.offset.toNat loc.len.toNat = some (loc.bytes w) := readAt_of_le hs
      have hread : (((w.logged (.openFile (loc.classId, loc.fileId))).logged
          (.seek (loc.classId, loc.fileId))).content (loc.classId, loc.fileId)).readAt
            loc.offset.toNat loc.len.toNat = some (loc.bytes w) := hread
      rw [hread]
      exact wp_pure ⟨h3, rfl⟩
  · rw [DeltaLocation.file] at hf
    rw [hn] at hf
    cases hf

/-- **`get`** returns what the ledger has, and without a fault it fails only for a key that is not
in the ledger. -/
theorem get_spec (h : Intact s t) (cid : Cid) :
    wp (get cr s.db cid)
      (fun b w' => Aborted s.disk w' ∧ b.cid = cid ∧ t[cr.cidToString cid]? = some b.data)
      (fun e w' => Aborted s.disk w' ∧ (s.disk.NoFaults →
        t[cr.cidToString cid]? = none ∧ e = .blockNotFound (cr.cidToString cid))) s.disk := by
  refine wp_begin h.bounded (fun w' hw => ?_) fun e w' hab hf => ⟨hab, fun hnf => absurd hnf hf⟩
  cases hi : s.db.index[cr.cidToString cid]? with
  | none => exact wp_throw ⟨hw, fun _ => ⟨h.stored.absent _ hi, rfl⟩⟩
  | some bytes =>
    obtain ⟨loc, rfl, hf, hs, ht⟩ := (h.stored.grown hw.1).entry _ _ hi
    refine wp_bind (wp_lift (fun loc' hloc => ?_) fun e he => ?_)
    · rw [decodeLocation_encodeLocation] at hloc
      cases hloc
      refine wp_bind (wp_mono (readLocation_spec hw.2 hf hs) (fun data w'' hd => ?_)
        fun e w'' he => ⟨⟨hw.1.trans he.1.1, he.1.2⟩, fun hnf => ?_⟩)
      · refine wp_pure ⟨⟨hw.1.trans hd.1.1, hd.1.2⟩, rfl, ?_⟩
        rw [ht, hd.2]
      · exact absurd (hw.noFaults.2 hnf) he.2
    · rw [decodeLocation_encodeLocation] at he
      cases he

theorem has_spec (h : Intact s t) (cid : Cid) :
    wp (has cr s.db cid) (fun _ w' => Aborted s.disk w') (fun _ w' => Aborted s.disk w') s.disk :=
  wp_begin h.bounded (fun _ hw => wp_pure hw) fun _ _ hab _ => hab

theorem listCids_spec (h : Intact s t) :
    wp (listCids cr s.db) (fun _ w' => Aborted s.disk w') (fun _ w' => Aborted s.disk w') s.disk :=
  wp_begin h.bounded (fun _ hw => wp_pure hw) fun _ _ hab _ => hab

theorem delete_spec (h : Intact s t) (cid : Cid) :
    wp (delete cr s.db cid)
      (fun db w' => Aborted s.disk w' ∧ Intact { db, disk := w' } (t.erase (cr.cidToString cid)))
      (fun _ w' => Aborted s.disk w') s.disk := by
  refine wp_begin h.bounded (fun w' hw => ?_) fun _ _ hab _ => hab
  split
  · exact wp_throw hw
  · have hw' := hw.logged .database
    exact wp_bind (wp_dbCall (wp_pure ⟨hw', hw'.2, (h.stored.grown hw'.1).erase _⟩) fun _ => hw')

theorem commit_spec {x : Act Db} {t' : Ledger} (h : Intact s t)
    (hx : wp x (fun db w' => Aborted s.disk w' ∧ Intact { db, disk := w' } t')
      (fun _ w' => Aborted s.disk w') s.disk) :
    Grown s.disk (commit x s).2.disk ∧
      (((commit x s).1 = .ok () ∧ Intact (commit x s).2 t') ∨
        (∃ e, (commit x s).1 = .error e) ∧ Intact (commit x s).2 t) := by
  unfold wp at hx
  unfold commit
  cases hr : x s.disk with
  | ok db w' =>
    rw [hr] at hx
    exact ⟨hx.1.1, .inl ⟨rfl, hx.2⟩⟩
  | error e w' =>
    rw [hr] at hx
    exact ⟨hx.1, .inr ⟨⟨e, rfl⟩, h.grown hx⟩⟩

theorem query_spec {α : Type} {x : Act α} (h : Intact s t)
    (hx : wp x (fun _ w' => Aborted s.disk w') (fun _ w' => Aborted s.disk w') s.disk) :
    Grown s.disk (query x s).2.disk ∧ Intact (query x s).2 t := by
  unfold wp at hx
  unfold query
  cases hr : x s.disk with
  | ok a w' =>
    rw [hr] at hx
    exact ⟨hx.1, h.grown hx⟩
  | error e w' =>
    rw [hr] at hx
    exact ⟨hx.1, h.grown hx⟩

/-- **A call** keeps the store in step with the ledger, and the files grow at their ends. -/
theorem answer_spec (h : Intact s t) (r : StoreReq) :
    Grown s.disk (answer cr st r s).2.disk ∧
      Intact (answer cr st r s).2 (ledgerStep cr st t r (answer cr st r s).1) := by
  cases r with
  | putMany blocks =>
    have hspec := commit_spec h (@putMany_spec cr st t s h blocks)
    change Grown s.disk (commit (putMany cr st s.db blocks) s).2.disk ∧
      Intact (commit (putMany cr st s.db blocks) s).2
        (ledgerStep cr st t (.putMany blocks) (commit (putMany cr st s.db blocks) s).1)
    refine ⟨hspec.1, ?_⟩
    rcases hspec.2 with ⟨hok, hi⟩ | ⟨⟨e, he⟩, hi⟩
    · rw [hok]
      exact hi
    · rw [he]
      exact hi
  | get cid =>
    exact query_spec h (wp_mono (@get_spec cr t s h cid) (fun _ _ hq => hq.1) fun _ _ he => he.1)
  | has cid => exact query_spec h (has_spec h cid)
  | delete cid =>
    have hspec := commit_spec h (@delete_spec cr t s h cid)
    change Grown s.disk (commit (delete cr s.db cid) s).2.disk ∧
      Intact (commit (delete cr s.db cid) s).2
        (ledgerStep cr st t (.delete cid) (commit (delete cr s.db cid) s).1)
    refine ⟨hspec.1, ?_⟩
    rcases hspec.2 with ⟨hok, hi⟩ | ⟨⟨e, he⟩, hi⟩
    · rw [hok]
      exact hi
    · rw [he]
      exact hi
  | listCids => exact query_spec h (listCids_spec h)

/-! ## Runs -/

theorem intact_start (faults : Nat → Option Nat) : Intact (State.start faults) ∅ := by
  refine ⟨fun f => Nat.zero_le _, ⟨fun key bytes h => ?_, fun _ _ => ?_, fun _ _ _ _ h => ?_⟩⟩
  · rw [show (State.start faults).db.index = (∅ : ExtTreeMap String Bytes) from rfl,
      ExtTreeMap.getElem?_empty] at h
    cases h
  · exact ExtTreeMap.getElem?_empty
  · rw [show (State.start faults).db.index = (∅ : ExtTreeMap String Bytes) from rfl,
      ExtTreeMap.getElem?_empty] at h
    cases h

theorem run_spec : ∀ (calls : List StoreReq) {s : State} {t : Ledger}, Intact s t →
    Grown s.disk (run cr st (s, t) calls).1.disk ∧
      Intact (run cr st (s, t) calls).1 (run cr st (s, t) calls).2
  | [], s, t, h => ⟨.refl _, h⟩
  | r :: calls, s, t, h => by
    obtain ⟨hg, hi⟩ := @answer_spec cr st t s h r
    obtain ⟨hg', hi'⟩ := run_spec calls hi
    exact ⟨hg.trans hg', hi'⟩

end

/-- The index has an entry with the location under the key. -/
def Committed (s : State) (key : String) (loc : DeltaLocation) : Prop :=
  ∃ bytes, s.db.index[key]? = some bytes ∧ decodeLocation bytes = .ok loc

/-- The answer of `get` when no operation fails any more. -/
def readBack (cr : Crates) (st : Store) (s : State) (cid : Cid) : Except StorageError Block :=
  (answer cr st (.get cid) { s with disk := s.disk.healed }).1

section
variable {cr : Crates} {st : Store} {s : State} {t : Ledger}

theorem Intact.of_committed (h : Intact s t) {key : String} {loc : DeltaLocation}
    (hc : Committed s key loc) :
    s.db.index[key]? = some (encodeLocation loc) ∧ loc.stop ≤ (s.disk.content loc.file).length ∧
      t[key]? = some (loc.bytes s.disk) := by
  obtain ⟨bytes, hi, hd⟩ := hc
  obtain ⟨loc', rfl, -, hs, ht⟩ := h.stored.entry key bytes hi
  rw [decodeLocation_encodeLocation] at hd
  cases hd
  exact ⟨hi, hs, ht⟩

theorem query_get_ok (h : Intact s t) {cid : Cid} {b : Block}
    (hget : (answer cr st (.get cid) s).1 = .ok b) :
    b.cid = cid ∧ t[cr.cidToString cid]? = some b.data := by
  have hspec := @get_spec cr t s h cid
  change (query (get cr s.db cid) s).1 = .ok b at hget
  unfold query at hget
  unfold wp at hspec
  cases hr : get cr s.db cid s.disk with
  | ok b' w' =>
    rw [hr] at hget hspec
    cases hget
    exact hspec.2
  | error e w' =>
    rw [hr] at hget
    cases hget

theorem readBack_eq (h : Intact s t) (cid : Cid) :
    readBack cr st s cid =
      match t[cr.cidToString cid]? with
      | some data => .ok { cid, data }
      | none => .error (.blockNotFound (cr.cidToString cid)) := by
  have hh : Intact { s with disk := s.disk.healed } t :=
    ⟨h.bounded, h.stored.of_files rfl⟩
  have hspec := @get_spec cr t _ hh cid
  change (query (get cr s.db cid) { s with disk := s.disk.healed }).1 = _
  unfold query
  unfold wp at hspec
  dsimp only at hspec ⊢
  cases hr : get cr s.db cid s.disk.healed with
  | ok b w' =>
    rw [hr] at hspec
    obtain ⟨-, hcid, ht⟩ := hspec
    rw [ht]
    obtain ⟨c, d⟩ := b
    subst hcid
    rfl
  | error e w' =>
    rw [hr] at hspec
    obtain ⟨ht, he⟩ := hspec.2 s.disk.noFaults_healed
    rw [ht, he]

/-- **DeltaStore never overwrites committed data**, whatever fails and when: after any calls the
extents of the index are apart and lie within their files, further calls change no byte of them,
and `get` returns the data of the block whose put committed the entry. -/
theorem committed_intact (cr : Crates) (st : Store) (faults : Nat → Option Nat)
    (calls later : List StoreReq) :
    let s := (run cr st (State.start faults, ∅) calls).1
    let t := (run cr st (State.start faults, ∅) calls).2
    (∀ key loc, Committed s key loc → loc.stop ≤ (s.disk.content loc.file).length) ∧
    (∀ key key' loc loc', Committed s key loc → Committed s key' loc' → key ≠ key' →
      loc.Apart loc') ∧
    (∀ key loc, Committed s key loc →
      loc.bytes (run cr st (s, t) later).1.disk = loc.bytes s.disk) ∧
    (∀ cid b, (answer cr st (.get cid) s).1 = .ok b →
      b.cid = cid ∧ t[cr.cidToString cid]? = some b.data) ∧
    ∀ cid, readBack cr st s cid =
      match t[cr.cidToString cid]? with
      | some data => .ok { cid, data }
      | none => .error (.blockNotFound (cr.cidToString cid)) := by
  intro s t
  have hi : Intact s t := (@run_spec cr st calls _ _ (intact_start faults)).2
  refine ⟨fun key loc hc => (hi.of_committed hc).2.1, fun key key' loc loc' hc hc' hne => ?_,
    fun key loc hc => ?_, fun cid b hget => query_get_ok hi hget, readBack_eq hi⟩
  · exact hi.stored.apart key key' loc loc' (hi.of_committed hc).1 (hi.of_committed hc').1 hne
  · exact (@run_spec cr st later s t hi).1.slice_eq (hi.of_committed hc).2.1

end

end Storage.DeltaStore
