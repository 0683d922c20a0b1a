import Neverust.Storage.DeltaFlat.Proof.Data
import Neverust.Storage.DeltaStore

/-!
# DeltaStore appends

A batch may fail at any point, and what it wrote stays in the files. All the same no byte of a file
ever changes: when a batch opens a file, it goes on at the end of the file.

* `Grown`: the files have grown at their ends.
* `placeData_spec`: where the data of a block go.
* `Stored`: the index tells, for each key of a map, an extent with the data; the extents are apart.
* `putMany_spec`: a batch adds its blocks to the map, or it fails and the files have grown.
-/

open Std (ExtTreeMap)

namespace Storage.DeltaStore

open Io Rust Bytes

/-! ## Records -/

theorem length_encodeLocation (loc : DeltaLocation) :
    (encodeLocation loc).length = locationEncodedLen := by
  simp [encodeLocation, locationEncodedLen]

theorem decodeLocation_encodeLocation (loc : DeltaLocation) :
    decodeLocation (encodeLocation loc) = .ok loc := by
  have h0 : byteAt (encodeLocation loc) 0 = 1 := rfl
  have h1 : byteAt (encodeLocation loc) 1 = loc.classId := rfl
  have h2 : slice (encodeLocation loc) 2 4 = leBytes 4 loc.fileId.toNat := by
    rw [encodeLocation, List.append_assoc _ (leBytes 8 _)]
    exact slice_middle rfl (length_leBytes _ _)
  have h3 : slice (encodeLocation loc) 6 8 = leBytes 8 loc.offset.toNat :=
    slice_middle (by simp) (length_leBytes _ _)
  have h4 : slice (encodeLocation loc) 14 4 = leBytes 4 loc.len.toNat := by
    rw [encodeLocation, ← List.append_nil (_ ++ leBytes 4 loc.len.toNat)]
    exact slice_middle (by simp) (length_leBytes _ _)
  rw [decodeLocation, if_neg (not_not.2 (length_encodeLocation loc)), if_neg (not_not.2 h0),
    h1, h2, h3, h4, u32OfLe_leBytes, u64OfLe_leBytes, u32OfLe_leBytes]

theorem decodeClassState_encodeClassState (state : DeltaClassState) :
    decodeClassState (encodeClassState state) = .ok state := by
  have hlen : (encodeClassState state).length = classStateEncodedLen := by
    simp [encodeClassState, classStateEncodedLen]
  have h0 : slice (encodeClassState state) 0 4 = leBytes 4 state.fileId.toNat := by
    rw [encodeClassState, ← List.nil_append (leBytes 4 _)]
    exact slice_middle rfl (length_leBytes _ _)
  have h1 : slice (encodeClassState state) 4 8 = leBytes 8 state.nextOffset.toNat := by
    rw [encodeClassState, ← List.append_nil (_ ++ leBytes 8 state.nextOffset.toNat)]
    exact slice_middle (length_leBytes _ _) (length_leBytes _ _)
  rw [decodeClassState, if_neg (not_not.2 hlen), h0, h1, u32OfLe_leBytes, u64OfLe_leBytes]

theorem encodeLocation_inj {loc loc' : DeltaLocation} (h : encodeLocation loc = encodeLocation loc') :
    loc = loc' := by
  have := decodeLocation_encodeLocation loc
  rw [h, decodeLocation_encodeLocation] at this
  exact (Except.ok.inj this).symm

namespace DeltaLocation

def file (loc : DeltaLocation) : BlockFile := (loc.classId, loc.fileId)

def stop (loc : DeltaLocation) : Nat := loc.offset.toNat + loc.len.toNat

/-- The bytes at the location. -/
def bytes (loc : DeltaLocation) (w : Disk) : Bytes :=
  (w.content loc.file).slice loc.offset.toNat loc.len.toNat

/-- The extents have no byte in common. -/
def Apart (a b : DeltaLocation) : Prop :=
  a.file = b.file → a.stop ≤ b.offset.toNat ∨ b.stop ≤ a.offset.toNat

theorem Apart.symm {a b : DeltaLocation} (h : a.Apart b) : b.Apart a := fun hf => (h hf.symm).symm

end DeltaLocation

/-! ## Files that grow -/

/-- From `w` to `w'` the files have grown at their ends, and none went away. -/
structure Grown (w w' : Disk) : Prop where
  faults : w'.faults = w.faults
  contents : ∀ f, w.content f <+: w'.content f
  kept : ∀ f, (w.files f).isSome → (w'.files f).isSome

/-- The files are not longer than a file can be. -/
def Bounded (w : Disk) : Prop := ∀ f, (w.content f).length ≤ maxFileLen

namespace Grown

variable {w w' w'' : Disk}

theorem refl (w : Disk) : Grown w w := ⟨rfl, fun _ => List.prefix_refl _, fun _ h => h⟩

theorem trans (h : Grown w w') (h' : Grown w' w'') : Grown w w'' where
  faults := h'.faults.trans h.faults
  contents f := (h.contents f).trans (h'.contents f)
  kept f hf := h'.kept f (h.kept f hf)

theorem logged (w : Disk) (op : IoOp BlockFile) : Grown w (w.logged op) :=
  ⟨rfl, fun _ => List.prefix_refl _, fun _ h => h⟩

theorem setFile {r : BlockFile} {c : Bytes} (h : w.content r <+: c) : Grown w (w.setFile r c) where
  faults := rfl
  contents f := by
    by_cases hf : f = r
    · subst hf
      rw [World.content_setFile_self]
      exact h
    · rw [World.content_setFile_ne w c hf]
  kept f hf := by
    rw [World.setFile_files]
    split
    · rfl
    · exact hf

theorem noFaults (h : Grown w w') : w'.NoFaults ↔ w.NoFaults := by
  unfold World.NoFaults
  rw [h.faults]

theorem length_le (h : Grown w w') (f : BlockFile) :
    (w.content f).length ≤ (w'.content f).length :=
  (h.contents f).length_le

/-- The bytes of an extent stay. -/
theorem slice_eq (h : Grown w w') {f : BlockFile} {o n : Nat} (hle : o + n ≤ (w.content f).length) :
    (w'.content f).slice o n = (w.content f).slice o n := by
  obtain ⟨t, ht⟩ := h.contents f
  refine slice_congr fun k hk => ?_
  rw [← ht, byteAt_append, if_pos (by omega)]

end Grown

/-- What a batch leaves when it fails. -/
def Aborted (w w' : Disk) : Prop := Grown w w' ∧ Bounded w'

theorem Aborted.logged {w w' : Disk} (h : Aborted w w') (op : IoOp BlockFile) :
    Aborted w (w'.logged op) :=
  ⟨h.1.trans (.logged _ _), h.2⟩

theorem Bounded.same {w w' : Disk} (hb : Bounded w) (h : ∀ f, w'.content f = w.content f) :
    Bounded w' := fun f => by rw [h]; exact hb f

section
variable {w : Disk}

theorem wp_dbCall {Q : Unit → Disk → Prop} {E : StorageError → Disk → Prop}
    (hok : Q () (w.logged .database))
    (herr : ¬ w.NoFaults → E (.databaseError .redb) (w.logged .database)) :
    wp dbCall Q E w := by
  unfold wp dbCall
  cases hf : w.fault with
  | none => exact hok
  | some k => exact herr (World.not_noFaults hf)

/-! ## Where a block goes -/

/-- The next offset of the class is the length of its file, if the batch has opened that; the other
files of the class that it has opened come before it. -/
def Synced (classId : UInt8) (state : DeltaClassState) (cache : List BlockFile) (w : Disk) : Prop :=
  ∀ f, (classId, f) ∈ cache → f.toNat ≤ state.fileId.toNat ∧ (w.files (classId, f)).isSome ∧
    (f = state.fileId → state.nextOffset.toNat = (w.content (classId, f)).length)

/-- A state of the loop: the file of the class is open, and the next offset is its length. -/
structure Opened (classId : UInt8) (w : Disk) (r : DeltaClassState × List BlockFile) (w' : Disk) :
    Prop where
  grown : Grown w w'
  same : ∀ f, w'.content f = w.content f
  synced : Synced classId r.1 r.2 w'
  mem : (classId, r.1.fileId) ∈ r.2

theorem toNat_ofNat_length (hb : Bounded w) (f : BlockFile) :
    (UInt64.ofNat (w.content f).length).toNat = (w.content f).length :=
  UInt64.toNat_ofNat_of_lt' (Nat.lt_of_le_of_lt (hb f) (by decide))

theorem openBlockFile_spec {classId : UInt8} {state : DeltaClassState} {cache : List BlockFile}
    (hb : Bounded w) (hs : Synced classId state cache w) :
    wp (openBlockFile classId state cache)
      (fun r w' => Opened classId w r w' ∧ r.1.fileId = state.fileId ∧
        ∀ f ∈ r.2, f ∈ cache ∨ f.1 = classId)
      (fun _ w' => Aborted w w' ∧ ¬ w.NoFaults) w := by
  unfold openBlockFile
  dsimp only
  split
  · rename_i hmem
    exact wp_pure ⟨⟨.refl w, fun _ => rfl, hs, hmem⟩, rfl, fun f hf => .inl hf⟩
  · rename_i hmem
    have g1 : Grown w (w.logged .createDir) := .logged w _
    refine wp_bind (wp_attempt ?_ fun hf => ⟨⟨g1, hb⟩, hf⟩)
    have g2 := g1.trans (.logged _ (.openFile (classId, state.fileId)))
    refine wp_bind (wp_openCreate ?_ fun hf => ⟨⟨g2, hb⟩, g1.noFaults.not.1 hf⟩)
    have g3 := g2.trans (Grown.setFile (r := (classId, state.fileId))
      (c := (w.logged .createDir).content (classId, state.fileId)) (List.prefix_refl _))
    have hsame : ∀ f, (((w.logged .createDir).logged (.openFile (classId, state.fileId))).setFile
        (classId, state.fileId) ((w.logged .createDir).content (classId, state.fileId))).content f =
        w.content f := by
      intro f
      by_cases hf : f = (classId, state.fileId)
      · subst hf
        rw [World.content_setFile_self]
        rfl
      · rw [World.content_setFile_ne _ _ hf]
        rfl
    have hb3 := hb.same hsame
    refine wp_bind (wp_fileLen ?_ fun hf => ⟨⟨g3.trans (.logged _ _), hb3⟩, g3.noFaults.not.1 hf⟩)
    have g4 := g3.trans (.logged _ (.metadata (classId, state.fileId)))
    refine wp_bind (wp_attempt ?_ fun hf => ⟨⟨g4.trans (.logged _ _), hb3⟩, g4.noFaults.not.1 hf⟩)
    refine wp_pure ⟨⟨g4.trans (.logged _ _), hsame, fun f hf => ?_, List.mem_cons_self⟩, rfl,
      fun f hf => ?_⟩
    · show f.toNat ≤ state.fileId.toNat ∧ _
      rcases List.mem_cons.1 hf with hf | hf
      · obtain rfl : f = state.fileId := congrArg Prod.snd hf
        refine ⟨Nat.le_refl _, by simp, fun _ => ?_⟩
        dsimp only
        rw [hsame, toNat_ofNat_length hb]
        exact congrArg List.length (hsame _).symm
      · obtain ⟨hle, hsome, -⟩ := hs f hf
        refine ⟨hle, g4.kept _ hsome, fun heq => ?_⟩
        rw [heq] at hf
        exact absurd hf hmem
    · rcases List.mem_cons.1 hf with rfl | hf
      · exact .inr rfl
      · exact .inl hf

/-- **Where the data of a block are**: at the end of a file of its class. -/
structure Placed (classId : UInt8) (data : Bytes) (cache : List BlockFile) (w : Disk)
    (r : DeltaLocation × DeltaClassState × List BlockFile) (w' : Disk) : Prop where
  grown : Grown w w'
  bounded : Bounded w'
  others : ∀ f : BlockFile, f.1 ≠ classId → w'.content f = w.content f
  synced : Synced classId r.2.1 r.2.2 w'
  files : ∀ f ∈ r.2.2, f ∈ cache ∨ f.1 = classId
  classId : r.1.classId = classId
  isFile : (w'.files r.1.file).isSome
  fresh : (w.content r.1.file).length ≤ r.1.offset.toNat
  stop : r.1.stop ≤ (w'.content r.1.file).length
  len : r.1.len.toNat = data.length
  bytes : r.1.bytes w' = data

theorem roll_ok {max : UInt64} {len : Nat} {state state' : DeltaClassState}
    (h : roll max len state = .ok state') :
    state' = state ∨ state.fileId.toNat < state'.fileId.toNat := by
  unfold roll at h
  split at h
  · rename_i f o hr
    cases h
    rcases (DeltaFlat.rollFile_ok hr).2 with ⟨hf, ho⟩ | ⟨hlt, -⟩
    · obtain ⟨f', o'⟩ := state
      simp only at hf ho
      subst hf ho
      exact .inl rfl
    · exact .inr hlt
  · cases h

/-- A later file of the class is not open yet. -/
theorem Synced.roll {classId : UInt8} {state state' : DeltaClassState} {cache : List BlockFile}
    (hs : Synced classId state cache w) {max : UInt64} {len : Nat}
    (h : roll max len state = .ok state') : Synced classId state' cache w := by
  rcases roll_ok h with rfl | hlt
  · exact hs
  · intro f hf
    obtain ⟨hle, hsome, -⟩ := hs f hf
    refine ⟨by omega, hsome, fun heq => ?_⟩
    subst heq
    omega

theorem locate_ok {classId : UInt8} {state : DeltaClassState} {len : Nat}
    {r : DeltaLocation × DeltaClassState} (h : locate classId state len = .ok r) :
    r.1.classId = classId ∧ r.1.fileId = state.fileId ∧ r.1.offset = state.nextOffset ∧
      r.1.len.toNat = len ∧ r.2.fileId = state.fileId ∧
      r.2.nextOffset.toNat = state.nextOffset.toNat + len := by
  unfold locate at h
  split at h
  · cases h
  · rename_i nextOffset ho
    split at h
    · cases h
    · rename_i len32 hl
      cases h
      exact ⟨rfl, rfl, rfl, tryFrom32_eq_some hl, rfl, checkedAdd64_eq_some ho⟩

theorem locate_of_lt (classId : UInt8) (state : DeltaClassState) {len : Nat} (hlen : len < 2 ^ 32)
    (hstop : state.nextOffset.toNat + len < 2 ^ 64) : ∃ r, locate classId state len = .ok r := by
  unfold locate
  cases ho : checkedAdd64 state.nextOffset len with
  | none => exact absurd (checkedAdd64_eq_none ho) (Nat.not_le.2 hstop)
  | some o =>
    cases hl : tryFrom32 len with
    | none => exact absurd (tryFrom32_eq_none hl) (Nat.not_le.2 hlen)
    | some l => exact ⟨_, rfl⟩

/-- The write at the end of a file. -/
theorem wp_append {r : BlockFile} {off : Nat} {data : Bytes} (hb : Bounded w)
    (hoff : off = (w.content r).length) :
    wp (writeAllAt r off data : Act Unit)
      (fun _ w' => Grown w w' ∧ Bounded w' ∧ (∀ f, f ≠ r → w'.content f = w.content f) ∧
        w'.content r = w.content r ++ data)
      (fun _ w' => Grown w w' ∧ Bounded w' ∧ (w.NoFaults → maxFileLen < off + data.length)) w := by
  subst hoff
  have happ : ∀ d : Bytes, (w.content r).length + d.length ≤ maxFileLen →
      Grown w ((w.setFile r ((w.content r).writeAt (w.content r).length d)).logged (.write r)) ∧
      Bounded ((w.setFile r ((w.content r).writeAt (w.content r).length d)).logged (.write r)) := by
    intro d hd
    rw [writeAt_length]
    refine ⟨(Grown.setFile (List.prefix_append _ _)).trans (.logged _ _), fun f => ?_⟩
    rw [World.content_logged]
    by_cases hf : f = r
    · subst hf
      rw [World.content_setFile_self, List.length_append]
      exact hd
    · rw [World.content_setFile_ne _ _ hf]
      exact hb f
  refine wp_writeAllAt (fun hnil => ?_) (fun _ hmax _ => ?_) (fun hbig => ?_) fun k hf hmax => ?_
  · subst hnil
    exact ⟨.refl w, hb, fun _ _ => rfl, (List.append_nil _).symm⟩
  · obtain ⟨hg, hb'⟩ := happ data hmax
    refine ⟨hg, hb', fun f hf => ?_, ?_⟩
    · rw [World.content_logged, World.content_setFile_ne _ _ hf]
    · rw [World.content_logged, World.content_setFile_self, writeAt_length]
  · exact ⟨.logged w _, hb, fun _ => hbig⟩
  · have hk : (data.take k).length ≤ data.length := List.length_take_le' _ _
    obtain ⟨hg, hb'⟩ := happ (data.take k) (by omega)
    exact ⟨hg, hb', fun hnf => absurd hnf (World.not_noFaults hf)⟩

theorem placeData_spec (st : Store) {classId : UInt8} {state : DeltaClassState}
    {cache : List BlockFile} {data : Bytes} (hb : Bounded w) (hs : Synced classId state cache w) :
    wp (placeData st classId state cache data) (Placed classId data cache w)
      (fun _ w' => Aborted w w') w := by
  unfold placeData
  refine wp_bind (wp_lift (fun state1 hr => ?_) fun e _ => ⟨.refl w, hb⟩)
  have hopen := openBlockFile_spec hb (hs.roll hr)
  refine wp_bind (wp_mono hopen (fun r w1 h1 => ?_) fun e w1 h1 => h1.1)
  obtain ⟨⟨hg1, hsame, hs1, hmem⟩, -, hfiles⟩ := h1
  obtain ⟨state2, cache2⟩ := r
  dsimp only at hs1 hmem hfiles ⊢
  have hb1 : Bounded w1 := hb.same hsame
  obtain ⟨-, hsome, hoff⟩ := hs1 state2.fileId hmem
  refine wp_bind (wp_attempt ?_ fun _ => ⟨hg1.trans (.logged _ _), hb1⟩)
  have hg2 := hg1.trans (.logged w1 (.seek (classId, state2.fileId)))
  refine wp_bind (wp_mono (wp_append (w := w1.logged (.seek (classId, state2.fileId))) hb1
    (hoff rfl)) (fun _ w3 h3 => ?_) fun e w3 h3 => ⟨hg2.trans h3.1, h3.2.1⟩)
  obtain ⟨hg3, hb3, hothers, hcontent⟩ := h3
  rw [World.content_logged] at hcontent
  refine wp_bind (wp_lift (fun r hloc => ?_) fun e _ => ⟨hg2.trans hg3, hb3⟩)
  obtain ⟨loc, state3⟩ := r
  obtain ⟨hc, hf, ho, hl, hf3, ho3⟩ := locate_ok hloc
  dsimp only at hc hf ho hl hf3 ho3
  have hlocfile : loc.file = (classId, state2.fileId) := by rw [DeltaLocation.file, hc, hf]
  have hlen : (w3.content (classId, state2.fileId)).length =
      (w1.content (classId, state2.fileId)).length + data.length := by
    rw [hcontent, List.length_append]
  refine wp_pure
    { grown := hg2.trans hg3, bounded := hb3, others := fun f hne => ?_, synced := fun f hmem' => ?_,
      files := hfiles, classId := hc, isFile := ?_, fresh := ?_, stop := ?_, len := hl,
      bytes := ?_ }
  · rw [hothers f fun h => hne (congrArg Prod.fst h), World.content_logged, hsame]
  · obtain ⟨hle, hsome', -⟩ := hs1 f hmem'
    refine ⟨by rw [hf3]; exact hle, hg3.kept _ hsome', fun heq => ?_⟩
    rw [hf3] at heq
    rw [ho3, heq, hlen, hoff rfl]
  · rw [hlocfile]
    exact hg3.kept _ hsome
  · rw [hlocfile, ho, ← hsame, hoff rfl]
  · rw [DeltaLocation.stop, hlocfile, ho, hl, hlen, hoff rfl]
  · rw [DeltaLocation.bytes, hlocfile, ho, hl, hcontent, hoff rfl,
      ← List.append_nil (_ ++ data)]
    exact slice_middle rfl rfl

end

end Storage.DeltaStore
