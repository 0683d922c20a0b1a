import Neverust.Storage.Keyed
import Neverust.Storage.DeltaStore.Proof.Limit

/-!
# DeltaStore keeps its contents

Without faults a batch fails only if a class has no place for a block: it has used its last file, or
the file cannot be as long. `placesAfter` tells where the blocks of a batch go from the places of
the classes alone.

* `Booked`: the class states are the places, and the places are the ends of the last files.
* `putBlock_booked`: so it is after a block.
* `keeps`: calls whose blocks have places are answered as the contents say.
-/

open Std (ExtTreeMap)

namespace Storage.DeltaStore

open Io Rust Bytes

/-! ## Places -/

/-- The place of the next block of each class. -/
abbrev Places := UInt8 → DeltaClassState

def classOf (b : Block) : UInt8 := UInt8.ofNat (classForLen b.data.length).1

/-- The place after data of a class, if they have one. -/
def placeFor (maxFileBytes : UInt64) (len : Nat) (state : DeltaClassState) :
    Option DeltaClassState :=
  match roll maxFileBytes len state with
  | .error _ => none
  | .ok state =>
    if len < 2 ^ 32 ∧ state.nextOffset.toNat + len ≤ maxFileLen then
      some { state with nextOffset := UInt64.ofNat (state.nextOffset.toNat + len) }
    else none

/-- The places after a block that is not there yet. -/
def placeOne (maxFileBytes : UInt64) (m : Contents) (p : Places) (b : Block) : Option Places :=
  if (m b.cid).isSome then some p
  else (placeFor maxFileBytes b.data.length (p (classOf b))).map fun state =>
    Function.update p (classOf b) state

/-- The places after a batch. -/
def placesFor (maxFileBytes : UInt64) : Contents → Places → List Block → Option Places
  | _, p, [] => some p
  | m, p, b :: bs => do
    let p ← placeOne maxFileBytes m p b
    placesFor maxFileBytes (m.put b) p bs

/-- The calls whose blocks have places. -/
def Takes (st : Store) (m : Contents) (p : Places) : StoreReq → Prop
  | .putMany blocks => (placesFor st.maxFileBytes m p blocks).isSome
  | _ => True

def placesAfter (st : Store) (m : Contents) (p : Places) : StoreReq → Places
  | .putMany blocks => (placesFor st.maxFileBytes m p blocks).getD p
  | _ => p

theorem placeFor_eq_some {max : UInt64} {len : Nat} {state q : DeltaClassState}
    (h : placeFor max len state = some q) :
    ∃ state', roll max len state = .ok state' ∧ len < 2 ^ 32 ∧
      state'.nextOffset.toNat + len ≤ maxFileLen ∧ q.fileId = state'.fileId ∧
      q.nextOffset.toNat = state'.nextOffset.toNat + len := by
  unfold placeFor at h
  split at h
  · cases h
  · rename_i state' hr
    split at h
    · rename_i hfit
      cases h
      refine ⟨state', hr, hfit.1, hfit.2, rfl, UInt64.toNat_ofNat_of_lt' ?_⟩
      exact Nat.lt_of_le_of_lt hfit.2 (by decide)
    · cases h

/-- Data that fit into the last file of their class have a place. -/
theorem placeFor_of_le {max : UInt64} {len : Nat} {state : DeltaClassState}
    (h : state.nextOffset.toNat + len ≤ max.toNat) (hlen : len < 2 ^ 32)
    (hmax : state.nextOffset.toNat + len ≤ maxFileLen) : (placeFor max len state).isSome := by
  have hroll : roll max len state = .ok state := by
    rw [roll, DeltaFlat.rollFile_of_le _ h]
  rw [placeFor, hroll]
  dsimp only
  rw [if_pos ⟨hlen, hmax⟩]
  rfl

theorem placesFor_one {max : UInt64} {m : Contents} {p : Places} {b : Block} (hm : m b.cid = none)
    (h : (placeFor max b.data.length (p (classOf b))).isSome) :
    (placesFor max m p [b]).isSome := by
  obtain ⟨q, hq⟩ := Option.isSome_iff_exists.1 h
  rw [placesFor, placeOne, hm, hq]
  rfl

theorem roll_cases {max : UInt64} {len : Nat} {state state' : DeltaClassState}
    (h : roll max len state = .ok state') :
    state' = state ∨ state.fileId.toNat < state'.fileId.toNat ∧ state'.nextOffset.toNat = 0 := by
  unfold roll at h
  split at h
  · rename_i f o hr
    cases h
    rcases (DeltaFlat.rollFile_ok hr).2 with ⟨rfl, rfl⟩ | hlater
    · exact .inl rfl
    · exact .inr hlater
  · cases h

/-! ## The ends of the files -/

/-- The place of a class is the end of its last file. -/
def AtEnd (classId : UInt8) (state : DeltaClassState) (w : Disk) : Prop :=
  (w.content (classId, state.fileId)).length = state.nextOffset.toNat ∧
    ∀ f : UInt32, state.fileId.toNat < f.toNat → w.content (classId, f) = []

theorem AtEnd.kept {c : UInt8} {state : DeltaClassState} {w w' : Disk} (h : AtEnd c state w)
    (hk : ∀ f, w'.content (c, f) = w.content (c, f)) : AtEnd c state w' := by
  refine ⟨?_, fun f hf => ?_⟩
  · rw [hk]
    exact h.1
  · rw [hk]
    exact h.2 f hf

/-- The file the loop stops at ends at the next offset. -/
theorem AtEnd.roll {c : UInt8} {state state' : DeltaClassState} {w : Disk} (h : AtEnd c state w)
    {max : UInt64} {len : Nat} (hr : roll max len state = .ok state') : AtEnd c state' w := by
  rcases roll_cases hr with rfl | ⟨hlt, h0⟩
  · exact h
  · refine ⟨?_, fun f hf => h.2 f (hlt.trans hf)⟩
    rw [h.2 _ hlt, h0]
    rfl

section
variable {cr : Crates} {st : Store} {w w' : Disk} {batch : Batch} {t : Ledger}

theorem wp_dbCall_ok {Q : Unit → Disk → Prop} {E : StorageError → Disk → Prop} (hnf : w.NoFaults)
    (h : Q () (w.logged .database)) : wp dbCall Q E w :=
  wp_dbCall h fun hf => absurd hnf hf

theorem existsCheck_ok (hskip : st.skipExistsCheck = false) (hnf : w.NoFaults)
    (index : ExtTreeMap String Bytes) (key : String) :
    wp (existsCheck st index key)
      (fun found w' => found = (index[key]?).isSome ∧ Kept w w' ∧ w'.NoFaults)
      (fun _ _ => False) w := by
  rw [existsCheck, hskip]
  exact wp_bind (wp_dbCall_ok hnf (wp_pure ⟨rfl, .logged (.refl w) _, hnf⟩))

theorem loadState_ok {classState : ExtTreeMap String Bytes}
    {cache : List (UInt8 × DeltaClassState)} {c : UInt8} {state : DeltaClassState}
    (h : classStateOf classState cache c = .ok state) (hnf : w.NoFaults) :
    wp (loadState classState cache c)
      (fun state' w' => state' = state ∧ Kept w w' ∧ w'.NoFaults) (fun _ _ => False) w := by
  unfold classStateOf at h
  unfold loadState
  cases hc : cachedState cache c with
  | some state' =>
    rw [hc] at h
    exact wp_pure ⟨Except.ok.inj h, .refl w, hnf⟩
  | none =>
    rw [hc] at h
    dsimp only at h ⊢
    refine wp_bind (wp_dbCall_ok hnf ?_)
    cases hv : classState[classStateKey c]? with
    | some v =>
      rw [hv] at h
      dsimp only at h ⊢
      rw [h]
      exact wp_lift (fun _ hs => ⟨(Except.ok.inj hs).symm, .logged (.refl w) _, hnf⟩)
        fun _ he => nomatch he
    | none =>
      rw [hv] at h
      exact wp_pure ⟨Except.ok.inj h, .logged (.refl w) _, hnf⟩

/-- **Data with a place** go there. -/
theorem placeData_ok {c : UInt8} {state q : DeltaClassState} {cache : List BlockFile} {data : Bytes}
    (hb : Bounded w) (hs : Synced c state cache w) (he : AtEnd c state w) (hnf : w.NoFaults)
    (hq : placeFor st.maxFileBytes data.length state = some q) :
    wp (placeData st c state cache data) (fun r w' => r.2.1 = q ∧ AtEnd c q w')
      (fun _ _ => False) w := by
  obtain ⟨state1, hroll, hlen, hmax, hqf, hqo⟩ := placeFor_eq_some hq
  have he1 := he.roll hroll
  unfold placeData
  rw [hroll]
  refine wp_bind (wp_lift (fun state' hs' => ?_) fun _ he' => nomatch he')
  obtain rfl := Except.ok.inj hs'
  refine wp_bind (wp_mono (openBlockFile_spec hb (hs.roll hroll)) (fun r w1 h1 => ?_)
    fun _ _ h => h.2 hnf)
  obtain ⟨⟨hg, hsame, hs2, hmem⟩, hfile, -⟩ := h1
  obtain ⟨state2, cache2⟩ := r
  dsimp only at hs2 hmem hfile ⊢
  have hnf1 := hg.noFaults.2 hnf
  have hoff : state2.nextOffset = state1.nextOffset := by
    apply UInt64.toNat_inj.1
    rw [(hs2 _ hmem).2.2 rfl, hsame, hfile, he1.1]
  obtain rfl : state2 = state1 := by
    cases state1
    cases state2
    cases hfile
    cases hoff
    rfl
  refine wp_bind (wp_attempt ?_ fun hf => hf hnf1)
  refine wp_bind (wp_mono (wp_append (w := w1.logged (.seek (c, state2.fileId)))
    (Bounded.same hb hsame) ((hs2 _ hmem).2.2 rfl)) (fun _ w3 h3 => ?_) fun _ _ h => ?_)
  · obtain ⟨-, -, hothers, hcontent⟩ := h3
    rw [World.content_logged, hsame] at hcontent
    refine wp_bind (wp_lift (fun r hloc => ?_) fun e hloc => ?_)
    · obtain ⟨-, -, -, -, hf3, ho3⟩ := locate_ok hloc
      refine wp_pure ⟨?_, ?_, fun f hf => ?_⟩
      · obtain ⟨loc, state3⟩ := r
        dsimp only at hf3 ho3 ⊢
        cases state3
        cases q
        simp only [DeltaClassState.mk.injEq]
        exact ⟨hf3.trans hqf.symm, UInt64.toNat_inj.1 (ho3.trans hqo.symm)⟩
      · rw [hqf, hqo, hcontent, List.length_append, he1.1]
      · rw [hqf] at hf
        have hne : f ≠ state2.fileId := fun hx => Nat.lt_irrefl _ (hx ▸ hf)
        rw [hothers _ fun hx => hne (congrArg Prod.snd hx), World.content_logged, hsame]
        exact he1.2 f hf
    · have hstop : state2.nextOffset.toNat + data.length < 2 ^ 64 :=
        Nat.lt_of_le_of_lt hmax (by decide)
      obtain ⟨r, hr⟩ := locate_of_lt c state2 hlen hstop
      rw [hr] at hloc
      cases hloc
  · have := h.2.2 hnf1
    omega

/-! ## Class states -/

/-- The number of a size class. -/
def IsClass (c : UInt8) : Prop := c.toNat < deltaSizeClasses.length

theorem isClass_classOf (b : Block) : IsClass (classOf b) := by
  have hlt := classForLen_lt b.data.length
  have hsmall : (classForLen b.data.length).1 < 256 := hlt.trans (by decide)
  rw [IsClass, classOf, UInt8.toNat_ofNat_of_lt' hsmall]
  exact hlt

theorem classStateKey_inj {c c' : UInt8} (hc : IsClass c) (hc' : IsClass c')
    (h : classStateKey c = classStateKey c') : c = c' := by
  have hall : ∀ i j : Fin 11, classStateKey (UInt8.ofNat i) = classStateKey (UInt8.ofNat j) →
      i = j := by decide
  have heq := hall ⟨c.toNat, hc⟩ ⟨c'.toNat, hc'⟩ (by simpa using h)
  exact UInt8.toNat_inj.1 (Fin.mk.inj_iff.1 heq)

theorem classStateOf_insert (t : ExtTreeMap String Bytes) (c c' : UInt8) (state : DeltaClassState) :
    classStateOf (t.insert (classStateKey c') (encodeClassState state)) [] c =
      if classStateKey c' = classStateKey c then .ok state else classStateOf t [] c := by
  have hnil : cachedState [] c = none := rfl
  rw [classStateOf, classStateOf, hnil, Stored.getElem?_insert]
  by_cases hk : classStateKey c' = classStateKey c
  · rw [if_pos hk, if_pos hk]
    exact decodeClassState_encodeClassState state
  · rw [if_neg hk, if_neg hk]

theorem mem_setState {cache : List (UInt8 × DeltaClassState)} {c : UInt8} {state : DeltaClassState}
    {x : UInt8 × DeltaClassState} :
    x ∈ setState cache c state ↔ x = (c, state) ∨ x ∈ cache ∧ x.1 ≠ c := by
  rw [setState, List.mem_cons, List.mem_filter, decide_eq_true_eq]

/-- The places of the classes, in the cache of the batch or else in the table. -/
structure Saved (classState : ExtTreeMap String Bytes) (cache : List (UInt8 × DeltaClassState))
    (p : Places) : Prop where
  cached : ∀ x ∈ cache, IsClass x.1 ∧ x.2 = p x.1
  table : ∀ c, IsClass c → cachedState cache c = none → classStateOf classState [] c = .ok (p c)

namespace Saved

variable {classState : ExtTreeMap String Bytes} {cache : List (UInt8 × DeltaClassState)}
  {p : Places} {c : UInt8} {q : DeltaClassState}

theorem classStateOf_eq (h : Saved classState cache p) (hc : IsClass c) :
    classStateOf classState cache c = .ok (p c) := by
  unfold classStateOf
  cases hx : cachedState cache c with
  | some state =>
    obtain ⟨l, l', rfl, -⟩ := List.lookup_eq_some_iff.1 hx
    have hmem : (c, state) ∈ l ++ (c, state) :: l' := List.mem_append_right _ List.mem_cons_self
    exact congrArg Except.ok (h.cached _ hmem).2
  | none => exact h.table c hc hx

theorem set (h : Saved classState cache p) (hc : IsClass c) (q : DeltaClassState) :
    Saved classState (setState cache c q) (Function.update p c q) where
  cached x hx := by
    rcases mem_setState.1 hx with rfl | ⟨hx, hne⟩
    · exact ⟨hc, (Function.update_self c q p).symm⟩
    · rw [Function.update_of_ne hne]
      exact h.cached x hx
  table c' hc' hnone := by
    rw [cachedState_setState] at hnone
    split at hnone
    · cases hnone
    · rename_i hne
      rw [Function.update_of_ne hne]
      exact h.table c' hc' hnone

end Saved

/-- The states of a batch go to the table. -/
theorem saveStates_ok {classState : ExtTreeMap String Bytes}
    {cache : List (UInt8 × DeltaClassState)} {p : Places} (h : Saved classState cache p)
    (hnf : w.NoFaults) :
    wp (saveStates classState cache)
      (fun t w' => Saved t [] p ∧ Kept w w' ∧ w'.NoFaults) (fun _ _ => False) w := by
  -- a class is in the table already, or it is still to come
  refine wp_mono (wp_foldlM (fun rest t w' => (∀ x ∈ rest, IsClass x.1 ∧ x.2 = p x.1) ∧
    (∀ c, IsClass c → classStateOf t [] c = .ok (p c) ∨ ∃ x ∈ rest, x.1 = c) ∧ Kept w w' ∧
    w'.NoFaults) (fun x rest t w' h' => ?_) cache classState w ⟨h.cached, fun c hc => ?_, .refl w, hnf⟩)
    (fun t w' h' => ?_) fun _ _ h' => h'
  · obtain ⟨hrest, hall, hk, hnf'⟩ := h'
    refine wp_bind (wp_dbCall_ok hnf' (wp_pure ⟨fun y hy => hrest y (.tail _ hy), fun c hc => ?_,
      hk.logged _, hnf'⟩))
    obtain ⟨hx, hxp⟩ := hrest x (.head _)
    rw [classStateOf_insert]
    by_cases hxc : x.1 = c
    · rw [if_pos (congrArg classStateKey hxc), hxp, hxc]
      exact .inl rfl
    · rw [if_neg fun hkey => hxc (classStateKey_inj hx hc hkey)]
      rcases hall c hc with ht | ⟨y, hy, hyc⟩
      · exact .inl ht
      · rcases List.mem_cons.1 hy with rfl | hy
        · exact absurd hyc hxc
        · exact .inr ⟨y, hy, hyc⟩
  · cases hx : cachedState cache c with
    | some state =>
      obtain ⟨l, l', rfl, -⟩ := List.lookup_eq_some_iff.1 hx
      exact .inr ⟨(c, state), List.mem_append_right _ List.mem_cons_self, rfl⟩
    | none => exact .inl (h.table c hc hx)
  · obtain ⟨-, hall, hk, hnf'⟩ := h'
    refine ⟨⟨fun x hx => absurd hx List.not_mem_nil, fun c hc _ => ?_⟩, hk, hnf'⟩
    rcases hall c hc with ht | ⟨x, hx, -⟩
    · exact ht
    · exact absurd hx List.not_mem_nil

theorem syncFiles_ok (files : List BlockFile) (hnf : w.NoFaults) :
    wp (syncFiles files) (fun _ w' => Kept w w' ∧ w'.NoFaults) (fun _ _ => False) w := by
  refine wp_foldlM (fun _ _ w' => Kept w w' ∧ w'.NoFaults) (fun f rest _ w' h => ?_) files () w
    ⟨.refl w, hnf⟩
  exact wp_attempt ⟨h.1.logged _, h.2⟩ fun hf => hf h.2

/-! ## Batches -/

/-- A batch that has put some blocks, with the contents and the places after them. -/
structure Booked (cr : Crates) (classState : ExtTreeMap String Bytes) (m : Contents) (p : Places)
    (batch : Batch) (w : Disk) : Prop where
  noFaults : w.NoFaults
  ledger : ∃ t, BatchOk batch w t ∧ Keyed cr t m
  saved : Saved classState batch.stateCache p
  atEnd : ∀ c, IsClass c → AtEnd c (p c) w

variable {classState : ExtTreeMap String Bytes} {m : Contents} {p p' : Places}

theorem keyed_ledgerPut (hskip : st.skipExistsCheck = false) (h : Keyed cr t m) (b : Block) :
    Keyed cr (ledgerPut cr st t b) (m.put b) := by
  unfold ledgerPut
  rw [h.get]
  cases hm : m b.cid with
  | some data =>
    rw [if_pos ⟨hskip, rfl⟩, Contents.put_of_some hm]
    exact h
  | none =>
    rw [if_neg fun hx => nomatch hx.2]
    exact h.insert hm

/-- What `putBlock` does with the class states and the ends of the files. -/
theorem putBlock_places (hskip : st.skipExistsCheck = false) (h : Booked cr classState m p batch w)
    {b : Block} (hp : placeOne st.maxFileBytes m p b = some p') :
    wp (putBlock cr st classState batch b)
      (fun batch' w' => w'.NoFaults ∧ Saved classState batch'.stateCache p' ∧
        ∀ c, IsClass c → AtEnd c (p' c) w')
      (fun _ _ => False) w := by
  obtain ⟨t, hb, hk⟩ := h.ledger
  have hc := isClass_classOf b
  unfold placeOne at hp
  unfold putBlock
  refine wp_bind (wp_mono (wp_and (existsCheck_spec hb _) (existsCheck_ok hskip h.noFaults _ _))
    (fun found w1 h1 => ?_) fun _ _ hf => hf.2)
  obtain ⟨⟨hb1, -, -⟩, hfound, hk1, hnf1⟩ := h1
  rw [hb.stored.isSome_iff, hk.get] at hfound
  subst hfound
  split at hp
  · rename_i hsome
    obtain rfl := Option.some.inj hp
    rw [if_pos hsome]
    exact wp_pure ⟨hnf1, h.saved, fun c hc => (h.atEnd c hc).kept fun f => hk1 _⟩
  · rename_i hnone
    obtain ⟨q, hq, rfl⟩ := Option.map_eq_some_iff.1 hp
    rw [if_neg hnone]
    refine wp_bind (wp_mono (wp_and (loadState_spec classState hb1 (classOf b))
      (loadState_ok (h.saved.classStateOf_eq hc) hnf1)) (fun state w2 h2 => ?_) fun _ _ hf => hf.2)
    obtain ⟨⟨-, hsame, hs⟩, rfl, hk2, hnf2⟩ := h2
    have hk12 := hk1.trans hk2
    have hb2 := hb1.bounded.same hsame
    refine wp_bind (wp_mono (wp_and (placeData_spec st hb2 hs) (placeData_ok hb2 hs
      ((h.atEnd _ hc).kept fun f => hk12 _) hnf2 hq)) (fun r w3 h3 => ?_) fun _ _ hf => hf.2)
    obtain ⟨hplaced, hrq, hend⟩ := h3
    have hnf3 := hplaced.grown.noFaults.2 hnf2
    refine wp_bind (wp_dbCall_ok hnf3 (wp_pure ⟨hnf3, ?_, fun c hc' => ?_⟩))
    · rw [hrq]
      exact h.saved.set hc q
    · by_cases hcb : c = classOf b
      · rw [hcb, Function.update_self]
        exact hend
      · rw [Function.update_of_ne hcb]
        refine (h.atEnd c hc').kept fun f => ?_
        rw [World.content_logged, hplaced.others _ hcb, hk12]

/-- **One block** with a place. -/
theorem putBlock_booked (hskip : st.skipExistsCheck = false) (h : Booked cr classState m p batch w)
    {b : Block} (hp : placeOne st.maxFileBytes m p b = some p') :
    wp (putBlock cr st classState batch b) (Booked cr classState (m.put b) p') (fun _ _ => False)
      w := by
  obtain ⟨t, hb, hk⟩ := h.ledger
  refine wp_mono (wp_and (putBlock_spec classState hb b) (putBlock_places hskip h hp))
    (fun batch' w' h' => ?_) fun _ _ hf => hf.2
  obtain ⟨⟨-, hb'⟩, hnf, hsaved, hend⟩ := h'
  exact ⟨hnf, ⟨_, hb', keyed_ledgerPut hskip hk b⟩, hsaved, hend⟩

theorem putBlocks_booked (hskip : st.skipExistsCheck = false) :
    ∀ (blocks : List Block) {m : Contents} {p p' : Places} {batch : Batch} {w : Disk},
      Booked cr classState m p batch w → placesFor st.maxFileBytes m p blocks = some p' →
      wp (blocks.foldlM (putBlock cr st classState) batch)
        (Booked cr classState (blocks.foldl Contents.put m) p') (fun _ _ => False) w
  | [], _, _, _, _, _, h, hp => by
    obtain rfl := Option.some.inj hp
    exact wp_pure h
  | b :: bs, _, _, _, _, _, h, hp => by
    obtain ⟨p1, hp1, hp2⟩ := Option.bind_eq_some_iff.1 hp
    rw [List.foldlM_cons]
    exact wp_bind (wp_mono (putBlock_booked hskip h hp1)
      (fun _ _ h1 => putBlocks_booked hskip bs h1 hp2) fun _ _ hf => hf)

/-! ## Calls -/

/-- The store has the contents, and the places of its classes are the ends of their files. -/
structure Shelved (cr : Crates) (m : Contents) (p : Places) (s : State) : Prop where
  noFaults : s.disk.NoFaults
  ledger : ∃ t, Intact s t ∧ Keyed cr t m
  saved : Saved s.db.classState [] p
  atEnd : ∀ c, IsClass c → AtEnd c (p c) s.disk

theorem shelved_start {faults : Nat → Option Nat} (h : ∀ n, faults n = none) :
    Shelved cr .empty (fun _ => { fileId := 0, nextOffset := 0 }) (State.start faults) where
  noFaults := h
  ledger := ⟨∅, intact_start faults, .empty cr⟩
  saved := by
    refine ⟨fun x hx => absurd hx List.not_mem_nil, fun c _ _ => ?_⟩
    have hnone : (∅ : ExtTreeMap String Bytes)[classStateKey c]? = none :=
      ExtTreeMap.getElem?_empty
    show classStateOf ∅ [] c = _
    rw [classStateOf, hnone]
    rfl
  atEnd c _ := ⟨rfl, fun _ _ => rfl⟩

variable {s : State}

theorem Shelved.aborted (h : Shelved cr m p s) (ha : Aborted s.disk w') (hk : Kept s.disk w') :
    Shelved cr m p { s with disk := w' } where
  noFaults := ha.noFaults.2 h.noFaults
  ledger := by
    obtain ⟨t, hi, hkey⟩ := h.ledger
    exact ⟨t, hi.grown ha, hkey⟩
  saved := h.saved
  atEnd c hc := (h.atEnd c hc).kept fun _ => hk _

theorem keyed_ledgerPuts (hskip : st.skipExistsCheck = false) :
    ∀ (blocks : List Block) {t : Ledger} {m : Contents}, Keyed cr t m →
      Keyed cr (blocks.foldl (ledgerPut cr st) t) (blocks.foldl Contents.put m)
  | [], _, _, h => h
  | b :: bs, _, _, h => keyed_ledgerPuts hskip bs (keyed_ledgerPut hskip h b)

/-- What `putMany` does with the class states and the ends of the files. -/
theorem putMany_places (hskip : st.skipExistsCheck = false) (hv : st.verifyBlocksOnWrite = false)
    (h : Shelved cr m p s) {blocks : List Block}
    (hp : placesFor st.maxFileBytes m p blocks = some p') :
    wp (putMany cr st s.db blocks)
      (fun db w' => w'.NoFaults ∧ Saved db.classState [] p' ∧ ∀ c, IsClass c → AtEnd c (p' c) w')
      (fun _ _ => False) s.disk := by
  obtain ⟨t, hi, hkey⟩ := h.ledger
  unfold putMany
  split
  · rename_i hnil
    subst hnil
    obtain rfl := Option.some.inj hp
    exact wp_pure ⟨h.noFaults, h.saved, h.atEnd⟩
  · rw [hv]
    have hbatch : Booked cr s.db.classState m p
        { index := s.db.index, stateCache := [], fileCache := [] } (begun s.disk) :=
      ⟨h.noFaults, ⟨t, ⟨hi.bounded, hi.stored.of_files rfl, nofun, nofun⟩, hkey⟩, h.saved, h.atEnd⟩
    refine wp_bind (wp_lift (fun _ _ => ?_) fun _ he => nomatch he)
    refine wp_bind (wp_dbCall_ok h.noFaults (wp_bind (wp_dbCall_ok h.noFaults
      (wp_bind (wp_dbCall_ok h.noFaults ?_)))))
    refine wp_bind (wp_mono (putBlocks_booked hskip blocks hbatch hp) (fun batch w1 h1 => ?_)
      fun _ _ hf => hf)
    have hend : ∀ w2, Kept w1 w2 → w2.NoFaults → wp (do
        let classState ← saveStates s.db.classState batch.stateCache
        dbCall
        return { index := batch.index, classState } : Act Db)
        (fun db w' => w'.NoFaults ∧ Saved db.classState [] p' ∧ ∀ c, IsClass c → AtEnd c (p' c) w')
        (fun _ _ => False) w2 := by
      intro w2 hk2 hnf2
      refine wp_bind (wp_mono (saveStates_ok h1.saved hnf2) (fun classState w3 h3 => ?_)
        fun _ _ hf => hf)
      obtain ⟨hsaved, hk3, hnf3⟩ := h3
      refine wp_bind (wp_dbCall_ok hnf3 (wp_pure ⟨hnf3, hsaved, fun c hc => ?_⟩))
      exact (h1.atEnd c hc).kept fun _ => (hk2.trans hk3) _
    split
    · exact wp_bind (wp_mono (syncFiles_ok _ h1.noFaults) (fun _ w2 h2 => hend w2 h2.1 h2.2)
        fun _ _ hf => hf)
    · exact hend w1 (.refl w1) h1.noFaults

/-- **A batch** whose blocks have places. -/
theorem putMany_shelved (hskip : st.skipExistsCheck = false) (hv : st.verifyBlocksOnWrite = false)
    (h : Shelved cr m p s) {blocks : List Block}
    (hp : placesFor st.maxFileBytes m p blocks = some p') :
    wp (putMany cr st s.db blocks)
      (fun db w' => Shelved cr (blocks.foldl Contents.put m) p' { db, disk := w' })
      (fun _ _ => False) s.disk := by
  obtain ⟨t, hi, hkey⟩ := h.ledger
  refine wp_mono (wp_and (putMany_spec hi blocks) (putMany_places hskip hv h hp))
    (fun db w' h' => ?_) fun _ _ hf => hf.2
  obtain ⟨⟨-, hi'⟩, hnf, hsaved, hend⟩ := h'
  exact ⟨hnf, ⟨_, hi', keyed_ledgerPuts hskip blocks hkey⟩, hsaved, hend⟩

/-- The index has a key iff the contents have its CID. -/
theorem Shelved.isSome_index (h : Shelved cr m p s) (cid : Cid) :
    (s.db.index[cr.cidToString cid]?).isSome = (m cid).isSome := by
  obtain ⟨t, hi, hkey⟩ := h.ledger
  rw [hi.stored.isSome_iff, hkey.get]

theorem Shelved.begun (h : Shelved cr m p s) : Shelved cr m p { s with disk := begun s.disk } := by
  obtain ⟨t, hi, -⟩ := h.ledger
  have h0 : Aborted s.disk s.disk := ⟨.refl _, hi.bounded⟩
  exact h.aborted (((h0.logged _).logged _).logged _) fun _ => rfl

/-- Without faults each call begins with three operations of the database. -/
theorem wp_begin_ok {α : Type} {x : Act α} {Q : α → Disk → Prop} {E : StorageError → Disk → Prop}
    (hnf : w.NoFaults) (hx : wp x Q E (begun w)) : wp (do dbCall; dbCall; dbCall; x) Q E w :=
  wp_bind (wp_dbCall_ok hnf (wp_bind (wp_dbCall_ok hnf (wp_bind (wp_dbCall_ok hnf hx)))))

theorem get_shelved (h : Shelved cr m p s) (cid : Cid) :
    wp (get cr s.db cid)
      (fun b w' => m cid = some b.data ∧ b.cid = cid ∧ Shelved cr m p { s with disk := w' })
      (fun _ w' => m cid = none ∧ Shelved cr m p { s with disk := w' }) s.disk := by
  obtain ⟨t, hi, hkey⟩ := h.ledger
  refine wp_mono (wp_and (get_spec hi cid) (get_kept s.db cid)) (fun b w' h' => ?_) fun e w' h' => ?_
  · obtain ⟨⟨ha, hcid, hdata⟩, hk⟩ := h'
    rw [hkey.get] at hdata
    exact ⟨hdata, hcid, h.aborted ha hk⟩
  · obtain ⟨⟨ha, hnone⟩, hk⟩ := h'
    have hm := (hnone h.noFaults).1
    rw [hkey.get] at hm
    exact ⟨hm, h.aborted ha hk⟩

theorem has_shelved (h : Shelved cr m p s) (cid : Cid) :
    wp (has cr s.db cid)
      (fun b w' => b = (m cid).isSome ∧ Shelved cr m p { s with disk := w' })
      (fun _ _ => False) s.disk :=
  wp_begin_ok h.noFaults (wp_pure ⟨h.isSome_index cid, h.begun⟩)

theorem delete_shelved (h : Shelved cr m p s) (cid : Cid) :
    wp (delete cr s.db cid)
      (fun db w' => (m cid).isSome ∧ Shelved cr (m.delete cid) p { db, disk := w' })
      (fun _ w' => m cid = none ∧ Shelved cr m p { s with disk := w' }) s.disk := by
  have hsome := h.isSome_index cid
  refine wp_begin_ok h.noFaults ?_
  split
  · rename_i hi
    rw [hi] at hsome
    exact wp_throw ⟨Option.isNone_iff_eq_none.1 (Option.isSome_eq_false_iff.1 hsome.symm), h.begun⟩
  · rename_i bytes hi
    rw [hi] at hsome
    have hb := h.begun
    obtain ⟨t, hint, hkey⟩ := hb.ledger
    refine wp_bind (wp_dbCall_ok hb.noFaults (wp_pure ⟨hsome.symm, hb.noFaults, ?_, hb.saved, ?_⟩))
    · exact ⟨_, ⟨hint.bounded, (hint.stored.erase _).of_files rfl⟩, hkey.erase cid⟩
    · exact hb.atEnd

theorem listCids_shelved (h : Shelved cr m p s) :
    wp (listCids cr s.db)
      (fun cids w' => (∀ cid, cid ∈ cids ↔ (m cid).isSome) ∧ Shelved cr m p { s with disk := w' })
      (fun _ _ => False) s.disk := by
  obtain ⟨t, hi, hkey⟩ := h.ledger
  refine wp_begin_ok h.noFaults (wp_pure ⟨fun cid => ?_, h.begun⟩)
  rw [← h.isSome_index]
  refine mem_cids_iff fun key hsome => hkey.key key ?_
  rwa [← hi.stored.isSome_iff]

theorem commit_ok {x : Act Db} {P : Except StorageError Unit × State → Prop}
    (h : wp x (fun db w' => P (.ok (), { db, disk := w' }))
      (fun e w' => P (.error e, { s with disk := w' })) s.disk) : P (commit x s) := by
  unfold wp at h
  unfold commit
  cases hx : x s.disk with
  | ok db w' =>
    rw [hx] at h
    exact h
  | error e w' =>
    rw [hx] at h
    exact h

theorem query_ok {α : Type} {x : Act α} {P : Except StorageError α × State → Prop}
    (h : wp x (fun a w' => P (.ok a, { s with disk := w' }))
      (fun e w' => P (.error e, { s with disk := w' })) s.disk) : P (query x s) := by
  unfold wp at h
  unfold query
  cases hx : x s.disk with
  | ok a w' =>
    rw [hx] at h
    exact h
  | error e w' =>
    rw [hx] at h
    exact h

/-- **DeltaStore keeps its contents**, as long as the classes have places for the blocks. -/
theorem keeps (cr : Crates) (hskip : st.skipExistsCheck = false)
    (hv : st.verifyBlocksOnWrite = false) :
    (backend cr st).Keeps (Takes st) (placesAfter st) (Shelved cr) := by
  intro m p s r h hfit
  cases r with
  | putMany blocks =>
    obtain ⟨p', hp⟩ := Option.isSome_iff_exists.1 hfit
    rw [placesAfter, hp]
    exact commit_ok (P := fun x => x.1 = .ok () ∧ Shelved cr _ p' x.2)
      (wp_mono (putMany_shelved hskip hv h hp) (fun _ _ h' => ⟨rfl, h'⟩) fun _ _ hf => hf.elim)
  | get cid =>
    refine query_ok (P := fun x => x.1.toOption = _ ∧ Shelved cr m p x.2)
      (wp_mono (get_shelved h cid) (fun b w' h' => ⟨?_, h'.2.2⟩) fun _ w' h' => ⟨?_, h'.2⟩)
    · rw [h'.1, ← h'.2.1]
      rfl
    · rw [h'.1]
      rfl
  | has cid =>
    exact query_ok (P := fun x => x.1.toOption.getD false = _ ∧ Shelved cr m p x.2)
      (wp_mono (has_shelved h cid) (fun _ _ h' => h') fun _ _ hf => hf.elim)
  | delete cid =>
    refine commit_ok (P := fun x => x.1.toOption = _ ∧ Shelved cr (m.delete cid) p x.2)
      (wp_mono (delete_shelved h cid) (fun db w' h' => ⟨?_, h'.2⟩) fun _ w' h' => ⟨?_, ?_⟩)
    · obtain ⟨data, hm⟩ := Option.isSome_iff_exists.1 h'.1
      rw [hm]
      rfl
    · rw [h'.1]
      rfl
    · rw [Contents.delete_of_none h'.1]
      exact h'.2
  | listCids =>
    exact query_ok (P := fun x => (∀ cid, cid ∈ x.1.toOption.getD [] ↔ (m cid).isSome) ∧
      Shelved cr m p x.2) (wp_mono (listCids_shelved h) (fun _ _ h' => h') fun _ _ hf => hf.elim)

end

end Storage.DeltaStore
