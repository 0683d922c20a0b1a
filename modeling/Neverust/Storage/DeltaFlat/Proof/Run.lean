import Mathlib.Data.List.Nodup
import Mathlib.Data.List.Pairwise
import Neverust.Storage.DeltaFlat.Proof.Room

/-!
# A DeltaFlat lane is a map

`runCalls`: insertions and deletions on one lane, with the control record in memory. `LaneMap` is
what a lane is for: a map from CIDs to entries, with the place for the next block. The lane
simulates it (`runCall_sim`, `runCalls_sim`), so that in every state a lane can reach from a new
one a lookup gives what the map holds (`runCalls_linear_hash`).
-/

namespace Storage.DeltaFlat

open Io Rust Bytes LinearHash

/-! ## Runs -/

/-- A call on a lane. With a new batch `put_many` starts again with no data file open. -/
inductive Call
  | insert (block : Block) (cidBytes : Bytes)
  | delete (cidBytes : Bytes)
  | newBatch

section
variable (H : Bytes → SplitHash) (st : Store) (d : LaneDir)

def runCall (s : Control × Batch) : Call → Act (Control × Batch)
  | .insert block cidBytes => insertBlockInClass H st d block cidBytes false s.1 s.2
  | .delete cidBytes => do
    match ← deleteInClass H d s.1 cidBytes with
    | none => return s
    | some control => return (control, s.2)
  | .newBatch => return (s.1, Batch.empty)

def runCalls (s : Control × Batch) (calls : List Call) : Act (Control × Batch) :=
  calls.foldlM (runCall H st d) s

/-! ## The map -/

/-- The abstract lane: the entry of each CID and the append point. -/
structure LaneMap where
  map : Bytes → Option Entry
  nextFileId : UInt32
  nextOffset : UInt64

/-- The entry a new block gets at `(fileId, offset)`. -/
def entryAt (cid : Bytes) (len : Nat) (fileId : UInt32) (offset : UInt64) : Entry :=
  ⟨(H cid).fingerprint, fileId, offset, UInt32.ofNat len, (H cid).hash64, cid⟩

/-- The first insertion of a CID counts, until it is deleted. -/
def LaneMap.call (m : LaneMap) : Call → LaneMap
  | .insert block cid =>
    if (m.map cid).isSome then m
    else
      match rollFile st.maxFileBytes block.data.length m.nextFileId m.nextOffset with
      | .ok (f, o) =>
        { map := fun x => if x = cid then some (entryAt H cid block.data.length f o) else m.map x
          nextFileId := f
          nextOffset := UInt64.ofNat (o.toNat + block.data.length) }
      | .error _ => m
  | .delete cid => { m with map := fun x => if x = cid then none else m.map x }
  | .newBatch => m

def LaneMap.empty : LaneMap := ⟨fun _ => none, 0, 0⟩

/-- Whether a CID is stored after a call. -/
def storedStep (cid : Bytes) (stored : Bool) : Call → Bool
  | .insert _ x => stored || decide (x = cid)
  | .delete x => stored && !decide (x = cid)
  | .newBatch => stored

/-- The CID was inserted and not deleted since its last insertion. -/
def stored (calls : List Call) (cid : Bytes) : Bool := calls.foldl (storedStep cid) false

end

/-! ## Simulation -/

section
variable {H : Bytes → SplitHash} {st : Store} {d : LaneDir} {c c' : Control} {w w' : Disk}

/-- The lane holds what the map says. -/
structure Sim (H : Bytes → SplitHash) (st : Store) (d : LaneDir) (m : LaneMap) (c : Control)
    (w : Disk) : Prop where
  inv : LaneInv H st d c w
  nodup : ((laneEntries d c w).map Entry.cid).Nodup
  map : ∀ cid e, m.map cid = some e ↔ e ∈ laneEntries d c w ∧ e.cid = cid
  nextFileId : m.nextFileId = c.nextFileId
  nextOffset : m.nextOffset = c.nextOffset

theorem Sim.isSome_iff {m : LaneMap} (h : Sim H st d m c w) (cid : Bytes) :
    (m.map cid).isSome ↔ ∃ e ∈ laneEntries d c w, e.cid = cid := by
  rw [Option.isSome_iff_exists]
  exact exists_congr fun e => h.map cid e

theorem NewEntry.eq_entryAt {cid data : Bytes} {e : Entry} (h : NewEntry H st c cid data e) :
    e = entryAt H cid data.length e.fileId e.offset := by
  obtain ⟨hcid, ⟨hfp, hh⟩, -, hlen⟩ := h
  rw [hcid] at hfp hh
  have hl : UInt32.ofNat data.length = e.len := by rw [← hlen, UInt32.ofNat_toNat]
  cases e
  simp_all [entryAt]

theorem Sim.call_found {m : LaneMap} (hs : Sim H st d m c w) {block : Block} {cid : Bytes}
    (he : ∃ e ∈ laneEntries d c w, e.cid = cid) : m.call H st (.insert block cid) = m := by
  rw [LaneMap.call, if_pos ((hs.isSome_iff cid).2 he)]

theorem Sim.call_new {m : LaneMap} (hs : Sim H st d m c w) {block : Block} {cid : Bytes}
    {e : Entry} (he : NewEntry H st c cid block.data e)
    (hn : ∀ x ∈ laneEntries d c w, x.cid ≠ cid) :
    m.call H st (.insert block cid) =
      ⟨fun x => if x = cid then some e else m.map x, e.fileId,
        UInt64.ofNat (e.offset.toNat + block.data.length)⟩ := by
  have hno : ¬ (m.map cid).isSome := by
    rw [hs.isSome_iff]
    rintro ⟨x, hx, hxc⟩
    exact hn x hx hxc
  rw [LaneMap.call, if_neg hno, hs.nextFileId, hs.nextOffset, he.place]
  dsimp only
  rw [← he.eq_entryAt]

theorem Sim.insert {m : LaneMap} (hs : Sim H st d m c w) {block : Block} {cid : Bytes}
    {r : Control × Batch} (h : Inserted H st d cid block.data false c w r w') :
    Sim H st d (m.call H st (.insert block cid)) r.1 w' := by
  cases h.effect with
  | found _ hl he hf ho _ =>
    rw [hs.call_found he]
    refine ⟨h.inv, (hl.map _).nodup_iff.2 hs.nodup, fun x e => ?_, hs.nextFileId.trans hf.symm,
      hs.nextOffset.trans ho.symm⟩
    rw [hs.map, hl.mem_iff]
  | new e hl he _ hn hf ho _ =>
    rw [hs.call_new he (hn rfl)]
    refine ⟨h.inv, ?_, fun x y => ?_, hf.symm, ?_⟩
    · rw [(hl.map _).nodup_iff, List.map_cons, List.nodup_cons, he.cid_eq]
      refine ⟨fun hmem => ?_, hs.nodup⟩
      obtain ⟨x, hx, hxc⟩ := List.mem_map.1 hmem
      exact hn rfl x hx hxc
    · rw [hl.mem_iff, List.mem_cons]
      dsimp only
      by_cases hx : x = cid
      · rw [if_pos hx]
        constructor
        · intro hy
          cases hy
          exact ⟨.inl rfl, he.cid_eq.trans hx.symm⟩
        · rintro ⟨rfl | hy, hyc⟩
          · rfl
          · exact absurd (hyc.trans hx) (hn rfl y hy)
      · rw [if_neg hx, hs.map]
        constructor
        · exact fun ⟨hy, hyc⟩ => ⟨.inr hy, hyc⟩
        · rintro ⟨rfl | hy, hyc⟩
          · exact absurd (hyc.symm.trans he.cid_eq) hx
          · exact ⟨hy, hyc⟩
    · rw [← he.len]
      change UInt64.ofNat e.stop = _
      rw [← ho, UInt64.ofNat_toNat]

/-- After an insertion that succeeds the CID is stored. -/
theorem Sim.stored_insert {m : LaneMap} (hs : Sim H st d m c w) {block : Block} {cid : Bytes}
    {r : Control × Batch} (h : Inserted H st d cid block.data false c w r w') (x : Bytes) :
    ((m.call H st (.insert block cid)).map x).isSome = ((m.map x).isSome || decide (cid = x)) := by
  cases h.effect with
  | found _ hl he hf ho _ =>
    rw [hs.call_found he]
    by_cases hx : cid = x
    · subst hx
      simp [(hs.isSome_iff cid).2 he]
    · simp [hx]
  | new e hl he _ hn hf ho _ =>
    rw [hs.call_new he (hn rfl)]
    by_cases hx : cid = x
    · simp [hx]
    · simp [hx, Ne.symm hx]

theorem LaneMap.stored_delete (m : LaneMap) (cid x : Bytes) :
    ((m.call H st (.delete cid)).map x).isSome = ((m.map x).isSome && !decide (cid = x)) := by
  rw [LaneMap.call]
  by_cases hx : cid = x
  · simp [hx]
  · simp [hx, Ne.symm hx]

theorem Sim.delete {m : LaneMap} (hs : Sim H st d m c w) {cid : Bytes}
    (h : Deleted H st d cid c w c' w') : Sim H st d (m.call H st (.delete cid)) c' w' := by
  obtain ⟨e, hcid, hl⟩ := h.effect
  have hnodup := (hl.map Entry.cid).nodup_iff.1 hs.nodup
  rw [List.map_cons, List.nodup_cons] at hnodup
  refine ⟨h.inv, hnodup.2, fun x y => ?_, hs.nextFileId.trans h.nextFileId.symm,
    hs.nextOffset.trans h.nextOffset.symm⟩
  rw [LaneMap.call]
  dsimp only
  by_cases hx : x = cid
  · rw [if_pos hx]
    simp only [reduceCtorEq, false_iff]
    rintro ⟨hy, hyc⟩
    exact hnodup.1 (List.mem_map.2 ⟨y, hy, by rw [hyc, hx, hcid]⟩)
  · rw [if_neg hx, hs.map, hl.mem_iff, List.mem_cons]
    constructor
    · rintro ⟨rfl | hy, hyc⟩
      · exact absurd (hyc.symm.trans hcid) hx
      · exact ⟨hy, hyc⟩
    · exact fun ⟨hy, hyc⟩ => ⟨.inr hy, hyc⟩

/-- A deletion of a CID the lane does not have. -/
theorem Sim.delete_none {m : LaneMap} (hs : Sim H st d m c w) {cid : Bytes}
    (hu : Untouched w w') (hno : ∀ e ∈ laneEntries d c w, e.cid ≠ cid) :
    Sim H st d (m.call H st (.delete cid)) c w' := by
  have hl := laneEntries_kept c (pagesKept_of_untouched hu hs.inv.index.aligned)
  refine ⟨hs.inv.untouched hu, by rw [hl]; exact hs.nodup,
    fun x y => ?_, hs.nextFileId, hs.nextOffset⟩
  rw [LaneMap.call, hl]
  dsimp only
  by_cases hx : x = cid
  · rw [if_pos hx]
    simp only [reduceCtorEq, false_iff]
    rintro ⟨hy, hyc⟩
    exact hno y hy (hyc.trans hx)
  · rw [if_neg hx, hs.map]

/-- **One call**: the lane follows the map. -/
theorem runCall_sim {m : LaneMap} {b : Batch} (hs : Sim H st d m c w) (hb : BatchOk d b w)
    (call : Call) :
    wp (runCall H st d (c, b) call)
      (fun s w' => Sim H st d (m.call H st call) s.1 w' ∧ BatchOk d s.2 w' ∧
        w'.faults = w.faults ∧
        ∀ x, ((m.call H st call).map x).isSome = storedStep x (m.map x).isSome call)
      (fun e _ => ¬ SplitBug e) w := by
  cases call with
  | insert block cid =>
    refine wp_mono (insertBlockInClass_spec hs.inv hb) (fun s w' h => ?_) fun e w' h => h.error
    exact ⟨hs.insert h, h.batch, h.frame.faults, hs.stored_insert h⟩
  | delete cid =>
    refine wp_bind (wp_mono (deleteInClass_spec hs.inv cid) (fun r w1 h1 => ?_) fun e w' h => ?_)
    case refine_2 =>
      rcases h with ⟨-, ⟨rfl, -⟩ | ⟨rfl, -⟩⟩ | ⟨-, -, rfl, -⟩ <;> simp [SplitBug]
    cases r with
    | none =>
      obtain ⟨hu, hno, -⟩ := h1
      exact wp_pure ⟨hs.delete_none hu hno, hb.kept fun f => Frame.kept hu _, Frame.faults hu,
        m.stored_delete cid⟩
    | some c' =>
      have h1 := h1.1
      exact wp_pure ⟨hs.delete h1, hb.kept fun f => h1.frame.kept _, h1.frame.faults,
        m.stored_delete cid⟩
  | newBatch => exact wp_pure ⟨hs, fun f hf => absurd hf List.not_mem_nil, rfl, fun _ => rfl⟩

/-- **Every run**: the lane holds the map of its calls. -/
theorem runCalls_sim {m : LaneMap} {b : Batch} (hs : Sim H st d m c w) (hb : BatchOk d b w)
    (calls : List Call) :
    wp (runCalls H st d (c, b) calls)
      (fun s w' => Sim H st d (calls.foldl (LaneMap.call H st) m) s.1 w' ∧ BatchOk d s.2 w' ∧
        w'.faults = w.faults ∧
        ∀ x, ((calls.foldl (LaneMap.call H st) m).map x).isSome =
          calls.foldl (storedStep x) (m.map x).isSome)
      (fun e _ => ¬ SplitBug e) w := by
  -- Before each round the map is that of the calls made so far.
  have hloop := wp_foldlM (f := runCall H st d) (fun rest s w' => ∃ m',
      Sim H st d m' s.1 w' ∧ BatchOk d s.2 w' ∧ w'.faults = w.faults ∧
      rest.foldl (LaneMap.call H st) m' = calls.foldl (LaneMap.call H st) m ∧
      ∀ x, rest.foldl (storedStep x) (m'.map x).isSome =
        calls.foldl (storedStep x) (m.map x).isSome)
    (E := fun e _ => ¬ SplitBug e) (fun call rest s w' hI => ?_) calls (c, b) w
    ⟨m, hs, hb, rfl, rfl, fun _ => rfl⟩
  · refine wp_mono hloop (fun s w' hI => ?_) fun _ _ h => h
    obtain ⟨m', hs', hb', hf', hm', hst'⟩ := hI
    rw [← hm']
    exact ⟨hs', hb', hf', hst'⟩
  · obtain ⟨m', hs', hb', hf', hm', hst'⟩ := hI
    refine wp_mono (runCall_sim hs' hb' call) (fun s1 w1 h1 => ?_) fun _ _ h => h
    obtain ⟨hs1, hb1, hf1, hst1⟩ := h1
    refine ⟨_, hs1, hb1, hf1.trans hf', hm', fun x => ?_⟩
    rw [hst1 x]
    exact hst' x

/-! ## The state of the index file -/

/-- A slot of the index of `d` holds an entry. -/
def FullAt (d : LaneDir) (w : Disk) (bucket slot : Nat) (e : Entry) : Prop :=
  slot < entriesPerBucket ∧ decodeEntry (pageAt (w.content (d, .index)) bucket) slot = .ok (some e)

/-- The full slots of the first `n` buckets. -/
def fullSlots (d : LaneDir) (w : Disk) (n : Nat) : List (Nat × Nat) :=
  (List.range n).flatMap fun bucket =>
    ((List.range entriesPerBucket).filter fun slot =>
      entryState (pageAt (w.content (d, .index)) bucket) slot = stateFull).map fun slot =>
        (bucket, slot)

/-- A lane that is a linear hash map with the entries `map`: its shape (`shape`), where entries are
(`placed`, `outside`, `unique`), their number (`count`), the splits from here on (`split`,
`insert`) and what a lookup finds (`lookup`). -/
structure IsLinearHash (H : Bytes → SplitHash) (st : Store) (d : LaneDir) (c : Control)
    (b : Batch) (w : Disk) (map : Bytes → Option Entry) : Prop where
  shape : c.splitPtr.toNat < 2 ^ c.level.toNat
  decoded : ∀ bucket slot, slot < entriesPerBucket →
    entryState (pageAt (w.content (d, .index)) bucket) slot = stateFull →
    ∃ e, FullAt d w bucket slot e
  placed : ∀ bucket slot e, FullAt d w bucket slot e →
    primaryBucket (H e.cid).even c = .ok bucket
  outside : ∃ n, bucketCount c = .ok n ∧ ∀ bucket, n ≤ bucket → ∀ slot e,
    ¬ FullAt d w bucket slot e
  unique : ∀ b₁ s₁ e₁ b₂ s₂ e₂, FullAt d w b₁ s₁ e₁ → FullAt d w b₂ s₂ e₂ → e₁.cid = e₂.cid →
    b₁ = b₂ ∧ s₁ = s₂
  count : ∃ n, bucketCount c = .ok n ∧ c.itemCount.toNat = (fullSlots d w n).length
  split : ∀ e w', splitOneBucket H d c w = .error e w' → ¬ SplitBug e
  insert : ∀ block cid e w', insertBlockInClass H st d block cid false c b w = .error e w' →
    ¬ SplitBug e
  lookup : ∀ cid, ∃ r w', lookupInClass H d c cid w = .ok r w' ∧
    r.map (fun found => found.2.2) = map cid

theorem slotEntry_of_fullAt {bucket slot : Nat} {e : Entry} (h : FullAt d w bucket slot e) :
    slotEntry (pageAt (w.content (d, .index)) bucket) slot = some e :=
  slotEntry_of_decode h.2

theorem mem_table_of_fullAt {bucket slot : Nat} {e : Entry} (h : FullAt d w bucket slot e) :
    e ∈ table (w.content (d, .index)) bucket :=
  mem_entries.2 ⟨slot, h.1, slotEntry_of_fullAt h⟩

theorem of_pairwise_range {R : Nat → Nat → Prop} {n i j : Nat} (h : (List.range n).Pairwise R)
    (hij : i < j) (hj : j < n) : R i j := by
  have := List.pairwise_iff_getElem.1 h i j (by simp; omega) (by simpa using hj) hij
  simpa using this

/-- On a page without two entries of one CID an entry has one slot. -/
theorem slot_unique {page : Page} (hn : ((entries page).map Entry.cid).Nodup) {s₁ s₂ : Nat}
    {e₁ e₂ : Entry} (hs₁ : s₁ < entriesPerBucket) (hs₂ : s₂ < entriesPerBucket)
    (h₁ : slotEntry page s₁ = some e₁) (h₂ : slotEntry page s₂ = some e₂)
    (hc : e₁.cid = e₂.cid) : s₁ = s₂ := by
  rw [entries, List.map_flatMap, List.nodup_flatMap] at hn
  by_contra hne
  have hpair : List.Disjoint ((slotEntry page s₁).toList.map Entry.cid)
      ((slotEntry page s₂).toList.map Entry.cid) := by
    rcases Nat.lt_or_gt_of_ne hne with hlt | hlt
    · exact of_pairwise_range hn.2 hlt hs₂
    · exact fun a ha hb => of_pairwise_range hn.2 hlt hs₁ hb ha
  rw [h₁, h₂] at hpair
  exact hpair (List.mem_singleton.2 rfl) (List.mem_singleton.2 hc)

theorem length_fullSlots {index : Bytes} (hidx : w.content (d, .index) = index)
    (hp : ∀ b, PageOk (pageAt index b)) (n : Nat) :
    (fullSlots d w n).length = (live (table index) n).length := by
  have hpage : ∀ b, ((List.range entriesPerBucket).filter fun slot =>
      entryState (pageAt index b) slot = stateFull).length = (table index b).length := by
    intro b
    rw [table, entries_eq_filterMap, List.length_filterMap_eq_countP, ← List.countP_eq_length_filter]
    refine List.countP_congr fun slot hs => ?_
    rw [decide_eq_true_eq]
    refine ⟨fun h => (hp b).decode.isSome_of_state (List.mem_range.1 hs) h, fun h => ?_⟩
    by_contra hne
    rw [slotEntry_of_state hne] at h
    cases h
  rw [fullSlots, live, List.length_flatMap, List.length_flatMap, hidx]
  simp only [List.length_map, hpage]

theorem Sim.isLinearHash {m : LaneMap} {b : Batch} (hs : Sim H st d m c w) (hb : BatchOk d b w)
    (hnf : w.NoFaults) (hl : c.level.toNat ≤ 30) : IsLinearHash H st d c b w m.map := by
  have hi := hs.inv.index
  have haddr : ∀ h : UInt64, Addressable c.shape h.toNat := fun h => .of_level hl _
  have hplaced : ∀ bucket slot e, FullAt d w bucket slot e →
      c.shape.addr (H e.cid).even.toNat = bucket :=
    fun bucket slot e h => hi.placed bucket e (mem_table_of_fullAt h)
  refine ⟨hi.valid, fun bucket slot hslot hst => ?_, fun bucket slot e h => ?_,
    ⟨_, hi.bucketCount_eq, fun bucket hle slot e h => ?_⟩, fun b₁ s₁ e₁ b₂ s₂ e₂ h₁ h₂ hc => ?_,
    ⟨_, hi.bucketCount_eq, ?_⟩, fun e w' he => ?_, fun block cid e w' he => ?_, fun cid => ?_⟩
  · obtain ⟨e, he⟩ := Option.isSome_iff_exists.1 ((hi.pages bucket).decode.isSome_of_state hslot hst)
    exact ⟨e, hslot, slotEntry_eq_some he⟩
  · rw [hi.primaryBucket_eq (haddr _), hplaced bucket slot e h]
  · have hmem := mem_table_of_fullAt h
    rw [hi.placed.empty_of_le hle] at hmem
    cases hmem
  · -- Entries of one CID are in one bucket, and a bucket has one slot for it.
    have hbucket : b₁ = b₂ := by
      rw [← hplaced b₁ s₁ e₁ h₁, ← hplaced b₂ s₂ e₂ h₂, hc]
    subst hbucket
    refine ⟨rfl, slot_unique ?_ h₁.1 h₂.1 (slotEntry_of_fullAt h₁) (slotEntry_of_fullAt h₂) hc⟩
    have hlt : b₁ < c.shape.buckets := hplaced b₁ s₁ e₁ h₁ ▸ c.shape.addr_lt _
    have hnodup := hs.nodup
    rw [laneEntries, liveEntries, live, List.map_flatMap, List.nodup_flatMap] at hnodup
    exact hnodup.1 b₁ (List.mem_range.2 hlt)
  · rw [length_fullSlots rfl hi.pages, hi.count]
    rfl
  · have := wp_error (splitOneBucket_spec hi) he
    rcases this.error with ⟨rfl, -⟩ | ⟨rfl, -⟩ <;> simp [SplitBug]
  · exact (wp_error (insertBlockInClass_spec hs.inv hb) he).error
  · obtain ⟨r, w', hr, -, hfound, -⟩ := wp_total (lookupInClass_spec hi cid) fun e w' h => by
      rcases h.error with ⟨-, hna⟩ | ⟨-, hf⟩
      · exact hna (haddr _)
      · exact hf hnf
    refine ⟨r, w', hr, ?_⟩
    cases hfound with
    | none hno =>
      cases hm : m.map cid with
      | none => rfl
      | some e =>
        obtain ⟨he, hec⟩ := (hs.map cid e).1 hm
        exact absurd hec (hno e he)
    | some slot e _ _ hmem hcid _ => exact ((hs.map cid e).2 ⟨hmem, hcid⟩).symm

end

/-- **A DeltaFlat lane is a linear hash map.** From a new lane, after every sequence of insertions
and deletions that succeed and leave the level at 30 or less, the index is a linear hash table of
the entries the calls leave, and a lookup gives the entry of the insertion that counts: one iff
the CID was inserted and not deleted since. -/
theorem runCalls_linear_hash (H : Bytes → SplitHash) (st : Store) (d : LaneDir)
    {w₀ w₁ w : Disk} {c₀ c : Control} {b : Batch} {calls : List Call} (hnf : w₀.NoFaults)
    (hctl : w₀.content (d, .control) = []) (hidx : w₀.content (d, .index) = [])
    (hinit : loadOrInitControl st d w₀ = .ok c₀ w₁)
    (hrun : runCalls H st d (c₀, Batch.empty) calls w₁ = .ok (c, b) w)
    (hlevel : c.level.toNat ≤ 30) :
    IsLinearHash H st d c b w (calls.foldl (LaneMap.call H st) LaneMap.empty).map ∧
      ∀ cid, ((calls.foldl (LaneMap.call H st) LaneMap.empty).map cid).isSome =
        stored calls cid := by
  have hblank : Blank d w₀ := by
    refine ⟨by rw [hctl]; decide, by rw [hidx]; rfl, fun k => ?_⟩
    rw [hidx]
    exact pageAt_of_le (Nat.zero_le _)
  have hload := wp_ok (loadOrInitControl_spec (H := H) (.blank hblank)) hinit
  obtain ⟨-, hinv, hnil, hkept, hc₀⟩ := hload
  obtain rfl : c₀ = initialControl st := by
    rcases hc₀ with hc | ⟨-, hc⟩
    · have := hc.length
      rw [hctl] at this
      exact absurd this (by decide)
    · exact hc
  have hsim : Sim H st d LaneMap.empty (initialControl st) w₁ :=
    ⟨hinv, by rw [hnil]; exact .nil, fun cid e => by simp [hnil, LaneMap.empty], rfl, rfl⟩
  have hempty : BatchOk d Batch.empty w₁ := fun f hf => absurd hf List.not_mem_nil
  obtain ⟨hs, hb, hf, hst⟩ := wp_ok (runCalls_sim hsim hempty calls) hrun
  refine ⟨hs.isLinearHash hb ?_ hlevel, hst⟩
  intro n
  rw [hf, hkept.frame.faults]
  exact hnf n

/-! ## A run with a split -/

/-- A hash with the first byte of a CID on its even rail. -/
def sampleHash (cid : Bytes) : SplitHash := ⟨UInt64.ofNat (cid.headD 0).toNat, 0, 1, 0⟩

/-- A store whose new lanes have two buckets. -/
def sampleStore : Store := Store.open { initialLevel := some 1 }

/-- Thirty-three blocks that belong to the first of two buckets. -/
def sampleBlocks : List (Block × Bytes) :=
  (List.range 33).map fun n => (⟨⟨1, 0xcd02, ⟨0x1e, []⟩⟩, [7]⟩, [UInt8.ofNat (2 * n)])

/-- The last insertion needs a split; then the first block is deleted. -/
def sampleCalls : List Call := sampleBlocks.map (fun x => .insert x.1 x.2) ++ [.delete [0]]

/-- The items of the blocks that fit into the first bucket. -/
def firstItems : List Item := (sampleBlocks.take 32).map itemOf

/-- The lane after the insertions. -/
def sampleLane : LaneModel :=
  (LaneModel.ofBytes firstItems.reverse).grow ([64], [7]) (0, 32) ⟨1, 1⟩

theorem insertAll_sample : (LaneModel.new sampleStore).insertAll sampleHash sampleStore
    (sampleBlocks.map itemOf) = some sampleLane := by
  have hfill : (LaneModel.new sampleStore).insertAll sampleHash sampleStore firstItems =
      some (.ofBytes firstItems.reverse) := by
    have h := @LaneModel.insertAll_ofBytes sampleStore sampleHash firstItems [] (by decide)
      (by decide) (fun _ _ x hx => absurd hx List.not_mem_nil) (by decide +kernel) (by decide)
      (by decide) (by decide)
    rwa [List.append_nil] at h
  -- the first bucket is full, and half of it stays there after the split
  have hroom : roomFor sampleHash firstItems.reverse [64] sampleStore.maxProbeSteps.toNat ⟨1, 0⟩ =
      some ⟨1, 1⟩ := by
    decide +kernel
  have hplace : placeFor sampleStore [(7 : UInt8)].length 0
      (UInt64.ofNat firstItems.reverse.length) = some (0, 32) :=
    placeFor_ofBytes (n := 32) (by decide) (by decide)
  have hlast : (LaneModel.ofBytes firstItems.reverse).insert sampleHash sampleStore ([64], [7]) =
      some sampleLane := by
    have hany : firstItems.reverse.any (fun x => x.1 = [64]) = false := by decide +kernel
    rw [LaneModel.insert, if_neg (by decide), LaneModel.ofBytes]
    dsimp only
    rw [hany, Bool.and_false, if_neg Bool.false_ne_true, hroom]
    rw [hplace]
    rfl
  have hsplit : sampleBlocks.map itemOf = firstItems ++ [([64], [7])] := by decide +kernel
  rw [hsplit, LaneModel.insertAll, List.foldlM_append]
  change (LaneModel.insertAll _ _ _ firstItems >>= _) = _
  rw [hfill, Option.bind_eq_bind, Option.bind_some, List.foldlM_cons, hlast]
  rfl

/-- A deletion of an item. -/
theorem deleteInClass_modeled {H : Bytes → SplitHash} {st : Store} {d : LaneDir} {c : Control}
    {w : Disk} {L : LaneModel} (hi : LaneInv H st d c w) (hd : Described d c w L)
    (hnf : w.NoFaults) {x : Item} (hx : x ∈ L.items)
    (haddr : Addressable L.shape (H x.1).even.toNat) :
    wp (deleteInClass H d c x.1) (fun r _ => ∃ c', r = some c' ∧ c'.shape = L.shape)
      (fun _ _ => False) w := by
  refine wp_mono (deleteInClass_spec hi x.1) (fun r w' h => ?_) fun e w' h => ?_
  · cases r with
    | none =>
      obtain ⟨e, he, hec⟩ := exists_cid_contentOf (d := d) (w := w) |>.1
        ⟨x, hd.content.mem_iff.2 hx, rfl⟩
      exact absurd hec (h.2.1 e he)
    | some c' => exact ⟨c', rfl, h.1.shape.trans hd.shape⟩
  · rcases h with ⟨-, ⟨-, hna⟩ | ⟨-, hf⟩⟩ | ⟨-, -, -, hf⟩
    · rw [hd.shape] at hna
      exact hna haddr
    · exact hf hnf
    · exact hf hnf

theorem runCalls_linear_hash_sample : ∃ c₀ w₁ c b w,
    loadOrInitControl sampleStore (.classDir 0) (World.empty : Disk) = .ok c₀ w₁ ∧
    runCalls sampleHash sampleStore (.classDir 0) (c₀, Batch.empty) sampleCalls w₁ = .ok (c, b) w ∧
    c₀.shape = ⟨1, 0⟩ ∧ c.shape = ⟨1, 1⟩ ∧
    IsLinearHash sampleHash sampleStore (.classDir 0) c b w
      (sampleCalls.foldl (LaneMap.call sampleHash sampleStore) LaneMap.empty).map ∧
    ∀ cid, ((sampleCalls.foldl (LaneMap.call sampleHash sampleStore)
        LaneMap.empty).map cid).isSome = stored sampleCalls cid := by
  have hblank : Blank (.classDir 0) (World.empty : Disk) :=
    ⟨by decide, rfl, fun k => pageAt_of_le (Nat.zero_le _)⟩
  have hload : LaneDisk sampleHash sampleStore (.classDir 0) (World.empty : Disk) [] :=
    .blank hblank
  obtain ⟨c₀, w₁, hinit, -, hinv, hnil, hkept, hc⟩ :=
    wp_total (loadOrInitControl_spec hload) fun e w' h => h.2.1 World.noFaults_empty
  obtain rfl : c₀ = initialControl sampleStore :=
    hc.elim (fun h => absurd h.length (by decide)) fun h => h.2
  have hnf : w₁.NoFaults := hkept.frame.noFaults.2 World.noFaults_empty
  have hdesc : Described (.classDir 0) (initialControl sampleStore) w₁ (.new sampleStore) :=
    ⟨rfl, by rw [laneContent, hnil]; exact .nil, rfl, rfl⟩
  have hfill : wp (runCalls sampleHash sampleStore (.classDir 0)
      (initialControl sampleStore, Batch.empty) sampleCalls)
      (fun s _ => s.1.shape = ⟨1, 1⟩) (fun _ _ => False) w₁ := by
    rw [runCalls, sampleCalls, List.foldlM_append, List.foldlM_map]
    refine wp_bind (wp_mono (insertBlocks_modeled sampleBlocks hinv hdesc hnf (batchOk_empty _ _)
      insertAll_sample) (fun s w2 h => ?_) fun _ _ h => h)
    obtain ⟨hinv₂, hdesc₂, hnf₂, -⟩ := h
    refine wp_bind (wp_bind (wp_mono (deleteInClass_modeled hinv₂ hdesc₂ hnf₂ (x := ([0], [7]))
      (by decide +kernel) (.of_level (by decide +kernel) _)) (fun r w3 h => ?_) fun _ _ h => h))
    obtain ⟨c', rfl, hshape⟩ := h
    exact wp_pure (hshape.trans (by decide +kernel))
  obtain ⟨⟨c, b⟩, w, hrun, hshape⟩ := wp_total hfill fun _ _ h => h
  have hlevel : c.level.toNat ≤ 30 := by
    have : c.level.toNat = 1 := congrArg Shape.level hshape
    omega
  exact ⟨_, w₁, c, b, w, hinit, hrun, rfl, hshape,
    runCalls_linear_hash sampleHash sampleStore (.classDir 0) World.noFaults_empty rfl rfl hinit
      hrun hlevel⟩

end Storage.DeltaFlat
