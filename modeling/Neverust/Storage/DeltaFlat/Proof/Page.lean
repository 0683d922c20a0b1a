import Neverust.Storage.DeltaFlat.Page
import Neverust.Lib.LinearHash

/-!
# DeltaFlat pages as lists of entries

* `decodeControl_encodeControl`: a control record with a valid shape reads back.
* `writeEntryToPage_changed`, `markTombstone_changed`: the two page updates change one slot.
* `entries`: the entries of a page. On a page whose slots all decode (`PageOk`), the search
  functions of the source are searches in this list: `findEntrySlot_spec`,
  `pageContainsEntry_spec`, `findFreeSlot_spec`. `page_searches_agree`: they agree on any page
  whose full slots have CIDs of a possible length.
* `splitPages_spec`: the loop of `split_one_bucket` deals the entries of a page out to two pages
  and does not run out of slots.
-/

namespace Storage.DeltaFlat

open Io Rust Bytes LinearHash

/-! ## Control records -/

/-- The shape of the table a control record describes. -/
def Control.shape (c : Control) : Shape := ⟨c.level.toNat, c.splitPtr.toNat⟩

/-- What is read where a record was written. -/
theorem decodeControl_encode (c : Control) : decodeControl (encodeControl c) =
    match checkedShl c.level with
    | none => .error (.databaseError .controlLevelOverflow)
    | some base => if base ≤ c.splitPtr.toNat then .ok none else .ok (some c) := by
  have hput : ∀ (b : Buffer controlLen) (o w n : Nat), o + w ≤ 64 →
      (b.put o (leBytes w n)).slice o w = leBytes w n := by
    intro b o w n h
    have := @Buffer.slice_put_same _ b o (leBytes w n)
    rw [length_leBytes] at this
    exact this h
  have hmagic : (encodeControl c).slice 0 4 = controlMagic := by
    simp (disch := simp [controlMagic]) only [encodeControl, Buffer.slice_put_disjoint]
    exact Buffer.slice_put_same _ (by decide)
  have hversion : (encodeControl c).slice 4 4 = leBytes 4 version := by
    simp (disch := simp) only [encodeControl, Buffer.slice_put_disjoint, hput]
  have hlevel : (encodeControl c).slice 8 4 = leBytes 4 c.level.toNat := by
    simp (disch := simp) only [encodeControl, Buffer.slice_put_disjoint, hput]
  have hsplit : (encodeControl c).slice 12 4 = leBytes 4 c.splitPtr.toNat := by
    simp (disch := simp) only [encodeControl, Buffer.slice_put_disjoint, hput]
  have hcount : (encodeControl c).slice 16 8 = leBytes 8 c.itemCount.toNat := by
    simp (disch := simp) only [encodeControl, Buffer.slice_put_disjoint, hput]
  have hfile : (encodeControl c).slice 24 4 = leBytes 4 c.nextFileId.toNat := by
    simp (disch := simp) only [encodeControl, Buffer.slice_put_disjoint, hput]
  have hoff : (encodeControl c).slice 28 8 = leBytes 8 c.nextOffset.toNat := by
    simp (disch := simp) only [encodeControl, hput]
  have hv : u32OfLe (leBytes 4 version) = UInt32.ofNat version := by decide
  rw [decodeControl, hmagic, hversion, hlevel, hsplit, hcount, hfile, hoff, hv]
  simp only [u32OfLe_leBytes, u64OfLe_leBytes]
  cases checkedShl c.level with
  | none => rfl
  | some base => rfl

theorem decodeControl_encodeControl {c : Control} (hl : c.level.toNat < 32)
    (hs : c.shape.Valid) : decodeControl (encodeControl c) = .ok (some c) := by
  have hbase : ¬ 2 ^ c.level.toNat ≤ c.splitPtr.toNat := Nat.not_le.2 hs
  rw [decodeControl_encode, checkedShl, if_pos hl]
  exact if_neg hbase

/-- A record that looks like a sound one is that one. -/
theorem encodeControl_inj {c c' : Control} (hl : c.level.toNat < 32) (hs : c.shape.Valid)
    (h : encodeControl c' = encodeControl c) : c' = c := by
  have hdec := decodeControl_encodeControl hl hs
  rw [← h, decodeControl_encode] at hdec
  split at hdec
  · cases hdec
  · split at hdec
    · cases hdec
    · cases hdec
      rfl

/-! ## Slots -/

/-- `page'` is `page` with one slot changed. -/
structure Changed (page page' : Page) (slot : Nat) (state : UInt8) (entry : Option Entry) :
    Prop where
  state_eq : entryState page' slot = state
  entry_eq : decodeEntry page' slot = .ok entry
  state_other : ∀ j, j ≠ slot → entryState page' j = entryState page j
  entry_other : ∀ j, j ≠ slot → decodeEntry page' j = decodeEntry page j

/-- A slot is read from its own bytes. -/
theorem decodeEntry_congr {page page' : Page} {slot : Nat}
    (h : ∀ k < entryBytes, page'.byte (entryOffset slot + k) = page.byte (entryOffset slot + k)) :
    decodeEntry page' slot = decodeEntry page slot := by
  have h0 : page'.byte (entryOffset slot) = page.byte (entryOffset slot) := h 0 (by decide)
  have h1 := h 1 (by decide)
  have h2 := h 2 (by decide)
  have hslice : ∀ i n, i + n ≤ entryBytes →
      page'.slice (entryOffset slot + i) n = page.slice (entryOffset slot + i) n := by
    intro i n hn
    refine Buffer.slice_congr fun k hk => ?_
    rw [Nat.add_assoc]
    exact h _ (by omega)
  unfold decodeEntry
  dsimp only
  rw [h0, h1, h2, hslice 4 4 (by decide), hslice 8 8 (by decide), hslice 16 4 (by decide),
    hslice 20 8 (by decide)]
  split
  · rfl
  · split
    · rfl
    · rename_i hlen
      rw [hslice entryCidOff _ (by unfold entryBytes entryCidOff maxCidBytes at *; omega)]

theorem entryOffset_disjoint {i j k : Nat} (hij : i ≠ j) (hk : k < entryBytes) :
    entryOffset j + k < entryOffset i ∨ entryOffset i + entryBytes ≤ entryOffset j + k := by
  unfold entryOffset entryBytes at *
  rcases Nat.lt_or_gt_of_ne hij with h | h <;> omega

/-- Copies into a slot leave the bytes of the others. -/
theorem byte_put_slot {page : Page} {i j k d : Nat} {src : Bytes} (hij : i ≠ j)
    (hd : d + src.length ≤ entryBytes) (hk : k < entryBytes) :
    (page.put (entryOffset i + d) src).byte (entryOffset j + k) =
      page.byte (entryOffset j + k) := by
  refine Buffer.byte_put_outside page ?_
  rcases entryOffset_disjoint hij hk with h | h
  · left; omega
  · right; omega

theorem Changed.of_bytes {page page' : Page} {slot : Nat} {state : UInt8} {entry : Option Entry}
    (hs : entryState page' slot = state) (he : decodeEntry page' slot = .ok entry)
    (h : ∀ j, j ≠ slot → ∀ k < entryBytes,
      page'.byte (entryOffset j + k) = page.byte (entryOffset j + k)) :
    Changed page page' slot state entry where
  state_eq := hs
  entry_eq := he
  state_other j hj := h j hj 0 (by decide)
  entry_other j hj := decodeEntry_congr (h j hj)

theorem entryOffset_lt {slot : Nat} (h : slot < entriesPerBucket) :
    entryOffset slot + 128 ≤ 4096 := by
  have h : slot < 32 := h
  unfold entryOffset entryBytes
  omega

theorem byte_put_slot_start {page : Page} {i j k : Nat} {src : Bytes} (hij : i ≠ j)
    (hd : src.length ≤ entryBytes) (hk : k < entryBytes) :
    (page.put (entryOffset i) src).byte (entryOffset j + k) = page.byte (entryOffset j + k) := by
  have := @byte_put_slot page i j k 0 src hij (by omega) hk
  rwa [Nat.add_zero] at this

/-- The bytes `write_entry_to_page` leaves in a slot read back as the entry. -/
theorem decodeEntry_written (page : Page) {slot : Nat} {entry : Entry}
    (hslot : slot < entriesPerBucket) (hcid : entry.cid ≠ [])
    (hlen : entry.cid.length ≤ maxCidBytes) {page' : Page}
    (h : writeEntryToPage page slot entry = .ok page') :
    entryState page' slot = stateFull ∧ decodeEntry page' slot = .ok (some entry) := by
  have hroom := entryOffset_lt hslot
  have hlen : entry.cid.length ≤ 96 := hlen
  have hpos : 0 < entry.cid.length := List.length_pos_iff.2 hcid
  unfold writeEntryToPage at h
  rw [if_neg (by unfold maxCidBytes; simp [hcid, hlen])] at h
  simp only [entryCidOff, entryBytes, Except.ok.injEq] at h
  unfold entryState decodeEntry
  generalize entryOffset slot = o at hroom h
  have hstate : ∀ q : Page, ((q.put o [stateFull]).byte o) = stateFull := fun q =>
    Buffer.byte_put_inside q (by unfold bucketBytes; omega)
  have hbyte : ∀ (q : Page) d x, d < 128 → ((q.put (o + d) [x]).byte (o + d)) = x :=
    fun q d x hd => Buffer.byte_put_inside q (by unfold bucketBytes; omega)
  have hle : ∀ (q : Page) d w n, d + w ≤ 128 →
      (q.put (o + d) (leBytes w n)).slice (o + d) w = leBytes w n := by
    intro q d w n hd
    have := @Buffer.slice_put_same _ q (o + d) (leBytes w n)
    rw [length_leBytes] at this
    exact this (by unfold bucketBytes; omega)
  have hcidLen : (UInt8.ofNat entry.cid.length).toNat = entry.cid.length :=
    UInt8.toNat_ofNat_of_lt' (by change _ < 256; omega)
  have hcidEq : ∀ q : Page, (q.put (o + 28) entry.cid).slice (o + 28) entry.cid.length =
      entry.cid := fun q => Buffer.slice_put_same q (by unfold bucketBytes; omega)
  subst h
  simp (disch := first | omega | (simp only [length_leBytes, List.length_singleton]; omega))
    only [Buffer.byte_put_outside, Buffer.slice_put_disjoint, hstate, hbyte, hle, hcidLen,
      hcidEq, u32OfLe_leBytes, u64OfLe_leBytes, entryCidOff]
  refine ⟨trivial, ?_⟩
  rw [if_neg (by simp), if_neg (by unfold maxCidBytes; omega)]

/-- **An entry written to a slot reads back, and the other slots are as before.** -/
theorem writeEntryToPage_changed (page : Page) {slot : Nat} (entry : Entry)
    (hslot : slot < entriesPerBucket) (hcid : entry.cid ≠ [])
    (hlen : entry.cid.length ≤ maxCidBytes) :
    ∃ page', writeEntryToPage page slot entry = .ok page' ∧
      Changed page page' slot stateFull (some entry) := by
  obtain ⟨page', hw⟩ : ∃ page', writeEntryToPage page slot entry = .ok page' := by
    unfold writeEntryToPage
    rw [if_neg (by simp [hcid, hlen])]
    exact ⟨_, rfl⟩
  obtain ⟨hs, he⟩ := decodeEntry_written page hslot hcid hlen hw
  refine ⟨page', hw, Changed.of_bytes hs he fun j hj k hk => ?_⟩
  unfold writeEntryToPage at hw
  rw [if_neg (by simp [hcid, hlen])] at hw
  simp only [Except.ok.injEq] at hw
  subst hw
  have hlen : entry.cid.length ≤ 96 := hlen
  rw [byte_put_slot hj.symm (by unfold entryCidOff entryBytes; omega) hk,
    byte_put_slot hj.symm (by simp [entryBytes]) hk,
    byte_put_slot hj.symm (by simp [entryBytes]) hk,
    byte_put_slot hj.symm (by simp [entryBytes]) hk,
    byte_put_slot hj.symm (by simp [entryBytes]) hk,
    byte_put_slot hj.symm (by simp [entryBytes]) hk,
    byte_put_slot hj.symm (by simp [entryBytes]) hk,
    byte_put_slot_start hj.symm (by simp [entryBytes]) hk,
    byte_put_slot_start hj.symm (by simp) hk]

/-- **A tombstone empties its slot and leaves the others.** -/
theorem markTombstone_changed (page : Page) {slot : Nat} (hslot : slot < entriesPerBucket) :
    Changed page (markTombstone page slot) slot stateTombstone none := by
  have hroom := entryOffset_lt hslot
  have hstate : (markTombstone page slot).byte (entryOffset slot) = stateTombstone :=
    Buffer.byte_put_inside _ (by unfold bucketBytes; omega)
  refine Changed.of_bytes hstate ?_ fun j hj k hk => ?_
  · rw [decodeEntry, hstate, if_pos (by decide)]
  · rw [markTombstone, byte_put_slot_start hj.symm (by simp [entryBytes]) hk,
      byte_put_slot_start hj.symm (by simp) hk]

/-! ## Entries -/

/-- The entry of a slot. -/
def slotEntry (page : Page) (slot : Nat) : Option Entry :=
  match decodeEntry page slot with
  | .ok entry => entry
  | .error _ => none

/-- The entries of a page, in the order of their slots. -/
def entries (page : Page) : List Entry :=
  (List.range entriesPerBucket).flatMap fun slot => (slotEntry page slot).toList

/-- Every slot is empty, full or a tombstone. -/
def StatesOk (page : Page) : Prop :=
  ∀ slot < entriesPerBucket, entryState page slot = stateEmpty ∨
    entryState page slot = stateFull ∨ entryState page slot = stateTombstone

/-- Every slot decodes. -/
def Decodes (page : Page) : Prop :=
  ∀ slot < entriesPerBucket, decodeEntry page slot = .ok (slotEntry page slot)

structure PageOk (page : Page) : Prop where
  state : StatesOk page
  decode : Decodes page

theorem mem_entries {page : Page} {e : Entry} :
    e ∈ entries page ↔ ∃ slot < entriesPerBucket, slotEntry page slot = some e := by
  simp [entries, List.mem_flatMap]

theorem slotEntry_eq_some {page : Page} {slot : Nat} {e : Entry}
    (h : slotEntry page slot = some e) : decodeEntry page slot = .ok (some e) := by
  unfold slotEntry at h
  split at h
  · rename_i hd; rw [hd, h]
  · cases h

theorem slotEntry_of_decode {page : Page} {slot : Nat} {o : Option Entry}
    (h : decodeEntry page slot = .ok o) : slotEntry page slot = o := by
  rw [slotEntry, h]

/-- A decoded entry can be written again. -/
theorem cid_of_slotEntry {page : Page} {slot : Nat} {e : Entry}
    (h : slotEntry page slot = some e) : e.cid ≠ [] ∧ e.cid.length ≤ maxCidBytes := by
  have h := slotEntry_eq_some h
  unfold decodeEntry at h
  dsimp only at h
  split at h
  · cases h
  · split at h
    · cases h
    · rename_i hlen
      rw [not_or, Nat.not_lt] at hlen
      simp only [Except.ok.injEq, Option.some.injEq] at h
      subst h
      simp only [Buffer.slice, length_slice, ne_eq, ← List.length_eq_zero_iff]
      exact hlen

theorem slotEntry_of_state {page : Page} {slot : Nat} (h : entryState page slot ≠ stateFull) :
    slotEntry page slot = none := by
  unfold entryState at h
  rw [slotEntry, decodeEntry, if_pos h]

theorem Decodes.isSome_of_state {page : Page} (hp : Decodes page) {slot : Nat}
    (hs : slot < entriesPerBucket) (h : entryState page slot = stateFull) :
    (slotEntry page slot).isSome := by
  have hd := hp slot hs
  unfold entryState at h
  unfold decodeEntry at hd
  dsimp only at hd
  rw [if_neg (not_not.2 h)] at hd
  split at hd
  · cases hd
  · rw [← Except.ok.inj hd]; rfl

theorem Changed.slotEntry_eq {page page' : Page} {slot : Nat} {st : UInt8} {o : Option Entry}
    (h : Changed page page' slot st o) (j : Nat) :
    slotEntry page' j = if j = slot then o else slotEntry page j := by
  by_cases hj : j = slot
  · rw [if_pos hj, hj, slotEntry_of_decode h.entry_eq]
  · rw [if_neg hj, slotEntry, slotEntry, h.entry_other j hj]

theorem PageOk.changed {page page' : Page} {slot : Nat} {st : UInt8} {o : Option Entry}
    (hp : PageOk page) (h : Changed page page' slot st o)
    (hst : st = stateEmpty ∨ st = stateFull ∨ st = stateTombstone) : PageOk page' where
  state j hj := by
    by_cases hjs : j = slot
    · rw [hjs, h.state_eq]; exact hst
    · rw [h.state_other j hjs]; exact hp.state j hj
  decode j hj := by
    rw [h.slotEntry_eq]
    by_cases hjs : j = slot
    · rw [if_pos hjs, hjs, h.entry_eq]
    · rw [if_neg hjs, h.entry_other j hjs]; exact hp.decode j hj

theorem Changed.entries_insert {page page' : Page} {slot : Nat} {st : UInt8} {e : Entry}
    (h : Changed page page' slot st (some e)) (hslot : slot < entriesPerBucket)
    (hfree : slotEntry page slot = none) : (entries page').Perm (e :: entries page) := by
  refine flatMap_perm_append (m := [e]) List.nodup_range (List.mem_range.2 hslot) ?_ ?_
  · rw [h.slotEntry_eq, if_pos rfl, hfree]; rfl
  · intro j _ hj
    rw [h.slotEntry_eq, if_neg hj]

theorem Changed.entries_erase {page page' : Page} {slot : Nat} {st : UInt8} {e : Entry}
    (h : Changed page page' slot st none) (hslot : slot < entriesPerBucket)
    (hfull : slotEntry page slot = some e) : (entries page).Perm (e :: entries page') := by
  refine flatMap_perm_append (m := [e]) List.nodup_range (List.mem_range.2 hslot) ?_ ?_
  · rw [h.slotEntry_eq, if_pos rfl, hfull]; rfl
  · intro j _ hj
    rw [h.slotEntry_eq, if_neg hj]

theorem entries_eq_filterMap (page : Page) :
    entries page = (List.range entriesPerBucket).filterMap (slotEntry page) := by
  rw [entries, List.filterMap_eq_flatMap_toList]

theorem length_entries_le (page : Page) : (entries page).length ≤ entriesPerBucket := by
  rw [entries_eq_filterMap]
  exact (List.length_filterMap_le _ _).trans (by rw [List.length_range])

theorem length_entries_of_full {page : Page}
    (h : ∀ slot < entriesPerBucket, (slotEntry page slot).isSome) :
    (entries page).length = entriesPerBucket := by
  rw [entries_eq_filterMap, List.length_filterMap_eq_countP, List.countP_eq_length.2,
    List.length_range]
  intro slot hs
  exact h slot (List.mem_range.1 hs)

theorem length_entries_lt {page : Page} {slot : Nat} (hs : slot < entriesPerBucket)
    (h : slotEntry page slot = none) : (entries page).length < entriesPerBucket := by
  refine Nat.lt_of_le_of_ne (length_entries_le page) fun heq => ?_
  rw [entries_eq_filterMap, List.length_filterMap_eq_countP] at heq
  have hall := List.countP_eq_length.1 (heq.trans List.length_range.symm) slot
    (List.mem_range.2 hs)
  rw [h] at hall
  cases hall

theorem entryState_zero (slot : Nat) : entryState (Buffer.zero bucketBytes) slot = stateEmpty :=
  Buffer.byte_zero _

theorem slotEntry_zero (slot : Nat) : slotEntry (Buffer.zero bucketBytes) slot = none :=
  slotEntry_of_state (by rw [entryState_zero]; decide)

theorem pageOk_zero : PageOk (Buffer.zero bucketBytes) where
  state slot _ := .inl (entryState_zero slot)
  decode slot _ := by
    have h := entryState_zero slot
    unfold entryState at h
    rw [slotEntry_zero, decodeEntry, h]
    rfl

theorem entries_zero : entries (Buffer.zero bucketBytes) = [] := by
  refine List.eq_nil_iff_forall_not_mem.2 fun e he => ?_
  obtain ⟨slot, -, h⟩ := mem_entries.1 he
  rw [slotEntry_zero] at h
  cases h

/-! ## Searches -/

/-- The test the searches make on an entry. -/
def Entry.Matches (e : Entry) (cid : Bytes) (fingerprint : UInt8) (hash64 : UInt64) : Prop :=
  e.fingerprint = fingerprint ∧ e.hash64 = hash64 ∧ e.cid = cid

theorem findEntrySlotIn_spec {page : Page} (hp : Decodes page) (cid : Bytes) (fp : UInt8)
    (h64 : UInt64) : ∀ slots : List Nat, (∀ s ∈ slots, s < entriesPerBucket) →
      (findEntrySlotIn page cid fp h64 slots = .ok none ∧
        ∀ s ∈ slots, ∀ e, slotEntry page s = some e → ¬ e.Matches cid fp h64) ∨
      ∃ s ∈ slots, ∃ e, findEntrySlotIn page cid fp h64 slots = .ok (some (s, e)) ∧
        slotEntry page s = some e ∧ e.Matches cid fp h64
  | [], _ => .inl ⟨rfl, fun _ hs => absurd hs List.not_mem_nil⟩
  | s :: slots, hlt => by
    have hs := hlt s (.head _)
    have ih := findEntrySlotIn_spec hp cid fp h64 slots fun j hj => hlt j (.tail _ hj)
    -- A slot that does not match leaves the answer to the rest.
    have hskip : findEntrySlotIn page cid fp h64 (s :: slots) =
          findEntrySlotIn page cid fp h64 slots →
        (∀ e, slotEntry page s = some e → ¬ e.Matches cid fp h64) →
        (findEntrySlotIn page cid fp h64 (s :: slots) = .ok none ∧
          ∀ j ∈ s :: slots, ∀ e, slotEntry page j = some e → ¬ e.Matches cid fp h64) ∨
        ∃ j ∈ s :: slots, ∃ e, findEntrySlotIn page cid fp h64 (s :: slots) = .ok (some (j, e)) ∧
          slotEntry page j = some e ∧ e.Matches cid fp h64 := by
      intro heq hno
      rw [heq]
      rcases ih with ⟨hn, hall⟩ | ⟨j, hj, e, hf, he⟩
      · refine .inl ⟨hn, fun j hj e he => ?_⟩
        rcases List.mem_cons.1 hj with rfl | hj
        · exact hno e he
        · exact hall j hj e he
      · exact .inr ⟨j, .tail _ hj, e, hf, he⟩
    by_cases hst : entryState page s = stateFull
    · cases he : slotEntry page s with
      | none => rw [Option.isSome_iff_exists.1 (hp.isSome_of_state hs hst) |>.choose_spec] at he
                cases he
      | some e =>
        have hd : decodeEntry page s = .ok (some e) := slotEntry_eq_some he
        by_cases hm : e.Matches cid fp h64
        · refine .inr ⟨s, .head _, e, ?_, he, hm⟩
          unfold Entry.Matches at hm
          rw [findEntrySlotIn, if_neg (not_not.2 hst), hd]
          change (if _ then _ else _) = _
          rw [if_pos hm]
          rfl
        · refine hskip ?_ fun e' he' => by rw [he] at he'; cases he'; exact hm
          unfold Entry.Matches at hm
          rw [findEntrySlotIn, if_neg (not_not.2 hst), hd]
          change (if _ then _ else _) = _
          rw [if_neg hm]
    · refine hskip (by rw [findEntrySlotIn, if_pos hst]) fun e he => ?_
      rw [slotEntry_of_state hst] at he
      cases he

/-- **`find_entry_slot` finds a matching entry if there is one.** -/
theorem findEntrySlot_spec {page : Page} (hp : Decodes page) (cid : Bytes) (fp : UInt8)
    (h64 : UInt64) :
    (findEntrySlot page cid fp h64 = .ok none ∧ ∀ e ∈ entries page, ¬ e.Matches cid fp h64) ∨
    ∃ s < entriesPerBucket, ∃ e, findEntrySlot page cid fp h64 = .ok (some (s, e)) ∧
      slotEntry page s = some e ∧ e.Matches cid fp h64 := by
  have h := findEntrySlotIn_spec hp cid fp h64 (List.range entriesPerBucket)
    fun s hs => List.mem_range.1 hs
  rcases h with ⟨hn, hall⟩ | ⟨s, hs, e, hf, he⟩
  · refine .inl ⟨hn, fun e he => ?_⟩
    obtain ⟨s, hs, hse⟩ := mem_entries.1 he
    exact hall s (List.mem_range.2 hs) e hse
  · exact .inr ⟨s, List.mem_range.1 hs, e, hf, he⟩

/-- The fast test of a slot is the test of its entry. -/
theorem entryMatches_spec {page : Page} (hp : Decodes page) {slot : Nat}
    (hs : slot < entriesPerBucket) (cid : Bytes) (fp : UInt8) (h64 : UInt64) :
    ∃ b, entryMatches page slot cid fp h64 = .ok b ∧
      (b = true ↔ ∃ e, slotEntry page slot = some e ∧ e.Matches cid fp h64) := by
  have hd := hp slot hs
  unfold decodeEntry at hd
  unfold entryMatches
  dsimp only at hd ⊢
  split
  · rename_i hst
    rw [if_pos hst] at hd
    rw [← Except.ok.inj hd]
    exact ⟨false, rfl, by simp⟩
  · rename_i hst
    rw [if_neg hst] at hd
    by_cases hlen : (page.byte (entryOffset slot + 2)).toNat = 0 ∨
        maxCidBytes < (page.byte (entryOffset slot + 2)).toNat
    · rw [if_pos hlen] at hd; cases hd
    · rw [if_neg hlen] at hd
      rw [← Except.ok.inj hd, if_neg hlen]
      simp only [Option.some.injEq, exists_eq_left', Entry.Matches]
      split
      · exact ⟨false, rfl, by simp_all⟩
      · split
        · exact ⟨false, rfl, by simp_all⟩
        · split
          · rename_i hne
            refine ⟨false, rfl, by simp, fun ⟨_, _, hcid⟩ => ?_⟩
            simp [← hcid, Buffer.slice] at hne
          · exact ⟨_, rfl, by simp_all⟩

theorem pageContainsEntryIn_spec {page : Page} (hp : Decodes page) (cid : Bytes) (fp : UInt8)
    (h64 : UInt64) : ∀ slots : List Nat, (∀ s ∈ slots, s < entriesPerBucket) →
      ∃ b, pageContainsEntryIn page cid fp h64 slots = .ok b ∧
        (b = true ↔ ∃ s ∈ slots, ∃ e, slotEntry page s = some e ∧ e.Matches cid fp h64)
  | [], _ => ⟨false, rfl, by simp⟩
  | s :: slots, hlt => by
    obtain ⟨b, hb, hiff⟩ := entryMatches_spec hp (hlt s (.head _)) cid fp h64
    obtain ⟨b', hb', hiff'⟩ := pageContainsEntryIn_spec hp cid fp h64 slots
      fun j hj => hlt j (.tail _ hj)
    rw [pageContainsEntryIn, hb]
    cases b with
    | true => exact ⟨true, rfl, by simp [← hiff]⟩
    | false =>
      refine ⟨b', hb', hiff'.trans ?_⟩
      have hno : ¬ ∃ e, slotEntry page s = some e ∧ e.Matches cid fp h64 := by simp [← hiff]
      simp [hno]

/-- **`page_contains_entry` tells whether a matching entry is on the page.** -/
theorem pageContainsEntry_spec {page : Page} (hp : Decodes page) (cid : Bytes) (fp : UInt8)
    (h64 : UInt64) : ∃ b, pageContainsEntry page cid fp h64 = .ok b ∧
      (b = true ↔ ∃ e ∈ entries page, e.Matches cid fp h64) := by
  obtain ⟨b, hb, hiff⟩ := pageContainsEntryIn_spec hp cid fp h64 (List.range entriesPerBucket)
    fun s hs => List.mem_range.1 hs
  refine ⟨b, hb, hiff.trans ⟨?_, ?_⟩⟩
  · rintro ⟨s, hs, e, he, hm⟩
    exact ⟨e, mem_entries.2 ⟨s, List.mem_range.1 hs, he⟩, hm⟩
  · rintro ⟨e, he, hm⟩
    obtain ⟨s, hs, hse⟩ := mem_entries.1 he
    exact ⟨s, List.mem_range.2 hs, e, hse, hm⟩

theorem findFreeSlotIn_some_ne_none (page : Page) :
    ∀ (slots : List Nat) (t : Nat), findFreeSlotIn page (some t) slots ≠ none
  | [], _ => by simp [findFreeSlotIn]
  | s :: slots, t => by
    rw [findFreeSlotIn]
    split
    · simp
    · split
      · exact findFreeSlotIn_some_ne_none page slots t
      · exact findFreeSlotIn_some_ne_none page slots t

theorem findFreeSlotIn_spec {page : Page} (hp : StatesOk page) :
    ∀ (slots : List Nat) (tomb : Option Nat), (∀ s ∈ slots, s < entriesPerBucket) →
      (∀ s, tomb = some s → s < entriesPerBucket ∧ entryState page s ≠ stateFull) →
      (∀ s, findFreeSlotIn page tomb slots = some s →
        s < entriesPerBucket ∧ entryState page s ≠ stateFull) ∧
      (findFreeSlotIn page tomb slots = none → ∀ s ∈ slots, entryState page s = stateFull)
  | [], tomb, _, ht => ⟨ht, fun _ _ hs => absurd hs List.not_mem_nil⟩
  | s :: slots, tomb, hlt, ht => by
    have hs := hlt s (.head _)
    have hrest : ∀ j ∈ slots, j < entriesPerBucket := fun j hj => hlt j (.tail _ hj)
    rw [findFreeSlotIn]
    rcases hp s hs with h | h | h
    · -- An empty slot ends the search, at the first tombstone seen if there is one.
      have hne : entryState page s ≠ stateFull := by
        rw [h]
        decide
      rw [if_pos h]
      refine ⟨fun j hj => ?_, fun hj => by cases hj⟩
      cases tomb with
      | none => cases hj; exact ⟨hs, hne⟩
      | some t => cases hj; exact ht t rfl
    · obtain ⟨h1, h2⟩ := findFreeSlotIn_spec hp slots tomb hrest ht
      rw [h, if_neg (by decide), if_neg (by decide)]
      refine ⟨h1, fun hn j hj => ?_⟩
      rcases List.mem_cons.1 hj with rfl | hj
      · exact h
      · exact h2 hn j hj
    · have hne : entryState page s ≠ stateFull := by
        rw [h]
        decide
      rw [h, if_neg (by decide), if_pos rfl]
      have ht' : ∀ j, tomb.or (some s) = some j →
          j < entriesPerBucket ∧ entryState page j ≠ stateFull := by
        intro j hj
        cases tomb with
        | none => cases hj; exact ⟨hs, hne⟩
        | some t => exact ht j hj
      obtain ⟨h1, h2⟩ := findFreeSlotIn_spec hp slots (tomb.or (some s)) hrest ht'
      refine ⟨h1, fun hn => absurd hn ?_⟩
      cases tomb with
      | none => exact findFreeSlotIn_some_ne_none page slots s
      | some t => exact findFreeSlotIn_some_ne_none page slots t

/-- `find_free_slot` finds a slot that is not full unless all slots are. -/
theorem findFreeSlot_states {page : Page} (hp : StatesOk page) :
    (∀ s, findFreeSlot page = some s → s < entriesPerBucket ∧ entryState page s ≠ stateFull) ∧
    (findFreeSlot page = none → ∀ s < entriesPerBucket, entryState page s = stateFull) := by
  obtain ⟨h1, h2⟩ := findFreeSlotIn_spec hp (List.range entriesPerBucket) none
    (fun s hs => List.mem_range.1 hs) fun s hs => by cases hs
  exact ⟨h1, fun hn s hs => h2 hn s (List.mem_range.2 hs)⟩

/-- **`find_free_slot` finds a slot without an entry unless all slots have one.** -/
theorem findFreeSlot_spec {page : Page} (hp : PageOk page) :
    (∃ s, findFreeSlot page = some s ∧ s < entriesPerBucket ∧ slotEntry page s = none) ∨
    (findFreeSlot page = none ∧ (entries page).length = entriesPerBucket) := by
  obtain ⟨h1, h2⟩ := findFreeSlot_states hp.state
  cases h : findFreeSlot page with
  | some s =>
    obtain ⟨hs, hst⟩ := h1 s h
    exact .inl ⟨s, rfl, hs, slotEntry_of_state hst⟩
  | none =>
    exact .inr ⟨rfl, length_entries_of_full fun s hs => hp.decode.isSome_of_state hs (h2 h s hs)⟩

/-- The length byte of a slot's CID. -/
def slotCidLen (page : Page) (slot : Nat) : Nat := (page.byte (entryOffset slot + 2)).toNat

/-- A page decodes if each full slot has a CID of a possible length. -/
theorem decodes_of_lengths {page : Page}
    (h : ∀ slot < entriesPerBucket, entryState page slot = stateFull →
      1 ≤ slotCidLen page slot ∧ slotCidLen page slot ≤ maxCidBytes) : Decodes page := by
  intro slot hs
  have hlen := h slot hs
  unfold slotCidLen entryState at hlen
  rw [slotEntry]
  unfold decodeEntry
  dsimp only
  split
  · rfl
  · rename_i hst
    obtain ⟨hpos, hle⟩ := hlen (not_not.1 hst)
    rw [if_neg (by omega)]

/-- **The fast check agrees with the lookup** on every page whose full slots have CIDs of a
possible length, and neither fails. A free slot is found unless all slots are full. -/
theorem page_searches_agree (page : Page) :
    ((∀ slot < entriesPerBucket, entryState page slot = stateFull →
        1 ≤ slotCidLen page slot ∧ slotCidLen page slot ≤ maxCidBytes) →
      ∀ (cid : Bytes) (fingerprint : UInt8) (hash64 : UInt64),
        ∃ contains found, pageContainsEntry page cid fingerprint hash64 = .ok contains ∧
          findEntrySlot page cid fingerprint hash64 = .ok found ∧
          (contains = true ↔ ∃ slot entry, found = some (slot, entry))) ∧
    (StatesOk page →
      (findFreeSlot page = none ↔ ∀ slot < entriesPerBucket, entryState page slot = stateFull) ∧
      ∀ slot, findFreeSlot page = some slot →
        slot < entriesPerBucket ∧ entryState page slot ≠ stateFull) := by
  refine ⟨fun hlen cid fp h64 => ?_, fun hst => ?_⟩
  · have hp := decodes_of_lengths hlen
    obtain ⟨contains, hc, hiff⟩ := pageContainsEntry_spec hp cid fp h64
    rcases findEntrySlot_spec hp cid fp h64 with ⟨hf, hno⟩ | ⟨slot, hs, e, hf, he, hm⟩
    · refine ⟨contains, none, hc, hf, hiff.trans ⟨fun ⟨e, he, hm⟩ => absurd hm (hno e he), ?_⟩⟩
      intro ⟨slot, entry, h⟩
      cases h
    · refine ⟨contains, some (slot, e), hc, hf, hiff.trans ⟨fun _ => ⟨slot, e, rfl⟩, fun _ => ?_⟩⟩
      exact ⟨e, mem_entries.2 ⟨slot, hs, he⟩, hm⟩
  · obtain ⟨h1, h2⟩ := findFreeSlot_states hst
    refine ⟨⟨h2, fun hall => ?_⟩, h1⟩
    cases h : findFreeSlot page with
    | none => rfl
    | some slot =>
      obtain ⟨hs, hne⟩ := h1 slot h
      exact absurd (hall slot hs) hne

/-! ## Splitting a page -/

/-- One round: the entry of the slot stays, or moves if it belongs to the new bucket. -/
theorem splitSlot_spec (H : Bytes → SplitHash) (base newBucket : Nat) {p q : Page}
    (hp : PageOk p) (hq : PageOk q) (hroom : (entries p).length + (entries q).length ≤ entriesPerBucket)
    {slot : Nat} (hs : slot < entriesPerBucket) :
    ∃ p' q', splitSlot H base newBucket (p, q) slot = .ok (p', q') ∧ PageOk p' ∧ PageOk q' ∧
      (entries q' ++ entries p').Perm (entries q ++ entries p) ∧
      (∀ j, j ≠ slot → slotEntry p' j = slotEntry p j) ∧
      (∀ e, slotEntry p' slot = some e → (H e.cid).even.toNat % (base * 2) ≠ newBucket) ∧
      (∀ e ∈ entries q', e ∈ entries q ∨ (H e.cid).even.toNat % (base * 2) = newBucket) := by
  unfold splitSlot
  rw [hp.decode slot hs]
  cases he : slotEntry p slot with
  | none =>
    exact ⟨p, q, rfl, hp, hq, .refl _, fun _ _ => rfl, by simp [he], fun e he => .inl he⟩
  | some e =>
    by_cases ht : (H e.cid).even.toNat % (base * 2) = newBucket
    · have hmem : e ∈ entries p := mem_entries.2 ⟨slot, hs, he⟩
      have hpos := List.length_pos_of_mem hmem
      rcases findFreeSlot_spec hq with ⟨dst, hdst, hlt, hfree⟩ | ⟨-, hfull⟩
      · obtain ⟨hcid, hlen⟩ := cid_of_slotEntry he
        obtain ⟨q', hw, hch⟩ := writeEntryToPage_changed q e hlt hcid hlen
        have htomb := markTombstone_changed p hs
        refine ⟨markTombstone p slot, q', ?_, hp.changed htomb (by simp),
          hq.changed hch (by simp), ?_, ?_, ?_, ?_⟩
        · change (if _ then _ else _) = _
          rw [if_pos ht, hdst]
          change (writeEntryToPage q dst e >>= _) = _
          rw [hw]
          rfl
        · have hins := hch.entries_insert hlt hfree
          have hers := htomb.entries_erase hs he
          refine (hins.append_right _).trans ?_
          exact List.perm_middle.symm.trans (hers.symm.append_left _)
        · intro j hj
          rw [htomb.slotEntry_eq, if_neg hj]
        · intro e' he'
          rw [htomb.slotEntry_eq, if_pos rfl] at he'
          cases he'
        · intro e' he'
          rcases List.mem_cons.1 ((hch.entries_insert hlt hfree).mem_iff.1 he') with rfl | he'
          · exact .inr ht
          · exact .inl he'
      · omega
    · refine ⟨p, q, ?_, hp, hq, .refl _, fun _ _ => rfl, fun e' he' => ?_, fun e he => .inl he⟩
      · change (if _ then _ else _) = _
        rw [if_neg ht]
        rfl
      · rw [he] at he'
        cases he'
        exact ht

theorem splitSlots_spec (H : Bytes → SplitHash) (base newBucket : Nat) :
    ∀ (slots : List Nat) (p q : Page), slots.Nodup → (∀ s ∈ slots, s < entriesPerBucket) →
      PageOk p → PageOk q → (entries p).length + (entries q).length ≤ entriesPerBucket →
      ∃ p' q', slots.foldlM (splitSlot H base newBucket) (p, q) = .ok (p', q') ∧ PageOk p' ∧
        PageOk q' ∧ (entries q' ++ entries p').Perm (entries q ++ entries p) ∧
        (∀ j, j ∉ slots → slotEntry p' j = slotEntry p j) ∧
        (∀ s ∈ slots, ∀ e, slotEntry p' s = some e →
          (H e.cid).even.toNat % (base * 2) ≠ newBucket) ∧
        (∀ e ∈ entries q', e ∈ entries q ∨ (H e.cid).even.toNat % (base * 2) = newBucket)
  | [], p, q, _, _, hp, hq, _ =>
    ⟨p, q, rfl, hp, hq, .refl _, fun _ _ => rfl, fun _ hs => absurd hs List.not_mem_nil,
      fun e he => .inl he⟩
  | s :: slots, p, q, hn, hlt, hp, hq, hroom => by
    obtain ⟨hs, hn⟩ := List.nodup_cons.1 hn
    obtain ⟨p1, q1, h1, hp1, hq1, hperm1, hother1, hslot1, hnew1⟩ :=
      splitSlot_spec H base newBucket hp hq hroom (hlt s (.head _))
    have hroom1 : (entries p1).length + (entries q1).length ≤ entriesPerBucket := by
      have := hperm1.length_eq
      simp only [List.length_append] at this
      omega
    obtain ⟨p2, q2, h2, hp2, hq2, hperm2, hother2, hslot2, hnew2⟩ :=
      splitSlots_spec H base newBucket slots p1 q1 hn (fun j hj => hlt j (.tail _ hj)) hp1
        hq1 hroom1
    refine ⟨p2, q2, ?_, hp2, hq2, hperm2.trans hperm1, ?_, ?_, ?_⟩
    · rw [List.foldlM_cons, h1]
      exact h2
    · intro j hj
      rw [List.mem_cons, not_or] at hj
      rw [hother2 j hj.2, hother1 j hj.1]
    · intro j hj e he
      rcases List.mem_cons.1 hj with rfl | hj
      · rw [hother2 j hs] at he
        exact hslot1 e he
      · exact hslot2 j hj e he
    · intro e he
      rcases hnew2 e he with he | he
      · exact hnew1 e he
      · exact .inr he

/-- **Splitting a page**: with an empty second page the loop succeeds, moves the entries of the new
bucket and keeps the others. -/
theorem splitPages_spec (H : Bytes → SplitHash) (base newBucket : Nat) {p q : Page}
    (hp : PageOk p) (hq : PageOk q) (hempty : entries q = []) :
    ∃ p' q', splitPages H base newBucket p q = .ok (p', q') ∧ PageOk p' ∧ PageOk q' ∧
      (entries p).Perm (entries q' ++ entries p') ∧
      (∀ e ∈ entries p', (H e.cid).even.toNat % (base * 2) ≠ newBucket) ∧
      (∀ e ∈ entries q', (H e.cid).even.toNat % (base * 2) = newBucket) := by
  obtain ⟨p', q', h, hp', hq', hperm, -, hslot, hnew⟩ :=
    splitSlots_spec H base newBucket _ p q List.nodup_range (fun s hs => List.mem_range.1 hs) hp
      hq (by simpa [hempty] using length_entries_le p)
  refine ⟨p', q', h, hp', hq', ?_, fun e he => ?_, fun e he => ?_⟩
  · rw [hempty, List.nil_append] at hperm
    exact hperm.symm
  · obtain ⟨s, hs, hse⟩ := mem_entries.1 he
    exact hslot s (List.mem_range.2 hs) e hse
  · have := hnew e he
    rw [hempty] at this
    exact this.resolve_left List.not_mem_nil

end Storage.DeltaFlat
