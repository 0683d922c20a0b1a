import Neverust.Storage.DeltaFlat.Proof.Insert

/-!
# DeltaFlat lookup and deletion

* `lookupInClass_spec`: a lookup finds an entry of the CID if the lane has one; without an IO fault
  it fails only if the address of the CID cannot be computed.
* `deleteInClass_spec`: a deletion takes one entry of the CID out of the lane.
-/

namespace Storage.DeltaFlat

open Io Rust Bytes LinearHash

section
variable {H : Bytes → SplitHash} {st : Store} {d : LaneDir} {c c' : Control} {w w' : Disk}

/-- What a lookup finds. -/
inductive Found (H : Bytes → SplitHash) (d : LaneDir) (c : Control) (w : Disk) (cid : Bytes) :
    Option (Nat × Nat × Entry) → Prop
  | none (h : ∀ e ∈ laneEntries d c w, e.cid ≠ cid) : Found H d c w cid none
  | some (slot : Nat) (e : Entry) (hs : slot < entriesPerBucket)
      (he : slotEntry
        (pageAt (w.content (d, .index)) (c.shape.addr (H cid).even.toNat)) slot = some e)
      (hl : e ∈ laneEntries d c w) (hc : e.cid = cid)
      (hf : findEntrySlot (pageAt (w.content (d, .index)) (c.shape.addr (H cid).even.toNat)) cid
        (H cid).fingerprint (H cid).hash64 = .ok (some (slot, e))) :
      Found H d c w cid (some (c.shape.addr (H cid).even.toNat, slot, e))

/-- How a lookup fails. -/
structure LookupFailed (H : Bytes → SplitHash) (c : Control) (cid : Bytes) (w : Disk)
    (e : StorageError) (w' : Disk) : Prop where
  untouched : Untouched w w'
  error : e = .databaseError .expandedBaseOverflow ∧ ¬ Addressable c.shape (H cid).even.toNat ∨
    e = .ioError .other ∧ ¬ w.NoFaults

/-- **A lookup** finds an entry of the CID iff there is one. -/
theorem lookupInClass_spec (hi : IndexInv H c (w.content (d, .index))) (cid : Bytes) :
    wp (lookupInClass H d c cid)
      (fun r w' => Untouched w w' ∧ Found H d c w cid r ∧
        Addressable c.shape (H cid).even.toNat)
      (LookupFailed H c cid w) w := by
  unfold lookupInClass
  by_cases ha : Addressable c.shape (H cid).even.toNat
  case neg =>
    refine wp_bind (wp_lift (fun k hk => ?_) fun e he => ?_)
    · rw [hi.primaryBucket_error ha] at hk
      cases hk
    · rw [hi.primaryBucket_error ha] at he
      cases he
      exact ⟨.refl w, .inl ⟨rfl, ha⟩⟩
  refine wp_bind (wp_lift (fun k hk => ?_) fun e he => ?_)
  case pos.refine_2 =>
    rw [hi.primaryBucket_eq ha] at he
    cases he
  rw [hi.primaryBucket_eq ha] at hk
  cases hk
  refine wp_bind (wp_mono (readBucket_spec hi.aligned _) (fun page w1 h1 => ?_) fun e w' h => ?_)
  case refine_2 => exact ⟨h.2.2, .inr ⟨h.1, h.2.1⟩⟩
  obtain ⟨hpg, h1⟩ := h1
  have hpage : PageOk page := hpg ▸ hi.pages _
  rcases findEntrySlot_spec hpage.decode cid (H cid).fingerprint (H cid).hash64 with
    ⟨hf, hno⟩ | ⟨slot, hs, e, hf, he, hm⟩
  · refine wp_bind (wp_lift (fun r hr => ?_) fun e he => ?_)
    · rw [hf] at hr
      cases hr
      refine wp_pure ⟨h1, .none fun e he hcid => ?_, ha⟩
      obtain ⟨x, hx, hxm⟩ := (hi.exists_matches_iff cid).2 ⟨e, he, hcid⟩
      rw [table, ← hpg] at hx
      exact hno x hx hxm
    · rw [hf] at he
      cases he
  · refine wp_bind (wp_lift (fun r hr => ?_) fun e' he' => ?_)
    · rw [hf] at hr
      cases hr
      have hmem : e ∈ table (w.content (d, .index)) (c.shape.addr (H cid).even.toNat) := by
        rw [table, ← hpg]
        exact mem_entries.2 ⟨slot, hs, he⟩
      refine wp_pure ⟨h1, .some slot e hs (hpg ▸ he) (hi.mem_live.2 ?_) hm.2.2 (hpg ▸ hf), ha⟩
      rw [evenHash, hm.2.2]
      exact hmem
    · rw [hf] at he'
      cases he'

/-- What a deletion does. -/
structure Deleted (H : Bytes → SplitHash) (st : Store) (d : LaneDir) (cid : Bytes) (c : Control)
    (w : Disk) (c' : Control) (w' : Disk) : Prop where
  frame : Frame (· = (d, .index)) w w'
  writes : w'.writes (d, .index) = w.writes (d, .index) + 1
  inv : LaneInv H st d c' w'
  shape : c'.shape = c.shape
  nextFileId : c'.nextFileId = c.nextFileId
  nextOffset : c'.nextOffset = c.nextOffset
  load : LoadOk c → LoadOk c'
  effect : ∃ e, e.cid = cid ∧ (laneEntries d c w).Perm (e :: laneEntries d c' w')

theorem LaneInv.deleted (hi : LaneInv H st d c w) {cid : Bytes} {slot : Nat} {e : Entry}
    (hs : slot < entriesPerBucket)
    (he : slotEntry
      (pageAt (w.content (d, .index)) (c.shape.addr (H cid).even.toNat)) slot = some e)
    (hl : e ∈ laneEntries d c w) (hc : e.cid = cid) (hf : Frame (· = (d, .index)) w w')
    (hw : w'.writes (d, .index) = w.writes (d, .index) + 1)
    (ha : Aligned (w'.content (d, .index)))
    (hp : ∀ b, pageAt (w'.content (d, .index)) b =
      if b = c.shape.addr (H cid).even.toNat
      then markTombstone (pageAt (w.content (d, .index)) (c.shape.addr (H cid).even.toNat)) slot
      else pageAt (w.content (d, .index)) b) :
    Deleted H st d cid c w { c with
      itemCount := if 0 < c.itemCount then c.itemCount - 1 else c.itemCount } w' := by
  have hpos : 0 < c.itemCount.toNat := by
    rw [hi.index.count]
    exact List.length_pos_of_mem hl
  have hlt : (0 : UInt64) < c.itemCount := by
    rw [UInt64.lt_iff_toNat_lt]
    simpa using hpos
  have hcount : (c.itemCount - 1).toNat + 1 = c.itemCount.toNat := by
    rw [UInt64.toNat_sub_of_le _ _ (by rw [UInt64.le_iff_toNat_le, UInt64.toNat_one]; exact hpos)]
    change c.itemCount.toNat - 1 + 1 = _
    omega
  rw [if_pos hlt]
  obtain ⟨hinv, hlive⟩ := hi.index.erase { c with itemCount := c.itemCount - 1 } ha
    (c.shape.addr_lt _) hs he (markTombstone_changed _ hs) hp rfl hcount
  refine ⟨hf, hw, ⟨hinv, ?_⟩, rfl, rfl, rfl, fun h => ?_, e, hc, hlive⟩
  · have hold : DataInv st d { c with itemCount := c.itemCount - 1 } w' _ :=
      (hi.data.perm hlive.symm).kept (dataKept_of_index c hf) (.of_eq rfl rfl)
    exact ⟨fun x hx => hold.before x (.tail _ hx), fun x hx => hold.limit x (.tail _ hx),
      (List.pairwise_cons.1 hold.apart).2, fun x hx => hold.onDisk x (.tail _ hx)⟩
  · have h : 100 * c.itemCount.toNat < 2880 * c.shape.buckets := h
    change 100 * (c.itemCount - 1).toNat < 2880 * c.shape.buckets
    omega

/-- **A deletion** takes an entry of the CID out of the lane, if there is one. -/
theorem deleteInClass_spec (hi : LaneInv H st d c w) (cid : Bytes) :
    wp (deleteInClass H d c cid)
      (fun r w' => match r with
        | none => Untouched w w' ∧ (∀ e ∈ laneEntries d c w, e.cid ≠ cid) ∧
          Addressable c.shape (H cid).even.toNat
        | some c' => Deleted H st d cid c w c' w' ∧ Addressable c.shape (H cid).even.toNat)
      (fun e w' => LookupFailed H c cid w e w' ∨
        Frame (· = (d, .index)) w w' ∧ w'.writes (d, .index) = w.writes (d, .index) + 1 ∧
          e = .ioError .other ∧ ¬ w.NoFaults) w := by
  unfold deleteInClass
  refine wp_bind (wp_mono (lookupInClass_spec hi.index cid) (fun r w1 h1 => ?_)
    fun e w' h => .inl h)
  obtain ⟨h1, hfound, haddr⟩ := h1
  have ha1 : Aligned (w1.content (d, .index)) := by
    rw [h1.content]
    exact hi.index.aligned
  cases hfound with
  | none h => exact wp_pure ⟨h1, h, haddr⟩
  | some slot e hs he hl hc hf =>
    dsimp only
    refine wp_bind (wp_mono (readBucket_spec ha1 _) (fun page w2 h2 => ?_) fun e' w' h => ?_)
    case refine_2 =>
      exact .inl ⟨h1.trans h.2.2, .inr ⟨h.1, h1.noFaults.not.1 h.2.1⟩⟩
    have hpg := h2.1
    have h12 := h1.trans h2.2
    have ha2 : Aligned (w2.content (d, .index)) := by
      rw [h12.content]
      exact hi.index.aligned
    have hblt : c.shape.addr (H cid).even.toNat < 2 ^ 32 :=
      (c.shape.addr_lt _).trans hi.index.buckets_lt
    generalize htomb : markTombstone page slot = p
    refine wp_bind (wp_mono (writeBucket_spec ha2 hblt p) (fun _ w3 h3 => ?_)
      fun e' w' h => ?_)
    case refine_2 =>
      obtain ⟨he', hf', hfr', hw'⟩ := h
      exact .inr ⟨(h12.frame _).trans hfr', by rw [hw', h12.writes], he', h12.noFaults.not.1 hf'⟩
    obtain ⟨hf3, hw3, ha3, hp3⟩ := h3
    rw [h12.writes] at hw3
    refine wp_pure ⟨hi.deleted hs he hl hc ((h12.frame _).trans hf3) hw3 ha3 fun b => ?_, haddr⟩
    rw [hp3, ← htomb, hpg, h1.content, h12.content]

end

end Storage.DeltaFlat
