import Neverust.CidForms
import Neverust.Storage.Block
import Neverust.Storage.DeltaFlat.Proof.Requests
import Neverust.Storage.DeltaFlat.Proof.Run

/-!
# The data of the DeltaFlat store

In every run in which all requests succeed, the extents of the entries of a lane are apart, within
the file size limit and before the append point (`ExtentsOk`), and `get` returns the bytes that
were put, if every lane it looks at gives the CID a bucket (`runRequests_extents`).
-/

namespace Storage.DeltaFlat

open Io Rust Bytes LinearHash

/-! ## Extents -/

/-- The extents of the full slots of the index, under the control record `c`. -/
structure ExtentsOk (st : Store) (d : LaneDir) (c : Control) (w : Disk) : Prop where
  apart : ∀ b₁ s₁ e₁ b₂ s₂ e₂, FullAt d w b₁ s₁ e₁ → FullAt d w b₂ s₂ e₂ →
    ¬ (b₁ = b₂ ∧ s₁ = s₂) → Apart e₁ e₂
  limit : ∀ b s e, FullAt d w b s e → e.stop ≤ st.maxFileBytes.toNat
  before : ∀ b s e, FullAt d w b s e → Before c e.fileId e.stop

section
variable {H : Bytes → SplitHash} {cr : Crates} {st : Store} {d : LaneDir} {c : Control}
  {w w' : Disk} {C : LaneDir → List Item} {puts : List Block}

theorem LaneInv.mem_of_fullAt (hi : LaneInv H st d c w) {bucket slot : Nat} {e : Entry}
    (h : FullAt d w bucket slot e) : bucket < c.shape.buckets ∧ e ∈ laneEntries d c w := by
  have hmem := mem_table_of_fullAt h
  have hplaced := hi.index.placed bucket e hmem
  constructor
  · rw [← hplaced]
    exact c.shape.addr_lt _
  · refine hi.index.mem_live.2 ?_
    have haddr : c.shape.addr (evenHash H e) = bucket := hplaced
    rw [haddr]
    exact hmem

/-- Entries in different slots of a page are apart. -/
theorem apart_of_slots {page : Page} (h : (entries page).Pairwise Apart) {s₁ s₂ : Nat}
    {e₁ e₂ : Entry} (hs₁ : s₁ < entriesPerBucket) (hs₂ : s₂ < entriesPerBucket)
    (h₁ : slotEntry page s₁ = some e₁) (h₂ : slotEntry page s₂ = some e₂) (hne : s₁ ≠ s₂) :
    Apart e₁ e₂ := by
  rw [entries, List.pairwise_flatMap] at h
  rcases Nat.lt_or_gt_of_ne hne with hlt | hlt
  · exact of_pairwise_range h.2 hlt hs₂ e₁ (by simp [h₁]) e₂ (by simp [h₂])
  · exact (of_pairwise_range h.2 hlt hs₁ e₂ (by simp [h₂]) e₁ (by simp [h₁])).symm

theorem LaneInv.extentsOk (hi : LaneInv H st d c w) : ExtentsOk st d c w where
  limit b s e h := hi.data.limit e (hi.mem_of_fullAt h).2
  before b s e h := hi.data.before e (hi.mem_of_fullAt h).2
  apart b₁ s₁ e₁ b₂ s₂ e₂ h₁ h₂ hne := by
    have hpair := hi.data.apart
    rw [liveEntries, live, List.pairwise_flatMap] at hpair
    have hb₁ := (hi.mem_of_fullAt h₁).1
    have hb₂ := (hi.mem_of_fullAt h₂).1
    have hm₁ := mem_table_of_fullAt h₁
    have hm₂ := mem_table_of_fullAt h₂
    by_cases hb : b₁ = b₂
    · subst hb
      refine apart_of_slots (hpair.1 b₁ (List.mem_range.2 hb₁)) h₁.1 h₂.1
        (slotEntry_of_fullAt h₁) (slotEntry_of_fullAt h₂) fun hs => hne ⟨rfl, hs⟩
    · rcases Nat.lt_or_gt_of_ne hb with hlt | hlt
      · exact of_pairwise_range hpair.2 hlt hb₂ e₁ hm₁ e₂ hm₂
      · exact (of_pairwise_range hpair.2 hlt hb₁ e₂ hm₂ e₁ hm₁).symm

theorem RunInv.laneInv (hi : RunInv cr st puts C w) (hc : HoldsControl d w c) :
    LaneInv (hashOf cr) st d c w := by
  obtain ⟨l, hl, -⟩ := hi.holds d
  cases hl with
  | blank hb =>
    have h1 := hb.control
    have h2 := hc.length
    omega
  | control c' hc' hi' =>
    rw [hc'.unique hi' hc]
    exact hi'

/-! ## Stored CIDs -/

/-- Whether a CID is stored after a request that succeeds. -/
def keptStep (cid : Cid) (kept : Bool) : Request → Bool
  | .putMany blocks => kept || blocks.any fun b => b.cid = cid
  | .delete x => kept && !decide (x = cid)

/-- The CID was put and not deleted since. -/
def putAndKept (rs : List Request) (cid : Cid) : Bool := rs.foldl (keptStep cid) false

/-- Some lane has an item of the CID. -/
def Present (cr : Crates) (C : LaneDir → List Item) (cid : Cid) : Prop :=
  ∃ d, ∃ x ∈ C d, x.1 = cr.cidToBytes cid

/-- A CID that is put and kept is present, by induction on the requests. -/
theorem runRequests_present (rs : List Request) {cid : Cid} {kept : Bool}
    (hi : RunInv cr st puts C w) (hp : kept = true → Present cr C cid) :
    wp (runRequests cr st rs)
      (fun _ w' => w'.faults = w.faults ∧ ∃ C', RunInv cr st (puts ++ putsOf rs) C' w' ∧
        (rs.foldl (keptStep cid) kept = true → Present cr C' cid))
      (fun _ _ => True) w := by
  induction rs generalizing puts C w kept with
  | nil =>
    refine wp_pure ⟨rfl, C, ?_, hp⟩
    rw [putsOf, List.flatMap_nil, List.append_nil]
    exact hi
  | cons r rs ih =>
    refine wp_bind (wp_mono (request_step hi r) (fun _ w1 h1 => ?_) fun _ _ _ => trivial)
    obtain ⟨hf₁, C₁, hi₁, hk₁, hnew⟩ := h1
    have hp₁ : keptStep cid kept r = true → Present cr C₁ cid := by
      intro hkept
      cases r with
      | putMany blocks =>
        rw [keptStep, Bool.or_eq_true, List.any_eq_true] at hkept
        rcases hkept with hkept | ⟨b, hb, hcid⟩
        · obtain ⟨d, x, hx, hxc⟩ := hp hkept
          exact ⟨d, x, hk₁ d x hx fun _ h => (by cases h), hxc⟩
        · obtain ⟨x, hx, hxc⟩ := hnew b hb
          rw [of_decide_eq_true hcid] at hxc
          exact ⟨_, x, hx, hxc⟩
      | delete y =>
        rw [keptStep, Bool.and_eq_true] at hkept
        obtain ⟨d, x, hx, hxc⟩ := hp hkept.1
        refine ⟨d, x, hk₁ d x hx fun z hz heq => ?_, hxc⟩
        cases hz
        have hy : y = cid := cr.cidToBytes_inj (heq.symm.trans hxc)
        simp [hy] at hkept
    refine wp_mono (ih hi₁ hp₁) (fun _ w2 h2 => ?_) fun _ _ _ => trivial
    obtain ⟨hf₂, C', hi', hp'⟩ := h2
    rw [List.append_assoc] at hi'
    exact ⟨hf₂.trans hf₁, C', hi', hp'⟩

/-- With the same bytes in every put of a CID, a CID that is present is in the lane of its
class. -/
theorem RunInv.lone_of_bytes (hi : RunInv cr st puts C w) {bytes : Cid → Bytes}
    (hbytes : ∀ b ∈ puts, b.data = bytes b.cid) {cid : Cid} (h : Present cr C cid) :
    Lone cr st C cid (classForLen (bytes cid).length).1 (bytes cid) := by
  obtain ⟨d, x, hx, hxc⟩ := h
  obtain ⟨b, hb, hcid, hdata, -⟩ := hi.source d x hx
  have hbc : b.cid = cid := cr.cidToBytes_inj (hcid.trans hxc)
  have hxd : x = (cr.cidToBytes cid, bytes cid) := by
    refine Prod.ext hxc ?_
    rw [← hdata, hbytes b hb, hbc]
  rw [hxd] at hx
  refine hi.lone (fun b₁ h₁ b₂ h₂ hc => .inl ?_) hx
  rw [hbytes b₁ h₁, hbytes b₂ h₂, hc]

end

/-- **The data of the store.** In every run of `put_many` and `delete` that succeeds, starting with
an empty directory, the extents of each lane are sound, and if every put of a CID has the same
bytes then `get` returns them for each CID put and not deleted since, exactly when every lane up to
the block's class gives the CID a bucket. -/
theorem runRequests_extents (cr : Crates) (st : Store) {w₀ w : Disk} {rs : List Request}
    (hnf : w₀.NoFaults) (hempty : ∀ p, w₀.files p = none)
    (hrun : runRequests cr st rs w₀ = .ok () w) :
    (∀ d c, HoldsControl d w c → ExtentsOk st d c w) ∧
    ∀ bytes : Cid → Bytes, (∀ b ∈ putsOf rs, b.data = bytes b.cid) →
      ∀ cid, putAndKept rs cid = true →
        ((∃ w', get cr st cid w = .ok ⟨cid, bytes cid⟩ w') ↔
          ReachesUpTo cr st cid (classForLen (bytes cid).length).1 w) := by
  have hinit : RunInv cr st [] (fun _ => []) w₀ := runInv_empty hempty
  refine ⟨fun d c hc => ?_, fun bytes hbytes cid hkept => ?_⟩
  · obtain ⟨C, hi, -⟩ := (Run.of_runRequests rs hrun).inv hinit
    exact (hi.laneInv hc).extentsOk
  · have hp₀ : false = true → Present cr (fun _ => []) cid := fun h => by cases h
    obtain ⟨hf, C, hi, hp⟩ := wp_ok (runRequests_present rs hinit hp₀) hrun
    rw [List.nil_append] at hi
    have hnf' : w.NoFaults := by
      rw [World.NoFaults, hf]
      exact hnf
    exact get_eq_iff hi.holds hnf' (hi.lone_of_bytes hbytes (hp hkept))

/-- The block of two bytes that `Block::new` makes. -/
def helloBlock : Block :=
  ⟨.newV1 CidBlake3.archivistBlockCodec ⟨CidBlake3.blake3Code, Blake3.hash [104, 105]⟩, [104, 105]⟩

/-- A store opened with `n` lanes. -/
def laneStore (n : Nat) : Store := Store.open { lanes := some n }

theorem length_helloBlock_cid : (Crates.standard.cidToBytes helloBlock.cid).length = 38 := by
  change (Cid.toBytes helloBlock.cid).length = 38
  simp only [Cid.toBytes, helloBlock, Cid.newV1, List.length_append, Blake3.length_hash]
  decide +kernel

theorem verifyBlocks_cons (cr : Crates) (block : Block) (blocks : List Block) :
    verifyBlocks cr true (block :: blocks) =
      ((if block.cid.codec = 0xcd02 then
        (CidBlake3.verifyBlake3 cr block.data block.cid).mapError .verificationFailed
      else .ok ()) >>= fun _ => verifyBlocks cr true blocks) := rfl

theorem verifyBlocks_helloBlock (verify : Bool) :
    verifyBlocks Crates.standard verify [helloBlock] = .ok () := by
  have hver : CidBlake3.verifyBlake3 Crates.standard helloBlock.data helloBlock.cid = .ok () :=
    (verifyBlake3_eq_ok_iff Crates.standard_standard).2 ⟨rfl, rfl, digestOf_blake3 _⟩
  cases verify with
  | false => rfl
  | true =>
    rw [verifyBlocks_cons, if_pos (show helloBlock.cid.codec = 0xcd02 from rfl), hver]
    rfl

/-- The lanes of a store with this block. -/
def helloLanes (st : Store) : LaneDir → LaneModel :=
  Function.update (fun _ => .new st) (homeOf Crates.standard st helloBlock)
    ((LaneModel.new st).grow (Crates.standard.cidToBytes helloBlock.cid, helloBlock.data) (0, 0)
      (initialControl st).shape)

theorem level_helloLanes (st : Store) (d : LaneDir) : (helloLanes st d).shape.level ≤ 30 := by
  have hlevel := initialControl_level st
  rw [helloLanes, Function.update_apply]
  split
  · exact LaneModel.level_grow_new st _ _
  · exact hlevel.2.trans (by decide)

/-- A new store takes the block and returns it. -/
theorem runRequests_hello {st : Store} (hprobe : 0 < st.maxProbeSteps.toNat)
    (hmax : helloBlock.data.length ≤ st.maxFileBytes.toNat) :
    ∃ w, runRequests Crates.standard st [.putMany [helloBlock]] World.empty = .ok () w ∧
      w.NoFaults ∧ StoreIs (hashOf Crates.standard) st w (helloLanes st) ∧
      (∀ d, ¬ Unsettled d w) ∧
      ∃ v, get Crates.standard st helloBlock.cid w = .ok helloBlock v := by
  obtain ⟨w, hput, hnf, hS, hset, hget⟩ := @putMany_first Crates.standard st World.empty
    helloBlock (verifyBlocks_helloBlock _) hprobe (by rw [length_helloBlock_cid]; decide) hmax
    (by decide) (fun _ => rfl) World.noFaults_empty
  refine ⟨w, ?_, hnf, hS, hset fun d => Bool.false_ne_true, hget⟩
  change EStateM.bind (putMany Crates.standard st [helloBlock]) _ World.empty = _
  unfold EStateM.bind
  rw [hput]
  rfl

/-- The block is read back: no lane has so many buckets that one of them could not be addressed. -/
theorem runRequests_extents_sample : ∃ w,
    runRequests Crates.standard (laneStore 1) [.putMany [helloBlock]] World.empty = .ok () w ∧
    (∀ d c, HoldsControl d w c → ExtentsOk (laneStore 1) d c w) ∧
    ∃ w', get Crates.standard (laneStore 1) helloBlock.cid w = .ok helloBlock w' := by
  obtain ⟨w, hrun, -, hS, -⟩ := @runRequests_hello (laneStore 1) (by decide) (by decide)
  obtain ⟨hextents, hget⟩ := runRequests_extents Crates.standard (laneStore 1)
    World.noFaults_empty (fun _ => rfl) hrun
  refine ⟨w, hrun, hextents, (hget (fun _ => helloBlock.data) ?_ helloBlock.cid ?_).2 fun i _ => ?_⟩
  · exact fun b hb => congrArg Block.data (List.mem_singleton.1 hb)
  · simp [putAndKept, keptStep]
  · exact (hS _).reaches (.of_level (level_helloLanes _ _) _)

end Storage.DeltaFlat
