import Mathlib.Data.List.Nodup
import Neverust.Storage.DeltaFlat.Proof.Room

/-!
# Runs of the DeltaFlat store

`Run`: calls of `put_many` and `delete`, of which any may fail that is `Harmless`: it leaves no lane
with a page of the index newer than its control record. `RunInv` holds in every state of a run: each
item of a lane comes from a block that was put and belongs to the lane, and with the exists check
a CID is in a lane once.

* `request_step`, `Run.inv`: one call and a whole run keep the invariant, and keep every item of a
  CID they do not delete.
* `get_eq_iff`: when `get` returns the bytes of an item. `RunInv.lone`: a CID whose puts do not
  compete is in one lane.
-/

namespace Storage.DeltaFlat

open Io Rust Bytes LinearHash

/-! ## Requests -/

inductive Request
  | putMany (blocks : List Block)
  | delete (cid : Cid)

def request (cr : Crates) (st : Store) : Request → Act Unit
  | .putMany blocks => putMany cr st blocks
  | .delete cid => delete cr st cid

def runRequests (cr : Crates) (st : Store) (rs : List Request) : Act Unit :=
  rs.foldlM (fun _ r => request cr st r) ()

def Request.puts : Request → List Block
  | .putMany blocks => blocks
  | .delete _ => []

/-- The blocks put by the requests. -/
def putsOf (rs : List Request) : List Block := rs.flatMap Request.puts

/-- If the request, made in the world `w` with its faults, fails, then no lane is left with a page of
its index newer than its control record. -/
def Harmless (cr : Crates) (st : Store) (w : Disk) (r : Request) : Prop :=
  ∀ e w', request cr st r w = .error e w' → ∀ d, ¬ Unsettled d w'

/-- A run from one world to another, in which the requests that fail are harmless. -/
inductive Run (cr : Crates) (st : Store) : Disk → List Request → Disk → Prop
  | nil (w : Disk) : Run cr st w [] w
  | ok {w w1 w' : Disk} {r : Request} {rs : List Request} (h : request cr st r w = .ok () w1)
      (hs : Run cr st w1 rs w') : Run cr st w (r :: rs) w'
  | failed {w w1 w' : Disk} {r : Request} {rs : List Request} {e : StorageError}
      (h : request cr st r w = .error e w1) (hharm : Harmless cr st w r)
      (hs : Run cr st w1 rs w') : Run cr st w (r :: rs) w'

section
variable {cr : Crates} {st st₀ : Store} {w w' : Disk} {C C' : LaneDir → List Item}
  {puts : List Block}

/-- A run in which every request succeeds. -/
theorem Run.of_runRequests (rs : List Request) (h : runRequests cr st rs w = .ok () w') :
    Run cr st w rs w' := by
  induction rs generalizing w with
  | nil =>
    cases h
    exact .nil _
  | cons r rs ih =>
    have hbind : EStateM.bind (request cr st r) (fun _ => runRequests cr st rs) w = .ok () w' := h
    unfold EStateM.bind at hbind
    cases hr : request cr st r w with
    | ok u w1 =>
      rw [hr] at hbind
      exact .ok hr (ih hbind)
    | error e w1 =>
      rw [hr] at hbind
      cases hbind

/-! ## The invariant -/

/-- What holds in every state of a run; `puts` are the blocks put so far. -/
structure RunInv (cr : Crates) (st : Store) (puts : List Block) (C : LaneDir → List Item)
    (w : Disk) : Prop where
  holds : StoreHolds (hashOf cr) st w C
  nodup : st.skipExistsCheck = false → ∀ d, ((C d).map Prod.fst).Nodup
  source : ∀ d, ∀ x ∈ C d, ∃ b ∈ puts,
    cr.cidToBytes b.cid = x.1 ∧ b.data = x.2 ∧ homeOf cr st b = d

/-- An item is kept by a request that does not delete its CID. -/
def Keeps (cr : Crates) (r : Request) (C C' : LaneDir → List Item) : Prop :=
  ∀ d, ∀ x ∈ C d, (∀ cid, r = .delete cid → x.1 ≠ cr.cidToBytes cid) → x ∈ C' d

theorem runInv_empty (h : ∀ p, w.files p = none) : RunInv cr st [] (fun _ => []) w where
  holds := storeHolds_empty _ _ fun p => by rw [World.content, h]; rfl
  nodup _ _ := .nil
  source _ x hx := absurd hx List.not_mem_nil

theorem mem_blocksIn {d : LaneDir} {blocks : List Block} {x : Item} :
    x ∈ (blocksIn cr st d blocks).map itemOf ↔
      ∃ b ∈ blocks, homeOf cr st b = d ∧ (cr.cidToBytes b.cid, b.data) = x := by
  simp only [blocksIn, List.map_map, List.mem_map, List.mem_filter, decide_eq_true_eq, and_assoc]
  rfl

/-- Lanes that kept their contents or got the blocks of a batch. -/
theorem RunInv.put (hi : RunInv cr st puts C w) {blocks : List Block}
    (hS : StoreHolds (hashOf cr) st w' C')
    (hC : ∀ d, C' d = C d ∨ C' d = putStore cr st C blocks d) :
    RunInv cr st (puts ++ blocks) C' w' where
  holds := hS
  nodup hs d := by
    rcases hC d with h | h
    · rw [h]
      exact hi.nodup hs d
    · rw [h]
      exact nodup_putContents hs (hi.nodup hs d) _
  source d x hx := by
    have hold : x ∈ C d → ∃ b ∈ puts ++ blocks,
        cr.cidToBytes b.cid = x.1 ∧ b.data = x.2 ∧ homeOf cr st b = d := by
      intro hx
      obtain ⟨b, hb, h⟩ := hi.source d x hx
      exact ⟨b, List.mem_append_left _ hb, h⟩
    rcases hC d with h | h
    · rw [h] at hx
      exact hold hx
    · rw [h] at hx
      rcases mem_of_mem_putContents hx with hx | hx
      · exact hold hx
      · obtain ⟨b, hb, hhome, rfl⟩ := mem_blocksIn.1 hx
        exact ⟨b, List.mem_append_right _ hb, rfl, rfl, hhome⟩

theorem keeps_put {blocks : List Block}
    (hC : ∀ d, C' d = C d ∨ C' d = putStore cr st C blocks d) :
    Keeps cr (.putMany blocks) C C' := by
  intro d x hx _
  rcases hC d with h | h
  · rw [h]
    exact hx
  · rw [h]
    exact mem_putContents_of_mem hx _

/-- A lane that lost an item. -/
theorem RunInv.cleared (hi : RunInv cr st puts C w) {d : LaneDir} {cid : Cid}
    (h : Cleared (hashOf cr) st d (cr.cidToBytes cid) w w') :
    ∃ C', RunInv cr st puts C' w' ∧ Keeps cr (.delete cid) C C' := by
  obtain ⟨data, m', hperm, hm'⟩ := h.laneHolds (hi.holds d)
  have hself : Function.update C d m' d = m' := Function.update_self d m' C
  have hother : ∀ d', d' ≠ d → Function.update C d m' d' = C d' :=
    fun d' hd => Function.update_of_ne hd m' C
  refine ⟨Function.update C d m', ⟨fun d' => ?_, fun hs d' => ?_, fun d' x hx => ?_⟩,
    fun d' x hx hne => ?_⟩
  all_goals by_cases hd : d' = d
  · subst hd
    rw [hself]
    exact hm'
  · rw [hother d' hd]
    exact (SameFiles.of_frame h.frame hd).sameLane.laneHolds (hi.holds d')
  · subst hd
    rw [hself]
    have := (hperm.map Prod.fst).nodup_iff.1 (hi.nodup hs d')
    rw [List.map_cons, List.nodup_cons] at this
    exact this.2
  · rw [hother d' hd]
    exact hi.nodup hs d'
  · subst hd
    rw [hself] at hx
    exact hi.source d' x (hperm.mem_iff.2 (.tail _ hx))
  · rw [hother d' hd] at hx
    exact hi.source d' x hx
  · subst hd
    rw [hself]
    rcases List.mem_cons.1 (hperm.mem_iff.1 hx) with rfl | hx
    · exact absurd rfl (hne cid rfl)
    · exact hx
  · rw [hother d' hd]
    exact hx

theorem RunInv.untouched (hi : RunInv cr st puts C w) (hu : Untouched w w') :
    RunInv cr st puts C w' :=
  ⟨hi.holds.untouched hu, hi.nodup, hi.source⟩

/-- **One request** keeps the invariant, also when it fails and leaves the lanes settled. -/
theorem request_step (hi : RunInv cr st puts C w) (r : Request) :
    wp (request cr st r)
      (fun _ w' => w'.faults = w.faults ∧ ∃ C', RunInv cr st (puts ++ r.puts) C' w' ∧
        Keeps cr r C C' ∧ ∀ b ∈ r.puts, ∃ x ∈ C' (homeOf cr st b), x.1 = cr.cidToBytes b.cid)
      (fun _ w' => (∀ d, ¬ Unsettled d w') →
        ∃ C', RunInv cr st (puts ++ r.puts) C' w' ∧ Keeps cr r C C') w := by
  cases r with
  | putMany blocks =>
    refine wp_mono (putMany_spec blocks hi.holds) (fun _ w' h => ?_) fun e w' h hset => ?_
    · have hC : ∀ d, putStore cr st C blocks d = C d ∨
          putStore cr st C blocks d = putStore cr st C blocks d := fun d => .inr rfl
      refine ⟨h.frame.faults, putStore cr st C blocks, hi.put (h.storeHolds hi.holds) hC, keeps_put hC,
        fun b hb => ?_⟩
      exact exists_mem_putContents (mem_blocksIn.2 ⟨b, hb, rfl, rfl⟩)
    · obtain ⟨C', hS, hC⟩ := h.storeHolds hi.holds hset
      exact ⟨C', hi.put hS hC, keeps_put hC⟩
  | delete cid =>
    have hnil : puts ++ (Request.delete cid).puts = puts := List.append_nil puts
    rw [hnil]
    refine wp_mono (delete_spec cid hi.holds) (fun _ w' h => ?_) fun e w' h hset => ?_
    · obtain ⟨before, d, after, -, -, -, hc⟩ := h
      obtain ⟨C', hi', hk⟩ := hi.cleared hc
      exact ⟨hc.frame.faults, C', hi', hk, fun b hb => absurd hb List.not_mem_nil⟩
    · cases h with
      | clean hu he => exact ⟨C, hi.untouched hu, fun d x hx _ => hx⟩
      | lane d hd h hnf =>
        cases h with
        | clean hu he => exact ⟨C, hi.untouched hu, fun d x hx _ => hx⟩
        | unsettled hf hp hnf => exact absurd hp (hset d)
        | late h hnf => exact hi.cleared h

/-- Items are kept by requests that do not delete their CID. -/
def KeepsAll (cr : Crates) (rs : List Request) (C C' : LaneDir → List Item) : Prop :=
  ∀ d, ∀ x ∈ C d, (∀ cid, .delete cid ∈ rs → x.1 ≠ cr.cidToBytes cid) → x ∈ C' d

theorem KeepsAll.cons {C₁ : LaneDir → List Item} {r : Request} {rs : List Request}
    (h : Keeps cr r C C₁) (hs : KeepsAll cr rs C₁ C') : KeepsAll cr (r :: rs) C C' := by
  intro d x hx hne
  refine hs d x (h d x hx fun cid hr => hne cid ?_) fun cid hr => hne cid (.tail _ hr)
  rw [hr]
  exact .head _

/-- **A run** keeps the invariant, by induction on its requests. -/
theorem Run.inv {rs : List Request} (hr : Run cr st w rs w') (hi : RunInv cr st puts C w) :
    ∃ C', RunInv cr st (puts ++ putsOf rs) C' w' ∧ KeepsAll cr rs C C' := by
  induction hr generalizing puts C with
  | nil w =>
    rw [putsOf, List.flatMap_nil, List.append_nil]
    exact ⟨C, hi, fun d x hx _ => hx⟩
  | @ok _ _ _ r rs h _ ih =>
    obtain ⟨-, C₁, hi₁, hk₁, -⟩ := wp_ok (request_step hi r) h
    obtain ⟨C', hi', hk'⟩ := ih hi₁
    rw [List.append_assoc] at hi'
    exact ⟨C', hi', KeepsAll.cons hk₁ hk'⟩
  | @failed _ _ _ r rs _ h hharm _ ih =>
    obtain ⟨C₁, hi₁, hk₁⟩ := wp_error (request_step hi r) h (hharm _ _ h)
    obtain ⟨C', hi', hk'⟩ := ih hi₁
    rw [List.append_assoc] at hi'
    exact ⟨C', hi', KeepsAll.cons hk₁ hk'⟩

/-! ## Reading -/

/-- Where a list over the classes is cut. -/
theorem map_range_eq_append {α : Type} {f : Nat → α} {n : Nat} {before after : List α} {a : α}
    (h : (List.range n).map f = before ++ a :: after) :
    before.length < n ∧ a = f before.length ∧ before = (List.range before.length).map f := by
  have hlen := congrArg List.length h
  rw [List.length_map, List.length_range, List.length_append, List.length_cons] at hlen
  have hlt : before.length < n := by omega
  refine ⟨hlt, ?_, ?_⟩
  · have hget := congrArg (·[before.length]?) h
    simpa [List.getElem?_range hlt] using hget.symm
  · have htake := congrArg (List.take before.length) h
    rw [List.take_left, ← List.map_take, List.take_range, Nat.min_eq_left (Nat.le_of_lt hlt)] at htake
    exact htake.symm

/-- The lane of a CID in a class. -/
theorem laneOf_inj {H : Bytes → SplitHash} {k k' : Nat} {cid cid' : Bytes}
    (h : laneOf H st k cid = laneOf H st k' cid') : k = k' := by
  unfold laneOf laneDir at h
  split at h
  · exact LaneDir.classDir.inj h
  · exact (LaneDir.lane.inj h).1

/-- The lanes up to a class reach the CID. -/
def ReachesUpTo (cr : Crates) (st : Store) (cid : Cid) (k : Nat) (w : Disk) : Prop :=
  ∀ i ≤ k, Reaches (hashOf cr) (laneOf (hashOf cr) st i (cr.cidToBytes cid)) w (cr.cidToBytes cid)

/-- The item of a CID that is in one class only. -/
structure Lone (cr : Crates) (st : Store) (C : LaneDir → List Item) (cid : Cid) (k : Nat)
    (data : Bytes) : Prop where
  lt : k < deltaSizeClasses.length
  mem : (cr.cidToBytes cid, data) ∈ C (laneOf (hashOf cr) st k (cr.cidToBytes cid))
  only : ∀ i, ∀ x ∈ C (laneOf (hashOf cr) st i (cr.cidToBytes cid)), x.1 = cr.cidToBytes cid →
    i = k ∧ x.2 = data

/-- **`get`** returns the item iff every lane it looks at on the way reaches the CID. -/
theorem get_eq_iff {cid : Cid} {k : Nat} {data : Bytes} (hS : StoreHolds (hashOf cr) st₀ w C)
    (hnf : w.NoFaults) (h : Lone cr st C cid k data) :
    (∃ w', get cr st cid w = .ok ⟨cid, data⟩ w') ↔ ReachesUpTo cr st cid k w := by
  constructor
  · rintro ⟨w', hget⟩
    obtain ⟨-, -, before, d, after, hds, hb, hr, hx, -⟩ := wp_ok (get_spec cid hS) hget
    obtain ⟨hlt, rfl, hbefore⟩ := map_range_eq_append hds
    have hk := (h.only _ _ hx rfl).1
    intro i hi
    rcases Nat.lt_or_eq_of_le hi with hi | rfl
    · refine (hb _ ?_).2
      rw [hbefore]
      exact List.mem_map.2 ⟨i, List.mem_range.2 (by omega), rfl⟩
    · rwa [hk] at hr
  · intro hreach
    obtain ⟨b, w', hget, -, hcid, before, d, after, hds, hb, hr, hx, -⟩ :=
      wp_total (get_spec cid hS) fun e w' he => by
        obtain ⟨-, ⟨-, hall⟩ | ⟨-, before, d, after, hds, hb, hr⟩ | ⟨-, hf⟩⟩ := he
        · exact (hall _ (List.mem_map.2 ⟨k, List.mem_range.2 h.lt, rfl⟩)).1 _ h.mem rfl
        · obtain ⟨hlt, rfl, hbefore⟩ := map_range_eq_append hds
          by_cases hle : before.length ≤ k
          · exact hr (hreach _ hle)
          · refine hb (laneOf (hashOf cr) st k (cr.cidToBytes cid)) ?_ _ h.mem rfl
            rw [hbefore]
            exact List.mem_map.2 ⟨k, List.mem_range.2 (by omega), rfl⟩
        · exact hf hnf
    obtain ⟨hlt, rfl, -⟩ := map_range_eq_append hds
    refine ⟨w', ?_⟩
    rw [hget, ← hcid, ← (h.only _ _ hx rfl).2]

/-- Two puts of a CID do not compete: they have the same bytes, or the exists check is on and they
have the same size class. -/
def Compatible (st : Store) (b b' : Block) : Prop :=
  b.cid = b'.cid → b.data = b'.data ∨ st.skipExistsCheck = false ∧
    (classForLen b.data.length).1 = (classForLen b'.data.length).1

/-- Without competing puts a CID is in one lane, with one data. -/
theorem RunInv.lone (hi : RunInv cr st puts C w)
    (hcomp : ∀ b ∈ puts, ∀ b' ∈ puts, Compatible st b b') {cid : Cid} {data : Bytes}
    {d : LaneDir} (hx : (cr.cidToBytes cid, data) ∈ C d) :
    Lone cr st C cid (classForLen data.length).1 data := by
  obtain ⟨b, hb, hcid, hdata, hhome⟩ := hi.source d _ hx
  have hbc : b.cid = cid := cr.cidToBytes_inj hcid
  have hd : d = laneOf (hashOf cr) st (classForLen data.length).1 (cr.cidToBytes cid) := by
    rw [← hhome, homeOf, hbc]
    rw [show b.data = data from hdata]
  subst hd
  refine ⟨classForLen_lt _, hx, fun i y hy hyc => ?_⟩
  obtain ⟨b', hb', hcid', hdata', hhome'⟩ := hi.source _ y hy
  have hbc' : b'.cid = cid := cr.cidToBytes_inj (hcid'.trans hyc)
  have hclass : (classForLen b'.data.length).1 = i := by
    rw [homeOf] at hhome'
    exact laneOf_inj hhome'
  rcases hcomp b hb b' hb' (hbc.trans hbc'.symm) with hsame | ⟨hs, hk⟩
  · rw [hdata] at hsame
    refine ⟨?_, hdata'.symm.trans hsame.symm⟩
    rw [← hclass, ← hsame]
  · rw [hdata] at hk
    have hi' : i = (classForLen data.length).1 := hclass.symm.trans hk.symm
    refine ⟨hi', ?_⟩
    -- With the exists check the CID is in the lane once.
    rw [hi'] at hy
    have hnodup := hi.nodup hs (laneOf (hashOf cr) st (classForLen data.length).1
      (cr.cidToBytes cid))
    have heq := List.inj_on_of_nodup_map hnodup hy hx hyc
    rw [heq]

/-! ## A first block -/

/-- A CID with one item, in the lane of its class. -/
theorem lone_of_single {Ls : LaneDir → LaneModel} {block : Block}
    (hhome : ∀ x ∈ (Ls (homeOf cr st block)).items, x.1 = cr.cidToBytes block.cid →
      x.2 = block.data)
    (hmem : (cr.cidToBytes block.cid, block.data) ∈ (Ls (homeOf cr st block)).items)
    (hother : ∀ d, d ≠ homeOf cr st block → ∀ x ∈ (Ls d).items,
      x.1 ≠ cr.cidToBytes block.cid) :
    Lone cr st (fun d => (Ls d).items) block.cid (classForLen block.data.length).1 block.data := by
  refine ⟨classForLen_lt _, hmem, fun i x hx hxc => ?_⟩
  by_cases hd : laneOf (hashOf cr) st i (cr.cidToBytes block.cid) = homeOf cr st block
  · rw [hd] at hx
    exact ⟨laneOf_inj hd, hhome x hx hxc⟩
  · exact absurd hxc (hother _ hd x hx)

/-- **A new store** takes a first block and returns it. -/
theorem putMany_first {block : Block}
    (hver : verifyBlocks cr st.verifyBlocksOnWrite [block] = .ok ())
    (hprobe : 0 < st.maxProbeSteps.toNat)
    (hcid : (cr.cidToBytes block.cid).length ≤ maxCidBytes)
    (hmax : block.data.length ≤ st.maxFileBytes.toNat) (hlen : block.data.length < 2 ^ 32)
    (hempty : ∀ p, w.files p = none) (hnf : w.NoFaults) :
    ∃ w', putMany cr st [block] w = .ok () w' ∧ w'.NoFaults ∧
      StoreIs (hashOf cr) st w' (Function.update (fun _ => .new st) (homeOf cr st block)
        ((LaneModel.new st).grow (cr.cidToBytes block.cid, block.data) (0, 0)
          (initialControl st).shape)) ∧
      ((∀ d, ¬ Unsettled d w) → ∀ d, ¬ Unsettled d w') ∧
      ∃ v, get cr st block.cid w' = .ok block v := by
  have hins : (LaneModel.new st).insert (hashOf cr) st (cr.cidToBytes block.cid, block.data) =
      some _ := LaneModel.insert_new (hashOf cr) ⟨cr.cidToBytes_ne _, hcid⟩ hmax hlen hprobe
  obtain ⟨⟨⟩, w', hput, hnf', hS, hset⟩ := wp_total
    (putMany_one block hver (storeIs_empty (hashOf cr) st hempty) hnf hins) fun _ _ h => h
  refine ⟨w', hput, hnf', hS, hset, ?_⟩
  set Ls := Function.update (fun _ => LaneModel.new st) (homeOf cr st block)
    ((LaneModel.new st).grow (cr.cidToBytes block.cid, block.data) (0, 0)
      (initialControl st).shape) with hLs
  have hself : (Ls (homeOf cr st block)).items = [(cr.cidToBytes block.cid, block.data)] := by
    rw [hLs, Function.update_self]
    rfl
  have hother : ∀ d, d ≠ homeOf cr st block → Ls d = .new st :=
    fun d hd => Function.update_of_ne hd _ _
  have hlone : Lone cr st (fun d => (Ls d).items) block.cid
      (classForLen block.data.length).1 block.data := by
    refine lone_of_single (fun x hx _ => ?_) ?_ fun d hd x hx => ?_
    · rw [hself] at hx
      rw [List.mem_singleton.1 hx]
    · rw [hself]
      exact .head _
    · rw [hother d hd] at hx
      exact absurd hx List.not_mem_nil
  refine (get_eq_iff hS.storeHolds hnf' hlone).2 fun i _ => (hS _).reaches (.of_level ?_ _)
  have hlevel := initialControl_level st
  by_cases hd : laneOf (hashOf cr) st i (cr.cidToBytes block.cid) = homeOf cr st block
  · rw [hd, hLs, Function.update_self]
    exact LaneModel.level_grow_new st _ _
  · rw [hother _ hd]
    exact hlevel.2.trans (by decide)

end

end Storage.DeltaFlat
