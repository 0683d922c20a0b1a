import Neverust.Storage.DeltaFlat.Proof.Extents

/-!
# Reopening the DeltaFlat store

The lane count is a setting of the process and is not written to disk, but it decides in which
directory the lanes of a CID are. `reopened_get_iff`: a store opened again returns a block iff both
lane counts give its CID the same directories (`SameDir`).
-/

namespace Storage.DeltaFlat

open Io Rust Bytes LinearHash

/-- Both stores have a single lane, or both have several and the CID has the same one. -/
def SameDir (H : Bytes → SplitHash) (st st' : Store) (cid : Bytes) : Prop :=
  (st.laneCount ≤ 1 ∧ st'.laneCount ≤ 1) ∨
    (1 < st.laneCount ∧ 1 < st'.laneCount ∧
      (H cid).hash64.toNat % st.laneCount = (H cid).hash64.toNat % st'.laneCount)

section
variable {H : Bytes → SplitHash} {cr : Crates} {st st' st₀ : Store} {w : Disk}
  {C : LaneDir → List Item} {puts : List Block}

theorem laneOf_eq_iff {k k' : Nat} {cid : Bytes} :
    laneOf H st k cid = laneOf H st' k' cid ↔ k = k' ∧ SameDir H st st' cid := by
  unfold laneOf laneDir laneForCid SameDir
  by_cases h : st.laneCount ≤ 1
  · by_cases h' : st'.laneCount ≤ 1
    · simp [h, h']
    · simp [h, h']
  · by_cases h' : st'.laneCount ≤ 1
    · simp [h, h']
    · simp [h, h']
      omega

theorem scannedLanes_eq {cid : Cid} (h : SameDir (hashOf cr) st st' (cr.cidToBytes cid)) :
    scannedLanes cr st' cid = scannedLanes cr st cid :=
  List.map_congr_left fun _ _ => (laneOf_eq_iff.2 ⟨rfl, h⟩).symm

/-- Two ways to find an item of the CID find the same one. -/
theorem Got.unique (hS : StoreHolds H st₀ w C) {f : Nat → LaneDir} {n : Nat} {cid : Bytes}
    {data data' : Bytes} (h : Got H w C cid ((List.range n).map f) data)
    (h' : Got H w C cid ((List.range n).map f) data') : data = data' := by
  obtain ⟨before, d, after, hds, hb, -, hx, e, hc, hdata⟩ := h
  obtain ⟨before', d', after', hds', hb', -, hx', e', hc', hdata'⟩ := h'
  obtain ⟨-, rfl, hbefore⟩ := map_range_eq_append hds
  obtain ⟨-, rfl, hbefore'⟩ := map_range_eq_append hds'
  rcases Nat.lt_trichotomy before.length before'.length with hlt | heq | hlt
  · refine absurd rfl ((hb' (f before.length) ?_).1 _ hx)
    rw [hbefore']
    exact List.mem_map.2 ⟨_, List.mem_range.2 hlt, rfl⟩
  · rw [← heq] at hc' hdata'
    rw [hdata, hdata', hc.unique (hS _) hc']
  · refine absurd rfl ((hb (f before'.length) ?_).1 _ hx')
    rw [hbefore]
    exact List.mem_map.2 ⟨_, List.mem_range.2 hlt, rfl⟩

/-- A scan that finds an item does not fail. -/
theorem Got.not_failed {f : Nat → LaneDir} {n : Nat} {cid data : Bytes} {key : String}
    {e : StorageError} (h : Got H w C cid ((List.range n).map f) data) (hnf : w.NoFaults) :
    ¬ GetFailed H w C cid ((List.range n).map f) key e := by
  obtain ⟨before, d, after, hds, hb, hr, hx, -⟩ := h
  obtain ⟨hlt, rfl, hbefore⟩ := map_range_eq_append hds
  rintro (⟨-, hall⟩ | ⟨-, before', d', after', hds', hb', hr'⟩ | ⟨-, hf⟩)
  · exact (hall _ (List.mem_map.2 ⟨_, List.mem_range.2 hlt, rfl⟩)).1 _ hx rfl
  · obtain ⟨-, rfl, hbefore'⟩ := map_range_eq_append hds'
    rcases Nat.lt_trichotomy before.length before'.length with hlt | heq | hlt
    · refine hb' (f before.length) ?_ _ hx rfl
      rw [hbefore']
      exact List.mem_map.2 ⟨_, List.mem_range.2 hlt, rfl⟩
    · rw [← heq] at hr'
      exact hr' hr
    · refine hr' (hb (f before'.length) ?_).2
      rw [hbefore]
      exact List.mem_map.2 ⟨_, List.mem_range.2 hlt, rfl⟩
  · exact hf hnf

theorem get_of_got (hS : StoreHolds (hashOf cr) st₀ w C) (hnf : w.NoFaults) {cid : Cid}
    {data : Bytes} (h : Got (hashOf cr) w C (cr.cidToBytes cid) (scannedLanes cr st cid) data) :
    (∃ v, has cr st cid w = .ok true v) ∧ ∃ v, get cr st cid w = .ok ⟨cid, data⟩ v := by
  constructor
  · obtain ⟨b, v, hb, -, ⟨rfl, -⟩ | ⟨-, e, he⟩⟩ := wp_total (has_spec cid hS) fun _ _ h => h
    · exact ⟨v, hb⟩
    · exact absurd he (h.not_failed hnf)
  · obtain ⟨b, v, hb, -, hcid, hgot⟩ := wp_total (get_spec cid hS) fun e w' he =>
      h.not_failed hnf he.2
    refine ⟨v, ?_⟩
    rw [hb, ← hcid, Got.unique hS h hgot]

/-- A block that the store returns is returned by the store opened again iff its CID has the same
directories. -/
theorem RunInv.reopened_get_iff (hi : RunInv cr st puts C w) (hnf : w.NoFaults) {cid : Cid}
    {data : Bytes} (hget : ∃ v, get cr st cid w = .ok ⟨cid, data⟩ v) :
    ((∃ v, has cr st' cid w = .ok true v) ∧ ∃ v, get cr st' cid w = .ok ⟨cid, data⟩ v) ↔
      SameDir (hashOf cr) st st' (cr.cidToBytes cid) := by
  obtain ⟨v, hget⟩ := hget
  obtain ⟨-, -, hgot⟩ := wp_ok (get_spec cid hi.holds) hget
  constructor
  · rintro ⟨-, v', hget'⟩
    obtain ⟨-, -, before, d, after, hds, -, -, hx, -⟩ := wp_ok (get_spec cid hi.holds) hget'
    obtain ⟨-, rfl, -⟩ := map_range_eq_append hds
    -- The item is in a directory of the first store.
    obtain ⟨b, -, hcid, -, hhome⟩ := hi.source _ _ hx
    rw [homeOf, hcid] at hhome
    exact (laneOf_eq_iff.1 hhome).2
  · intro hsame
    refine get_of_got hi.holds hnf ?_
    rw [scannedLanes_eq hsame]
    exact hgot

/-- Without deletions a CID that was put is kept. -/
theorem putAndKept_of_mem {batches : List (List Block)} {block : Block}
    (h : block ∈ batches.flatten) : putAndKept (batches.map .putMany) block.cid = true := by
  have hmono : ∀ (bs : List (List Block)) (kept : Bool),
      kept = true ∨ block ∈ bs.flatten →
      (bs.map Request.putMany).foldl (keptStep block.cid) kept = true := by
    intro bs
    induction bs with
    | nil => exact fun kept h => h.elim id fun h => absurd h List.not_mem_nil
    | cons blocks bs ih =>
      intro kept h
      refine ih _ ?_
      rw [keptStep, Bool.or_eq_true, List.any_eq_true]
      rw [List.flatten_cons, List.mem_append] at h
      rcases h with h | h | h
      · exact .inl (.inl h)
      · exact .inl (.inr ⟨block, h, decide_eq_true rfl⟩)
      · exact .inr h
  exact hmono batches false (.inr h)

/-- The store returns a block for every CID it has, if every lane reaches it. -/
theorem RunInv.exists_get (hi : RunInv cr st puts C w) (hnf : w.NoFaults) {cid : Cid}
    (hp : Present cr C cid) (hr : ReachesUpTo cr st cid deltaSizeClasses.length w) :
    ∃ data v, get cr st cid w = .ok ⟨cid, data⟩ v := by
  obtain ⟨d, x, hx, hxc⟩ := hp
  obtain ⟨b, -, hcid, -, hhome⟩ := hi.source d x hx
  rw [homeOf, hcid, hxc] at hhome
  subst hhome
  obtain ⟨b', v, hget, -, hb', -⟩ := wp_total (get_spec cid hi.holds) fun e w' he => by
    obtain ⟨-, ⟨-, hall⟩ | ⟨-, before, d', after, hds, -, hr'⟩ | ⟨-, hf⟩⟩ := he
    · exact (hall _ (List.mem_map.2 ⟨_, List.mem_range.2 (classForLen_lt _), rfl⟩)).1 x hx hxc
    · obtain ⟨hlt, rfl, -⟩ := map_range_eq_append hds
      exact hr' (hr _ (Nat.le_of_lt hlt))
    · exact hf hnf
  refine ⟨b'.data, v, ?_⟩
  rw [hget, ← hb']

end

/-- **Reopening.** After any puts that succeed on a store opened on an empty directory, the store
returns a block for every CID put, as long as the lanes give it a bucket. A store opened on the
same directory finds and returns such a block exactly when both lane counts give its CID the same
directories. -/
theorem reopen_iff (cr : Crates) (env env' : Env) {w₀ w : Disk} {batches : List (List Block)}
    (hnf : w₀.NoFaults) (hempty : ∀ p, w₀.files p = none)
    (hrun : runRequests cr (Store.open env) (batches.map .putMany) w₀ = .ok () w) :
    (∀ block ∈ batches.flatten,
      ReachesUpTo cr (Store.open env) block.cid deltaSizeClasses.length w →
      ∃ data v, get cr (Store.open env) block.cid w = .ok ⟨block.cid, data⟩ v) ∧
    ∀ cid data, (∃ v, get cr (Store.open env) cid w = .ok ⟨cid, data⟩ v) →
      (((∃ v, has cr (Store.open env') cid w = .ok true v) ∧
          ∃ v, get cr (Store.open env') cid w = .ok ⟨cid, data⟩ v) ↔
        SameDir (hashOf cr) (Store.open env) (Store.open env') (cr.cidToBytes cid)) := by
  have hinit : RunInv cr (Store.open env) [] (fun _ => []) w₀ := runInv_empty hempty
  have hstate : ∀ cid, w.NoFaults ∧ ∃ C, RunInv cr (Store.open env)
      ([] ++ putsOf (batches.map .putMany)) C w ∧
      (putAndKept (batches.map .putMany) cid = true → Present cr C cid) := by
    intro cid
    have hp₀ : false = true → Present cr (fun _ => []) cid := fun h => by cases h
    obtain ⟨hf, h⟩ := wp_ok (runRequests_present _ hinit hp₀) hrun
    refine ⟨?_, h⟩
    rw [World.NoFaults, hf]
    exact hnf
  refine ⟨fun block hblock hr => ?_, fun cid data hget => ?_⟩
  · obtain ⟨hnf', C, hi, hp⟩ := hstate block.cid
    exact hi.exists_get hnf' (hp (putAndKept_of_mem hblock)) hr
  · obtain ⟨hnf', C, hi, -⟩ := hstate cid
    exact hi.reopened_get_iff hnf' hget

theorem reopen_iff_sample : ∃ w,
    runRequests Crates.standard (Store.open { lanes := some 3 }) ([[helloBlock]].map .putMany)
      World.empty = .ok () w ∧
    (∀ block ∈ [[helloBlock]].flatten,
      ReachesUpTo Crates.standard (Store.open { lanes := some 3 }) block.cid
        deltaSizeClasses.length w →
      ∃ data v, get Crates.standard (Store.open { lanes := some 3 }) block.cid w =
        .ok ⟨block.cid, data⟩ v) ∧
    (∃ v, get Crates.standard (Store.open { lanes := some 3 }) helloBlock.cid w =
      .ok helloBlock v) ∧
    SameDir (hashOf Crates.standard) (Store.open { lanes := some 3 })
      (Store.open { lanes := some 4 }) (Crates.standard.cidToBytes helloBlock.cid) ∧
    (∃ v, has Crates.standard (Store.open { lanes := some 4 }) helloBlock.cid w = .ok true v) ∧
    ∃ v, get Crates.standard (Store.open { lanes := some 4 }) helloBlock.cid w =
      .ok helloBlock v := by
  obtain ⟨w, hput₃, -, -, -, hget⟩ := @runRequests_hello (laneStore 3) (by decide) (by decide)
  have hrun : runRequests Crates.standard (Store.open { lanes := some 3 })
      ([[helloBlock]].map .putMany) World.empty = .ok () w := hput₃
  obtain ⟨hput, hreopened⟩ := reopen_iff Crates.standard { lanes := some 3 } { lanes := some 4 }
    World.noFaults_empty (fun _ => rfl) hrun
  have hsame : SameDir (hashOf Crates.standard) (Store.open { lanes := some 3 })
      (Store.open { lanes := some 4 }) (Crates.standard.cidToBytes helloBlock.cid) :=
    .inr ⟨by decide, by decide, by decide +kernel⟩
  exact ⟨w, hrun, hput, hget, hsame, (hreopened _ _ hget).2 hsame⟩

/-- A store opened with one lane and then with two: the block is in the directory of its class, and
the second store looks for it in the directories of the lanes. -/
theorem reopen_loses_block : ∃ w,
    runRequests Crates.standard (laneStore 1) [.putMany [helloBlock]] World.empty = .ok () w ∧
    (∃ v, get Crates.standard (laneStore 1) helloBlock.cid w = .ok helloBlock v) ∧
    ¬ ((∃ v, has Crates.standard (laneStore 2) helloBlock.cid w = .ok true v) ∧
      ∃ v, get Crates.standard (laneStore 2) helloBlock.cid w = .ok helloBlock v) := by
  obtain ⟨w, hrun, hnf, -, -, hget⟩ := @runRequests_hello (laneStore 1) (by decide) (by decide)
  have hinit : RunInv Crates.standard (laneStore 1) [] (fun _ => []) World.empty :=
    runInv_empty fun _ => rfl
  obtain ⟨C, hi, -⟩ := (Run.of_runRequests _ hrun).inv hinit
  refine ⟨w, hrun, hget, fun hreopened => ?_⟩
  rcases (hi.reopened_get_iff hnf hget).1 hreopened with ⟨-, h⟩ | ⟨h, -, -⟩
  · exact absurd h (by decide)
  · exact absurd h (by decide)

end Storage.DeltaFlat
