import Neverust.Marketplace.Proof.Persist

/-!
# What a restart finds of the marketplace

The state file does not have the size and the time of an availability, so a state comes back from it
exactly when these are zero (`toState_toJson_iff`). They are zero after `open`, no reservation
changes them and no availability that was set has size zero: the state comes back exactly when no
availability was set. A file that does not parse is never reported.
-/

open Std (ExtTreeMap)

namespace Marketplace

open Io Rust

/-! ## Opening -/

section
variable (decode : Bytes → Option StateJson)

/-- The state `open` finds on a disk. -/
def stateOn (d : Disk) : MarketplaceStateFile :=
  match d.files .state with
  | none => .default
  | some bytes => ((decode bytes).map StateJson.toState).getD .default

/-- The operations of `open`; only a file that is there is read. -/
def openOps (d : Disk) : List (IoOp MarketFile) :=
  .createDir :: .openFile .state :: if (d.files .state).isSome then [.read .state] else []

/-- The file system refuses none of them. -/
def Opens (d : Disk) : Prop := ∀ i < (openOps d).length, d.faults (d.log.length + i) = none

theorem opens_none {d : Disk} (hd : d.files .state = none) :
    Opens d ↔ d.fault = none ∧ d.faults (d.log.length + 1) = none := by
  have hlen : (openOps d).length = 2 := by simp [openOps, hd]
  unfold Opens World.fault
  rw [hlen]
  constructor
  · intro h
    exact ⟨h 0 (by decide), h 1 (by decide)⟩
  · rintro ⟨h0, h1⟩ i hi
    obtain rfl | rfl : i = 0 ∨ i = 1 := by omega
    · exact h0
    · exact h1

theorem opens_some {d : Disk} {bytes : Bytes} (hd : d.files .state = some bytes) :
    Opens d ↔ d.fault = none ∧ d.faults (d.log.length + 1) = none ∧
      d.faults (d.log.length + 2) = none := by
  have hlen : (openOps d).length = 3 := by simp [openOps, hd]
  unfold Opens World.fault
  rw [hlen]
  constructor
  · intro h
    exact ⟨h 0 (by decide), h 1 (by decide), h 2 (by decide)⟩
  · rintro ⟨h0, h1, h2⟩ i hi
    obtain rfl | rfl | rfl : i = 0 ∨ i = 1 ∨ i = 2 := by omega
    · exact h0
    · exact h1
    · exact h2

theorem Opens.fault {d : Disk} (h : Opens d) : d.fault = none := h 0 (by simp [openOps])

theorem Opens.fault_one {d : Disk} (h : Opens d) : d.faults (d.log.length + 1) = none :=
  h 1 (by simp [openOps])

/-- The state of the file, or an operation was refused. -/
theorem openStore_spec (d : Disk) :
    wp (openStore decode)
      (fun s d' => Opens d ∧ s = stateOn decode d ∧ d'.files = d.files ∧ d'.faults = d.faults)
      (fun _ _ => ¬ Opens d) d := by
  refine wp_bind (wp_attempt_fault (fun h0 => ?_) fun h0 h => h0 h.fault)
  refine wp_bind (wp_bind (wp_captured (wp_readFile (fun c h1 hc h2 => ?_) (fun h1 hc => ?_)
    (fun h1 h => h1 ?_) fun h1 hc h2 h => h2 ?_)))
  · have hc' : d.files .state = some c := hc
    refine wp_pure (wp_pure ⟨(opens_some hc').2 ⟨h0, ?_, ?_⟩, ?_, rfl, rfl⟩)
    · simpa [World.fault] using h1
    · simpa [World.fault] using h2
    · rw [stateOn, hc']
  · have hc' : d.files .state = none := hc
    refine wp_pure (wp_pure ⟨(opens_none hc').2 ⟨h0, ?_⟩, ?_, rfl, rfl⟩)
    · simpa [World.fault] using h1
    · rw [stateOn, hc']
  · simpa [World.fault] using h.fault_one
  · obtain ⟨c, hc⟩ := Option.ne_none_iff_exists'.1 hc
    have hc' : d.files .state = some c := hc
    simpa [World.fault] using ((opens_some hc').1 h).2.2

theorem openStore_ok {d d' : Disk} {s : MarketplaceStateFile}
    (h : openStore decode d = .ok s d') :
    s = stateOn decode d ∧ d'.files = d.files ∧ d'.faults = d.faults :=
  (wp_ok (openStore_spec decode d) h).2

theorem openStore_of_noFaults {d : Disk} (h : d.NoFaults) :
    ∃ d', openStore decode d = .ok (stateOn decode d) d' := by
  have hopens : Opens d := fun _ _ => h _
  obtain ⟨s, d', hs, -, rfl, -⟩ := wp_total (wp_mono (openStore_spec decode d)
    (fun _ _ hq => hq) fun _ _ he => absurd hopens he) fun _ _ hf => hf
  exact ⟨d', hs⟩

/-- `open` fails only by an operation that is refused. -/
theorem openStore_error_iff (d : Disk) :
    (∃ e d', openStore decode d = .error e d') ↔ ¬ Opens d := by
  cases h : openStore decode d with
  | ok s d' => simp [(wp_ok (openStore_spec decode d) h).1]
  | error e d' => simp [wp_error (openStore_spec decode d) h]

end

/-! ## What the file does not have -/

/-- The availability has a size or a time, which the file does not have. -/
def Lossy (s : MarketplaceStateFile) : Prop :=
  ∃ a, s.availability = some a ∧ (a.totalSize ≠ 0 ∨ a.updatedAt ≠ 0)

theorem toState_toJson_iff (s : MarketplaceStateFile) : s.toJson.toState = s ↔ ¬ Lossy s := by
  obtain ⟨availability, purchases, slots, next⟩ := s
  cases availability with
  | none => simp [Lossy, MarketplaceStateFile.toJson, StateJson.toState]
  | some a =>
    obtain ⟨size, price, collateral, duration, untl, time⟩ := a
    simp [Lossy, MarketplaceStateFile.toJson, StateJson.toState, SaleAvailabilityRecord.toJson,
      AvailabilityJson.toRecord, eq_comm]

theorem not_lossy_toState (j : StateJson) : ¬ Lossy j.toState := by
  rintro ⟨a, ha, h⟩
  obtain ⟨b, -, rfl⟩ := Option.map_eq_some_iff.1 ha
  rcases h with h | h
  · exact h rfl
  · exact h rfl

theorem not_lossy_stateOn (decode : Bytes → Option StateJson) (d : Disk) :
    ¬ Lossy (stateOn decode d) := by
  have hdefault : ¬ Lossy .default := by rintro ⟨a, ha, -⟩; cases ha
  unfold stateOn
  split
  · exact hdefault
  · rename_i bytes _
    cases decode bytes with
    | none => exact hdefault
    | some j => exact not_lossy_toState j

def Call.IsSetAvailability : Call → Prop
  | setAvailability .. => True
  | reserveRequest .. => False

theorem checkAvailability_ok {input : SaleAvailabilityInput} {size : UInt64}
    (h : checkAvailability input size = .ok ()) : size ≠ 0 := by
  rintro rfl
  rw [checkAvailability, if_pos rfl] at h
  cases h

theorem Call.lossy_update {c : Call} (hc : c.check = .ok ()) (s : MarketplaceStateFile) :
    Lossy (c.update s) ↔ c.IsSetAvailability ∨ Lossy s := by
  cases c with
  | setAvailability input size now =>
    exact iff_of_true ⟨_, rfl, .inl (checkAvailability_ok hc)⟩ (.inl trivial)
  | reserveRequest cid request slotSize client ids => simp [Lossy, update, IsSetAvailability]

/-! ## Calls that succeed -/

section
variable {encode : StateJson → Bytes}

theorem Call.run_ok {c : Call} {s s' : MarketplaceStore} (h : c.run encode s = (.ok (), s')) :
    c.check = .ok () ∧ s'.inner = c.update s.inner ∧
      s'.disk.files .state = some (encode s'.inner.toJson) := by
  cases hc : c.check with
  | error e =>
    simp only [run, hc, Prod.mk.injEq] at h
    cases h.1
  | ok u =>
    obtain ⟨d, hr, -, hd⟩ | ⟨e, d, hr, -⟩ := Call.run_of_check encode hc s
    · rw [hr] at h
      cases h
      exact ⟨rfl, rfl, hd⟩
    · rw [hr] at h
      cases h

theorem runAll_cons {s s' : MarketplaceStore} {c : Call} {calls : List Call}
    (h : runAll encode s (c :: calls) = some s') :
    ∃ t, c.run encode s = (.ok (), t) ∧ runAll encode t calls = some s' := by
  rw [runAll] at h
  split at h
  · rename_i t hr
    exact ⟨t, hr, h⟩
  · cases h

/-- After the calls the file has the state, and it is lossy if an availability was set. -/
theorem runAll_spec : ∀ {calls : List Call} {s s' : MarketplaceStore},
    runAll encode s calls = some s' →
    (calls = [] ∧ s' = s ∨ s'.disk.files .state = some (encode s'.inner.toJson)) ∧
      (Lossy s'.inner ↔ (∃ c ∈ calls, c.IsSetAvailability) ∨ Lossy s.inner)
  | [], s, s', h => by
    cases h
    simp
  | c :: calls, s, s', h => by
    obtain ⟨t, hr, ht⟩ := runAll_cons h
    obtain ⟨hc, hi, hd⟩ := Call.run_ok hr
    obtain ⟨hfile, hlossy⟩ := runAll_spec ht
    refine ⟨.inr ?_, ?_⟩
    · obtain ⟨-, rfl⟩ | hfile := hfile
      · exact hd
      · exact hfile
    · rw [hlossy, hi, Call.lossy_update hc, ← or_assoc]
      simp [or_comm]

end

section
variable (encode : StateJson → Bytes) (decode : Bytes → Option StateJson)

/-- The state found after the calls is the one in memory exactly if the file has all of it. -/
theorem stateOn_runAll {d₀ : Disk} {s : MarketplaceStore} {calls : List Call} {d₁ : Disk}
    (hd : d₁.files = d₀.files) (hrun : runAll encode ⟨stateOn decode d₀, d₁⟩ calls = some s)
    (hcodec : decode (encode s.inner.toJson) = some s.inner.toJson) :
    stateOn decode s.disk = s.inner ↔ ¬ Lossy s.inner := by
  obtain ⟨hfile, -⟩ := runAll_spec hrun
  obtain ⟨-, rfl⟩ | hfile := hfile
  · refine iff_of_true ?_ (not_lossy_stateOn decode d₀)
    simp only [stateOn, hd]
  · rw [← toState_toJson_iff, stateOn, hfile]
    simp [hcodec]

/-- **When a restart finds the state, and when a file that does not parse is reported.** -/
theorem restart_iff :
    (∀ (d₀ d₁ : Disk) (s₀ : MarketplaceStateFile) (calls : List Call) (s : MarketplaceStore),
      openStore decode d₀ = .ok s₀ d₁ → runAll encode ⟨s₀, d₁⟩ calls = some s →
      decode (encode s.inner.toJson) = some s.inner.toJson →
      ((∃ d, openStore decode s.disk.healed = .ok s.inner d) ↔
        ∀ c ∈ calls, ¬ c.IsSetAvailability)) ∧
    (∀ (d : Disk) (content : Bytes), d.files .state = some content → decode content = none →
      ((∃ e d', openStore decode d = .error e d') ↔ ¬ Opens d)) := by
  refine ⟨fun d₀ d₁ s₀ calls s hopen hrun hcodec => ?_, fun d _ _ _ => openStore_error_iff decode d⟩
  obtain ⟨rfl, hd, -⟩ := openStore_ok decode hopen
  have hfound := stateOn_runAll encode decode hd hrun hcodec
  have hlossy := (runAll_spec hrun).2
  have hiff : Lossy s.inner ↔ ∃ c ∈ calls, c.IsSetAvailability := by
    rw [hlossy]
    simp [not_lossy_stateOn decode d₀]
  obtain ⟨d', hre⟩ := openStore_of_noFaults decode s.disk.noFaults_healed
  have hstate : stateOn decode s.disk.healed = stateOn decode s.disk := rfl
  rw [hre, hstate]
  constructor
  · rintro ⟨d, hs⟩
    injection hs with hs
    have := hfound.1 hs
    rw [hiff] at this
    simpa using this
  · intro h
    exact ⟨d', by rw [hfound.2 (by rw [hiff]; simpa using h)]⟩

end

/-! ## One availability -/

def sampleState : MarketplaceStateFile := sampleCall.update .default

/-- What `serde_json` reads of `sampleText`, and of a file that is cut off. -/
def sampleDecode (bytes : Bytes) : Option StateJson :=
  if bytes = sampleText then some sampleState.toJson else none

theorem sampleDecode_sampleText : sampleDecode sampleText = some sampleState.toJson := if_pos rfl

theorem sampleRun (s : MarketplaceStore) (hs : s.inner = .default) (hf : s.disk.NoFaults) :
    ∃ d, runAll (fun _ => sampleText) s [sampleCall] = some ⟨sampleState, d⟩ := by
  have hcheck : sampleCall.check = .ok () := by decide
  obtain ⟨d, hr, -⟩ | ⟨e, d, -, ha, -⟩ := Call.run_of_check (fun _ => sampleText) hcheck s
  · refine ⟨d, ?_⟩
    rw [runAll, hr, hs]
    rfl
  · refine absurd ?_ ha
    exact (accepts_of_ne sampleText_ne_nil).2 ⟨by decide +kernel, hf _, hf _, hf _⟩

/-- A disk whose state file was cut off after its first byte. -/
def cutOff : Disk := World.empty.setFile .state (sampleText.take 1)

theorem sampleDecode_cutOff : sampleDecode (sampleText.take 1) = none := by decide +kernel

/-- The availability that was set is not the one found after a restart, and a file that was cut off
is opened as an empty state. -/
theorem availability_lost_at_restart :
    (∃ d₁ s, openStore sampleDecode World.empty = .ok .default d₁ ∧
      runAll (fun _ => sampleText) ⟨.default, d₁⟩ [sampleCall] = some s ∧
      sampleDecode sampleText = some s.inner.toJson ∧
      ¬ ∃ d, openStore sampleDecode s.disk.healed = .ok s.inner d) ∧
    cutOff.files .state = some (sampleText.take 1) ∧ sampleDecode (sampleText.take 1) = none ∧
      ∃ d, openStore sampleDecode cutOff = .ok .default d := by
  obtain ⟨d₁, hopen⟩ := openStore_of_noFaults sampleDecode World.noFaults_empty
  obtain ⟨-, hd, hfaults⟩ := openStore_ok sampleDecode hopen
  have hf : d₁.NoFaults := fun n => by rw [hfaults]; rfl
  obtain ⟨d₂, hrun⟩ := sampleRun ⟨.default, d₁⟩ rfl hf
  refine ⟨⟨d₁, _, hopen, hrun, sampleDecode_sampleText, ?_⟩, rfl, sampleDecode_cutOff, ?_⟩
  · rintro ⟨d, h⟩
    have hfound := stateOn_runAll (fun _ => sampleText) sampleDecode hd hrun
      sampleDecode_sampleText
    have hlossy : Lossy sampleState := ⟨_, rfl, .inl (by decide)⟩
    exact hfound.1 (openStore_ok sampleDecode h).1.symm hlossy
  · have hdefault : stateOn sampleDecode cutOff = .default := by
      have hfile : cutOff.files .state = some (sampleText.take 1) := rfl
      rw [stateOn, hfile]
      simp [sampleDecode_cutOff]
    rw [← hdefault]
    exact openStore_of_noFaults sampleDecode fun _ => rfl

theorem restart_iff_sample :
    ∃ d₁ s, (openStore sampleDecode World.empty = .ok .default d₁ ∧
      runAll (fun _ => sampleText) ⟨.default, d₁⟩ [sampleCall] = some s ∧
      ((∃ d, openStore sampleDecode s.disk.healed = .ok s.inner d) ↔
        ∀ c ∈ [sampleCall], ¬ c.IsSetAvailability)) ∧
      ((∃ e d', openStore sampleDecode cutOff = .error e d') ↔ ¬ Opens cutOff) := by
  obtain ⟨d₁, hopen⟩ := openStore_of_noFaults sampleDecode World.noFaults_empty
  obtain ⟨-, hd, hfaults⟩ := openStore_ok sampleDecode hopen
  obtain ⟨d₂, hrun⟩ := sampleRun ⟨.default, d₁⟩ rfl fun n => by rw [hfaults]; rfl
  obtain ⟨hstate, hfile⟩ := restart_iff (fun _ => sampleText) sampleDecode
  exact ⟨d₁, _, ⟨hopen, hrun, hstate _ _ _ _ _ hopen hrun sampleDecode_sampleText⟩,
    hfile cutOff _ rfl sampleDecode_cutOff⟩

end Marketplace
