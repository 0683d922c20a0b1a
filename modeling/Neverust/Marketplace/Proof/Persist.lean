import Neverust.Marketplace

/-!
# A marketplace call whose state is not written down

`persist_locked` writes the temporary file and lets it take the place of the state file: if an
operation is refused (`Accepts` fails), the state file is what it was (`persistLocked_spec`). The
state in memory is not: it was changed before and is not changed back. So a call that fails leaves
everything as it was exactly when it failed a check, or its operations are not refused, or the
change was none (`Call.Recorded`).
-/

open Std (ExtTreeMap)

namespace Marketplace

open Io Rust

/-! ## Writing the state down -/

/-- The operations of `persist_locked`; no data is written without one. -/
def persistOps (data : Bytes) : List (IoOp MarketFile) :=
  .openFile .tmp :: (if data = [] then [] else [.write .tmp]) ++ [.rename .tmp]

/-- The file system refuses none of the operations that write `data` down. -/
def Accepts (d : Disk) (data : Bytes) : Prop :=
  data.length ≤ maxFileLen ∧ ∀ i < (persistOps data).length, d.faults (d.log.length + i) = none

theorem accepts_nil (d : Disk) :
    Accepts d [] ↔ d.fault = none ∧ d.faults (d.log.length + 1) = none := by
  have hlen : (persistOps []).length = 2 := rfl
  unfold Accepts World.fault
  rw [hlen]
  constructor
  · intro h
    exact ⟨h.2 0 (by decide), h.2 1 (by decide)⟩
  · rintro ⟨h0, h1⟩
    refine ⟨Nat.zero_le _, fun i hi => ?_⟩
    obtain rfl | rfl : i = 0 ∨ i = 1 := by omega
    · exact h0
    · exact h1

theorem accepts_of_ne {d : Disk} {data : Bytes} (hd : data ≠ []) :
    Accepts d data ↔ data.length ≤ maxFileLen ∧ d.fault = none ∧
      d.faults (d.log.length + 1) = none ∧ d.faults (d.log.length + 2) = none := by
  have hlen : (persistOps data).length = 3 := by simp [persistOps, hd]
  unfold Accepts World.fault
  rw [hlen]
  constructor
  · intro h
    exact ⟨h.1, h.2 0 (by decide), h.2 1 (by decide), h.2 2 (by decide)⟩
  · rintro ⟨hl, h0, h1, h2⟩
    refine ⟨hl, fun i hi => ?_⟩
    obtain rfl | rfl | rfl : i = 0 ∨ i = 1 ∨ i = 2 := by omega
    · exact h0
    · exact h1
    · exact h2

theorem Accepts.fault {d : Disk} {data : Bytes} (h : Accepts d data) : d.fault = none :=
  h.2 0 (by simp [persistOps])

/-- No data: the new temporary file is already what it is to be. -/
theorem persist_nil_spec (d : Disk) :
    wp (do writeFile .tmp []; rename .tmp .state : Prog MarketFile IoError Unit)
      (fun _ d' => Accepts d [] ∧ d'.files .state = some [])
      (fun _ d' => ¬ Accepts d [] ∧ d'.files .state = d.files .state) d := by
  have ha := accepts_nil d
  refine wp_bind (wp_bind (wp_createFile (fun h0 => ?_) fun h0 => ⟨fun h => h0 h.fault, rfl⟩))
  refine wp_of_ok rfl (wp_rename (fun h1 => ?_) fun h1 => ?_)
  · exact ⟨ha.2 ⟨h0, by simpa [World.fault] using h1⟩, rfl⟩
  · exact ⟨fun h => h1 (by simpa [World.fault] using (ha.1 h).2), rfl⟩

theorem persist_spec (data : Bytes) (d : Disk) :
    wp (do writeFile .tmp data; rename .tmp .state : Prog MarketFile IoError Unit)
      (fun _ d' => Accepts d data ∧ d'.files .state = some data)
      (fun _ d' => ¬ Accepts d data ∧ d'.files .state = d.files .state) d := by
  by_cases hne : data = []
  · rw [hne]
    exact persist_nil_spec d
  have ha := accepts_of_ne (d := d) hne
  refine wp_bind (wp_bind (wp_createFile (fun h0 => ?_) fun h0 => ⟨fun h => h0 h.fault, rfl⟩))
  refine wp_writeAllAt (fun hnil => absurd hnil hne) (fun _ hlen h1 => ?_) (fun hbig => ?_)
    fun k h1 _ => ?_
  · refine wp_rename (fun h2 => ?_) fun h2 => ?_
    · refine ⟨ha.2 ⟨by omega, h0, by simpa [World.fault] using h1,
        by simpa [World.fault] using h2⟩, ?_⟩
      simpa [World.setFile, World.content] using Bytes.writeAt_length [] data
    · exact ⟨fun h => h2 (by simpa [World.fault] using (ha.1 h).2.2.2), rfl⟩
  · refine ⟨fun h => ?_, rfl⟩
    have := h.1
    omega
  · refine ⟨fun h => ?_, rfl⟩
    have hf : d.faults (d.log.length + 1) = some k := by simpa [World.fault] using h1
    rw [(ha.1 h).2.2.1] at hf
    cases hf

variable (encode : StateJson → Bytes)

/-- The state file has the new state, or an operation was refused and it has what it had. -/
theorem persistLocked_spec (state : MarketplaceStateFile) (d : Disk) :
    wp (persistLocked encode state)
      (fun _ d' => Accepts d (encode state.toJson) ∧ d'.files .state = some (encode state.toJson))
      (fun _ d' => ¬ Accepts d (encode state.toJson) ∧ d'.files .state = d.files .state) d :=
  persist_spec _ d

/-! ## A call that fails -/

/-- The change a call makes is already there. -/
def Call.Recorded : Call → MarketplaceStateFile → Prop
  | setAvailability input defaultTotalSize now, s =>
    s.availability = some (.ofInput input defaultTotalSize now)
  | reserveRequest cid request slotSize clientEthAddress ids, s =>
    let record := requestRecord cid request slotSize clientEthAddress ids
    s.nextSlotIndex.toNat = 2 ^ 64 - 1 ∧
    s.purchases[ids.requestId]? =
      some { requestId := ids.requestId, request := record, state := .submitted, error := none } ∧
    (s.availability.isSome → s.slots[ids.slotId]? =
      some { id := ids.slotId, state := .downloading, requestId := ids.requestId,
             slotIndex := s.nextSlotIndex, request := record })

theorem insert_eq_self {β : Type} (t : ExtTreeMap String β) (k : String) (v : β) :
    t.insert k v = t ↔ t[k]? = some v := by
  constructor
  · intro h
    rw [← h]
    simp
  · intro h
    refine ExtTreeMap.ext_getElem? fun k' => ?_
    rw [ExtTreeMap.getElem?_insert]
    split
    · rename_i hk
      rw [← Std.LawfulEqOrd.eq_of_compare hk, h]
    · rfl

theorem saturatingAdd64_one_eq_self (a : UInt64) :
    saturatingAdd64 a 1 = a ↔ a.toNat = 2 ^ 64 - 1 := by
  have hlt := a.toNat_lt
  rw [← UInt64.toNat_inj, saturatingAdd64,
    UInt64.toNat_ofNat_of_lt' (show min _ _ < 2 ^ 64 by omega)]
  omega

theorem Call.update_eq_self (c : Call) (s : MarketplaceStateFile) :
    c.update s = s ↔ c.Recorded s := by
  cases c with
  | setAvailability input size now =>
    cases s
    simp [update, Recorded, eq_comm]
  | reserveRequest cid request slotSize client ids =>
    obtain ⟨availability, purchases, slots, next⟩ := s
    simp only [update, Recorded, MarketplaceStateFile.mk.injEq, true_and, insert_eq_self,
      saturatingAdd64_one_eq_self]
    cases availability with
    | none => simp [and_comm]
    | some a =>
      simp only [Option.isSome_some, if_true, insert_eq_self, forall_const]
      tauto

/-- What a call that passes its checks does. -/
theorem Call.run_of_check {c : Call} (hc : c.check = .ok ()) (s : MarketplaceStore) :
    (∃ d, c.run encode s = (.ok (), ⟨c.update s.inner, d⟩) ∧
      Accepts s.disk (encode (c.update s.inner).toJson) ∧
      d.files .state = some (encode (c.update s.inner).toJson)) ∨
    (∃ e d, c.run encode s = (.error e, ⟨c.update s.inner, d⟩) ∧
      ¬ Accepts s.disk (encode (c.update s.inner).toJson) ∧
      d.files .state = s.disk.files .state) := by
  have hspec := persistLocked_spec encode (c.update s.inner) s.disk
  unfold run
  rw [hc]
  dsimp only
  cases hp : persistLocked encode (c.update s.inner) s.disk with
  | ok u d => exact .inl ⟨d, rfl, wp_ok hspec hp⟩
  | error e d => exact .inr ⟨c.persistError e, d, rfl, wp_error hspec hp⟩

/-- **When a failing call changes nothing.** -/
theorem run_atomic_iff (c : Call) (s : MarketplaceStore) :
    (∀ e s', c.run encode s = (.error e, s') →
      s'.inner = s.inner ∧ s'.disk.files .state = s.disk.files .state) ↔
    (∃ e, c.check = .error e) ∨ Accepts s.disk (encode (c.update s.inner).toJson) ∨
      c.Recorded s.inner := by
  cases hc : c.check with
  | error e =>
    refine iff_of_true (fun e' s' h => ?_) (.inl ⟨e, rfl⟩)
    simp only [Call.run, hc, Prod.mk.injEq] at h
    rw [← h.2]
    exact ⟨rfl, rfl⟩
  | ok u =>
    rw [← Call.update_eq_self]
    obtain ⟨d, hr, ha, -⟩ | ⟨e, d, hr, ha, hd⟩ := Call.run_of_check encode hc s
    · refine iff_of_true (fun e' s' h => ?_) (.inr (.inl ha))
      rw [hr] at h
      cases h
    · constructor
      · intro h
        exact .inr (.inr (h _ _ hr).1)
      · rintro (⟨e', he⟩ | h | h) e' s' hs'
        · cases he
        · exact absurd h ha
        · rw [hr] at hs'
          cases hs'
          exact ⟨h, hd⟩

def sampleCall : Call := .setAvailability ⟨"5", "9", 3600, some 0⟩ 2048 1700000000

/-- The state file after `sampleCall` on an empty state. -/
def sampleText : Bytes :=
  "\x7b
  \"availability\": \x7b
    \"minimumPricePerBytePerSecond\": \"5\",
    \"maximumCollateralPerByte\": \"9\",
    \"maximumDuration\": 3600,
    \"availableUntil\": 0
  \x7d,
  \"purchases\": \x7b\x7d,
  \"slots\": \x7b\x7d,
  \"nextSlotIndex\": 0
\x7d".toUTF8.data.toList

theorem sampleText_ne_nil : sampleText ≠ [] := by decide +kernel

/-- An empty disk on which the rename of the temporary file fails. -/
def renameFails : Disk := { World.empty with faults := fun n => if n = 2 then some 0 else none }

/-- The availability that could not be stored stays in memory. -/
theorem failed_availability_kept :
    ¬ ∀ e s', sampleCall.run (fun _ => sampleText) ⟨.default, renameFails⟩ = (.error e, s') →
      s'.inner = .default ∧ s'.disk.files .state = none := by
  intro h
  obtain ⟨d, -, ha, -⟩ | ⟨e, d, hr, -⟩ := Call.run_of_check (fun _ => sampleText)
    (c := sampleCall) (by decide) ⟨.default, renameFails⟩
  · have hf := ((accepts_of_ne sampleText_ne_nil).1 ha).2.2.2
    cases hf
  · have hi := (h e _ hr).1
    cases hi

end Marketplace
