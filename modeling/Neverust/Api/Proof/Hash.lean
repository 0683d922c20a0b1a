import Neverust.Api.Upload
import Neverust.Lib.Slots

/-!
# The blocks of a batch

* `hashRawBlocksParallel_eq`: however many workers there are, the result is the list of the blocks
  of the raw data, in order.
* `fillSlots_eq`: the CIDs of a batch go into their own slots.
-/

namespace Api

open Rust Storage CidBlake3

/-- The SHA-256 block of raw data. -/
def shaBlock (cr : Crates) (data : Bytes) : Block :=
  { cid := blockCid sha2256Code (cr.sha256 data), data }

section
variable {cr : Crates}

@[simp] theorem shaBlock_data (data : Bytes) : (shaBlock cr data).data = data := rfl

theorem hashBlock_eq (hcr : cr.Standard) (data : Bytes) :
    hashBlock cr data = .ok (shaBlock cr data) := by
  rw [hashBlock, Block.newSha256_eq hcr]
  rfl

/-! ## Lanes -/

theorem mem_flatten_modify {α : Type} {p q : α} :
    ∀ {lanes : List (List α)} {j : Nat}, j < lanes.length →
      (p ∈ (lanes.modify j (· ++ [q])).flatten ↔ p ∈ lanes.flatten ∨ p = q)
  | l :: lanes, 0, _ => by
    simp only [List.modify_zero_cons, List.flatten_cons, List.mem_append, List.mem_singleton]
    tauto
  | l :: lanes, j + 1, h => by
    have ih := @mem_flatten_modify α p q lanes j (by simpa using h)
    simp only [List.modify_succ_cons, List.flatten_cons, List.mem_append, ih]
    tauto

theorem mem_dealFrom {workerCount : Nat} (hw : 0 < workerCount) {p : Nat × Bytes} :
    ∀ (ps : List (Bytes × Nat)) (lanes : List (List (Nat × Bytes))), lanes.length = workerCount →
      (p ∈ (ps.foldl (fun lanes p => lanes.modify (p.2 % workerCount) (· ++ [(p.2, p.1)]))
          lanes).flatten ↔ p ∈ lanes.flatten ∨ (p.2, p.1) ∈ ps)
  | [], lanes, _ => by simp
  | q :: ps, lanes, hl => by
    have hlt : q.2 % workerCount < lanes.length := by
      rw [hl]
      exact Nat.mod_lt _ hw
    have hswap : p = (q.2, q.1) ↔ (p.2, p.1) = q := by
      rw [Prod.ext_iff, Prod.ext_iff]
      exact and_comm
    rw [List.foldl_cons, mem_dealFrom hw ps _ (by rw [List.length_modify]; exact hl),
      mem_flatten_modify hlt, List.mem_cons, hswap]
    tauto

/-- The lanes hold each raw block once more, under its index. -/
theorem mem_dealLanes {workerCount : Nat} (hw : 0 < workerCount) {rawBlocks : List Bytes}
    {p : Nat × Bytes} :
    p ∈ (dealLanes workerCount rawBlocks).flatten ↔ rawBlocks[p.1]? = some p.2 := by
  rw [dealLanes, mem_dealFrom hw _ _ (List.length_replicate), List.mk_mem_zipIdx_iff_getElem?]
  simp

def hashedLane (cr : Crates) (lane : List (Nat × Bytes)) : List (Nat × Block) :=
  lane.map fun p => (p.1, shaBlock cr p.2)

theorem hashLane_eq (hcr : cr.Standard) (lane : List (Nat × Bytes)) :
    hashLane cr lane = .ok (hashedLane cr lane) := by
  apply mapM_ok
  intro p _
  rw [hashBlock_eq hcr]
  rfl

theorem placeLane_eq : placeLane = Slots.place := rfl

theorem mem_hashedLanes {workerCount : Nat} (hw : 0 < workerCount) {rawBlocks : List Bytes}
    {q : Nat × Block} :
    q ∈ ((dealLanes workerCount rawBlocks).map (hashedLane cr)).flatten ↔
      ∃ data, rawBlocks[q.1]? = some data ∧ q.2 = shaBlock cr data := by
  show q ∈ ((dealLanes workerCount rawBlocks).map
    (List.map fun p => (p.1, shaBlock cr p.2))).flatten ↔ _
  rw [← List.map_flatten, List.mem_map]
  constructor
  · rintro ⟨p, hp, rfl⟩
    exact ⟨p.2, (mem_dealLanes hw).1 hp, rfl⟩
  · rintro ⟨data, hd, hq⟩
    exact ⟨(q.1, data), (mem_dealLanes hw).2 hd, by rw [← hq]⟩

/-- The results of all lanes fill the places in the order of the raw blocks. -/
theorem place_hashedLanes {workerCount : Nat} (hw : 0 < workerCount) (rawBlocks : List Bytes) :
    ((dealLanes workerCount rawBlocks).map (hashedLane cr)).foldl placeLane
      (List.replicate rawBlocks.length none) = (rawBlocks.map (shaBlock cr)).map some := by
  rw [placeLane_eq, Slots.place_flatten]
  apply Slots.place_eq_map
  · rw [List.length_replicate, List.length_map]
  · intro q hq
    obtain ⟨data, hd, hq⟩ := (mem_hashedLanes hw).1 hq
    rw [List.getElem?_map, hd, hq]
    rfl
  · intro i hi
    rw [List.length_map] at hi
    have hq := (@mem_hashedLanes cr _ hw _ (i, shaBlock cr rawBlocks[i])).2
      ⟨_, List.getElem?_eq_getElem hi, rfl⟩
    exact List.mem_map.2 ⟨_, hq, rfl⟩

/-- **The workers do not show**: the result is the blocks of the raw data, in order. -/
theorem hashRawBlocksParallel_eq (hcr : cr.Standard) (rawBlocks : List Bytes) (workers : Nat) :
    hashRawBlocksParallel cr rawBlocks workers = .ok (rawBlocks.map (shaBlock cr)) := by
  unfold hashRawBlocksParallel
  by_cases h0 : rawBlocks.length = 0
  · rw [List.length_eq_zero_iff.1 h0]
    rfl
  · dsimp only
    rw [if_neg h0]
    generalize hw : min (max workers 1) rawBlocks.length = workerCount
    have hpos : 0 < workerCount := by omega
    have hlanes : (dealLanes workerCount rawBlocks).mapM (hashLane cr) =
        .ok ((dealLanes workerCount rawBlocks).map (hashedLane cr)) :=
      mapM_ok fun lane _ => hashLane_eq hcr lane
    split
    · exact mapM_ok fun data _ => hashBlock_eq hcr data
    · rw [hlanes]
      show List.mapM hashedBlock (List.foldl placeLane _ _) = _
      rw [place_hashedLanes hpos, List.mapM_map]
      exact (mapM_ok fun b _ => rfl).trans (congrArg _ (List.map_id _))

/-! ## Slots -/

/-- The slots a batch fills, with their CIDs. -/
def assignments (startIdx : Nat) (cids : List Cid) : List (Nat × Cid) :=
  cids.zipIdx.map fun p => (startIdx + p.2, p.1)

theorem mem_assignments {startIdx : Nat} {cids : List Cid} {q : Nat × Cid} :
    q ∈ assignments startIdx cids ↔ startIdx ≤ q.1 ∧ cids[q.1 - startIdx]? = some q.2 := by
  rw [assignments, List.mem_map]
  constructor
  · rintro ⟨⟨c, o⟩, hp, rfl⟩
    rw [List.mk_mem_zipIdx_iff_getElem?] at hp
    exact ⟨by simp, by simpa using hp⟩
  · rintro ⟨hle, hq⟩
    refine ⟨(q.2, q.1 - startIdx), List.mk_mem_zipIdx_iff_getElem?.2 hq, ?_⟩
    exact Prod.ext (by show startIdx + (q.1 - startIdx) = q.1; omega) rfl

theorem fillSlots_from {startIdx : Nat} :
    ∀ (cids : List Cid) (k : Nat) (slots : List (Option Cid)),
      startIdx + k + cids.length ≤ slots.length → slots.length < usizeSize →
      (cids.zipIdx k).foldlM
        (fun slots p => do
          let pos ← usizeAdd startIdx p.2
          if slots.length ≤ pos then .error (.err (.internal (.slotOutOfBounds pos slots.length)))
          else .ok (slots.set pos (some p.1))) slots =
        (.ok (Slots.place slots ((cids.zipIdx k).map fun p => (startIdx + p.2, p.1)))
          : Result ApiError _)
  | [], k, slots, _, _ => rfl
  | c :: cids, k, slots, hle, hlt => by
    rw [List.length_cons] at hle
    rw [List.zipIdx_cons, List.foldlM_cons, usizeAdd_of_lt (by show startIdx + k < _; omega), ok_bind,
      if_neg (by show ¬ slots.length ≤ startIdx + k; omega), ok_bind,
      fillSlots_from cids (k + 1) _ (by rw [List.length_set]; omega) (by rw [List.length_set]; exact hlt)]
    rfl

theorem fillSlots_eq {startIdx : Nat} {slots : List (Option Cid)} {cids : List Cid}
    (hle : startIdx + cids.length ≤ slots.length) (hlt : slots.length < usizeSize) :
    fillSlots startIdx slots cids = .ok (Slots.place slots (assignments startIdx cids)) :=
  fillSlots_from cids 0 slots hle hlt

end

end Api
