import Neverust.BlockExc

/-!
# The requests a handler is given and those it makes

A handler has one slot for the block that it is to request, and `poll` empties it. What is in the
slot when the next `RequestBlock` arrives is gone (`lost`); everything else is requested once
(`run_perm`). So a handler that has nothing to do has made one request for each event exactly when
it was polled between any two events (`Spaced`).
-/

namespace BlockExc

open Storage CidBlake3

namespace BlockExcHandler

/-- What happens to a handler. -/
inductive Input
  | requestBlock (cid : Cid)
  | poll
  deriving Repr, DecidableEq

/-- The handler after an input, and the event that a poll gives. -/
def step (h : BlockExcHandler) : Input → Option HandlerEvent × BlockExcHandler
  | .requestBlock cid => (none, h.onBehaviourEvent cid)
  | .poll => h.poll

/-- The events that the polls give, and the handler after the inputs. -/
def run (h : BlockExcHandler) : List Input → List HandlerEvent × BlockExcHandler
  | [] => ([], h)
  | i :: is =>
    let (event, h) := h.step i
    let (events, h) := h.run is
    (event.toList ++ events, h)

/-- The CIDs of the `RequestBlock` events. -/
def delivered : List Input → List Cid
  | [] => []
  | .requestBlock cid :: is => cid :: delivered is
  | .poll :: is => delivered is

/-- Between two `RequestBlock` events there is a poll. -/
def Spaced : List Input → Prop :=
  List.IsChain fun i j => ∀ cid cid', ¬ (i = .requestBlock cid ∧ j = .requestBlock cid')

/-! ## The slot -/

/-- The CIDs that are requested, with `slot` in the slot. -/
def made : Option Cid → List Input → List Cid
  | _, [] => []
  | _, .requestBlock cid :: is => made (some cid) is
  | slot, .poll :: is => slot.toList ++ made none is

/-- The CIDs whose request is overwritten before it is made. -/
def lost : Option Cid → List Input → List Cid
  | _, [] => []
  | slot, .requestBlock cid :: is => slot.toList ++ lost (some cid) is
  | _, .poll :: is => lost none is

/-- What the slot has in the end. -/
def left : Option Cid → List Input → Option Cid
  | slot, [] => slot
  | _, .requestBlock cid :: is => left (some cid) is
  | _, .poll :: is => left none is

/-- Every event is requested, lost or still in the slot. -/
theorem delivered_perm : ∀ (is : List Input) (slot : Option Cid),
    (slot.toList ++ delivered is).Perm (made slot is ++ (lost slot is ++ (left slot is).toList))
  | [], slot => by simp [delivered, made, lost, left]
  | .requestBlock cid :: is, slot => by
    have ih := delivered_perm is (some cid)
    refine (ih.append_left slot.toList).trans ?_
    simp only [made, lost, left, List.append_assoc]
    rw [← List.append_assoc, ← List.append_assoc (made _ _)]
    exact List.perm_append_comm.append_right _
  | .poll :: is, slot => by
    have ih := delivered_perm is none
    simp only [delivered, made, lost, left, List.append_assoc]
    exact ih.append_left slot.toList

/-- Nothing is lost exactly if no event follows an event, or what the slot has before. -/
theorem lost_eq_nil_iff : ∀ (is : List Input) (slot : Option Cid),
    lost slot is = [] ↔
      Spaced is ∧ ∀ cid, is.head? = some (.requestBlock cid) → slot = none
  | [], slot => by simp [lost, Spaced]
  | [.requestBlock cid], slot => by simp [lost, Spaced]
  | .requestBlock cid :: j :: is, slot => by
    rw [lost, List.append_eq_nil_iff, lost_eq_nil_iff (j :: is) (some cid), Spaced,
      List.isChain_cons_cons]
    cases j with
    | requestBlock cid' => simp
    | poll => simp [and_comm]
  | [.poll], slot => by simp [lost, Spaced]
  | .poll :: j :: is, slot => by
    rw [lost, lost_eq_nil_iff (j :: is) none, Spaced, List.isChain_cons_cons]
    simp

/-! ## Runs -/

/-- A handler with a request to make has not made it. -/
def Ready (h : BlockExcHandler) : Prop := h.pendingRequest.isSome → h.outboundRequested = false

theorem ready_new : new.Ready := nofun

/-- A poll makes the request of the slot and empties it. -/
theorem Ready.poll_eq {h : BlockExcHandler} (hr : h.Ready) :
    h.poll.1 = h.pendingRequest.map .outboundSubstreamRequest ∧ h.poll.2.pendingRequest = none := by
  unfold poll
  cases hp : h.pendingRequest with
  | none => exact ⟨rfl, hp⟩
  | some cid =>
    have hf : h.outboundRequested = false := hr (by rw [hp]; rfl)
    simp [hf]

theorem Ready.step {h : BlockExcHandler} (hr : h.Ready) (i : Input) : (h.step i).2.Ready := by
  cases i with
  | requestBlock cid => exact fun _ => rfl
  | poll =>
    intro hs
    rw [BlockExcHandler.step, hr.poll_eq.2] at hs
    cases hs

/-- A run makes the requests that are not lost. -/
theorem Ready.run : ∀ (is : List Input) {h : BlockExcHandler}, h.Ready →
    (h.run is).2.Ready ∧
    (h.run is).1 = (made h.pendingRequest is).map .outboundSubstreamRequest ∧
    (h.run is).2.pendingRequest = left h.pendingRequest is
  | [], _, hr => ⟨hr, rfl, rfl⟩
  | .requestBlock cid :: is, h, hr => Ready.run is (hr.step (.requestBlock cid))
  | .poll :: is, h, hr => by
    obtain ⟨hready, hmade, hleft⟩ := Ready.run is (hr.step .poll)
    have hslot : (h.step .poll).2.pendingRequest = none := hr.poll_eq.2
    rw [hslot] at hmade hleft
    refine ⟨hready, ?_, hleft⟩
    change (h.step .poll).1.toList ++ ((h.step .poll).2.run is).1 = _
    rw [hmade, made, List.map_append]
    congr 1
    change h.poll.1.toList = _
    rw [hr.poll_eq.1]
    cases h.pendingRequest with
    | none => rfl
    | some cid => rfl

/-- **When no request is lost.** -/
theorem requests_made_iff (is : List Input) (hpending : (new.run is).2.poll.1 = none) :
    (new.run is).1.Perm ((delivered is).map .outboundSubstreamRequest) ↔ Spaced is := by
  obtain ⟨hready, hmade, hleft⟩ := Ready.run is ready_new
  have hslot : left none is = none := by
    change _ = left none is at hleft
    rw [hready.poll_eq.1, Option.map_eq_none_iff] at hpending
    rw [← hleft, hpending]
  have hperm : (delivered is).Perm (made none is ++ lost none is) := by
    simpa [hslot] using delivered_perm is none
  have hspaced : lost none is = [] ↔ Spaced is := by
    rw [lost_eq_nil_iff]
    simp
  change (new.run is).1 = (made none is).map _ at hmade
  rw [hmade, ← hspaced]
  constructor
  · intro h
    have hlen := h.length_eq
    rw [List.length_map, List.length_map, hperm.length_eq, List.length_append] at hlen
    exact List.length_eq_zero_iff.1 (by omega)
  · intro h
    rw [h, List.append_nil] at hperm
    exact (hperm.map _).symm

def firstCid : Cid := blockCid sha2256Code (List.replicate 32 1)

def secondCid : Cid := blockCid sha2256Code (List.replicate 32 2)

theorem requests_made_iff_sample :
    (new.run [.requestBlock firstCid, .poll, .requestBlock secondCid, .poll]).1.Perm
      [.outboundSubstreamRequest firstCid, .outboundSubstreamRequest secondCid] :=
  (requests_made_iff [.requestBlock firstCid, .poll, .requestBlock secondCid, .poll] rfl).2
    (by simp [Spaced])

/-- Two events between two polls: only the second is requested. -/
theorem first_request_lost :
    (new.run [.requestBlock firstCid, .requestBlock secondCid, .poll]).2.poll.1 = none ∧
    ¬ (new.run [.requestBlock firstCid, .requestBlock secondCid, .poll]).1.Perm
      [.outboundSubstreamRequest firstCid, .outboundSubstreamRequest secondCid] :=
  ⟨rfl, fun h => absurd h.length_eq (by decide)⟩

end BlockExcHandler

end BlockExc
