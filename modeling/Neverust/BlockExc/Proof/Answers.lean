import Neverust.BlockExc.Exchange
import Neverust.Storage.Redb

/-!
# The answers of the block exchange

The behaviour answers a request when a `BlockReceived` event reaches it, and no handler ever
reports one: `poll` only asks for streams, and the task of a stream stores the block without telling
the handler. So no request is ever answered (`Silent`), and the requests for the blocks that were
stored are answered exactly if there are none.
-/

namespace BlockExc.Exchange

open Storage Request CidBlake3

variable {Peer : Type} [DecidableEq Peer] {B : Backend} {cr : Crates}

/-! ## Nothing is reported -/

/-- Nothing is on its way to the behaviour or to a client, and nothing was sent. -/
structure Silent (s : Exchange Peer B) : Prop where
  reported : s.reported = []
  answering : s.answering = []
  sent : s.sent = []

omit [DecidableEq Peer] in
theorem silent_start (store : B.State) : (start store : Exchange Peer B).Silent := ⟨rfl, rfl, rfl⟩

omit [DecidableEq Peer] in
theorem Silent.handlePoll {s : Exchange Peer B} (hs : s.Silent) (h : BlockExcHandler) :
    (s.handlePoll h.poll.1).Silent := by
  cases he : h.poll.1 with
  | none => exact hs
  | some e =>
    cases e with
    | outboundSubstreamRequest cid => exact ⟨hs.reported, hs.answering, hs.sent⟩
    | notifyBehaviour event => exact absurd he (h.poll_ne_notify event)

theorem Silent.step {s s' : Exchange Peer B} (hs : s.Silent) {e : ExchangeEvent Peer}
    (h : s.step cr e = some s') : s'.Silent := by
  cases e with
  | request cid =>
    cases h
    exact ⟨hs.reported, hs.answering, hs.sent⟩
  | connect peer =>
    cases h
    exact ⟨hs.reported, hs.answering, hs.sent⟩
  | close i =>
    obtain ⟨c, -, h⟩ := Option.bind_eq_some_iff.1 h
    cases h
    exact ⟨hs.reported, hs.answering, hs.sent⟩
  | poll order =>
    obtain ⟨u, -, h⟩ := Option.bind_eq_some_iff.1 h
    cases h
    exact ⟨hs.reported, hs.answering, hs.sent⟩
  | deliver k i =>
    obtain ⟨event, -, h⟩ := Option.bind_eq_some_iff.1 h
    obtain ⟨c, -, h⟩ := Option.bind_eq_some_iff.1 h
    obtain ⟨u, -, h⟩ := Option.bind_eq_some_iff.1 h
    cases h
    exact ⟨hs.reported, hs.answering, hs.sent⟩
  | drop k =>
    obtain ⟨event, -, h⟩ := Option.bind_eq_some_iff.1 h
    obtain ⟨u, -, h⟩ := Option.bind_eq_some_iff.1 h
    cases h
    exact ⟨hs.reported, hs.answering, hs.sent⟩
  | pollHandler i =>
    obtain ⟨c, -, h⟩ := Option.bind_eq_some_iff.1 h
    cases h
    refine Silent.handlePoll ?_ _
    exact ⟨hs.reported, hs.answering, hs.sent⟩
  | negotiated k sent frames =>
    obtain ⟨cid, -, h⟩ := Option.bind_eq_some_iff.1 h
    cases h
    exact ⟨hs.reported, hs.answering, hs.sent⟩
  | upgradeError k =>
    obtain ⟨u, -, h⟩ := Option.bind_eq_some_iff.1 h
    cases h
    exact ⟨hs.reported, hs.answering, hs.sent⟩
  | stream k =>
    obtain ⟨task, -, h⟩ := Option.bind_eq_some_iff.1 h
    obtain ⟨t, -, h⟩ := Option.bind_eq_some_iff.1 h
    cases h
    exact ⟨hs.reported, hs.answering, hs.sent⟩
  | report =>
    simp only [Exchange.step, hs.reported] at h
    cases h
  | answer k =>
    obtain ⟨a, ha, -⟩ := Option.bind_eq_some_iff.1 h
    rw [hs.answering] at ha
    cases ha
  | storeTask k =>
    obtain ⟨task, -, h⟩ := Option.bind_eq_some_iff.1 h
    obtain ⟨t, -, h⟩ := Option.bind_eq_some_iff.1 h
    cases h
    exact ⟨hs.reported, hs.answering, hs.sent⟩

theorem Silent.run : ∀ (es : List (ExchangeEvent Peer)) {s s' : Exchange Peer B}, s.Silent →
    s.run cr es = some s' → s'.Silent
  | [], _, _, hs, h => by cases h; exact hs
  | e :: es, s, s', hs, h => by
    obtain ⟨t, ht, h⟩ := Option.bind_eq_some_iff.1 h
    exact Silent.run es (hs.step ht) h

/-- **When the requests for what was stored are answered.** -/
theorem answered_iff (cr : Crates) (store : B.State) (es : List (ExchangeEvent Peer))
    {s : Exchange Peer B} (hrun : (start store).run cr es = some s) :
    s.Answered ↔ ∀ r ∈ s.requests, r.cid ∉ s.stored := by
  have hs := Silent.run es (silent_start store) hrun
  constructor
  · intro h r hr hstored
    obtain ⟨block, -, hsent⟩ := h r hr hstored
    rw [hs.sent] at hsent
    cases hsent
  · intro h r hr hstored
    exact absurd hstored (h r hr)

/-! ## A request whose block arrives -/

/-- A client asks for a block and the only peer gets the request: the frames are what it sends. -/
def requestRun (cid : Cid) (frames : List (Option Message)) : List (ExchangeEvent Nat) :=
  [.connect 7, .request cid, .poll [7], .deliver 0 0, .pollHandler 0, .negotiated 0 true frames]

/-- The exchange after `requestRun`, with the task of the stream. -/
def opened (store : B.State) (cid : Cid) (task : Stream) : Exchange Nat B :=
  { start store with
    behaviour :=
      { requestRx := [], connectedPeers := [7], pendingEvents := []
        pendingRequests := fun c => if c = cid then some ⟨cid, 0⟩ else none }
    connections := [(7, ⟨none, true, false⟩)]
    streams := [task]
    requests := [⟨cid, 0⟩] }

theorem run_requestRun (store : B.State) (cid : Cid) (frames : List (Option Message))
    (es : List (ExchangeEvent Nat)) :
    (start store).run cr (requestRun cid frames ++ es) =
      (opened store cid (outboundStream cr cid true frames)).run cr es := rfl

def helloBlock : Block :=
  { cid := blockCid blake3Code (Crates.standard.blake3 [1, 2, 3]), data := [1, 2, 3] }

/-- The only peer sends the block, and the stream stores it. -/
def helloRun : List (ExchangeEvent Nat) :=
  requestRun helloBlock.cid
    [some ⟨[⟨Crates.standard.cidToBytes helloBlock.cid, helloBlock.data⟩]⟩] ++ [.stream 0]

theorem verify_helloBlock :
    verifyBlake3 .standard helloBlock.data helloBlock.cid = .ok () :=
  (verifyBlake3_eq_ok_iff Crates.standard_standard).2 ⟨rfl, rfl, digestOf_blake3 _⟩

/-- The task of the stream puts the block. -/
theorem outboundStream_helloBlock (cid : Bytes) :
    ∃ k, outboundStream .standard helloBlock.cid true [some ⟨[⟨cid, helloBlock.data⟩]⟩] =
      .ask (.put helloBlock) k := by
  have hblock := Block.fromCidAndData_eq_ok_iff.2 ⟨verify_helloBlock, rfl⟩
  simp only [outboundStream, if_true, List.foldlM_cons, readFrame, storeReceived,
    verify_helloBlock, hblock]
  exact ⟨_, rfl⟩

abbrev redb : Backend := RedbStore.backend .standard false

def emptyStore : redb.State := RedbStore.empty

theorem taskStep_put (block : Block) (k : StoreAns (.put block) → Stream) :
    ∃ store : redb.State, taskStep (.ask (.put block) k) emptyStore =
      some (k (.ok ()), store, [block.cid]) := by
  have hput := @RedbStore.putMany_of_nil .standard [block] RedbStore.empty rfl
  have hok : (redb.answer (.putMany [block]) emptyStore).1 = .ok () := by
    change (RedbStore.putMany .standard false [block] RedbStore.empty).1 = _
    rw [hput]
  refine ⟨(redb.answer (.putMany [block]) emptyStore).2, ?_⟩
  change some (k (redb.answer (.putMany [block]) emptyStore).1, _,
    storedBy (.putMany [block]) (redb.answer (.putMany [block]) emptyStore).1) = _
  rw [hok]
  rfl

theorem helloRun_ends :
    ∃ s, (start emptyStore : Exchange Nat redb).run .standard helloRun = some s ∧ s.Quiet ∧
      s.requests = [⟨helloBlock.cid, 0⟩] ∧ s.stored = [helloBlock.cid] := by
  obtain ⟨k, hk⟩ := outboundStream_helloBlock (Crates.standard.cidToBytes helloBlock.cid)
  obtain ⟨store, htask⟩ := taskStep_put helloBlock k
  rw [helloRun, run_requestRun, hk]
  refine ⟨{ opened store helloBlock.cid (k (.ok ())) with stored := [helloBlock.cid] }, ?_, ?_, rfl,
    rfl⟩
  · simp only [run, step, opened, start, List.getElem?_cons_zero, Option.bind_eq_bind,
      Option.bind_some, htask]
    rfl
  · exact ⟨rfl, rfl, rfl, by simp [opened, BlockExcHandler.poll], rfl, rfl⟩

/-- The block arrives and is stored, and the client gets nothing. -/
theorem stored_block_not_sent :
    ∃ s, (start emptyStore : Exchange Nat redb).run .standard helloRun = some s ∧ s.Quiet ∧
      ¬ s.Answered := by
  obtain ⟨s, hrun, hquiet, hrequests, hstored⟩ := helloRun_ends
  refine ⟨s, hrun, hquiet, fun h => ?_⟩
  obtain ⟨block, -, hsent⟩ := h ⟨helloBlock.cid, 0⟩ (by simp [hrequests]) (by simp [hstored])
  rw [(Silent.run helloRun (silent_start _) hrun).sent] at hsent
  cases hsent

theorem answered_iff_sample :
    ∃ s, (start emptyStore : Exchange Nat redb).run .standard helloRun = some s ∧
      (s.Answered ↔ ∀ r ∈ s.requests, r.cid ∉ s.stored) := by
  obtain ⟨s, hrun, -⟩ := helloRun_ends
  exact ⟨s, hrun, answered_iff .standard _ helloRun hrun⟩

end BlockExc.Exchange
