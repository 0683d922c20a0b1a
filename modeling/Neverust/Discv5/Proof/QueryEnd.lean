import Neverust.Discv5.Proof.Query

/-!
# Every query comes to its end

A driver calls `next` again and again, and each time no new peer is to be contacted it delivers the
answer, or the failure, of one of the peers in flight: any of them, with any peers in the answer.

* `QueryPeerIter.drive_finishes`: if there are only so many peers, the query finishes.
-/

namespace Discv5

open ClosestPeers PeerQuery

/-- The clock that `next` reads, and the answers in the order they come: of a peer that is in flight
if there is one, with the peers named, or none if it failed. -/
structure Driver (R : Type) where
  clock : Nat → Nat
  reply : Nat → QueryPeerIter R → Key × Option (List R)

namespace QueryPeerIter

/-- The peers that are being waited on. -/
def inFlight {R : Type} (it : QueryPeerIter R) : List Key :=
  (it.query.closestPeers.filter (·.2.isWaiting)).map (·.2.key)

end QueryPeerIter

/-- The driver answers for a peer in flight if there is one, with peers of the network. -/
structure Driver.Fair {R : Type} (driver : Driver R) (nodeId : R → Key) (peers : List Key) :
    Prop where
  inFlight : ∀ k it, it.inFlight ≠ [] → (driver.reply k it).1 ∈ it.inFlight
  within : ∀ k it rs, (driver.reply k it).2 = some rs → ∀ r ∈ rs, nodeId r ∈ peers

namespace QueryPeerIter

variable {R : Type} {nodeId : R → Key} {it it' : QueryPeerIter R} {driver : Driver R}
  {peers : List Key}

def deliver (nodeId : R → Key) (it : QueryPeerIter R) (peer : Key) :
    Option (List R) → Option (QueryPeerIter R)
  | some newPeers => it.onSuccess nodeId peer newPeers
  | none => it.onFailure peer

/-- The query after at most so many calls of `next`. -/
def drive (nodeId : R → Key) (driver : Driver R) : Nat → QueryPeerIter R → Option (QueryPeerIter R)
  | 0, it => some it
  | calls + 1, it => do
    let (r, it) ← it.next (driver.clock calls)
    match r with
    | .finished => some it
    | .waiting (some _) => drive nodeId driver calls it
    | .waiting none | .waitingAtCapacity =>
      let (peer, newPeers) := driver.reply calls it
      drive nodeId driver calls (← it.deliver nodeId peer newPeers)

/-- How far a query is: every peer is contacted and then settled. -/
def far (q : PeerQuery) : Nat := 2 * (contacted q.closestPeers).length - q.numWaiting

/-- What holds of a query on its way. -/
structure OnTheWay (peers : List Key) (q : PeerQuery) : Prop where
  ok : q.Ok
  within : ∀ s ∈ spots q.closestPeers, s.2.1 ∈ peers
  parallelism : 0 < q.config.parallelism
  numResults : 0 < q.config.numResults

theorem OnTheWay.far_le {q : PeerQuery} (h : OnTheWay peers q) :
    far q ≤ 2 * peers.length := by
  have hsub : contacted q.closestPeers ⊆ peers := fun k hk => by
    obtain ⟨s, hs, rfl⟩ := List.mem_map.1 (mem_spots_of_contacted hk)
    exact h.within s hs
  have := (List.subperm_of_subset h.ok.placed.contacted_nodup hsub).length_le
  rw [far]
  omega

theorem OnTheWay.moves {q q' : PeerQuery} {asked answered : Option Key}
    {named : List (Key × Bool)} (h : OnTheWay peers q) (hok : q'.Ok)
    (hm : Moves asked answered named q q') (hnamed : ∀ s ∈ named, s.1 ∈ peers) :
    OnTheWay peers q' := by
  refine ⟨hok, fun s hs => ?_, hm.config ▸ h.parallelism, hm.config ▸ h.numResults⟩
  exact (hm.known s hs).elim (h.within s) (hnamed s.2)

theorem waiting_le_contacted (l : ClosestPeers) : waiting l ≤ (contacted l).length := by
  rw [contacted, List.length_map, ← List.countP_eq_length_filter]
  exact List.countP_mono_left fun e _ h => e.2.isContacted_of_isWaiting h

/-- A call takes the query as much farther as it contacts or settles peers. -/
theorem OnTheWay.far_eq {q q' : PeerQuery} {asked answered : Option Key}
    {named : List (Key × Bool)} (hq : q.Ok) (hq' : q'.Ok) (hm : Moves asked answered named q q') :
    far q' + q'.numWaiting = far q + q.numWaiting + 2 * asked.toList.length := by
  have hlen := hm.contacted.length_eq
  rw [List.length_append] at hlen
  have h₁ := waiting_le_contacted q.closestPeers
  have h₂ := waiting_le_contacted q'.closestPeers
  rw [← hq.counted] at h₁
  rw [← hq'.counted] at h₂
  rw [far, far]
  omega

theorem capacity_pos {q : PeerQuery} (h : OnTheWay peers q)
    (hf : q.progress ≠ .finished) (hcap : q.atCapacity = true) : 0 < q.numWaiting := by
  rw [atCapacity] at hcap
  have h₁ := h.parallelism
  have h₂ := h.numResults
  split at hcap
  · have := of_decide_eq_true hcap
    omega
  · have := of_decide_eq_true hcap
    omega
  · exact absurd ‹_› hf

/-- The answer of a peer, which settles it if it was in flight. -/
theorem deliver_spec (h : it.query.Ok) (nodeId : R → Key) (peer : Key)
    (newPeers : Option (List R)) :
    ∃ it' answered named, it.deliver nodeId peer newPeers = some it' ∧
      Answered peer answered named it.query it'.query ∧
      ∀ s ∈ named, ∃ rs, newPeers = some rs ∧ s.1 ∈ rs.map nodeId := by
  cases newPeers with
  | some rs =>
    obtain ⟨q', hq, hans⟩ := onSuccess_spec h peer (rs.map fun r => (nodeId r, it.counts r))
    refine ⟨it.withQuery q', _, _, by simp [deliver, onSuccess, hq], by simpa using hans,
      fun s hs => ⟨rs, rfl, ?_⟩⟩
    obtain ⟨r, hr, rfl⟩ := List.mem_map.1 hs
    exact List.mem_map.2 ⟨r, hr, rfl⟩
  | none =>
    cases it with
    | findNode q =>
      obtain ⟨q', hq, hans⟩ := findNodeOnFailure_spec h peer
      rw [query] at hq
      exact ⟨.findNode q', _, _, by simp [deliver, onFailure, hq], hans, by simp⟩
    | predicate q p =>
      obtain ⟨q', hq, hans⟩ := predicateOnFailure_spec h peer
      rw [query] at hq
      exact ⟨.predicate q' p, _, _, by simp [deliver, onFailure, hq], hans, by simp⟩

theorem find_inFlight {k : Key} (h : it.query.Ok) (hk : k ∈ it.inFlight) :
    ∃ peer, it.query.closestPeers.find (distance k it.query.targetKey) = some peer ∧
      peer.isWaiting = true := by
  obtain ⟨e, he, rfl⟩ := List.mem_map.1 hk
  obtain ⟨he, hw⟩ := List.mem_filter.1 he
  have hat := h.placed.keyed _ (List.mem_map.2 ⟨e, he, rfl⟩)
  refine ⟨e.2, h.placed.sorted.find_iff.2 ?_, hw⟩
  rw [distance, BitVec.xor_comm]
  rw [distance] at hat
  exact hat ▸ he

theorem inFlight_length (h : it.query.Ok) : it.inFlight.length = it.query.numWaiting := by
  rw [inFlight, List.length_map, ← List.countP_eq_length_filter, h.counted]
  rfl

/-- A delivery takes the query farther if a peer is in flight. -/
theorem deliver_far (h : OnTheWay peers it.query) (hd : driver.Fair nodeId peers)
    (hf : it.query.progress ≠ .finished) (k : Nat) :
    ∃ it', it.deliver nodeId (driver.reply k it).1 (driver.reply k it).2 = some it' ∧
      OnTheWay peers it'.query ∧ far it.query ≤ far it'.query ∧
      (0 < it.query.numWaiting → far it.query < far it'.query) := by
  obtain ⟨it', answered, named, hdel, hans, hnamed⟩ :=
    deliver_spec h.ok nodeId (driver.reply k it).1 (driver.reply k it).2
  have hfar := OnTheWay.far_eq h.ok hans.ok hans.moves
  have hle := hans.moves.waiting
  refine ⟨it', hdel, h.moves hans.ok hans.moves fun s hs => ?_, ?_, fun hpos => ?_⟩
  · obtain ⟨rs, hrs, hs⟩ := hnamed s hs
    obtain ⟨r, hr, hk⟩ := List.mem_map.1 hs
    exact hk ▸ hd.within k it rs hrs r hr
  · simp only [Option.toList_none, List.length_nil] at hfar hle
    omega
  · have hne : it.inFlight ≠ [] := fun h0 => by
      rw [← inFlight_length h.ok, h0] at hpos
      exact absurd hpos (Nat.lt_irrefl 0)
    obtain ⟨peer, hfind, hw⟩ := find_inFlight h.ok (hd.inFlight k it hne)
    have hsettled := hans.settles peer hf hfind hw
    simp only [Option.toList_none, List.length_nil] at hfar
    omega

/-- As many calls as there are steps left are enough. -/
theorem drive_enough (h : OnTheWay peers it.query) (hd : driver.Fair nodeId peers) {calls : Nat}
    (hcalls : 2 * peers.length < far it.query + calls) :
    ∃ it', drive nodeId driver calls it = some it' ∧ it'.query.progress = .finished := by
  induction calls generalizing it with
  | zero =>
    have := h.far_le
    omega
  | succ calls ih =>
    obtain ⟨r, q', hq, hok, hmoves, hfin, hpos, hcap⟩ := next_spec h.ok (driver.clock calls)
    have hnext : it.next (driver.clock calls) = some (r, it.withQuery q') := by simp [next, hq]
    have hway : OnTheWay peers (it.withQuery q').query := by
      rw [query_withQuery]
      exact h.moves hok hmoves (by simp)
    have hfar := OnTheWay.far_eq h.ok hok hmoves
    have hle := hmoves.waiting
    by_cases hdone : q'.progress = .finished
    · obtain rfl := hfin.2 hdone
      exact ⟨it.withQuery q', by simp [drive, hnext], by simpa using hdone⟩
    have hf : it.query.progress ≠ .finished := fun h0 => hdone (hmoves.frozen h0 ▸ h0)
    -- no new peer: the answer of a peer in flight follows
    have hdeliver : r.asked = none → far it.query < far q' ∨ 0 < q'.numWaiting →
        ∃ it', (it.withQuery q').deliver nodeId (driver.reply calls (it.withQuery q')).1
            (driver.reply calls (it.withQuery q')).2 = some it' ∧
          OnTheWay peers it'.query ∧ far it.query < far it'.query := by
      intro hasked hmore
      obtain ⟨it', hdel, hway', hge, hgt⟩ := deliver_far hway hd (by simpa using hdone) calls
      rw [query_withQuery] at hge hgt
      rw [hasked] at hfar hle
      simp only [Option.toList_none, List.length_nil] at hfar hle
      refine ⟨it', hdel, hway', ?_⟩
      rcases hmore with hmore | hmore
      · omega
      · have := hgt hmore
        omega
    cases r with
    | finished => exact absurd (hfin.1 rfl) hdone
    | waiting peer =>
      cases peer with
      | some peer =>
        simp only [QueryState.asked, Option.toList_some, List.length_singleton] at hfar hle
        obtain ⟨it', hdrive, hend⟩ := ih hway (by
          rw [query_withQuery]
          omega)
        exact ⟨it', by simp [drive, hnext, hdrive], hend⟩
      | none =>
        obtain ⟨it₁, hdel, hway', hlt⟩ := hdeliver rfl (.inr (hpos rfl))
        obtain ⟨it', hdrive, hend⟩ := ih hway' (by omega)
        exact ⟨it', by simp [drive, hnext, hdel, hdrive], hend⟩
    | waitingAtCapacity =>
      have hfull := capacity_pos h hf (hcap rfl)
      obtain ⟨it₁, hdel, hway', hlt⟩ := hdeliver rfl (by
        simp only [QueryState.asked, Option.toList_none, List.length_nil] at hfar hle
        omega)
      obtain ⟨it', hdrive, hend⟩ := ih hway' (by omega)
      exact ⟨it', by simp [drive, hnext, hdel, hdrive], hend⟩

/-- **Every query finishes** if its requests are answered, in whatever order and with whatever
peers: twice as many calls of `next` as there are peers in the network, and one more, are enough. -/
theorem drive_finishes (nodeId : R → Key) (p : Option (R → Bool)) (config : QueryConfig)
    (target : Key) (known : List (Key × Bool)) (driver : Driver R) (peers : List Key)
    (hd : driver.Fair nodeId peers) (hknown : ∀ k ∈ known, k.1 ∈ peers)
    (hparallelism : 0 < config.parallelism) (hnumResults : 0 < config.numResults) :
    ∃ it, drive nodeId driver (2 * peers.length + 1) (withConfig p config target known) = some it ∧
      it.query.progress = .finished := by
  obtain ⟨hok, -, hconfig, hspots, -⟩ := withConfig_spec p config target known
  refine drive_enough ⟨hok, fun s hs => ?_, by rwa [hconfig], by rwa [hconfig]⟩ hd (by omega)
  obtain ⟨k, hk, hks⟩ := List.mem_map.1 (hspots s hs).1
  exact hks ▸ hknown k hk

/-- A network of three peers, that answers for the first peer in flight, or has it fail. -/
def threePeers : Driver Key where
  clock := id
  reply k it := (it.inFlight.headD 0, if k % 2 = 0 then some [2, 3] else none)

theorem threePeers_fair : threePeers.Fair id [1, 2, 3] where
  inFlight k it h := by
    show it.inFlight.headD 0 ∈ it.inFlight
    cases hl : it.inFlight with
    | nil => exact absurd hl h
    | cons k l => exact List.mem_cons_self ..
  within k it rs h r hr := by
    have hrs : (if k % 2 = 0 then some [2, 3] else none) = some rs := h
    split at hrs
    · obtain rfl := Option.some.inj hrs
      exact List.mem_cons_of_mem _ hr
    · cases hrs

/-- A query that knows one of three peers and is to find two of them. -/
theorem drive_finishes_threePeers : ∃ it, drive id threePeers 7
    (withConfig none { parallelism := 1, numResults := 2, peerTimeout := 10 } 0 [(1, true)]) =
      some it ∧ it.query.progress = .finished :=
  drive_finishes id none _ 0 [(1, true)] threePeers [1, 2, 3] threePeers_fair (by simp) (by decide)
    (by decide)

end QueryPeerIter

end Discv5
