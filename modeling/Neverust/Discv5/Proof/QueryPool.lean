import Mathlib.Data.List.Forall2
import Neverust.Discv5.Proof.Query

/-!
# The pool of the queries

* `QueryPool.pollLoop_spec`: a poll moves the queries up to the one where it stops.
* `QueryPool.Kept`: what holds of a pool and of what its polls have returned.
* `QueryPool.run_spec`: every run, however the hash map orders the queries.
-/

namespace Discv5

open ClosestPeers PeerQuery

variable {T R : Type}

namespace QueryPoolState

/-- The request that a poll has made. -/
def asked : QueryPoolState T R → Option (Nat × Key)
  | .waiting request => request
  | _ => none

/-- The query that has left the pool. -/
def left : QueryPoolState T R → Option (Query T R)
  | .finished query | .timeout query => some query
  | _ => none

end QueryPoolState

namespace QueryPool

def PollStop.request : PollStop → Option (Nat × Key)
  | .waiting id peer => some (id, peer)
  | _ => none

/-- The peer that a request asks a query for. -/
def askedOf (id : Nat) (request : Nat × Key) : Option Key :=
  if request.1 = id then some request.2 else none

/-- A query after a call of the pool, which may have made a request. -/
structure Moved (request : Option (Nat × Key)) (a b : Query T R) : Prop where
  id : b.id = a.id
  ok : b.peerIter.query.Ok
  contacted : (contacted b.peerIter.query.closestPeers).Perm
    ((request.bind (askedOf a.id)).toList ++ contacted a.peerIter.query.closestPeers)

/-- Why a poll stops. -/
def Reason (queries : List (Query T R)) : PollStop → Prop
  | .waiting id _ => ∃ query ∈ queries, query.id = id
  | .finished id => ∃ query ∈ queries, query.id = id ∧ query.peerIter.query.progress = .finished
  | .timeout id => ∃ query ∈ queries, query.id = id

theorem Moved.refl {request : Option (Nat × Key)} {query : Query T R}
    (hok : query.peerIter.query.Ok) (h : request.bind (askedOf query.id) = none) :
    Moved request query query :=
  ⟨rfl, hok, by rw [h]; rfl⟩

theorem ids_of_moved {request : Option (Nat × Key)} {queries queries' : List (Query T R)}
    (h : List.Forall₂ (Moved request) queries queries') :
    queries'.map Query.id = queries.map Query.id := by
  induction h with
  | nil => rfl
  | cons h _ ih => rw [List.map_cons, List.map_cons, h.id, ih]

/-- What the loop of `poll` does with some queries. -/
def Loops (now queryTimeout : Nat) (queries : List (Query T R)) : Prop :=
  ∃ stop queries', pollLoop now queryTimeout queries = some (stop, queries') ∧
    List.Forall₂ (Moved (stop.bind PollStop.request)) queries queries' ∧
    ∀ s, stop = some s → Reason queries' s

theorem Reason.cons {query : Query T R} {queries : List (Query T R)} {s : PollStop}
    (h : Reason queries s) : Reason (query :: queries) s := by
  cases s with
  | waiting | timeout =>
    obtain ⟨x, hx, hid⟩ := h
    exact ⟨x, List.mem_cons_of_mem _ hx, hid⟩
  | finished =>
    obtain ⟨x, hx, hid⟩ := h
    exact ⟨x, List.mem_cons_of_mem _ hx, hid⟩

variable {now queryTimeout : Nat} {query query' : Query T R} {queries : List (Query T R)}

/-- The loop stops at the first query. -/
theorem Loops.stop (s : PollStop) (hquery : Moved s.request query query')
    (hok : ∀ x ∈ queries, x.peerIter.query.Ok)
    (hothers : ∀ x ∈ queries, s.request.bind (askedOf x.id) = none)
    (hreason : Reason (query' :: queries) s)
    (hloop : pollLoop now queryTimeout (query :: queries) = some (some s, query' :: queries)) :
    Loops now queryTimeout (query :: queries) := by
  refine ⟨some s, _, hloop, .cons hquery (List.forall₂_same.2 fun x hx => ?_), fun s' hs => ?_⟩
  · exact .refl (hok x hx) (hothers x hx)
  · exact Option.some.inj hs ▸ hreason

/-- The loop goes on after the first query. -/
theorem Loops.cons (h : Loops now queryTimeout queries) (hnot : query.id ∉ queries.map Query.id)
    (hquery : Moved none query query')
    (hloop : ∀ stop queries', pollLoop now queryTimeout queries = some (stop, queries') →
      pollLoop now queryTimeout (query :: queries) = some (stop, query' :: queries')) :
    Loops now queryTimeout (query :: queries) := by
  obtain ⟨stop, queries', hrest, hforall, hreason⟩ := h
  have hnone : (stop.bind PollStop.request).bind (askedOf query.id) = none := by
    cases stop with
    | none => rfl
    | some s =>
      cases s with
      | waiting id peer =>
        obtain ⟨x, hx, rfl⟩ := hreason _ rfl
        have hne : x.id ≠ query.id := fun h =>
          hnot (h ▸ ids_of_moved hforall ▸ List.mem_map.2 ⟨x, hx, rfl⟩)
        simp [PollStop.request, askedOf, hne]
      | finished | timeout => rfl
  refine ⟨stop, query' :: queries', hloop _ _ hrest, .cons ⟨hquery.id, hquery.ok, ?_⟩ hforall,
    fun s hs => (hreason s hs).cons⟩
  rw [hnone]
  exact hquery.contacted

/-- **The loop of `poll`** never panics. It makes at most one request, for a peer of the query where
it stops. -/
theorem pollLoop_spec (now queryTimeout : Nat)
    (hok : ∀ query ∈ queries, query.peerIter.query.Ok) (hid : (queries.map Query.id).Nodup) :
    Loops now queryTimeout queries := by
  induction queries with
  | nil => exact ⟨none, [], rfl, .nil, by simp⟩
  | cons query queries ih =>
    obtain ⟨hnot, hid⟩ := List.nodup_cons.1 hid
    obtain ⟨hquery, hqueries⟩ := List.forall_mem_cons.1 hok
    obtain ⟨r, q', hq, hok', hmoves, hfin, -⟩ := next_spec hquery now
    have hnext : query.peerIter.next now = some (r, query.peerIter.withQuery q') := by
      simp [QueryPeerIter.next, hq]
    let query' : Query T R := { query with
      started := some (query.started.getD now), peerIter := query.peerIter.withQuery q' }
    have hmem : query' ∈ query' :: queries := List.mem_cons_self ..
    have hmoved : ∀ request : Option (Nat × Key), request.bind (askedOf query.id) = r.asked →
        Moved request query query' := fun request h =>
      ⟨rfl, by simpa [query'] using hok', by simpa [query', h] using hmoves.contacted⟩
    have hlate : r.asked = none → (r = .waiting none ∨ r = .waitingAtCapacity) →
        Loops now queryTimeout (query :: queries) := by
      intro hasked hr
      by_cases ht : queryTimeout ≤ now - query.started.getD now
      · refine .stop (.timeout query.id) (hmoved none hasked.symm) hqueries (fun _ _ => rfl)
          ⟨query', hmem, rfl⟩ ?_
        rcases hr with rfl | rfl <;> simp [pollLoop, hnext, ht, query']
      · refine (ih hqueries hid).cons hnot (hmoved none hasked.symm) fun stop queries' hrest => ?_
        rcases hr with rfl | rfl <;> simp [pollLoop, hnext, ht, hrest, query']
    cases r with
    | finished =>
      exact .stop (.finished query.id) (hmoved none rfl) hqueries (fun _ _ => rfl)
        ⟨query', hmem, rfl, by simpa [query'] using hfin⟩ (by simp [pollLoop, hnext, query'])
    | waiting peer =>
      cases peer with
      | none => exact hlate rfl (.inl rfl)
      | some peer =>
        refine .stop (.waiting query.id peer) (hmoved _ (if_pos rfl)) hqueries
          (fun x hx => if_neg fun h => ?_) ⟨query', hmem, rfl⟩ (by simp [pollLoop, hnext, query'])
        exact hnot (List.mem_map.2 ⟨x, hx, h.symm⟩)
    | waitingAtCapacity => exact hlate rfl (.inr rfl)

/-! ## A poll -/

variable {pool pool' : QueryPool T R}

/-- A call that moves the queries of a pool to `queries`, may make a request, and may let a query
leave. -/
structure Goes (request : Option (Nat × Key)) (left : Option (Query T R)) (pool : QueryPool T R)
    (queries : List (Query T R)) (pool' : QueryPool T R) : Prop where
  nextId : pool'.nextId = pool.nextId
  ids : (queries.map Query.id).Perm (pool.queries.map Query.id)
  before : ∀ b ∈ queries, ∃ a ∈ pool.queries, Moved request a b
  after : ∀ a ∈ pool.queries, ∃ b ∈ queries, Moved request a b
  requested : ∀ x, request = some x → ∃ query ∈ queries, query.id = x.1
  leaves : ∀ query, left = some query → query ∈ queries
  rest : pool'.queries = queries.filter fun query => left.all fun l => query.id ≠ l.id

/-- The query that leaves and those that stay are the queries of the pool. -/
theorem Goes.leaves_ids {request : Option (Nat × Key)} {left : Option (Query T R)}
    (hg : Goes request left pool queries pool') (hid : (pool.queries.map Query.id).Nodup) :
    (left.toList.map Query.id ++ pool'.queries.map Query.id).Perm (pool.queries.map Query.id) := by
  refine .trans ?_ hg.ids
  rw [hg.rest]
  cases left with
  | none =>
    have hall : (queries.filter fun query =>
        (none : Option (Query T R)).all fun l => query.id ≠ l.id) = queries :=
      List.filter_eq_self.2 fun _ _ => rfl
    rw [hall]
    rfl
  | some l =>
    have hothers : (queries.filter fun query =>
        (some l).all fun l => query.id ≠ l.id).map Query.id = (queries.map Query.id).erase l.id := by
      rw [(hg.ids.nodup_iff.2 hid).erase_eq_filter, List.filter_map]
      exact congrArg _ (List.filter_congr fun query _ => by rw [Bool.eq_iff_iff]; simp)
    rw [hothers]
    exact (List.perm_cons_erase (List.mem_map.2 ⟨l, hg.leaves l rfl, rfl⟩)).symm

theorem exists_moved {request : Option (Nat × Key)} {queries queries' : List (Query T R)}
    (h : List.Forall₂ (Moved request) queries queries') :
    (∀ b ∈ queries', ∃ a ∈ queries, Moved request a b) ∧
      ∀ a ∈ queries, ∃ b ∈ queries', Moved request a b := by
  induction h with
  | nil => simp
  | @cons a b l l' hab _ ih =>
    refine ⟨List.forall_mem_cons.2 ⟨⟨a, List.mem_cons_self .., hab⟩, fun x hx => ?_⟩,
      List.forall_mem_cons.2 ⟨⟨b, List.mem_cons_self .., hab⟩, fun x hx => ?_⟩⟩
    · obtain ⟨y, hy, hyx⟩ := ih.1 x hx
      exact ⟨y, List.mem_cons_of_mem _ hy, hyx⟩
    · obtain ⟨y, hy, hxy⟩ := ih.2 x hx
      exact ⟨y, List.mem_cons_of_mem _ hy, hxy⟩

theorem find_id {id : Nat} (hid : (queries.map Query.id).Nodup) (hq : query ∈ queries)
    (h : query.id = id) : (queries.find? fun query => query.id = id) = some query := by
  induction queries with
  | nil => cases hq
  | cons x queries ih =>
    obtain ⟨hnot, hid⟩ := List.nodup_cons.1 hid
    rcases List.mem_cons.1 hq with rfl | hq
    · exact List.find?_cons_of_pos (by simpa using h)
    · have hne : ¬ x.id = id := fun hx => hnot (List.mem_map.2 ⟨query, hq, h.trans hx.symm⟩)
      rw [List.find?_cons_of_neg (by simpa using hne)]
      exact ih hid hq

/-- **A poll** never panics. -/
theorem poll_spec (hok : ∀ query ∈ pool.queries, query.peerIter.query.Ok)
    (hid : (pool.queries.map Query.id).Nodup) (now : Nat) (rank : Nat → Nat) :
    ∃ r queries pool', pool.poll now rank = some (r, pool') ∧
      Goes r.asked r.left pool queries pool' ∧
      ∀ query, r = .finished query → query.peerIter.query.progress = .finished := by
  have hperm : (pool.queries.mergeSort fun a b => decide (rank a.id ≤ rank b.id)).Perm
      pool.queries := List.mergeSort_perm ..
  obtain ⟨stop, queries', hloop, hforall, hreason⟩ := pollLoop_spec now pool.queryTimeout
    (fun query hq => hok query (hperm.mem_iff.1 hq)) ((hperm.map _).nodup_iff.2 hid)
  have hids : (queries'.map Query.id).Perm (pool.queries.map Query.id) :=
    ids_of_moved hforall ▸ hperm.map _
  have hnodup := hids.nodup_iff.2 hid
  obtain ⟨hbefore, hafter⟩ := exists_moved hforall
  have hgoes : ∀ left : Option (Query T R), (∀ query, left = some query → query ∈ queries') →
      Goes (stop.bind PollStop.request) left pool queries' { pool with
        queries := queries'.filter fun query => left.all fun l => query.id ≠ l.id } := by
    refine fun left hleft => ⟨rfl, hids, fun b hb => ?_, fun a ha => ?_, fun x hx => ?_, hleft, rfl⟩
    · exact (hbefore b hb).imp fun a ha => ⟨hperm.mem_iff.1 ha.1, ha.2⟩
    · exact hafter a (hperm.mem_iff.2 ha)
    · obtain ⟨s, rfl, hs⟩ := Option.bind_eq_some_iff.1 hx
      cases s with
      | waiting id peer => exact Option.some.inj hs ▸ hreason _ rfl
      | finished | timeout => cases hs
  have hall : (queries'.filter fun query =>
      (none : Option (Query T R)).all fun l => query.id ≠ l.id) = queries' :=
    List.filter_eq_self.2 fun _ _ => rfl
  have hstay := hgoes none (by simp)
  rw [hall] at hstay
  cases stop with
  | none =>
    by_cases hempty : queries'.isEmpty = true
    · exact ⟨.idle, queries', { pool with queries := queries' },
        by simp only [poll, hloop, Option.bind_eq_bind, Option.bind_some, if_pos hempty], hstay,
        by simp⟩
    · exact ⟨.waiting none, queries', { pool with queries := queries' },
        by simp only [poll, hloop, Option.bind_eq_bind, Option.bind_some, if_neg hempty], hstay,
        by simp⟩
  | some s =>
    cases s with
    | waiting id peer =>
      exact ⟨.waiting (some (id, peer)), queries', { pool with queries := queries' },
        by simp [poll, hloop], hstay, by simp⟩
    | finished id =>
      obtain ⟨query, hquery, rfl, hfin⟩ := hreason _ rfl
      refine ⟨.finished query, queries', _, ?_, hgoes (some query) fun q hq =>
        Option.some.inj hq ▸ hquery, fun q hq => ?_⟩
      · simp only [poll, hloop, remove, find_id hnodup hquery rfl, Option.bind_eq_bind,
          Option.bind_some, Option.map_some, Option.all_some]
      · injection hq with hq
        exact hq ▸ hfin
    | timeout id =>
      obtain ⟨query, hquery, rfl⟩ := hreason _ rfl
      refine ⟨.timeout query, queries', _, ?_, hgoes (some query) fun q hq =>
        Option.some.inj hq ▸ hquery, by simp⟩
      simp only [poll, hloop, remove, find_id hnodup hquery rfl, Option.bind_eq_bind,
        Option.bind_some, Option.map_some, Option.all_some]

/-- A call of a query in the pool. -/
theorem modify_spec (id : Nat) {f : QueryPeerIter R → Option (QueryPeerIter R)}
    (hf : ∀ it, it.query.Ok → ∃ it', f it = some it' ∧ it'.query.Ok ∧
      (contacted it'.query.closestPeers).Perm (contacted it.query.closestPeers))
    (hok : ∀ query ∈ queries, query.peerIter.query.Ok) :
    ∃ queries', modify id f queries = some queries' ∧
      List.Forall₂ (Moved none) queries queries' := by
  induction queries with
  | nil => exact ⟨[], rfl, .nil⟩
  | cons query queries ih =>
    obtain ⟨hquery, hqueries⟩ := List.forall_mem_cons.1 hok
    rw [modify]
    split
    · obtain ⟨it', hit, hok', hcontacted⟩ := hf _ hquery
      refine ⟨{ query with peerIter := it' } :: queries, by rw [hit]; rfl,
        .cons ⟨rfl, hok', hcontacted⟩ (List.forall₂_same.2 fun x hx => ?_)⟩
      exact .refl (hqueries x hx) rfl
    · obtain ⟨queries', hmod, hforall⟩ := ih hqueries
      exact ⟨query :: queries', by rw [hmod]; rfl, .cons (.refl hquery rfl) hforall⟩

/-! ## Runs -/

/-- The requests that polls have made. -/
def requests (rs : List (QueryPoolState T R)) : List (Nat × Key) :=
  rs.filterMap QueryPoolState.asked

/-- The queries that polls have returned. -/
def leavers (rs : List (QueryPoolState T R)) : List (Query T R) :=
  rs.filterMap QueryPoolState.left

def isAdd : PoolOp T R → Bool
  | .addFindnode .. | .addPredicate .. => true
  | _ => false

/-- What holds of a pool to which `adds` queries have been added and whose polls have returned
`past`. -/
structure Kept (past : List (QueryPoolState T R)) (adds : Nat) (pool : QueryPool T R) : Prop where
  nextId : pool.nextId = adds % 2 ^ 64
  ids : ((leavers past).map Query.id ++ pool.queries.map Query.id).Perm (List.range adds)
  ok : ∀ query ∈ pool.queries, query.peerIter.query.Ok
  finished : ∀ query, .finished query ∈ past →
    query.peerIter.query.Ok ∧ query.peerIter.query.progress = .finished
  requested : (requests past).Nodup
  asked : ∀ request ∈ requests past, request.1 ∈ (leavers past).map Query.id ∨
    ∃ query ∈ pool.queries, query.id = request.1 ∧
      request.2 ∈ contacted query.peerIter.query.closestPeers

variable {past : List (QueryPoolState T R)} {adds : Nat}

theorem Kept.below (h : Kept past adds pool) (hquery : query ∈ pool.queries) : query.id < adds :=
  List.mem_range.1 (h.ids.mem_iff.1 (List.mem_append_right _ (List.mem_map.2 ⟨query, hquery, rfl⟩)))

theorem Kept.disjoint (h : Kept past adds pool) :
    (pool.queries.map Query.id).Nodup ∧
      ∀ l ∈ leavers past, l.id ∉ pool.queries.map Query.id := by
  obtain ⟨-, hnodup, hne⟩ := List.nodup_append.1 (h.ids.nodup_iff.2 List.nodup_range)
  exact ⟨hnodup, fun l hl hmem => hne _ (List.mem_map.2 ⟨l, hl, rfl⟩) _ hmem rfl⟩

theorem Kept.new (queryTimeout : Nat) : Kept [] 0 (new queryTimeout : QueryPool T R) :=
  ⟨rfl, by simp [QueryPool.new, leavers], by simp [QueryPool.new], by simp, by simp [requests],
    by simp [requests]⟩

/-- The id of a query that is added is not the id of a query in the pool, so none is replaced. -/
theorem Kept.add (h : Kept past adds pool) (hadds : adds < 2 ^ 64) {it : QueryPeerIter R}
    (hit : it.query.Ok) (target : T) : Kept past (adds + 1) (pool.add it target) := by
  have hid : pool.nextId = adds := h.nextId.trans (Nat.mod_eq_of_lt hadds)
  have hne : ∀ query ∈ pool.queries, query.id ≠ adds := fun query hq => Nat.ne_of_lt (h.below hq)
  have hqueries : (pool.add it target).queries =
      { id := adds, peerIter := it, started := none, target } :: pool.queries := by
    rw [QueryPool.add, hid]
    exact congrArg _ (List.filter_eq_self.2 fun query hq => decide_eq_true (hne query hq))
  refine ⟨?_, ?_, ?_, h.finished, h.requested, fun request hr => ?_⟩
  · show (pool.nextId + 1) % 2 ^ 64 = _
    rw [hid]
  · rw [hqueries, List.map_cons, List.range_succ]
    exact List.perm_middle.trans ((h.ids.cons adds).trans (List.perm_append_singleton adds _).symm)
  · rw [hqueries]
    exact List.forall_mem_cons.2 ⟨hit, h.ok⟩
  · rw [hqueries]
    exact (h.asked request hr).imp_right fun ⟨query, hq, hquery⟩ =>
      ⟨query, List.mem_cons_of_mem _ hq, hquery⟩

theorem leavers_append (r : Option (QueryPoolState T R)) :
    leavers (past ++ r.toList) = leavers past ++ (r.bind QueryPoolState.left).toList := by
  rw [leavers, List.filterMap_append]
  cases r with
  | none => rfl
  | some r => cases h : r.left <;> simp [h, leavers]

theorem requests_append (r : Option (QueryPoolState T R)) :
    requests (past ++ r.toList) = requests past ++ (r.bind QueryPoolState.asked).toList := by
  rw [requests, List.filterMap_append]
  cases r with
  | none => rfl
  | some r => cases h : r.asked <;> simp [h, requests]

theorem Kept.goes (h : Kept past adds pool) {r : Option (QueryPoolState T R)}
    (hg : Goes (r.bind QueryPoolState.asked) (r.bind QueryPoolState.left) pool queries pool')
    (hfin : ∀ query, r = some (.finished query) → query.peerIter.query.progress = .finished) :
    Kept (past ++ r.toList) adds pool' := by
  have hsub : pool'.queries.Sublist queries := hg.rest ▸ List.filter_sublist
  have hok : ∀ query ∈ queries, query.peerIter.query.Ok := fun b hb => by
    obtain ⟨a, -, hab⟩ := hg.before b hb
    exact hab.ok
  obtain ⟨hnodup, hleft⟩ := h.disjoint
  -- a query that was moved is still there, or has left
  have hstays : ∀ b ∈ queries, b.id ∈ (leavers (past ++ r.toList)).map Query.id ∨
      b ∈ pool'.queries := by
    intro b hb
    cases hl : r.bind QueryPoolState.left with
    | none =>
      rw [hg.rest, hl]
      exact .inr (List.mem_filter.2 ⟨hb, rfl⟩)
    | some l =>
      by_cases hbl : b.id = l.id
      · rw [leavers_append, hl]
        exact .inl (List.mem_map.2 ⟨l, by simp, hbl.symm⟩)
      · rw [hg.rest, hl]
        exact .inr (List.mem_filter.2 ⟨hb, by simpa using hbl⟩)
  refine ⟨hg.nextId.trans h.nextId, ?_, fun b hb => hok b (hsub.subset hb), fun query hq => ?_, ?_,
    fun x hx => ?_⟩
  · rw [leavers_append, List.map_append, List.append_assoc]
    exact ((hg.leaves_ids hnodup).append_left _).trans h.ids
  · rcases List.mem_append.1 hq with hq | hq
    · exact h.finished query hq
    · have hr := Option.mem_toList.1 hq
      exact ⟨hok query (hg.leaves query (by rw [hr]; rfl)), hfin query hr⟩
  · rw [requests_append, List.nodup_append]
    refine ⟨h.requested, ?_, fun x hx y hy hxy => ?_⟩
    · cases r.bind QueryPoolState.asked <;> simp
    · subst hxy
      have hreq := Option.mem_toList.1 hy
      rcases h.asked x hx with hgone | ⟨a, ha, hid, hk⟩
      · obtain ⟨l, hl, hlid⟩ := List.mem_map.1 hgone
        obtain ⟨b, hb, hbid⟩ := hg.requested x hreq
        exact hleft l hl (hlid ▸ hbid ▸ hg.ids.mem_iff.1 (List.mem_map.2 ⟨b, hb, rfl⟩))
      · -- the peer would be contacted twice
        obtain ⟨b, hb, hab⟩ := hg.after a ha
        have hnodup := (hok b hb).placed.contacted_nodup
        have hperm := hab.contacted
        rw [hreq, Option.bind_some, askedOf, if_pos hid.symm] at hperm
        exact (List.nodup_cons.1 (hperm.nodup_iff.1 hnodup)).1 hk
  · have hmoved : ∀ b ∈ queries, b.id = x.1 → x.2 ∈ contacted b.peerIter.query.closestPeers →
        x.1 ∈ (leavers (past ++ r.toList)).map Query.id ∨ ∃ query ∈ pool'.queries,
          query.id = x.1 ∧ x.2 ∈ contacted query.peerIter.query.closestPeers :=
      fun b hb hid hk => (hstays b hb).imp (hid ▸ ·) fun hb => ⟨b, hb, hid, hk⟩
    rw [requests_append] at hx
    rcases List.mem_append.1 hx with hx | hx
    · rcases h.asked x hx with hgone | ⟨a, ha, hid, hk⟩
      · rw [leavers_append, List.map_append]
        exact .inl (List.mem_append_left _ hgone)
      · obtain ⟨b, hb, hab⟩ := hg.after a ha
        exact hmoved b hb (hab.id.trans hid) (hab.contacted.mem_iff.2 (List.mem_append_right _ hk))
    · have hreq := Option.mem_toList.1 hx
      obtain ⟨b, hb, hbid⟩ := hg.requested x hreq
      obtain ⟨a, -, hab⟩ := hg.before b hb
      refine hmoved b hb hbid (hab.contacted.mem_iff.2 (List.mem_append_left _ ?_))
      rw [hreq, Option.bind_some, askedOf, if_pos (hbid.symm.trans hab.id)]
      exact List.mem_singleton.2 rfl

/-- **One call** of a pool, or of a query in it, never panics. -/
theorem Kept.act (h : Kept past adds pool) (targetKey : T → Key) (nodeId : R → Key)
    (op : PoolOp T R) (hadds : adds + (isAdd op).toNat ≤ 2 ^ 64) :
    ∃ r pool', pool.act targetKey nodeId op = some (r, pool') ∧
      Kept (past ++ r.toList) (adds + (isAdd op).toNat) pool' := by
  have hmodify : ∀ (id : Nat) (f : QueryPeerIter R → Option (QueryPeerIter R)),
      (∀ it, it.query.Ok → ∃ it', f it = some it' ∧ it'.query.Ok ∧
        (contacted it'.query.closestPeers).Perm (contacted it.query.closestPeers)) →
      ∃ queries, modify id f pool.queries = some queries ∧
        Kept (past ++ (none : Option (QueryPoolState T R)).toList) adds
          { pool with queries } := by
    intro id f hf
    obtain ⟨queries, hmod, hforall⟩ := modify_spec id hf h.ok
    obtain ⟨hbefore, hafter⟩ := exists_moved hforall
    have hgoes : Goes none none pool queries { pool with queries } := by
      refine ⟨rfl, ?_, hbefore, hafter, by simp, by simp, ?_⟩
      · rw [ids_of_moved hforall]
      · exact (List.filter_eq_self.2 fun _ _ => rfl).symm
    exact ⟨queries, hmod, h.goes (r := none) hgoes (by simp)⟩
  have hanswer : ∀ {it it' : QueryPeerIter R} {answered : Option Key}
      {named : List (Key × Bool)}, Moves none answered named it.query it'.query →
      (contacted it'.query.closestPeers).Perm (contacted it.query.closestPeers) :=
    fun hm => hm.contacted
  cases op with
  | addFindnode config target peers =>
    obtain ⟨hok, -⟩ := QueryPeerIter.withConfig_spec (none : Option (R → Bool)) config
      (targetKey target) (peers.map fun key => (key, true))
    refine ⟨none, _, rfl, ?_⟩
    rw [Option.toList_none, List.append_nil]
    exact h.add (Nat.lt_of_succ_le hadds) hok target
  | addPredicate config target peers p =>
    obtain ⟨hok, -⟩ := QueryPeerIter.withConfig_spec (some p) config (targetKey target) peers
    refine ⟨none, _, rfl, ?_⟩
    rw [Option.toList_none, List.append_nil]
    exact h.add (Nat.lt_of_succ_le hadds) hok target
  | poll now rank =>
    obtain ⟨r, queries, pool', hpoll, hgoes, hfin⟩ := poll_spec h.ok h.disjoint.1 now rank
    exact ⟨some r, pool', by rw [QueryPool.act, hpoll]; rfl, h.goes (r := some r) hgoes
      fun query hq => hfin query (Option.some.inj hq)⟩
  | onSuccess id peer newPeers =>
    obtain ⟨queries, hmod, hkept⟩ := hmodify id (·.onSuccess nodeId peer newPeers) fun it hit => by
      obtain ⟨r, it', hact, hok, -, hmoves, -⟩ :=
        QueryPeerIter.act_spec hit nodeId (.onSuccess peer newPeers)
      obtain ⟨it₁, hit₁, heq⟩ := Option.map_eq_some_iff.1 hact
      obtain ⟨rfl, rfl⟩ := Prod.mk.inj heq
      exact ⟨it₁, hit₁, hok, hanswer hmoves⟩
    exact ⟨none, _, by rw [QueryPool.act, hmod]; rfl, hkept⟩
  | onFailure id peer =>
    obtain ⟨queries, hmod, hkept⟩ := hmodify id (·.onFailure peer) fun it hit => by
      obtain ⟨r, it', hact, hok, -, hmoves, -⟩ :=
        QueryPeerIter.act_spec hit nodeId (.onFailure peer)
      obtain ⟨it₁, hit₁, heq⟩ := Option.map_eq_some_iff.1 hact
      obtain ⟨rfl, rfl⟩ := Prod.mk.inj heq
      exact ⟨it₁, hit₁, hok, hanswer hmoves⟩
    exact ⟨none, _, by rw [QueryPool.act, hmod]; rfl, hkept⟩

theorem Kept.run (h : Kept past adds pool) (targetKey : T → Key) (nodeId : R → Key)
    (ops : List (PoolOp T R)) (hadds : adds + ops.countP isAdd ≤ 2 ^ 64) :
    ∃ rs pool', pool.run targetKey nodeId ops = some (rs, pool') ∧
      Kept (past ++ rs) (adds + ops.countP isAdd) pool' := by
  induction ops generalizing past adds pool with
  | nil => exact ⟨[], pool, rfl, by simpa using h⟩
  | cons op ops ih =>
    have hcount : (op :: ops).countP isAdd = (isAdd op).toNat + ops.countP isAdd := by
      rw [List.countP_cons, Nat.add_comm]
      cases isAdd op <;> rfl
    rw [hcount, ← Nat.add_assoc] at hadds
    obtain ⟨r, pool₁, hact, hkept⟩ := h.act targetKey nodeId op (by omega)
    obtain ⟨rs, pool', hrun, hkept'⟩ := ih hkept hadds
    refine ⟨r.toList ++ rs, pool', by simp [QueryPool.run, hact, hrun], ?_⟩
    rw [hcount, ← Nat.add_assoc, ← List.append_assoc]
    exact hkept'

/-- **In every run** of a pool to which at most `2^64` queries are added, whatever the order of its
hash map, no call panics and no peer is asked twice for one query. The queries that were added have
the ids from zero on; none is replaced by a later one, and each has left the pool once or is still in
it. If a query leaves as finished, a known peer that may still become a result is farther from the
target than all results, which are as many as wanted. -/
theorem run_pool (targetKey : T → Key) (nodeId : R → Key) (queryTimeout : Nat)
    (ops : List (PoolOp T R)) (hadds : ops.countP isAdd ≤ 2 ^ 64) :
    ∃ rs pool, (new queryTimeout).run targetKey nodeId ops = some (rs, pool) ∧
      (requests rs).Nodup ∧
      ((leavers rs).map Query.id ++ pool.queries.map Query.id).Perm
        (List.range (ops.countP isAdd)) ∧
      ∀ query, .finished query ∈ rs → ∀ e ∈ query.peerIter.query.closestPeers,
        e.2.isOpen = true →
          query.peerIter.intoResult.length = query.peerIter.query.config.numResults ∧
          ∀ k ∈ query.peerIter.intoResult, distance query.peerIter.query.targetKey k <
            distance query.peerIter.query.targetKey e.2.key := by
  obtain ⟨rs, pool, hrun, hkept⟩ :=
    (Kept.new queryTimeout).run targetKey nodeId ops (by rwa [Nat.zero_add])
  rw [List.nil_append, Nat.zero_add] at hkept
  refine ⟨rs, pool, hrun, hkept.requested, hkept.ids, fun query hq => ?_⟩
  obtain ⟨hok, hfin⟩ := hkept.finished query hq
  exact hok.complete hfin

/-- Two queries, of which the second is polled first. -/
def twoQueries : List (PoolOp Key Key) :=
  [.addFindnode { parallelism := 1, numResults := 2, peerTimeout := 10 } 0 [1, 2],
    .addPredicate { parallelism := 2, numResults := 1, peerTimeout := 10 } 7 [(4, true)] (· = 4),
    .poll 1 (1 - ·), .onSuccess 1 4 [5], .poll 2 (1 - ·), .poll 3 id]

theorem run_pool_two : ∃ rs pool, (new 5).run id id twoQueries = some (rs, pool) ∧
    (requests rs).Nodup ∧
    ((leavers rs).map Query.id ++ pool.queries.map Query.id).Perm [0, 1] ∧
    ∀ query, .finished query ∈ rs → ∀ e ∈ query.peerIter.query.closestPeers,
      e.2.isOpen = true →
        query.peerIter.intoResult.length = query.peerIter.query.config.numResults ∧
        ∀ k ∈ query.peerIter.intoResult, distance query.peerIter.query.targetKey k <
          distance query.peerIter.query.targetKey e.2.key :=
  run_pool id id 5 twoQueries (by decide)

end QueryPool

end Discv5
