import Mathlib.Data.List.Pairwise
import Mathlib.Data.List.Perm.Basic
import Neverust.Discv5.Query

/-!
# What a query for the closest peers keeps

* `PeerQuery.scan_cases`: where the loop of `next` stops, and what it has changed before.
* `PeerQuery.Moves`: what any call can do to a query. `PeerQuery.Ok`: what holds of a query.
* `QueryPeerIter.run_contacts`: every run, its requests and its counter.
* `QueryPeerIter.run_finished`: what a finished query has found.
-/

namespace Discv5

/-- The peer that an answer of `next` has contacted. -/
def QueryState.asked : QueryState → Option Key
  | .waiting peer => peer
  | _ => none

/-! ## The state of a peer -/

namespace QueryPeer

variable (p : QueryPeer)

def isContacted : Bool := p.state ≠ .notContacted

def isWaiting : Bool :=
  match p.state with
  | .waiting _ => true
  | _ => false

/-- Whether the peer is among the results. -/
def isResult : Bool := p.state = .succeeded ∧ p.predicateMatch

/-- Whether the peer may still become a result, unless it is given up on. -/
def isOpen : Bool := !p.isContacted || p.isWaiting && p.predicateMatch

/-- A peer that has not answered in time. -/
def expire (now : Nat) : QueryPeer :=
  match p.state with
  | .waiting timeout => if timeout ≤ now then { p with state := .unresponsive } else p
  | _ => p

@[simp] theorem new_isContacted (key : Key) (m : Bool) : (new key m).isContacted = false := rfl

@[simp] theorem new_isWaiting (key : Key) (m : Bool) : (new key m).isWaiting = false := rfl

@[simp] theorem expire_key (now : Nat) : (p.expire now).key = p.key := by
  rw [expire]
  split
  · split <;> rfl
  · rfl

@[simp] theorem expire_isContacted (now : Nat) :
    (p.expire now).isContacted = p.isContacted := by
  rw [expire]
  split
  · rename_i h
    split <;> simp [isContacted, h]
  · rfl

@[simp] theorem expire_isResult (now : Nat) : (p.expire now).isResult = p.isResult := by
  rw [expire]
  split
  · rename_i h
    split <;> simp [isResult, h]
  · rfl

@[simp] theorem expire_predicateMatch (now : Nat) :
    (p.expire now).predicateMatch = p.predicateMatch := by
  rw [expire]
  split
  · split <;> rfl
  · rfl

theorem expire_succeeded (now : Nat) :
    (p.expire now).state = .succeeded ↔ p.state = .succeeded := by
  rw [expire]
  split
  · rename_i h
    split <;> simp [h]
  · rfl

theorem isResult_iff : p.isResult = true ↔ p.state = .succeeded ∧ p.predicateMatch = true := by
  simp [isResult]

theorem isContacted_of_isWaiting (h : p.isWaiting = true) : p.isContacted = true := by
  rw [isWaiting] at h
  split at h
  · simp [isContacted, *]
  · cases h

theorem isWaiting_of_expire {now : Nat} (h : (p.expire now).isWaiting = true) :
    p.isWaiting = true := by
  rw [expire] at h
  split at h
  · rename_i hs
    simp [isWaiting, hs]
  · exact h

end QueryPeer

/-! ## The map of the peers -/

namespace ClosestPeers

variable {l : ClosestPeers}

/-- How many peers are being waited on. -/
def waiting (l : ClosestPeers) : Nat := l.countP (·.2.isWaiting)

/-- The peers that have been contacted. -/
def contacted (l : ClosestPeers) : List Key := (l.filter (·.2.isContacted)).map (·.2.key)

/-- The peers after all that have not answered in time. -/
def expire (now : Nat) (l : ClosestPeers) : ClosestPeers := l.map fun e => (e.1, e.2.expire now)

@[simp] theorem expire_nil (now : Nat) : expire now [] = [] := rfl

@[simp] theorem expire_cons (now : Nat) (e : Key × QueryPeer) (l : ClosestPeers) :
    expire now (e :: l) = (e.1, e.2.expire now) :: expire now l := rfl

@[simp] theorem waiting_cons (e : Key × QueryPeer) (l : ClosestPeers) :
    waiting (e :: l) = waiting l + e.2.isWaiting.toNat := by
  rw [waiting, List.countP_cons]
  cases e.2.isWaiting <;> rfl

@[simp] theorem waiting_append (l₁ l₂ : ClosestPeers) :
    waiting (l₁ ++ l₂) = waiting l₁ + waiting l₂ := List.countP_append ..

@[simp] theorem contacted_append (l₁ l₂ : ClosestPeers) :
    contacted (l₁ ++ l₂) = contacted l₁ ++ contacted l₂ := by
  simp [contacted]

@[simp] theorem contacted_expire (now : Nat) (l : ClosestPeers) :
    contacted (expire now l) = contacted l := by
  rw [contacted, expire, List.filter_map, List.map_map]
  exact congrArg₂ List.map (funext fun e => e.2.expire_key now)
    (congrArg (List.filter · l) (funext fun e => e.2.expire_isContacted now))

theorem expire_waiting_le (now : Nat) (l : ClosestPeers) : waiting (expire now l) ≤ waiting l := by
  rw [waiting, expire, List.countP_map]
  exact List.countP_mono_left fun e _ h => e.2.isWaiting_of_expire h

end ClosestPeers

/-! ## The loop of `next` -/

namespace PeerQuery

open ClosestPeers

variable {config : QueryConfig} {now w : Nat} {atCapacity : Bool} {l : ClosestPeers}

/-- Where the loop of `next` stops: at the end, or at an entry. -/
inductive Stops (config : QueryConfig) (now w : Nat) (atCapacity : Bool) (counter : Option Nat)
    (seen : ClosestPeers) : ClosestPeers → Option QueryState × Nat × ClosestPeers → Prop
  | atEnd : Stops config now w atCapacity counter seen [] (none, w, expire now seen)
  | capacity (e : Key × QueryPeer) (rest : ClosestPeers) (hcap : atCapacity = true) :
      Stops config now w atCapacity counter seen (e :: rest)
        (some .waitingAtCapacity, w, expire now seen ++ e :: rest)
  | asks (d : Key) (p : QueryPeer) (rest : ClosestPeers) (hcap : atCapacity = false)
      (hp : p.state = .notContacted) :
      Stops config now w atCapacity counter seen ((d, p) :: rest)
        (some (.waiting (some p.key)), w + 1, expire now seen ++
          (d, { p with state := .waiting (now + config.peerTimeout) }) :: rest)
  | enough (e : Key × QueryPeer) (rest : ClosestPeers) (c : Nat) (hc : counter = some c)
      (he : e.2.isResult = true) (hopen : ∀ x ∈ expire now seen, x.2.isOpen = false)
      (henough : config.numResults ≤ c + seen.countP (·.2.isResult) + 1) :
      Stops config now w atCapacity counter seen (e :: rest)
        (some .finished, w, expire now seen ++ e :: rest)

theorem Stops.cons {counter counter' : Option Nat} {d : Key} {p : QueryPeer}
    {seen rest : ClosestPeers} {r : Option QueryState × Nat × ClosestPeers}
    (h : Stops config now w atCapacity counter' seen rest r)
    (hp : ∀ c', counter' = some c' → (p.expire now).isOpen = false ∧
      ∃ c, counter = some c ∧ c' = c + if p.isResult = true then 1 else 0) :
    Stops config now w atCapacity counter ((d, p) :: seen) rest
      (r.1, r.2.1, (d, p.expire now) :: r.2.2) := by
  cases h with
  | atEnd => exact .atEnd
  | capacity e rest hcap => exact .capacity e rest hcap
  | asks d p rest hcap hp => exact .asks d p rest hcap hp
  | enough e rest c' hc he hopen henough =>
    obtain ⟨hclosed, c, rfl, rfl⟩ := hp c' hc
    refine .enough e rest c rfl he (fun x hx => ?_) ?_
    · rcases List.mem_cons.1 hx with rfl | hx
      · exact hclosed
      · exact hopen x hx
    · simp only [List.countP_cons]
      omega

/-- What the loop of `next` does from an entry on. -/
def Scanned (config : QueryConfig) (now : Nat) (atCapacity : Bool) (counter : Option Nat) (w : Nat)
    (l : ClosestPeers) : Prop :=
  ∃ seen rest w' r, l = seen ++ rest ∧ scan config now atCapacity counter w l = some r ∧
    (∀ e ∈ seen, e.2.isContacted = true) ∧
    w' + waiting seen = w + waiting (expire now seen) ∧
    Stops config now w' atCapacity counter seen rest r

/-- The loop goes on after a peer that has been contacted. -/
theorem Scanned.cons {counter counter' : Option Nat} {w₁ : Nat} {d : Key} {p : QueryPeer}
    (h : Scanned config now atCapacity counter' w₁ l) (hp : p.isContacted = true)
    (hw : w₁ + p.isWaiting.toNat = w + (p.expire now).isWaiting.toNat)
    (hcounter : ∀ c', counter' = some c' → (p.expire now).isOpen = false ∧
      ∃ c, counter = some c ∧ c' = c + if p.isResult = true then 1 else 0)
    (hscan : ∀ r, scan config now atCapacity counter' w₁ l = some r →
      scan config now atCapacity counter w ((d, p) :: l) =
        some (r.1, r.2.1, (d, p.expire now) :: r.2.2)) :
    Scanned config now atCapacity counter w ((d, p) :: l) := by
  obtain ⟨seen, rest, w', r, rfl, hr, hseen, hw', hstop⟩ := h
  refine ⟨(d, p) :: seen, rest, w', _, rfl, hscan r hr, List.forall_mem_cons.2 ⟨hp, hseen⟩, ?_,
    hstop.cons hcounter⟩
  simp only [expire_cons, waiting_cons]
  omega

/-- **The loop of `next`** goes over peers that have been contacted, gives up those that have not
answered in time, and stops. Its counter never falls below 0. -/
theorem scan_cases {counter : Option Nat} (hw : waiting l ≤ w) :
    Scanned config now atCapacity counter w l := by
  induction l generalizing counter w with
  | nil => exact ⟨[], [], w, _, rfl, rfl, by simp, rfl, .atEnd⟩
  | cons e l ih =>
    obtain ⟨d, p⟩ := e
    rw [waiting_cons] at hw
    cases hs : p.state with
    | notContacted =>
      cases hcap : atCapacity with
      | true => exact ⟨[], _, w, _, rfl, by simp [scan, hs], by simp, rfl, .capacity _ _ rfl⟩
      | false => exact ⟨[], _, w, _, rfl, by simp [scan, hs], by simp, rfl, .asks _ _ _ rfl hs⟩
    | waiting timeout =>
      have hwaits : p.isWaiting = true := by simp [QueryPeer.isWaiting, hs]
      have hcontacted := p.isContacted_of_isWaiting hwaits
      have hres : p.isResult = false := by simp [QueryPeer.isResult, hs]
      rw [hwaits, Bool.toNat_true] at hw
      by_cases ht : timeout ≤ now
      · have hex : p.expire now = { p with state := .unresponsive } := by
          simp [QueryPeer.expire, hs, ht]
        have hnot : (p.expire now).isWaiting = false := by simp [hex, QueryPeer.isWaiting]
        refine .cons (@ih (w - 1) counter (by omega)) hcontacted ?_
          (fun c hc => ⟨?_, c, hc, by simp [hres]⟩) fun r hr => ?_
        · rw [hwaits, hnot, Bool.toNat_true, Bool.toNat_false]
          omega
        · simp [QueryPeer.isOpen, hnot, hcontacted]
        · simp [scan, hs, ht, decrement, show 0 < w by omega, hr, hex]
      · have hex : p.expire now = p := by simp [QueryPeer.expire, hs, ht]
        cases hcap : atCapacity with
        | true =>
          exact ⟨[], _, w, _, rfl, by simp [scan, hs, ht], by simp, rfl, .capacity _ _ rfl⟩
        | false =>
          subst hcap
          refine .cons (@ih w (if p.predicateMatch then none else counter) (by omega))
            hcontacted (by rw [hex]) (fun c hc => ?_) fun r hr => ?_
          · split at hc
            · cases hc
            · rename_i hm
              exact ⟨by simp [QueryPeer.isOpen, hex, hcontacted, hm], c, hc, by simp [hres]⟩
          · simp [scan, hs, ht, hr, hex]
    | succeeded =>
      have hex : p.expire now = p := by simp [QueryPeer.expire, hs]
      have hcontacted : p.isContacted = true := by simp [QueryPeer.isContacted, hs]
      have hnot : p.isWaiting = false := by simp [QueryPeer.isWaiting, hs]
      have hres : p.isResult = p.predicateMatch := by simp [QueryPeer.isResult, hs]
      by_cases hstop : p.predicateMatch = true ∧
          (counter.map (· + 1)).any (config.numResults ≤ ·) = true
      · obtain ⟨hm, hany⟩ := hstop
        obtain ⟨c, rfl⟩ : ∃ c, counter = some c := by
          cases counter with
          | none => simp at hany
          | some c => exact ⟨c, rfl⟩
        have henough : config.numResults ≤ c + 1 := by simpa using hany
        exact ⟨[], _, w, _, rfl, by simp [scan, hs, hm, henough], by simp, rfl,
          .enough _ _ c rfl (by rw [hres, hm]) (by simp) (by simpa using henough)⟩
      · refine .cons (@ih w (if p.predicateMatch then counter.map (· + 1) else counter)
          (by omega)) hcontacted (by rw [hex]) (fun c' hc' => ?_) fun r hr => ?_
        · refine ⟨by simp [QueryPeer.isOpen, hex, hcontacted, hnot], ?_⟩
          cases hm : p.predicateMatch with
          | true =>
            rw [hm, if_pos rfl] at hc'
            obtain ⟨c, hc, rfl⟩ := Option.map_eq_some_iff.1 hc'
            exact ⟨c, hc, by simp [hres, hm]⟩
          | false => exact ⟨c', by simpa [hm] using hc', by simp [hres, hm]⟩
        · cases hm : p.predicateMatch with
          | true =>
            have hany : (counter.map (· + 1)).any (config.numResults ≤ ·) = false := by
              simpa [hm] using hstop
            rw [hm, if_pos rfl] at hr
            simp only [scan, hs, hm, if_pos, hany]
            simp [hr, hex]
          | false =>
            rw [hm, if_neg Bool.false_ne_true] at hr
            simp [scan, hs, hm, hr, hex]
    | failed | unresponsive =>
      have hex : p.expire now = p := by simp [QueryPeer.expire, hs]
      have hcontacted : p.isContacted = true := by simp [QueryPeer.isContacted, hs]
      have hnot : p.isWaiting = false := by simp [QueryPeer.isWaiting, hs]
      refine .cons (@ih w counter (by omega)) hcontacted (by rw [hex])
        (fun c hc => ⟨?_, c, hc, by simp [QueryPeer.isResult, hs]⟩) fun r hr => ?_
      · simp [QueryPeer.isOpen, hex, hcontacted, hnot]
      · simp [scan, hs, hr, hex]

end PeerQuery

/-! ## Where the peers are -/

namespace ClosestPeers

variable {target d : Key} {peer p : QueryPeer} {l l' l₁ l₂ : ClosestPeers}
  {named : List (Key × Bool)}

/-- The distances, and the keys with whether they match the predicate. -/
def spots (l : ClosestPeers) : List (Key × Key × Bool) :=
  l.map fun e => (e.1, e.2.key, e.2.predicateMatch)

/-- The peers that have answered. -/
def succeeded (l : ClosestPeers) : List Key :=
  (l.filter fun e => e.2.state = .succeeded).map (·.2.key)

/-- Every peer is at its distance to the target, and the entries are in the order of these. -/
structure Placed (target : Key) (l : ClosestPeers) : Prop where
  sorted : SortedMap.Sorted l
  keyed : ∀ s ∈ spots l, s.1 = distance target s.2.1

theorem Placed.congr (h : Placed target l) (hs : spots l' = spots l) : Placed target l' := by
  refine ⟨?_, hs ▸ h.keyed⟩
  have hsorted : (spots l').Pairwise fun a b => a.1 < b.1 := hs ▸ List.pairwise_map.2 h.sorted
  rw [spots, List.pairwise_map] at hsorted
  exact hsorted

@[simp] theorem spots_append (l₁ l₂ : ClosestPeers) : spots (l₁ ++ l₂) = spots l₁ ++ spots l₂ :=
  List.map_append

@[simp] theorem spots_cons (e : Key × QueryPeer) (l : ClosestPeers) :
    spots (e :: l) = (e.1, e.2.key, e.2.predicateMatch) :: spots l := rfl

@[simp] theorem spots_expire (now : Nat) (l : ClosestPeers) : spots (expire now l) = spots l := by
  simp [spots, expire]

@[simp] theorem contacted_cons (e : Key × QueryPeer) (l : ClosestPeers) :
    contacted (e :: l) = if e.2.isContacted then e.2.key :: contacted l else contacted l := by
  rw [contacted, List.filter_cons]
  split <;> rfl

theorem mem_spots_of_contacted {k : Key} (h : k ∈ contacted l) :
    k ∈ (spots l).map fun s => s.2.1 := by
  obtain ⟨e, he, rfl⟩ := List.mem_map.1 h
  exact List.mem_map.2 ⟨_, List.mem_map.2 ⟨e, List.mem_of_mem_filter he, rfl⟩, rfl⟩

theorem succeeded_cons (e : Key × QueryPeer) (l : ClosestPeers) : succeeded (e :: l) =
    if e.2.state = .succeeded then e.2.key :: succeeded l else succeeded l := by
  rw [succeeded, List.filter_cons]
  simp only [decide_eq_true_eq]
  split <;> rfl

@[simp] theorem succeeded_append (l₁ l₂ : ClosestPeers) :
    succeeded (l₁ ++ l₂) = succeeded l₁ ++ succeeded l₂ := by
  simp [succeeded]

@[simp] theorem succeeded_expire (now : Nat) (l : ClosestPeers) :
    succeeded (expire now l) = succeeded l := by
  rw [succeeded, expire, List.filter_map, List.map_map]
  refine congrArg₂ List.map (funext fun e => e.2.expire_key now) (List.filter_congr fun e _ => ?_)
  simp [QueryPeer.expire_succeeded]

theorem Placed.key_of_find {nodeId : Key} (h : Placed target l)
    (hfind : l.find (distance nodeId target) = some peer) : peer.key = nodeId := by
  obtain ⟨l₁, l₂, rfl⟩ := SortedMap.find_split hfind
  have hkeyed := h.keyed (distance nodeId target, peer.key, peer.predicateMatch) (by simp)
  rw [distance, distance, BitVec.xor_comm target] at hkeyed
  exact (BitVec.xor_left_inj target).1 hkeyed.symm

/-- No peer is there twice. -/
theorem Placed.keys_nodup (h : Placed target l) : (l.map (·.2.key)).Nodup := by
  refine List.pairwise_map.2 (h.sorted.imp_of_mem fun {a b} ha hb hlt heq => ?_)
  have hkey : ∀ e ∈ l, e.1 = distance target e.2.key := fun e he =>
    h.keyed _ (List.mem_map.2 ⟨e, he, rfl⟩)
  rw [hkey a ha, hkey b hb, heq] at hlt
  exact BitVec.lt_irrefl _ hlt

theorem Placed.contacted_nodup (h : Placed target l) : (contacted l).Nodup :=
  h.keys_nodup.sublist (List.filter_sublist.map _)

theorem mem_succeeded {e : Key × QueryPeer} (he : e ∈ l) (hs : e.2.state = .succeeded) :
    e.2.key ∈ succeeded l :=
  List.mem_map.2 ⟨e, List.mem_filter.2 ⟨he, decide_eq_true hs⟩, rfl⟩

theorem contacted_of_succeeded {k : Key} (h : k ∈ succeeded l) : k ∈ contacted l := by
  obtain ⟨e, he, rfl⟩ := List.mem_map.1 h
  obtain ⟨he, hs⟩ := List.mem_filter.1 he
  refine List.mem_map.2 ⟨e, List.mem_filter.2 ⟨he, ?_⟩, rfl⟩
  simp [QueryPeer.isContacted, of_decide_eq_true hs]

/-- What an answer that names some peers adds. -/
structure Grows (named : List (Key × Bool)) (l l' : ClosestPeers) : Prop where
  known : ∀ s ∈ spots l', s ∈ spots l ∨ s.2 ∈ named
  kept : ∀ s ∈ spots l, s ∈ spots l'
  waiting : waiting l' = waiting l
  contacted : contacted l' = contacted l
  succeeded : succeeded l' = succeeded l

theorem Grows.refl (named : List (Key × Bool)) (l : ClosestPeers) : Grows named l l :=
  ⟨fun _ => .inl, fun _ => id, rfl, rfl, rfl⟩

theorem orInsert_grows (h : Placed target l) (key : Key) (m : Bool) :
    Placed target (SortedMap.orInsert (distance target key) (.new key m) l) ∧
      Grows [(key, m)] l (SortedMap.orInsert (distance target key) (.new key m) l) := by
  have hcases := SortedMap.orInsert_cases (k := distance target key) (v := .new key m) h.sorted
  rcases hcases with ⟨-, heq⟩ | ⟨l₁, l₂, rfl, heq, hsorted⟩
  · rw [heq]
    exact ⟨h, .refl ..⟩
  · rw [heq]
    have hkeyed := h.keyed
    simp only [spots_append, List.mem_append] at hkeyed
    refine ⟨⟨hsorted, fun s hs => ?_⟩, ⟨fun s hs => ?_, fun s hs => ?_, ?_, ?_, ?_⟩⟩
    · simp only [spots_append, spots_cons, List.mem_append, List.mem_cons] at hs
      rcases hs with hs | rfl | hs
      · exact hkeyed s (.inl hs)
      · rfl
      · exact hkeyed s (.inr hs)
    · simp only [spots_append, spots_cons, List.mem_append, List.mem_cons] at hs ⊢
      rcases hs with hs | rfl | hs
      · exact .inl (.inl hs)
      · exact .inr (.inl rfl)
      · exact .inl (.inr hs)
    · simp only [spots_append, spots_cons, List.mem_append, List.mem_cons] at hs ⊢
      exact hs.imp_right .inr
    · simp
    · simp
    · simp [succeeded, QueryPeer.new]

/-- Another state of a peer that has been contacted. -/
theorem Placed.restate (h : Placed target l) (hfind : l.find d = some peer)
    (hp : peer.isContacted = true) (hp' : p.isContacted = true) (hkey : p.key = peer.key)
    (hmatch : p.predicateMatch = peer.predicateMatch) :
    spots (l.set d p) = spots l ∧ contacted (l.set d p) = contacted l ∧
      waiting (l.set d p) + peer.isWaiting.toNat = waiting l + p.isWaiting.toNat ∧
      ∀ k ∈ succeeded (l.set d p), k ∈ succeeded l ∨ p.state = .succeeded ∧ k = p.key := by
  obtain ⟨l₁, l₂, rfl⟩ := SortedMap.find_split hfind
  rw [h.sorted.set_split]
  refine ⟨by simp [hkey, hmatch], by simp [hp, hp', hkey], ?_, fun k hk => ?_⟩
  · simp only [waiting_append, waiting_cons]
    omega
  · simp only [succeeded_append, succeeded_cons, List.mem_append] at hk ⊢
    have hrest : k ∈ succeeded l₂ →
        k ∈ if peer.state = .succeeded then peer.key :: succeeded l₂ else succeeded l₂ := by
      intro hk
      split
      · exact List.mem_cons_of_mem _ hk
      · exact hk
    rcases hk with hk | hk
    · exact .inl (.inl hk)
    · split at hk
      · rename_i hs
        rcases List.mem_cons.1 hk with rfl | hk
        · exact .inr ⟨hs, rfl⟩
        · exact .inl (.inr (hrest hk))
      · exact .inl (.inr (hrest hk))

end ClosestPeers

/-! ## What a call does -/

namespace PeerQuery

open ClosestPeers

variable {q q' : PeerQuery} {now : Nat} {target : Key}

/-- If the query is finished: a known peer that may still become a result is farther from the target
than all results, and there are as many of these as wanted. -/
def Complete (q : PeerQuery) : Prop :=
  ∀ e ∈ q.closestPeers, e.2.isOpen = true → q.intoResult.length = q.config.numResults ∧
    ∀ k ∈ q.intoResult, distance q.targetKey k < distance q.targetKey e.2.key

structure Held (q : PeerQuery) : Prop where
  placed : Placed q.targetKey q.closestPeers
  counted : q.numWaiting = waiting q.closestPeers
  cap : q.numWaiting ≤ max q.config.parallelism q.config.numResults

structure Ok (q : PeerQuery) : Prop extends Held q where
  complete : q.progress = .finished → q.Complete

/-- What a call does to a query: it asks for a peer to be contacted, or a peer has answered and has
named others. -/
structure Moves (asked answered : Option Key) (named : List (Key × Bool)) (q q' : PeerQuery) :
    Prop where
  target : q'.targetKey = q.targetKey
  config : q'.config = q.config
  known : ∀ s ∈ spots q'.closestPeers, s ∈ spots q.closestPeers ∨ s.2 ∈ named
  kept : ∀ s ∈ spots q.closestPeers, s ∈ spots q'.closestPeers
  contacted : (contacted q'.closestPeers).Perm (asked.toList ++ contacted q.closestPeers)
  succeeded : ∀ k ∈ succeeded q'.closestPeers, k ∈ succeeded q.closestPeers ∨ answered = some k
  waiting : q'.numWaiting ≤ q.numWaiting + asked.toList.length
  frozen : q.progress = .finished → q' = q

theorem Moves.refl (answered : Option Key) (named : List (Key × Bool)) (q : PeerQuery) :
    Moves none answered named q q :=
  ⟨rfl, rfl, fun _ => .inl, fun _ => id, .refl _, fun _ => .inl, Nat.le_refl _, fun _ => rfl⟩

theorem withConfig_ok (config : QueryConfig) (target : Key) (known : List (Key × Bool)) :
    (withConfig config target known).Ok ∧
      (∀ s ∈ spots (withConfig config target known).closestPeers, s.2 ∈ known) ∧
      contacted (withConfig config target known).closestPeers = [] := by
  have hmem : ∀ e ∈ (withConfig config target known).closestPeers,
      ∃ k ∈ known, e = (distance k.1 target, QueryPeer.new k.1 k.2) := by
    intro e he
    obtain ⟨k, hk, rfl⟩ := List.mem_map.1 (List.mem_of_mem_take (SortedMap.mem_collect he))
    exact ⟨k, hk, rfl⟩
  have hnew : ∀ e ∈ (withConfig config target known).closestPeers, ¬ e.2.isContacted = true := by
    intro e he
    obtain ⟨k, -, rfl⟩ := hmem e he
    simp
  refine ⟨⟨⟨⟨SortedMap.sorted_collect _, fun s hs => ?_⟩, ?_, Nat.zero_le _⟩, fun h => by cases h⟩,
    fun s hs => ?_, ?_⟩
  · obtain ⟨e, he, rfl⟩ := List.mem_map.1 hs
    obtain ⟨k, -, rfl⟩ := hmem e he
    exact BitVec.xor_comm ..
  · refine (List.countP_eq_zero.2 fun e he hw => ?_).symm
    exact hnew e he (e.2.isContacted_of_isWaiting hw)
  · obtain ⟨e, he, rfl⟩ := List.mem_map.1 hs
    obtain ⟨k, hk, rfl⟩ := hmem e he
    exact hk
  · rw [contacted, List.filter_eq_nil_iff.2 hnew, List.map_nil]

/-- Where the loop of `next` has stopped, the peers are at the same places. -/
theorem Stops.moves {config : QueryConfig} {w : Nat} {atCapacity : Bool} {counter : Option Nat}
    {seen rest : ClosestPeers} {r : Option QueryState × Nat × ClosestPeers}
    (h : Stops config now w atCapacity counter seen rest r) :
    spots r.2.2 = spots (seen ++ rest) ∧
      (contacted r.2.2).Perm ((r.1.bind QueryState.asked).toList ++ contacted (seen ++ rest)) ∧
      succeeded r.2.2 = succeeded (seen ++ rest) ∧
      r.2.1 + waiting (expire now seen ++ rest) = w + waiting r.2.2 := by
  cases h with
  | atEnd => simp [QueryState.asked]
  | capacity e rest hcap => simp [QueryState.asked]
  | asks d p rest hcap hp =>
    have hnew : p.isContacted = false := by simp [QueryPeer.isContacted, hp]
    have hidle : p.isWaiting = false := by simp [QueryPeer.isWaiting, hp]
    refine ⟨by simp, ?_, ?_, ?_⟩
    · simp [QueryState.asked, QueryPeer.isContacted, hp]
    · simp [succeeded_cons, hp]
    · simp [QueryPeer.isWaiting, hp]
      omega
  | enough e rest c hc he hopen henough => simp [QueryState.asked]

theorem intoResult_of_split {l₁ l₂ : ClosestPeers} (h : q.closestPeers = l₁ ++ l₂)
    (hn : q.config.numResults ≤ l₁.countP (·.2.isResult)) :
    q.intoResult.length = q.config.numResults ∧
      ∀ k ∈ q.intoResult, ∃ e ∈ l₁, e.2.key = k := by
  have hlen : ((l₁.filter (·.2.isResult)).map (·.2.key)).length = l₁.countP (·.2.isResult) := by
    rw [List.length_map, List.countP_eq_length_filter]
  have hres : q.intoResult =
      ((l₁.filter (·.2.isResult)).map (·.2.key)).take q.config.numResults := by
    show ((q.closestPeers.filter (·.2.isResult)).map (·.2.key)).take q.config.numResults = _
    rw [h, List.filter_append, List.map_append, List.take_append_of_le_length (hlen ▸ hn)]
  rw [hres]
  refine ⟨?_, fun k hk => ?_⟩
  · rw [List.length_take, hlen]
    omega
  · obtain ⟨e, he, rfl⟩ := List.mem_map.1 (List.mem_of_mem_take hk)
    exact ⟨e, List.mem_of_mem_filter he, rfl⟩

theorem mem_intoResult {k : Key} (h : k ∈ q.intoResult) :
    ∃ e ∈ q.closestPeers, e.2.isResult = true ∧ e.2.key = k := by
  obtain ⟨e, he, rfl⟩ := List.mem_map.1 (List.mem_of_mem_take h)
  exact ⟨e, (List.mem_filter.1 he).1, (List.mem_filter.1 he).2, rfl⟩

theorem Held.intoResult_pairwise (h : q.Held) : q.intoResult.Pairwise fun j k =>
    distance q.targetKey j < distance q.targetKey k := by
  refine (List.pairwise_map.2 ?_).take
  have hat : ∀ e ∈ q.closestPeers, e.1 = distance q.targetKey e.2.key := fun e he =>
    h.placed.keyed _ (List.mem_map.2 ⟨e, he, rfl⟩)
  refine (h.placed.sorted.filter _).imp_of_mem fun {a b} ha hb hlt => ?_
  rwa [hat a (List.mem_filter.1 ha).1, hat b (List.mem_filter.1 hb).1] at hlt

theorem Complete.of_split {l₁ l₂ : ClosestPeers} (h : q.closestPeers = l₁ ++ l₂)
    (hp : Placed q.targetKey q.closestPeers) (hclosed : ∀ e ∈ l₁, e.2.isOpen = false)
    (hn : q.config.numResults ≤ l₁.countP (·.2.isResult)) : q.Complete := by
  obtain ⟨hlen, hmem⟩ := intoResult_of_split h hn
  have hat : ∀ e ∈ q.closestPeers, e.1 = distance q.targetKey e.2.key := fun e he =>
    hp.keyed _ (List.mem_map.2 ⟨e, he, rfl⟩)
  intro e he hopen
  refine ⟨hlen, fun k hk => ?_⟩
  have he₂ : e ∈ l₂ := (List.mem_append.1 (h ▸ he)).resolve_left fun he₁ => by
    rw [hclosed e he₁] at hopen
    cases hopen
  obtain ⟨x, hx, rfl⟩ := hmem k hk
  have hlt := (List.pairwise_append.1 (h ▸ hp.sorted)).2.2 x hx e he₂
  rwa [hat x (h ▸ List.mem_append_left _ hx), hat e he] at hlt

theorem below_cap (h : q.atCapacity = false) :
    q.numWaiting < max q.config.parallelism q.config.numResults := by
  rw [atCapacity] at h
  split at h
  · exact lt_of_lt_of_le (by simpa using h) (le_max_right ..)
  · exact lt_of_lt_of_le (by simpa using h) (le_max_left ..)
  · cases h

/-- The query where the loop of `next` has stopped. -/
theorem Held.scan (h : q.Held) (hf : q.progress ≠ .finished) (now : Nat) :
    ∃ seen rest w' r, scan q.config now q.atCapacity (some 0) q.numWaiting q.closestPeers = some r ∧
      Stops q.config now w' q.atCapacity (some 0) seen rest r ∧
      (∀ e ∈ seen, e.2.isContacted = true) ∧
      ({ q with numWaiting := r.2.1, closestPeers := r.2.2 } : PeerQuery).Held ∧
      Moves (r.1.bind QueryState.asked) none [] q
        { q with numWaiting := r.2.1, closestPeers := r.2.2 } := by
  obtain ⟨seen, rest, w', r, hl, hscan, hseen, hw', hstop⟩ :=
    @scan_cases q.config now q.numWaiting q.atCapacity q.closestPeers (some 0) h.counted.ge
  obtain ⟨hspots, hcontacted, hsucceeded, hcount⟩ := hstop.moves
  rw [← hl] at hspots hcontacted hsucceeded
  have hq : q.numWaiting = waiting seen + waiting rest := by rw [h.counted, hl, waiting_append]
  have hle := expire_waiting_le now seen
  rw [waiting_append] at hcount
  have hasked : r.2.1 ≤ w' + (r.1.bind QueryState.asked).toList.length ∧
      r.2.1 ≤ max q.config.parallelism q.config.numResults := by
    have hcap := h.cap
    cases hstop with
    | asks d p rest hfree hp =>
      have := below_cap hfree
      exact ⟨Nat.le_refl _, by simp only; omega⟩
    | atEnd | capacity | enough => exact ⟨Nat.le_add_right .., by simp only; omega⟩
  refine ⟨seen, rest, w', r, hscan, hstop, hseen, ⟨h.placed.congr hspots, ?_, hasked.2⟩,
    ⟨rfl, rfl, fun s hs => .inl (hspots ▸ hs), fun s hs => hspots ▸ hs, hcontacted,
      fun k hk => .inl (hsucceeded ▸ hk), ?_, fun hfin => absurd hfin hf⟩⟩
  · simp only
    omega
  · have := hasked.1
    simp only
    omega

theorem Moves.finish {asked answered : Option Key} {named : List (Key × Bool)}
    (h : Moves asked answered named q q') (hf : q.progress ≠ .finished) :
    Moves asked answered named q { q' with progress := .finished } :=
  ⟨h.target, h.config, h.known, h.kept, h.contacted, h.succeeded, h.waiting,
    fun hfin => absurd hfin hf⟩

/-- **`next`**: it never panics, contacts a peer that was not contacted, and says that the query is
finished only if it is. -/
theorem next_spec (h : q.Ok) (now : Nat) : ∃ r q', q.next now = some (r, q') ∧ q'.Ok ∧
    Moves r.asked none [] q q' ∧ (r = .finished ↔ q'.progress = .finished) ∧
    (r = .waiting none → 0 < q'.numWaiting) ∧ (r = .waitingAtCapacity → q.atCapacity = true) := by
  by_cases hf : q.progress = .finished
  · exact ⟨.finished, q, if_pos hf, h, .refl .., by simp [hf], by simp, by simp⟩
  obtain ⟨seen, rest, w', r, hscan, hstop, hseen, hheld, hmoves⟩ := h.scan hf now
  cases hstop with
  | atEnd =>
    by_cases hw : 0 < w'
    · exact ⟨.waiting none, _, by simp [next, hf, hscan, hw], ⟨hheld, fun hfin => absurd hfin hf⟩,
        hmoves, by simp [hf], fun _ => hw, by simp⟩
    · refine ⟨.finished, { q with
          numWaiting := w', closestPeers := expire now seen, progress := .finished },
        by simp [next, hf, hscan, hw], ⟨⟨hheld.placed, hheld.counted, hheld.cap⟩,
          fun _ e he hopen => ?_⟩, hmoves.finish hf, by simp, by simp, by simp⟩
      -- nobody is left to contact, or is being waited on
      have hnone : waiting (expire now seen) = 0 := by
        have := hheld.counted
        simp only at this
        omega
      have hidle := List.countP_eq_zero.1 hnone e he
      obtain ⟨x, hx, rfl⟩ := List.mem_map.1 he
      simp only [QueryPeer.isOpen, QueryPeer.expire_isContacted, hseen x hx] at hopen
      simp_all
  | capacity e rest hcap =>
    exact ⟨.waitingAtCapacity, _, by simp [next, hf, hscan], ⟨hheld, fun hfin => absurd hfin hf⟩,
      hmoves, by simp [hf], by simp, fun _ => hcap⟩
  | asks d p rest hfree hp =>
    exact ⟨.waiting (some p.key), _, by simp [next, hf, hscan],
      ⟨hheld, fun hfin => absurd hfin hf⟩, hmoves, by simp [hf], by simp, by simp⟩
  | enough e rest c hc he hopen henough =>
    refine ⟨.finished, { q with
        numWaiting := w', closestPeers := expire now seen ++ e :: rest, progress := .finished },
      by simp [next, hf, hscan], ⟨⟨hheld.placed, hheld.counted, hheld.cap⟩, fun _ => ?_⟩,
      hmoves.finish hf, by simp, by simp, by simp⟩
    obtain rfl : c = 0 := by simpa using hc.symm
    have hclosed : e.2.isOpen = false := by
      simp [QueryPeer.isOpen, QueryPeer.isContacted, QueryPeer.isWaiting, (e.2.isResult_iff.1 he).1]
    have hcount : (expire now seen).countP (·.2.isResult) = seen.countP (·.2.isResult) := by
      rw [expire, List.countP_map]
      exact List.countP_congr fun x _ => by simp
    have hsplit : expire now seen ++ e :: rest = (expire now seen ++ [e]) ++ rest := by simp
    refine Complete.of_split hsplit hheld.placed (fun x hx => ?_) ?_
    · rcases List.mem_append.1 hx with hx | hx
      · exact hopen x hx
      · exact List.mem_singleton.1 hx ▸ hclosed
    · rw [List.countP_append, hcount, List.countP_cons, if_pos he]
      simp only [List.countP_nil]
      omega

/-! ## Answers -/

theorem after_ne_finished {progress : QueryProgress} (h : progress ≠ .finished) (parallelism : Nat)
    (made : Bool) : progress.after parallelism made ≠ .finished := by
  cases progress with
  | iterating n =>
    simp only [QueryProgress.after]
    split <;> split <;> simp
  | stalled => cases made <;> simp [QueryProgress.after]
  | finished => exact absurd rfl h

theorem incorporate_spec (h : q.Held) (closer : List (Key × Bool)) :
    (q.incorporate closer).Held ∧
      Grows closer q.closestPeers (q.incorporate closer).closestPeers := by
  have hfold : ∀ (n : Nat) (closer : List (Key × Bool)) (acc : ClosestPeers × Bool),
      Placed q.targetKey acc.1 →
      Placed q.targetKey (closer.foldl (q.incorporateOne n) acc).1 ∧
        Grows closer acc.1 (closer.foldl (q.incorporateOne n) acc).1 := by
    intro n closer
    induction closer with
    | nil => exact fun acc hacc => ⟨hacc, .refl ..⟩
    | cons x closer ih =>
      intro acc hacc
      obtain ⟨hplaced, hgrows⟩ := orInsert_grows hacc x.1 x.2
      obtain ⟨hplaced', hgrows'⟩ := ih (q.incorporateOne n acc x) hplaced
      refine ⟨hplaced', fun s hs => ?_, fun s hs => hgrows'.kept s (hgrows.kept s hs),
        hgrows'.waiting.trans hgrows.waiting, hgrows'.contacted.trans hgrows.contacted,
        hgrows'.succeeded.trans hgrows.succeeded⟩
      rcases hgrows'.known s hs with hs | hs
      · exact (hgrows.known s hs).imp_right fun h =>
          List.mem_cons.2 (.inl (List.mem_singleton.1 h))
      · exact .inr (List.mem_cons_of_mem _ hs)
  obtain ⟨hplaced, hgrows⟩ := hfold q.closestPeers.length closer (q.closestPeers, false) h.placed
  exact ⟨⟨hplaced, h.counted.trans hgrows.waiting.symm, h.cap⟩, hgrows⟩

/-- Another state of a peer that has been contacted and waits no more. -/
theorem Held.restate {d : Key} {peer p : QueryPeer} {w : Nat} (h : q.Held)
    (hf : q.progress ≠ .finished) (hfind : q.closestPeers.find d = some peer)
    (hp : peer.isContacted = true) (hp' : p.isContacted = true) (hkey : p.key = peer.key)
    (hmatch : p.predicateMatch = peer.predicateMatch) (hidle : p.isWaiting = false)
    (hw : w + peer.isWaiting.toNat = q.numWaiting) (answered : Option Key)
    (hanswered : p.state = .succeeded → answered = some p.key) (named : List (Key × Bool)) :
    ({ q with numWaiting := w, closestPeers := q.closestPeers.set d p } : PeerQuery).Held ∧
      Moves none answered named q
        { q with numWaiting := w, closestPeers := q.closestPeers.set d p } := by
  obtain ⟨hspots, hcontacted, hcount, hsucceeded⟩ := h.placed.restate hfind hp hp' hkey hmatch
  rw [hidle, Bool.toNat_false, ← h.counted] at hcount
  have hcap := h.cap
  refine ⟨⟨h.placed.congr hspots, by simp only; omega, by simp only; omega⟩,
    ⟨rfl, rfl, fun s hs => .inl (hspots ▸ hs), fun s hs => hspots ▸ hs, ?_, fun k hk => ?_,
      by simp only; omega, fun hfin => absurd hfin hf⟩⟩
  · rw [hcontacted]
    rfl
  · exact (hsucceeded k hk).imp_right fun ⟨hs, hk⟩ => hk ▸ hanswered hs

theorem Moves.incorporate {answered : Option Key} {closer : List (Key × Bool)}
    (h : Moves none answered closer q q') (hf : q.progress ≠ .finished)
    (hq : q'.progress = q.progress) (hheld : q'.Held) :
    (q'.incorporate closer).Ok ∧ Moves none answered closer q (q'.incorporate closer) := by
  obtain ⟨hheld', hgrows⟩ := incorporate_spec hheld closer
  refine ⟨⟨hheld', fun hfin => (after_ne_finished (hq ▸ hf) _ _ hfin).elim⟩,
    ⟨h.target, h.config, fun s hs => ?_, fun s hs => hgrows.kept s (h.kept s hs), ?_,
      fun k hk => h.succeeded k (hgrows.succeeded ▸ hk), h.waiting, fun hfin => absurd hfin hf⟩⟩
  · exact (hgrows.known s hs).elim (h.known s) .inr
  · rw [hgrows.contacted]
    exact h.contacted

/-- The effect of an answer, or of a failure, of a peer. -/
structure Answered (nodeId : Key) (answered : Option Key) (named : List (Key × Bool))
    (q q' : PeerQuery) : Prop where
  ok : q'.Ok
  moves : Moves none answered named q q'
  settles : ∀ peer, q.progress ≠ .finished →
    q.closestPeers.find (distance nodeId q.targetKey) = some peer → peer.isWaiting = true →
    q'.numWaiting + 1 = q.numWaiting

theorem Answered.same {nodeId : Key} {answered : Option Key} {named : List (Key × Bool)} (h : q.Ok)
    (hidle : ∀ peer, q.progress ≠ .finished →
      q.closestPeers.find (distance nodeId q.targetKey) = some peer → peer.isWaiting = false) :
    Answered nodeId answered named q q :=
  ⟨h, .refl .., fun peer hf hfind hw => by simp [hidle peer hf hfind] at hw⟩

theorem Held.decrement {d : Key} {peer : QueryPeer} (h : q.Held)
    (hfind : q.closestPeers.find d = some peer) (hw : peer.isWaiting = true) :
    ∃ w, decrement q.numWaiting = some w ∧ w + 1 = q.numWaiting := by
  obtain ⟨l₁, l₂, hl⟩ := SortedMap.find_split hfind
  have hpos : 0 < q.numWaiting := by
    rw [h.counted, hl, waiting_append, waiting_cons, hw, Bool.toNat_true]
    omega
  exact ⟨q.numWaiting - 1, if_pos hpos, by omega⟩

/-- **`on_success`** never panics, and takes in the peers that the answer names. -/
theorem onSuccess_spec (h : q.Ok) (nodeId : Key) (closer : List (Key × Bool)) :
    ∃ q', q.onSuccess nodeId closer = some q' ∧
      Answered nodeId (some nodeId) closer q q' := by
  by_cases hf : q.progress = .finished
  · exact ⟨q, if_pos hf, .same h fun _ hf' => absurd hf hf'⟩
  cases hfind : q.closestPeers.find (distance nodeId q.targetKey) with
  | none => exact ⟨q, by simp [onSuccess, hf, hfind], .same h (by simp [hfind])⟩
  | some peer =>
    have hkey : peer.key = nodeId := h.placed.key_of_find hfind
    -- the peer has answered, and the others are taken in
    have htake : ∀ w, peer.isContacted = true → w + peer.isWaiting.toNat = q.numWaiting →
        Answered nodeId (some nodeId) closer q
          ((({ q with numWaiting := w } : PeerQuery).succeed (distance nodeId q.targetKey) peer
            closer).incorporate closer) := by
      intro w hp hw
      obtain ⟨hheld, hmoves⟩ := h.restate hf hfind hp
        (p := { peer with
          peersReturned := peer.peersReturned + closer.length, state := .succeeded })
        (by simp [QueryPeer.isContacted]) rfl rfl (by simp [QueryPeer.isWaiting]) hw
        (some nodeId) (fun _ => congrArg some hkey.symm) closer
      obtain ⟨hok, hmoves'⟩ := hmoves.incorporate hf rfl hheld
      refine ⟨hok, hmoves', fun peer' _ hfind' hw' => ?_⟩
      obtain rfl := Option.some.inj (hfind.symm.trans hfind')
      rw [hw', Bool.toNat_true] at hw
      exact hw
    cases hs : peer.state with
    | waiting timeout =>
      have hw : peer.isWaiting = true := by simp [QueryPeer.isWaiting, hs]
      obtain ⟨w, hdec, hw'⟩ := h.decrement hfind hw
      refine ⟨_, by simp [onSuccess, hf, hfind, hs, hdec],
        htake w (peer.isContacted_of_isWaiting hw) ?_⟩
      rw [hw, Bool.toNat_true, hw']
    | unresponsive =>
      refine ⟨_, by simp [onSuccess, hf, hfind, hs],
        htake q.numWaiting (by simp [QueryPeer.isContacted, hs]) ?_⟩
      simp [QueryPeer.isWaiting, hs]
    | notContacted | failed | succeeded =>
      refine ⟨q, by simp [onSuccess, hf, hfind, hs], .same h fun peer' _ hfind' => ?_⟩
      obtain rfl := Option.some.inj (hfind.symm.trans hfind')
      simp [QueryPeer.isWaiting, hs]

/-- A peer that was contacted fails. -/
theorem Answered.fail {nodeId : Key} {peer : QueryPeer} {w : Nat} (h : q.Ok)
    (hf : q.progress ≠ .finished)
    (hfind : q.closestPeers.find (distance nodeId q.targetKey) = some peer)
    (hp : peer.isContacted = true) (hw : w + peer.isWaiting.toNat = q.numWaiting) :
    Answered nodeId none [] q { q with
      numWaiting := w
      closestPeers := q.closestPeers.set (distance nodeId q.targetKey)
        { peer with state := .failed } } := by
  obtain ⟨hheld, hmoves⟩ := h.restate hf hfind hp (p := { peer with state := .failed })
    (by simp [QueryPeer.isContacted]) rfl rfl (by simp [QueryPeer.isWaiting]) hw
    none (by simp) []
  refine ⟨⟨hheld, fun hfin => absurd hfin hf⟩, hmoves, fun peer' _ hfind' hw' => ?_⟩
  obtain rfl := Option.some.inj (hfind.symm.trans hfind')
  rw [hw', Bool.toNat_true] at hw
  exact hw

theorem findNodeOnFailure_spec (h : q.Ok) (nodeId : Key) :
    ∃ q', q.findNodeOnFailure nodeId = some q' ∧ Answered nodeId none [] q q' := by
  by_cases hf : q.progress = .finished
  · exact ⟨q, if_pos hf, .same h fun _ hf' => absurd hf hf'⟩
  cases hfind : q.closestPeers.find (distance nodeId q.targetKey) with
  | none => exact ⟨q, by simp [findNodeOnFailure, hf, hfind], .same h (by simp [hfind])⟩
  | some peer =>
    cases hs : peer.state with
    | waiting timeout =>
      have hw : peer.isWaiting = true := by simp [QueryPeer.isWaiting, hs]
      obtain ⟨w, hdec, hw'⟩ := h.decrement hfind hw
      refine ⟨_, by simp [findNodeOnFailure, hf, hfind, hs, hdec],
        Answered.fail (w := w) h hf hfind (peer.isContacted_of_isWaiting hw) ?_⟩
      rw [hw, Bool.toNat_true, hw']
    | unresponsive =>
      refine ⟨_, by simp [findNodeOnFailure, hf, hfind, hs],
        Answered.fail (w := q.numWaiting) h hf hfind (by simp [QueryPeer.isContacted, hs]) ?_⟩
      simp [QueryPeer.isWaiting, hs]
    | notContacted | failed | succeeded =>
      refine ⟨q, by simp [findNodeOnFailure, hf, hfind, hs], .same h fun peer' _ hfind' => ?_⟩
      obtain rfl := Option.some.inj (hfind.symm.trans hfind')
      simp [QueryPeer.isWaiting, hs]

theorem predicateOnFailure_spec (h : q.Ok) (nodeId : Key) :
    ∃ q', q.predicateOnFailure nodeId = some q' ∧ Answered nodeId none [] q q' := by
  by_cases hf : q.progress = .finished
  · exact ⟨q, if_pos hf, .same h fun _ hf' => absurd hf hf'⟩
  cases hfind : q.closestPeers.find (distance nodeId q.targetKey) with
  | none => exact ⟨q, by simp [predicateOnFailure, hf, hfind], .same h (by simp [hfind])⟩
  | some peer =>
    cases hs : peer.state with
    | waiting timeout =>
      have hw : peer.isWaiting = true := by simp [QueryPeer.isWaiting, hs]
      obtain ⟨w, hdec, hw'⟩ := h.decrement hfind hw
      refine ⟨_, by simp [predicateOnFailure, hf, hfind, hs, hdec],
        Answered.fail (w := w) h hf hfind (peer.isContacted_of_isWaiting hw) ?_⟩
      rw [hw, Bool.toNat_true, hw']
    | notContacted | unresponsive | failed | succeeded =>
      refine ⟨q, by simp [predicateOnFailure, hf, hfind, hs], .same h fun peer' _ hfind' => ?_⟩
      obtain rfl := Option.some.inj (hfind.symm.trans hfind')
      simp [QueryPeer.isWaiting, hs]

end PeerQuery

/-! ## Runs -/

namespace QueryOp

variable {R : Type}

/-- The peer whose answer a call delivers. -/
def answered : QueryOp R → Option Key
  | .onSuccess peer _ => some peer
  | _ => none

/-- The peers that an answer names, with whether they match. -/
def named (nodeId : R → Key) (counts : R → Bool) : QueryOp R → List (Key × Bool)
  | .onSuccess _ newPeers => newPeers.map fun r => (nodeId r, counts r)
  | _ => []

end QueryOp

namespace QueryPeerIter

open ClosestPeers PeerQuery

variable {R : Type} {nodeId : R → Key} {it it' : QueryPeerIter R}

@[simp] theorem query_withQuery (q : PeerQuery) : (it.withQuery q).query = q := by
  cases it <;> rfl

@[simp] theorem counts_withQuery (q : PeerQuery) : (it.withQuery q).counts = it.counts := by
  cases it <;> rfl

/-- **One call** of an iterator never panics. -/
theorem act_spec (h : it.query.Ok) (nodeId : R → Key) (op : QueryOp R) :
    ∃ r it', it.act nodeId op = some (r, it') ∧ it'.query.Ok ∧ it'.counts = it.counts ∧
      Moves (r.bind QueryState.asked) op.answered (op.named nodeId it.counts) it.query it'.query ∧
      (r = some .finished → it'.query.progress = .finished) := by
  cases op with
  | next now =>
    obtain ⟨r, q', hq, hok, hmoves, hfin, -⟩ := next_spec h now
    exact ⟨some r, it.withQuery q', by simp [act, next, hq], by simpa using hok, by simp,
      by simpa [QueryOp.answered, QueryOp.named] using hmoves,
      fun hr => by simpa using hfin.1 (Option.some.inj hr)⟩
  | onSuccess peer newPeers =>
    obtain ⟨q', hq, hans⟩ :=
      onSuccess_spec h peer (newPeers.map fun r => (nodeId r, it.counts r))
    exact ⟨none, it.withQuery q', by simp [act, onSuccess, hq], by simpa using hans.ok, by simp,
      by simpa [QueryOp.answered, QueryOp.named] using hans.moves, by simp⟩
  | onFailure peer =>
    cases it with
    | findNode q =>
      obtain ⟨q', hq, hans⟩ := findNodeOnFailure_spec h peer
      rw [query] at hq
      exact ⟨none, .findNode q', by simp [act, onFailure, hq], hans.ok, rfl, hans.moves, by simp⟩
    | predicate q p =>
      obtain ⟨q', hq, hans⟩ := predicateOnFailure_spec h peer
      rw [query] at hq
      exact ⟨none, .predicate q' p, by simp [act, onFailure, hq], hans.ok, rfl, hans.moves,
        by simp⟩

/-- What a run does to a query. -/
structure Ran (nodeId : R → Key) (ops : List (QueryOp R)) (rs : List QueryState)
    (it it' : QueryPeerIter R) : Prop where
  ok : it'.query.Ok
  target : it'.query.targetKey = it.query.targetKey
  config : it'.query.config = it.query.config
  counts : it'.counts = it.counts
  known : ∀ s ∈ spots it'.query.closestPeers, s ∈ spots it.query.closestPeers ∨
    ∃ op ∈ ops, s.2 ∈ op.named nodeId it.counts
  kept : ∀ s ∈ spots it.query.closestPeers, s ∈ spots it'.query.closestPeers
  contacted : (contacted it'.query.closestPeers).Perm
    (rs.filterMap QueryState.asked ++ contacted it.query.closestPeers)
  succeeded : ∀ k ∈ succeeded it'.query.closestPeers, k ∈ succeeded it.query.closestPeers ∨
    ∃ op ∈ ops, op.answered = some k
  frozen : it.query.progress = .finished → it'.query = it.query
  finished : .finished ∈ rs → it'.query.progress = .finished

theorem filterMap_toList (r : Option QueryState) (rs : List QueryState) :
    (r.toList ++ rs).filterMap QueryState.asked =
      (r.bind QueryState.asked).toList ++ rs.filterMap QueryState.asked := by
  cases r with
  | none => rfl
  | some r => cases h : r.asked <;> simp [h]

/-- **Every run** of calls goes through. -/
theorem run_spec (h : it.query.Ok) (nodeId : R → Key) (ops : List (QueryOp R)) :
    ∃ rs it', it.run nodeId ops = some (rs, it') ∧ Ran nodeId ops rs it it' := by
  induction ops generalizing it with
  | nil =>
    exact ⟨[], it, rfl, ⟨h, rfl, rfl, rfl, fun _ => .inl, fun _ => id, .refl _, fun _ => .inl,
      fun _ => rfl, by simp⟩⟩
  | cons op ops ih =>
    obtain ⟨r, it₁, hact, hok, hcounts, hmoves, hfin⟩ := act_spec h nodeId op
    obtain ⟨rs, it', hrun, hran⟩ := ih hok
    refine ⟨r.toList ++ rs, it', by simp [run, hact, hrun], ⟨hran.ok,
      hran.target.trans hmoves.target, hran.config.trans hmoves.config, hran.counts.trans hcounts,
      fun s hs => ?_, fun s hs => hran.kept s (hmoves.kept s hs), ?_, fun k hk => ?_,
      fun hf => ?_, fun hmem => ?_⟩⟩
    · rcases hran.known s hs with hs | ⟨op', hop', hs⟩
      · exact (hmoves.known s hs).imp_right fun hs => ⟨op, List.mem_cons_self .., hs⟩
      · exact .inr ⟨op', List.mem_cons_of_mem _ hop', hcounts ▸ hs⟩
    · rw [filterMap_toList]
      refine hran.contacted.trans ((hmoves.contacted.append_left _).trans ?_)
      rw [← List.append_assoc]
      exact List.perm_append_comm.append_right _
    · rcases hran.succeeded k hk with hk | ⟨op', hop', hk⟩
      · exact (hmoves.succeeded k hk).imp_right fun hk => ⟨op, List.mem_cons_self .., hk⟩
      · exact .inr ⟨op', List.mem_cons_of_mem _ hop', hk⟩
    · have hq := hmoves.frozen hf
      exact (hran.frozen (hq ▸ hf)).trans hq
    · rcases List.mem_append.1 hmem with hmem | hmem
      · have hq := hfin (Option.mem_toList.1 hmem)
        rw [hran.frozen hq, hq]
      · exact hran.finished hmem

/-- A new query. -/
theorem withConfig_spec (p : Option (R → Bool)) (config : QueryConfig) (target : Key)
    (known : List (Key × Bool)) :
    (withConfig p config target known).query.Ok ∧
      (withConfig p config target known).query.targetKey = target ∧
      (withConfig p config target known).query.config = config ∧
      (∀ s ∈ spots (withConfig p config target known).query.closestPeers,
        s.2.1 ∈ known.map Prod.fst ∧ (p.isSome → s.2 ∈ known)) ∧
      contacted (withConfig p config target known).query.closestPeers = [] := by
  cases p with
  | none =>
    obtain ⟨hok, hknown, hcontacted⟩ :=
      withConfig_ok config target (known.map fun k => (k.1, true))
    refine ⟨hok, rfl, rfl, fun s hs => ⟨?_, by simp⟩, hcontacted⟩
    obtain ⟨k, hk, hks⟩ := List.mem_map.1 (hknown s hs)
    exact List.mem_map.2 ⟨k, hk, by rw [← hks]⟩
  | some p =>
    obtain ⟨hok, hknown, hcontacted⟩ := withConfig_ok config target known
    exact ⟨hok, rfl, rfl, fun s hs => ⟨List.mem_map.2 ⟨_, hknown s hs, rfl⟩, fun _ => hknown s hs⟩,
      hcontacted⟩

theorem counts_withConfig (p : R → Bool) (config : QueryConfig) (target : Key)
    (known : List (Key × Bool)) : (withConfig (some p) config target known).counts = p := rfl

/-- **In every run** of a query no call panics, and no peer is contacted twice: the requests that
`next` makes are for the peers that are not `NotContacted`, each once, and each was known at the
start or named by an answer. The counter is the number of the peers being waited on, which is never
above both the parallelism and the number of results. -/
theorem run_contacts (nodeId : R → Key) (p : Option (R → Bool)) (config : QueryConfig)
    (target : Key) (known : List (Key × Bool)) (ops : List (QueryOp R)) :
    ∃ rs it, (withConfig p config target known).run nodeId ops = some (rs, it) ∧
      (rs.filterMap QueryState.asked).Nodup ∧
      (rs.filterMap QueryState.asked).Perm
        ((it.query.closestPeers.filter (·.2.isContacted)).map (·.2.key)) ∧
      (∀ k ∈ rs.filterMap QueryState.asked, k ∈ known.map Prod.fst ∨
        ∃ peer newPeers, .onSuccess peer newPeers ∈ ops ∧ k ∈ newPeers.map nodeId) ∧
      it.query.numWaiting = it.query.closestPeers.countP (·.2.isWaiting) ∧
      it.query.numWaiting ≤ max config.parallelism config.numResults := by
  obtain ⟨hok, htarget, hconfig, hknown, hnone⟩ := withConfig_spec p config target known
  obtain ⟨rs, it, hrun, hran⟩ := run_spec hok nodeId ops
  have hperm : (rs.filterMap QueryState.asked).Perm (contacted it.query.closestPeers) := by
    have := hran.contacted.symm
    rwa [hnone, List.append_nil] at this
  refine ⟨rs, it, hrun, hperm.nodup_iff.2 hran.ok.placed.contacted_nodup, hperm, fun k hk => ?_,
    hran.ok.counted, ?_⟩
  · obtain ⟨s, hs, rfl⟩ := List.mem_map.1 (mem_spots_of_contacted (hperm.mem_iff.1 hk))
    rcases hran.known s hs with hs | ⟨op, hop, hs⟩
    · exact .inl (hknown s hs).1
    · cases op with
      | onSuccess peer newPeers =>
        obtain ⟨r, hr, hrs⟩ := List.mem_map.1 hs
        exact .inr ⟨peer, newPeers, hop, List.mem_map.2 ⟨r, hr, by rw [← hrs]⟩⟩
      | next | onFailure => cases hs
  · have hcap := hran.ok.cap
    rwa [hran.config, hconfig] at hcap

/-- **When a query has finished.** In every run its results are peers that have answered, in the
order of their distances to the target and as many as wanted at most; those of a predicate query
match. Once `next` has said that the query is finished, every other peer it knows is given up on,
or does not count, or is farther from the target than all results, of which there are as many as
wanted; and no call changes the query any more. -/
theorem run_finished (nodeId : R → Key) (p : Option (R → Bool)) (config : QueryConfig)
    (target : Key) (known : List (Key × Bool)) (ops : List (QueryOp R)) :
    ∃ rs it, (withConfig p config target known).run nodeId ops = some (rs, it) ∧
      (∀ k ∈ it.intoResult, ∃ newPeers, .onSuccess k newPeers ∈ ops) ∧
      (∀ pr, p = some pr → ∀ k ∈ it.intoResult, (k, true) ∈ known ∨
        ∃ peer newPeers, .onSuccess peer newPeers ∈ ops ∧
          ∃ r ∈ newPeers, nodeId r = k ∧ pr r = true) ∧
      it.intoResult.Pairwise (fun j k => distance target j < distance target k) ∧
      it.intoResult.length ≤ config.numResults ∧
      (.finished ∈ rs → (∀ e ∈ it.query.closestPeers, e.2.isOpen = true →
          it.intoResult.length = config.numResults ∧
            ∀ k ∈ it.intoResult, distance target k < distance target e.2.key) ∧
        ∀ ops', ∃ rs' it', it.run nodeId ops' = some (rs', it') ∧ it'.query = it.query) := by
  obtain ⟨hok, htarget, hconfig, hknown, hnone⟩ := withConfig_spec p config target known
  obtain ⟨rs, it, hrun, hran⟩ := run_spec hok nodeId ops
  have htarget' := hran.target.trans htarget
  have hconfig' := hran.config.trans hconfig
  refine ⟨rs, it, hrun, fun k hk => ?_, fun pr hp k hk => ?_,
    htarget' ▸ hran.ok.intoResult_pairwise, ?_, fun hfin => ⟨?_, fun ops' => ?_⟩⟩
  · obtain ⟨e, he, hres, rfl⟩ := mem_intoResult hk
    rcases hran.succeeded _ (mem_succeeded he (e.2.isResult_iff.1 hres).1) with
      hk | ⟨op, hop, hk⟩
    · have hold := contacted_of_succeeded hk
      rw [hnone] at hold
      cases hold
    · cases op with
      | onSuccess peer newPeers => exact ⟨newPeers, Option.some.inj hk ▸ hop⟩
      | next | onFailure => cases hk
  · obtain ⟨e, he, hres, rfl⟩ := mem_intoResult hk
    have hspot : (e.1, e.2.key, true) ∈ spots it.query.closestPeers :=
      (e.2.isResult_iff.1 hres).2 ▸ List.mem_map.2 ⟨e, he, rfl⟩
    subst hp
    rcases hran.known _ hspot with hs | ⟨op, hop, hs⟩
    · exact .inl ((hknown _ hs).2 rfl)
    · cases op with
      | onSuccess peer newPeers =>
        obtain ⟨r, hr, hrs⟩ := List.mem_map.1 hs
        rw [counts_withConfig] at hrs
        obtain ⟨hid, hpr⟩ := Prod.mk.inj hrs
        exact .inr ⟨peer, newPeers, hop, r, hr, hid, hpr⟩
      | next | onFailure => cases hs
  · rw [← hconfig']
    exact List.length_take_le ..
  · have hcomplete := hran.ok.complete (hran.finished hfin)
    rw [Complete, htarget', hconfig'] at hcomplete
    exact hcomplete
  · obtain ⟨rs', it', hrun', hran'⟩ := run_spec hran.ok nodeId ops'
    exact ⟨rs', it', hrun', hran'.frozen (hran.finished hfin)⟩

end QueryPeerIter

end Discv5
