import Neverust.Discv5.Proof.KBucket

/-!
# Runs of a bucket

* `KBucket.run_refines`: in every run the bucket of the source holds two valid queues that move as
  `Queues.act` says; no call panics.
* `Queues.run_ordered`: each queue is ordered by the last insertion or status update.
* `Queues.run_evicts`: which nodes lose their place, and when.
-/

namespace Discv5

variable {V : Type}

namespace Queues

variable {s : BucketSettings V} {q q' m : Queues V} {node : Node V} {key k : Key} {now : Nat}
  {op : BucketOp V}

/-! ## What one call does -/

/-- Everything that an insertion can do. -/
inductive Inserts (s : BucketSettings V) (q : Queues V) (now : Nat) (node : Node V) :
    BucketInsertResult → Queues V → Prop
  | refused (r : BucketInsertResult) : Inserts s q now node r q
  | waits (head : Node V) (fresh : node.key ∉ q.keys) (full : q.nodes.length = maxNodesPerBucket) :
    Inserts s q now node (.pending head.key)
      { q with pending := some { node, replace := now + s.pendingTimeout } }
  | placed (fresh : node.key ∉ q.keys) (room : q.nodes.length < maxNodesPerBucket)
      (few : q.tooMany s node = false) :
    Inserts s q now node .inserted ((q.release node.key).settle node)

theorem insert_cases (hroom : q.nodes.length ≤ maxNodesPerBucket) (now : Nat) (node : Node V) :
    Inserts s q now node (q.insert s now node).1 (q.insert s now node).2 := by
  rw [insert]
  by_cases hk : node.key ∈ q.keys
  · rw [if_pos hk]
    exact .refused _
  rw [if_neg hk]
  by_cases hp : (!q.passes s node.value) = true
  · rw [if_pos hp]
    exact .refused _
  rw [if_neg hp]
  by_cases ht : q.tooMany s node = true
  · rw [if_pos ht]
    exact .refused _
  rw [if_neg ht]
  by_cases hf : q.isFull = true
  · rw [if_pos hf]
    cases q.oldest with
    | none => exact .refused _
    | some head =>
      by_cases hw : node.status.state = .connected ∧ q.pending = none
      · simp only [if_pos hw]
        exact .waits head hk (of_decide_eq_true hf)
      · simp only [if_neg hw]
        exact .refused _
  · rw [if_neg hf]
    exact .placed hk ((isFull_iff hroom).1 (Bool.eq_false_iff.2 hf)) (Bool.eq_false_iff.2 ht)

/-- Everything that the waiting node can do when its time has come. -/
inductive Takes (s : BucketSettings V) (q : Queues V) (node : Node V) :
    Option (AppliedPending V) → Queues V → Prop
  | refused : Takes s q node none q
  | replaced (head : Node V) (rest : List (Node V)) (full : q.nodes.length = maxNodesPerBucket)
      (first : q.disconnected = head :: rest) (few : q.tooMany s node = false) :
    Takes s q node (some { inserted := node.key, evicted := some head })
      ({ q with disconnected := rest }.settle node)
  | placed (room : q.nodes.length < maxNodesPerBucket) (few : q.tooMany s node = false) :
    Takes s q node (some { inserted := node.key, evicted := none }) (q.settle node)

theorem takePlace_cases (hroom : q.nodes.length ≤ maxNodesPerBucket) :
    Takes s q node (q.takePlace s node).1 (q.takePlace s node).2 := by
  rw [takePlace]
  by_cases ht : (!q.passes s node.value || q.tooMany s node) = true
  · rw [if_pos ht]
    exact .refused
  rw [if_neg ht]
  have hfew : q.tooMany s node = false :=
    (Bool.or_eq_false_iff.1 (Bool.eq_false_iff.2 ht)).2
  by_cases hf : q.isFull = true
  · rw [if_pos hf]
    cases hd : q.disconnected with
    | nil => exact .refused
    | cons head rest => exact .replaced head rest (of_decide_eq_true hf) hd hfew
  · rw [if_neg hf]
    exact .placed ((isFull_iff hroom).1 (Bool.eq_false_iff.2 hf)) hfew

/-- The queues after `apply_pending`. -/
inductive Applies (s : BucketSettings V) (q : Queues V) (now : Nat) :
    Option (AppliedPending V) → Queues V → Prop
  | nothing : Applies s q now none q
  | due (p : PendingNode V) (pending : q.pending = some p) (late : p.replace ≤ now)
      {r : Option (AppliedPending V)} {q' : Queues V}
      (takes : Takes s { q with pending := none } p.node r q') : Applies s q now r q'

theorem applyPending_cases (hroom : q.nodes.length ≤ maxNodesPerBucket) (now : Nat) :
    Applies s q now (q.applyPending s now).1 (q.applyPending s now).2 := by
  rw [applyPending]
  cases hp : q.pending with
  | none => exact .nothing
  | some p =>
    by_cases hr : p.replace ≤ now
    · simp only [if_pos hr]
      exact .due p hp hr (takePlace_cases hroom)
    · simp only [if_neg hr]
      exact .nothing

/-- The queues after a node comes back. -/
inductive Reinserts (s : BucketSettings V) (q : Queues V) (node : Node V) :
    UpdateResult → Queues V → Prop
  | failed (reason : FailureReason) : Reinserts s q node (.failed reason) q
  | placed (r : UpdateResult) (few : q.tooMany s node = false) :
    Reinserts s q node r (q.settle node)

theorem reinsert_cases (q : Queues V) (old : NodeStatus) (node : Node V) :
    Reinserts s q node (q.reinsert s old node).1 (q.reinsert s old node).2 := by
  rw [reinsert]
  by_cases hp : (!q.passes s node.value) = true
  · rw [if_pos hp]
    exact .failed _
  by_cases ht : q.tooMany s node = true
  · rw [if_neg hp, if_pos ht]
    exact .failed _
  · rw [if_neg hp, if_neg ht]
    exact .placed _ (Bool.eq_false_iff.2 ht)

/-- Updates of the waiting node keep its key and its time. -/
theorem updateWaiting_cases (q : Queues V) (key : Key) {f : Node V → Node V}
    (hf : ∀ n, (f n).key = n.key) :
    ∃ pending, (q.updateWaiting key f).2 = { q with pending } ∧
      ∀ p, pending = some p → ∃ p₀, q.pending = some p₀ ∧ p₀.node.key = p.node.key ∧
        p₀.replace = p.replace := by
  rw [updateWaiting]
  cases hp : q.pending with
  | none => exact ⟨q.pending, rfl, by simp [hp]⟩
  | some p =>
    by_cases he : p.node.key = key
    · simp only [if_pos he]
      exact ⟨_, rfl, by simp [hf]⟩
    · simp only [if_neg he]
      exact ⟨q.pending, rfl, by simp [hp]⟩

/-! ## The effect of a call -/

/-- The key that a call names. -/
def named : BucketOp V → Option Key
  | .insert node => some node.key
  | .updateStatus key _ _ | .updateValue key _ | .remove key => some key
  | .applyPending | .updatePending _ => none

/-- Why a node loses its place: it is removed, an update of it fails, or it is the oldest node of a
full bucket and the time of the waiting node has come. -/
inductive Loses (q : Queues V) (now : Nat) : BucketOp V → BucketAnswer V → Key → Prop
  | removed (key : Key) (existed : Bool) : Loses q now (.remove key) (.removed existed) key
  | failed (op : BucketOp V) (key : Key) (h : named op = some key) (reason : FailureReason) :
    Loses q now op (.updated (.failed reason)) key
  | evicted (p : PendingNode V) (head : Node V) (full : q.nodes.length = maxNodesPerBucket)
      (first : q.disconnected.head? = some head) (waiting : q.pending = some p)
      (late : p.replace ≤ now) :
    Loses q now .applyPending
      (.applied (some { inserted := p.node.key, evicted := some head })) head.key

/-- Nodes may have left the queues, and the slot may have changed. -/
structure Trims (s : BucketSettings V) (q : Queues V) (now : Nat) (op : BucketOp V) (m : Queues V) :
    Prop where
  disconnected : m.disconnected.Sublist q.disconnected
  connected : m.connected.Sublist q.connected
  slot : ∀ p, m.pending = some p →
    (∃ p₀, q.pending = some p₀ ∧ p₀.node.key = p.node.key ∧ p₀.replace = p.replace) ∨
      op = .insert p.node ∧ p.node.key ∉ q.keys ∧ p.replace = now + s.pendingTimeout ∧
        q.nodes.length = maxNodesPerBucket
  gone : ∀ k, restatus op = some k → k ∉ m.keys

/-- A node that comes to the end of a queue. -/
structure Comes (s : BucketSettings V) (q : Queues V) (op : BucketOp V) (m : Queues V)
    (node : Node V) : Prop where
  touched : node.key ∉ q.keys ∨ restatus op = some node.key
  known : named op = some node.key ∨ ∃ p, q.pending = some p ∧ p.node.key = node.key
  fresh : node.key ∉ m.keys
  room : m.nodes.length < maxNodesPerBucket
  few : m.tooMany s node = false
  apart : ∀ p, m.pending = some p → p.node.key ≠ node.key

/-- Everything that a call can do to the queues. -/
inductive Effect (s : BucketSettings V) (q : Queues V) (now : Nat) (op : BucketOp V)
    (answer : BucketAnswer V) : Queues V → Prop
  | trims (m : Queues V) (h : Trims s q now op m)
      (lost : ∀ k ∈ q.keys, k ∉ m.keys → Loses q now op answer k) : Effect s q now op answer m
  | places (m : Queues V) (node : Node V) (h : Trims s q now op m) (comes : Comes s q op m node)
      (lost : ∀ k ∈ q.keys, k ∉ m.keys → k = node.key ∨ Loses q now op answer k) :
    Effect s q now op answer (m.settle node)
  | values (key : Key) (value : V) (h : restatus op = none) :
    Effect s q now op answer (q.setValue key value)

theorem Trims.of_pending {pending : Option (PendingNode V)}
    (hp : ∀ p, pending = some p → ∃ p₀, q.pending = some p₀ ∧ p₀.node.key = p.node.key ∧
      p₀.replace = p.replace) (hop : ∀ k, restatus op = some k → k ∉ q.keys) :
    Trims s q now op { q with pending } :=
  ⟨.refl _, .refl _, fun p h => .inl (hp p h), hop⟩

theorem Trims.refl (hop : ∀ k, restatus op = some k → k ∉ q.keys) : Trims s q now op q :=
  .of_pending (fun p h => ⟨p, h, rfl, rfl⟩) hop

theorem Trims.without (key : Key) (hp : ∀ p, m.pending = some p → q.pending = some p)
    (hd : m.disconnected = (q.without key).disconnected)
    (hc : m.connected = (q.without key).connected) (hop : ∀ k, restatus op = some k → k = key) :
    Trims s q now op m where
  disconnected := hd ▸ List.filter_sublist
  connected := hc ▸ List.filter_sublist
  slot p h := .inl ⟨p, hp p h, rfl, rfl⟩
  gone k hk h := by
    rw [hop k hk, keys, nodes, hd, hc] at h
    exact not_mem_without h

theorem insert_effect (hv : q.Valid s) :
    Effect s q now (.insert node) (.inserted (q.insert s now node).1) (q.insert s now node).2 := by
  have hop : ∀ k, restatus (.insert node) = some k → k ∉ q.keys := by simp [restatus]
  generalize hr : (q.insert s now node).1 = r
  generalize hq : (q.insert s now node).2 = q'
  have hcases := insert_cases (s := s) hv.room now node
  rw [hr, hq] at hcases
  cases hcases with
  | refused => exact .trims q (.refl hop) fun k h hk => (hk h).elim
  | waits head fresh full =>
    refine .trims _ ⟨.refl _, .refl _, fun p hp => ?_, hop⟩ fun k h hk => (hk h).elim
    cases hp
    exact .inr ⟨rfl, fresh, rfl, full⟩
  | placed fresh room few =>
    refine .places (q.release node.key) node
      ⟨.refl _, .refl _, fun p hp => .inl ⟨p, (Option.filter_eq_some_iff.1 hp).1, rfl, rfl⟩, hop⟩
      ⟨.inl fresh, .inl rfl, fresh, room, few, fun p hp => ?_⟩ fun k h hk => (hk h).elim
    simpa using (Option.filter_eq_some_iff.1 hp).2

theorem applyPending_effect (hv : q.Valid s) :
    Effect s q now .applyPending (.applied (q.applyPending s now).1) (q.applyPending s now).2 := by
  have hop : ∀ k, restatus (.applyPending : BucketOp V) = some k → k ∉ q.keys := by simp [restatus]
  generalize hr : (q.applyPending s now).1 = r
  generalize hq : (q.applyPending s now).2 = q'
  have hcases := applyPending_cases (s := s) hv.room now
  rw [hr, hq] at hcases
  cases hcases with
  | nothing => exact .trims q (.refl hop) fun k h hk => (hk h).elim
  | due p pending late takes =>
    have hk := hv.waits p pending
    cases takes with
    | refused => exact .trims _ (.of_pending (by simp) hop) fun k h hk => (hk h).elim
    | placed room few =>
      exact .places _ p.node (.of_pending (by simp) hop)
        ⟨.inl hk, .inr ⟨p, pending, rfl⟩, hk, room, few, by simp⟩ fun k h hk => (hk h).elim
    | replaced head rest full first few =>
      have hrest : rest.Sublist q.disconnected := first ▸ List.sublist_cons_self head rest
      have hsub : (rest ++ q.connected).Sublist q.nodes := hrest.append (.refl _)
      have hnodes : q.nodes = head :: (rest ++ q.connected) := by
        rw [nodes, show q.disconnected = head :: rest from first, List.cons_append]
      have hfull : q.nodes.length = maxNodesPerBucket := full
      refine .places { disconnected := rest, connected := q.connected, pending := none } p.node
        ⟨hrest, .refl _, by simp, fun k h => by simp [restatus] at h⟩
        ⟨.inl hk, .inr ⟨p, pending, rfl⟩, fun h => hk ((hsub.map Node.key).subset h), ?_,
          tooMany_of_le hsub.countP_le few, by simp⟩ fun k h hgone => .inr ?_
      · rw [hnodes, List.length_cons] at hfull
        exact Nat.lt_of_succ_le (Nat.le_of_eq hfull)
      · have hhead : k = head.key := by
          rw [keys, hnodes, List.map_cons, List.mem_cons] at h
          exact h.resolve_right hgone
        rw [hhead]
        have hfirst : q.disconnected.head? = some head := by
          rw [show q.disconnected = head :: rest from first, List.head?_cons]
        exact .evicted p head full hfirst pending late

theorem updateStatus_effect (hv : q.Valid s) (state : ConnectionState)
    (direction : Option ConnectionDirection) :
    Effect s q now (.updateStatus key state direction)
      (.updated (q.updateStatus s key state direction).1)
      (q.updateStatus s key state direction).2 := by
  rw [updateStatus]
  cases hfind : q.find key with
  | none =>
    have hk : key ∉ q.keys := fun h => by
      obtain ⟨_, old, -, hl⟩ := exists_leaves (s := s) hv.nodup h
      rw [hl.find] at hfind
      cases hfind
    obtain ⟨pending, he, hp⟩ := updateWaiting_cases q key
      (f := fun n => { n with status := n.status.update state direction }) fun _ => rfl
    simp only [he]
    exact .trims _ (.of_pending hp fun k h => by cases h; exact hk) fun k h hk => (hk h).elim
  | some old =>
    obtain ⟨hmem, rfl⟩ := find_some hfind
    have hk : old.key ∈ q.keys := List.mem_map_of_mem hmem
    have hlen : (q.vacate old.key state).nodes.length + 1 = q.nodes.length :=
      without_length hv.nodup hk
    have hroom := hv.room
    have hslot : ∀ p, (q.vacate old.key state).pending = some p → q.pending = some p := fun p hp => by
      rw [vacate] at hp
      split at hp
      · cases hp
      · exact hp
    have htrims : Trims s q now (.updateStatus old.key state direction) (q.vacate old.key state) :=
      .without _ hslot rfl rfl fun k h => by cases h; rfl
    have hlost : ∀ k ∈ q.keys, k ∉ (q.vacate old.key state).keys → k = old.key := fun k h hgone =>
      of_not_not fun hne => hgone (mem_without_keys.2 ⟨h, hne⟩)
    simp only
    generalize hr : (reinsert s (q.vacate old.key state) old.status
      { old with status := old.status.update state direction }).1 = r
    generalize hq : (reinsert s (q.vacate old.key state) old.status
      { old with status := old.status.update state direction }).2 = q'
    have hcases := reinsert_cases (s := s) (q.vacate old.key state) old.status
      { old with status := old.status.update state direction }
    rw [hr, hq] at hcases
    cases hcases with
    | failed reason =>
      exact .trims _ htrims fun k h hgone => by
        rw [hlost k h hgone]
        exact .failed _ _ rfl reason
    | placed r few =>
      exact .places _ _ htrims ⟨.inr rfl, .inl rfl, not_mem_without, by omega, few,
        fun p hp he => hv.waits p (hslot p hp) (he ▸ hk)⟩ fun k h hgone => .inl (hlost k h hgone)

theorem updateValue_effect [DecidableEq V] (value : V) :
    Effect s q now (.updateValue key value) (.updated (q.updateValue s key value).1)
      (q.updateValue s key value).2 := by
  have hop : ∀ k, restatus (.updateValue key value) = some k → k ∉ q.keys := by simp [restatus]
  rw [updateValue]
  cases hfind : q.find key with
  | none =>
    obtain ⟨pending, he, hp⟩ := updateWaiting_cases q key (f := fun n => { n with value })
      fun _ => rfl
    simp only [he]
    exact .trims _ (.of_pending hp hop) fun k h hk => (hk h).elim
  | some old =>
    by_cases hval : old.value = value
    · simp only [if_pos hval]
      exact .trims q (.refl hop) fun k h hk => (hk h).elim
    by_cases hp : (!(q.without key).passes s value) = true
    · simp only [if_neg hval, if_pos hp]
      refine .trims _ (.without key (fun p hp => hp) rfl rfl (by simp [restatus]))
        fun k h hgone => ?_
      have hk : k = key := of_not_not fun hne => hgone (mem_without_keys.2 ⟨h, hne⟩)
      exact hk ▸ .failed _ _ rfl _
    · simp only [if_neg hval, if_neg hp]
      exact .values key value rfl

theorem remove_effect (hv : q.Valid s) :
    Effect s q now (.remove key) (.removed (q.remove s now key).1) (q.remove s now key).2 := by
  have hop : ∀ k, restatus (.remove key : BucketOp V) = some k → k = key := by simp [restatus]
  rw [remove]
  by_cases hk : key ∈ q.keys
  swap
  · rw [if_neg hk]
    exact .trims q (.refl (by simp [restatus])) fun k h hk => (hk h).elim
  rw [if_pos hk]
  have hlen := without_length hv.nodup hk
  have hroom := hv.room
  have hlost : ∀ k ∈ q.keys, k ∉ (q.without key).keys →
      Loses q now (.remove key) (.removed true) k := fun k h hgone => by
    have hk : k = key := of_not_not fun hne => hgone (mem_without_keys.2 ⟨h, hne⟩)
    exact hk ▸ .removed k true
  generalize hr : ((q.without key).applyPending s now).1 = r
  generalize hq : ((q.without key).applyPending s now).2 = q'
  have hcases := applyPending_cases (s := s) (q := q.without key) (by omega) now
  rw [hr, hq] at hcases
  cases hcases with
  | nothing => exact .trims _ (.without key (fun p hp => hp) rfl rfl hop) hlost
  | due p pending late takes =>
    have hw := hv.waits p pending
    cases takes with
    | refused => exact .trims _ (.without key (by simp) rfl rfl hop) hlost
    | replaced head rest full first few =>
      -- there is room where a node was removed
      have hfull : (q.without key).nodes.length = maxNodesPerBucket := full
      omega
    | placed room few =>
      exact .places _ p.node (.without key (by simp) rfl rfl hop)
        ⟨.inl hw, .inr ⟨p, pending, rfl⟩, fun h => hw (mem_without_keys.1 h).1, room, few, by simp⟩
        fun k h hgone => .inr (hlost k h hgone)

/-- The effect of every call. -/
theorem act_effect [DecidableEq V] (hv : q.Valid s) (now : Nat) (op : BucketOp V) :
    Effect s q now op (q.act s now op).1 (q.act s now op).2 := by
  cases op with
  | insert node => exact insert_effect hv
  | applyPending => exact applyPending_effect hv
  | updatePending status =>
    refine .trims _ (.of_pending (fun p hp => ?_) (by simp [restatus])) fun k h hk => (hk h).elim
    obtain ⟨p₀, hp₀, rfl⟩ := Option.map_eq_some_iff.1 hp
    exact ⟨p₀, hp₀, rfl, rfl⟩
  | updateStatus key state direction => exact updateStatus_effect hv state direction
  | updateValue key value => exact updateValue_effect value
  | remove key => exact remove_effect hv

/-! ## Valid queues stay valid -/

theorem Trims.sublist (h : Trims s q now op m) : m.nodes.Sublist q.nodes :=
  h.disconnected.append h.connected

theorem Valid.trims (hv : q.Valid s) (h : Trims s q now op m) : m.Valid s where
  disconnected n hn := hv.disconnected n (h.disconnected.subset hn)
  connected n hn := hv.connected n (h.connected.subset hn)
  room := Nat.le_trans h.sublist.length_le hv.room
  nodup := hv.nodup.sublist (h.sublist.map Node.key)
  waits p hp hk := by
    have hq := (h.sublist.map Node.key).subset hk
    rcases h.slot p hp with ⟨p₀, hp₀, he, -⟩ | ⟨-, hfresh, -⟩
    · exact hv.waits p₀ hp₀ (he ▸ hq)
    · exact hfresh hq
  incoming := Nat.le_trans h.sublist.countP_le hv.incoming

theorem Valid.effect {answer : BucketAnswer V} (hv : q.Valid s) (h : Effect s q now op answer q') :
    q'.Valid s := by
  cases h with
  | trims m h => exact hv.trims h
  | places m node h comes => exact (hv.trims h).settle comes.fresh comes.room comes.few comes.apart
  | values key value => exact hv.setValue

theorem Valid.empty (s : BucketSettings V) : empty.Valid s where
  disconnected := by simp [Queues.empty]
  connected := by simp [Queues.empty]
  room := Nat.zero_le _
  nodup := List.nodup_nil
  waits := by simp [Queues.empty]
  incoming := Nat.zero_le _

variable [DecidableEq V]

theorem Valid.act (hv : q.Valid s) (now : Nat) (op : BucketOp V) : (q.act s now op).2.Valid s :=
  hv.effect (act_effect hv now op)

/-- One call of the source on the array of the queues. -/
theorem bucket_apply (hv : q.Valid s) (now : Nat) (op : BucketOp V) :
    (q.bucket s).apply now op = some ((q.act s now op).1, (q.act s now op).2.bucket s) := by
  cases op with
  | insert node => rw [KBucket.apply, bucket_insert hv.room]; rfl
  | applyPending => rw [KBucket.apply, bucket_applyPending hv]; rfl
  | updatePending status => rfl
  | updateStatus key state direction => rw [KBucket.apply, bucket_updateStatus hv]; rfl
  | updateValue key value => rw [KBucket.apply, bucket_updateValue hv]; rfl
  | remove key => rw [KBucket.apply, bucket_remove hv]; rfl

theorem bucket_run (hv : q.Valid s) (ops : List (Nat × BucketOp V)) :
    (q.bucket s).run ops = some ((q.run s ops).1, (q.run s ops).2.bucket s) ∧
      (q.run s ops).2.Valid s := by
  induction ops generalizing q with
  | nil => exact ⟨rfl, hv⟩
  | cons o ops ih =>
    obtain ⟨hrun, hvalid⟩ := ih (hv.act o.1 o.2)
    refine ⟨?_, hvalid⟩
    rw [KBucket.run, bucket_apply hv o.1 o.2]
    simp only [Option.bind_eq_bind, Option.bind_some, hrun]
    rfl

end Queues

/-- **In every run** from an empty bucket, whatever its filter and its limits, no call panics, and
the bucket is at every moment the array of two valid queues that move as `Queues.act` says: the
disconnected nodes come first and `first_connected_pos` is where the others begin, no key is there
twice or waits while it is there, at most 16 nodes and `max_incoming` incoming ones are there. -/
theorem KBucket.run_refines [DecidableEq V] (s : BucketSettings V) (ops : List (Nat × BucketOp V)) :
    (KBucket.new s.pendingTimeout s.maxIncoming s.filter).run ops =
        some ((Queues.empty.run s ops).1, (Queues.empty.run s ops).2.bucket s) ∧
      (Queues.empty.run s ops).2.Valid s :=
  Queues.bucket_run (.empty s) ops

/-! ## The order of the nodes -/

namespace Queues

variable {s : BucketSettings V} {q q' m : Queues V} {node : Node V} {k : Key} {now : Nat}
  {op : BucketOp V} {answer : BucketAnswer V}

namespace Clocked

/-- Each queue is ordered by the last touch, and the slot waits for its time. -/
structure Ordered (s : BucketSettings V) (ops : List (Nat × BucketOp V)) (c : Clocked V) : Prop where
  valid : c.queues.Valid s
  before : ∀ k ∈ c.queues.keys, c.touched k < c.calls
  disconnected :
    (c.queues.disconnected.map Node.key).Pairwise fun j k => c.touched j < c.touched k
  connected : (c.queues.connected.map Node.key).Pairwise fun j k => c.touched j < c.touched k
  waiting : ∀ p, c.queues.pending = some p → ∃ t node, (t, .insert node) ∈ ops ∧
    node.key = p.node.key ∧ p.replace = t + s.pendingTimeout

end Clocked

theorem settle_keys_disconnected : (q.settle node).disconnected.map Node.key =
    q.disconnected.map Node.key ++ if node.status.state = .disconnected then [node.key] else [] := by
  rcases state_cases node.status.state with h | h
  · simp [settle_connected h, h]
  · simp [settle_disconnected h, h]

theorem settle_keys_connected : (q.settle node).connected.map Node.key =
    q.connected.map Node.key ++ if node.status.state = .connected then [node.key] else [] := by
  rcases state_cases node.status.state with h | h
  · simp [settle_connected h, h]
  · simp [settle_disconnected h, h]

theorem mem_keys_iff : k ∈ q.keys ↔
    k ∈ q.disconnected.map Node.key ∨ k ∈ q.connected.map Node.key := by
  rw [keys, nodes, List.map_append, List.mem_append]

/-- One queue with at most one touched key at its end. -/
theorem pairwise_touch {l l' : List Key} (end' : List Key) {touched touched' : Key → Nat} {n : Nat}
    (hl : l.Pairwise fun j k => touched j < touched k) (hb : ∀ k ∈ l, touched k < n)
    (hsub : l'.Sublist l) (hsame : ∀ k ∈ l', touched' k = touched k)
    (hend : ∀ k ∈ end', touched' k = n) (hone : end'.length ≤ 1) :
    (l' ++ end').Pairwise fun j k => touched' j < touched' k := by
  refine List.pairwise_append.2 ⟨?_, ?_, fun j hj k hk => ?_⟩
  · refine (hl.sublist hsub).imp_of_mem fun {j k} hj hk h => ?_
    rw [hsame j hj, hsame k hk]
    exact h
  · rcases end' with _ | ⟨e, _ | ⟨f, rest⟩⟩
    · exact .nil
    · exact List.pairwise_singleton _ _
    · simp at hone
  · rw [hsame j hj, hend k hk]
    exact hb j (hsub.subset hj)

section
variable {c : Clocked V} {ops : List (Nat × BucketOp V)}

theorem Trims.keys_subset (h : Trims s q now op m) {k : Key} (hk : k ∈ m.keys) : k ∈ q.keys :=
  (h.sublist.map Node.key).subset hk

theorem Trims.waiting (h : Trims s q now op m)
    (hw : ∀ p, q.pending = some p → ∃ t node, (t, .insert node) ∈ ops ∧ node.key = p.node.key ∧
      p.replace = t + s.pendingTimeout) :
    ∀ p, m.pending = some p → ∃ t node, (t, .insert node) ∈ ops ++ [(now, op)] ∧
      node.key = p.node.key ∧ p.replace = t + s.pendingTimeout := by
  intro p hp
  rcases h.slot p hp with ⟨p₀, hp₀, hkey, hreplace⟩ | ⟨hop, -, hreplace, -⟩
  · obtain ⟨t, node, hmem, hnode, htime⟩ := hw p₀ hp₀
    exact ⟨t, node, List.mem_append_left _ hmem, hnode.trans hkey, hreplace ▸ htime⟩
  · exact ⟨now, p.node, by simp [hop], rfl, hreplace⟩

variable [DecidableEq V]

/-- The keys that stay are not touched. -/
theorem Clocked.next_same (h : Trims s c.queues now op m) {k : Key} (hk : k ∈ m.keys) :
    (c.next s (now, op)).touched k = c.touched k :=
  if_neg fun h' => h'.elim (fun hn => hn (h.keys_subset hk)) fun hr => h.gone k hr hk

section
variable {c' : Clocked V} {ops' : List (Nat × BucketOp V)}

omit [DecidableEq V] in
theorem Clocked.Ordered.before_disconnected (hc : c.Ordered s ops) :
    ∀ k ∈ c.queues.disconnected.map Node.key, c.touched k < c.calls :=
  fun k hk => hc.before k (mem_keys_iff.2 (.inl hk))

omit [DecidableEq V] in
theorem Clocked.Ordered.before_connected (hc : c.Ordered s ops) :
    ∀ k ∈ c.queues.connected.map Node.key, c.touched k < c.calls :=
  fun k hk => hc.before k (mem_keys_iff.2 (.inr hk))

omit [DecidableEq V] in
/-- Calls that bring no node to the end of a queue. -/
theorem Clocked.Ordered.kept (hc : c.Ordered s ops) (hv : c'.queues.Valid s)
    (hcalls : c'.calls = c.calls + 1) (hfewer : (c'.queues.disconnected.map Node.key).Sublist
      (c.queues.disconnected.map Node.key) ∧
      (c'.queues.connected.map Node.key).Sublist (c.queues.connected.map Node.key))
    (hsame : ∀ k ∈ c'.queues.keys, c'.touched k = c.touched k)
    (hw : ∀ p, c'.queues.pending = some p → ∃ t node, (t, .insert node) ∈ ops' ∧
      node.key = p.node.key ∧ p.replace = t + s.pendingTimeout) : c'.Ordered s ops' := by
  refine ⟨hv, fun k hk => ?_, ?_, ?_, hw⟩
  · have hold : k ∈ c.queues.keys :=
      mem_keys_iff.2 ((mem_keys_iff.1 hk).imp (hfewer.1.subset ·) (hfewer.2.subset ·))
    rw [hsame k hk, hcalls]
    exact Nat.lt_succ_of_lt (hc.before k hold)
  · have := pairwise_touch [] hc.disconnected hc.before_disconnected hfewer.1
      (fun k hk => hsame k (mem_keys_iff.2 (.inl hk))) (by simp) (by simp)
    rwa [List.append_nil] at this
  · have := pairwise_touch [] hc.connected hc.before_connected hfewer.2
      (fun k hk => hsame k (mem_keys_iff.2 (.inr hk))) (by simp) (by simp)
    rwa [List.append_nil] at this

end

theorem Clocked.Ordered.next (hc : c.Ordered s ops) (now : Nat) (op : BucketOp V) :
    (c.next s (now, op)).Ordered s (ops ++ [(now, op)]) := by
  have heffect := act_effect hc.valid now op
  have hvalid := hc.valid.effect heffect
  have hnext : (c.next s (now, op)).queues = (c.queues.act s now op).2 := rfl
  generalize (c.queues.act s now op).2 = q' at heffect hvalid hnext
  cases heffect with
  | trims _ h =>
    refine hc.kept (hnext ▸ hvalid) rfl ?_ ?_ ?_
    all_goals rw [hnext]
    · exact ⟨h.disconnected.map Node.key, h.connected.map Node.key⟩
    · exact fun k hk => Clocked.next_same h hk
    · exact h.waiting hc.waiting
  | values key value hop =>
    have hrefl : Trims s c.queues now op c.queues := .refl (by simp [hop])
    refine hc.kept (hnext ▸ hvalid) rfl ?_ ?_ ?_
    all_goals rw [hnext]
    · rw [setValue, map_setValue_keys, map_setValue_keys]
      exact ⟨.refl _, .refl _⟩
    · exact fun k hk => Clocked.next_same hrefl (setValue_keys ▸ hk)
    · exact hrefl.waiting hc.waiting
  | places m node h comes =>
    have hsame : ∀ k ∈ m.keys, (c.next s (now, op)).touched k = c.touched k := fun k hk =>
      Clocked.next_same h hk
    have hnew : (c.next s (now, op)).touched node.key = c.calls := if_pos comes.touched
    refine ⟨hnext ▸ hvalid, ?_, ?_, ?_, ?_⟩
    all_goals rw [hnext]
    · intro k hk
      rcases mem_settle_keys.1 hk with rfl | hk
      · rw [hnew]
        exact Nat.lt_succ_self _
      · rw [hsame k hk]
        exact Nat.lt_succ_of_lt (hc.before k (h.keys_subset hk))
    · rw [settle_keys_disconnected]
      refine pairwise_touch _ hc.disconnected hc.before_disconnected (h.disconnected.map Node.key)
        (fun k hk => hsame k (mem_keys_iff.2 (.inl hk))) ?_ ?_
      · split <;> simp [hnew]
      · split <;> simp
    · rw [settle_keys_connected]
      refine pairwise_touch _ hc.connected hc.before_connected (h.connected.map Node.key)
        (fun k hk => hsame k (mem_keys_iff.2 (.inr hk))) ?_ ?_
      · split <;> simp [hnew]
      · split <;> simp
    · rw [settle_pending]
      exact h.waiting hc.waiting

theorem Clocked.Ordered.run (ops ops' : List (Nat × BucketOp V)) (hc : c.Ordered s ops) :
    (ops'.foldl (Clocked.next s) c).Ordered s (ops ++ ops') ∧
      (ops'.foldl (Clocked.next s) c).queues = (c.queues.run s ops').2 := by
  induction ops' generalizing c ops with
  | nil => exact ⟨by rwa [List.append_nil], rfl⟩
  | cons o ops' ih =>
    obtain ⟨hordered, hqueues⟩ := ih (ops ++ [o]) (hc.next o.1 o.2)
    rw [List.append_assoc] at hordered
    exact ⟨hordered, hqueues⟩

omit [DecidableEq V] in
theorem Clocked.start_ordered : (Clocked.start : Clocked V).Ordered s [] :=
  ⟨.empty s, by simp [start, empty, keys, nodes], .nil, .nil, by simp [start, empty]⟩

/-- The call of a run that was the last to bring a node in or to update its status. -/
def lastTouch (s : BucketSettings V) (ops : List (Nat × BucketOp V)) : Key → Nat :=
  (ops.foldl (Clocked.next s) .start).touched

theorem run_clocked (s : BucketSettings V) (ops : List (Nat × BucketOp V)) :
    (ops.foldl (Clocked.next s) .start).Ordered s ops ∧
      (ops.foldl (Clocked.next s) .start).queues = ((empty : Queues V).run s ops).2 :=
  Clocked.Ordered.run [] ops Clocked.start_ordered

end

end Queues

theorem Queues.Valid.disconnected_eq {s : BucketSettings V} {q : Queues V} (hv : q.Valid s) :
    (q.nodes.filter fun n => n.status.state = .disconnected) = q.disconnected := by
  rw [Queues.nodes, List.filter_append,
    List.filter_eq_self.2 fun n hn => decide_eq_true (hv.disconnected n hn),
    List.filter_eq_nil_iff.2 fun n hn => by simp [hv.connected n hn], List.append_nil]

theorem Queues.Valid.connected_eq {s : BucketSettings V} {q : Queues V} (hv : q.Valid s) :
    (q.nodes.filter fun n => n.status.state = .connected) = q.connected := by
  rw [Queues.nodes, List.filter_append,
    List.filter_eq_self.2 fun n hn => decide_eq_true (hv.connected n hn),
    List.filter_eq_nil_iff.2 fun n hn => by simp [hv.disconnected n hn], List.nil_append]

theorem Queues.Effect.loses {s : BucketSettings V} {q q' : Queues V} {now : Nat} {op : BucketOp V}
    {answer : BucketAnswer V} {k : Key} (h : Queues.Effect s q now op answer q') (hin : k ∈ q.keys)
    (hout : k ∉ q'.keys) : Queues.Loses q now op answer k := by
  cases h with
  | trims m h lost => exact lost k hin hout
  | places m node h comes lost =>
    rw [Queues.mem_settle_keys, not_or] at hout
    exact (lost k hin hout.2).resolve_left hout.1
  | values key value => exact (hout (Queues.setValue_keys.symm ▸ hin)).elim

/-! ## The results about runs -/

section
variable [DecidableEq V]

open Queues

/-- **In every run** the nodes of one connection state stand in the order in which they came in or
had their status updated for the last time. -/
theorem KBucket.run_ordered (s : BucketSettings V) (ops : List (Nat × BucketOp V))
    (state : ConnectionState) : ∃ answers b,
    (KBucket.new s.pendingTimeout s.maxIncoming s.filter).run ops = some (answers, b) ∧
      ((b.nodes.filter fun n => n.status.state = state).map Node.key).Pairwise
        fun j k => lastTouch s ops j < lastTouch s ops k := by
  obtain ⟨hrun, hv⟩ := KBucket.run_refines s ops
  obtain ⟨hordered, hq⟩ := run_clocked s ops
  refine ⟨_, _, hrun, ?_⟩
  have hd := hordered.disconnected
  have hc := hordered.connected
  rw [hq] at hd hc
  rcases Queues.state_cases state with rfl | rfl
  · rwa [Queues.bucket_nodes, hv.connected_eq]
  · rwa [Queues.bucket_nodes, hv.disconnected_eq]

/-- **Nodes lose their place** only when they are removed, when an update of them fails, or when the
time of a waiting node has come in a full bucket: it was put there at least `pending_timeout` ago,
and the node that goes is disconnected and the first of these to have been touched. -/
theorem KBucket.run_loses {s : BucketSettings V} {ops : List (Nat × BucketOp V)} {now : Nat}
    {op : BucketOp V} {answers : List (BucketAnswer V)} {answer : BucketAnswer V} {b b' : KBucket V}
    {k : Key}
    (hrun : (KBucket.new s.pendingTimeout s.maxIncoming s.filter).run ops = some (answers, b))
    (hstep : b.apply now op = some (answer, b')) (hin : k ∈ b.nodes.map Node.key)
    (hout : k ∉ b'.nodes.map Node.key) :
    op = .remove k ∨ (∃ reason, answer = .updated (.failed reason) ∧ named op = some k) ∨
      op = .applyPending ∧ b.nodes.length = maxNodesPerBucket ∧
        ∃ head t node, b.nodes.head? = some head ∧ head.key = k ∧
          head.status.state = .disconnected ∧
          (∀ n ∈ b.nodes, n.status.state = .disconnected →
            lastTouch s ops k ≤ lastTouch s ops n.key) ∧
          (t, .insert node) ∈ ops ∧ t + s.pendingTimeout ≤ now ∧
          answer = .applied (some { inserted := node.key, evicted := some head }) := by
  obtain ⟨hrefines, hv⟩ := KBucket.run_refines s ops
  obtain ⟨hordered, hq⟩ := run_clocked s ops
  have hbucket := hrun.symm.trans hrefines
  simp only [Option.some.injEq, Prod.mk.injEq] at hbucket
  obtain ⟨-, rfl⟩ := hbucket
  generalize hqueues : (Queues.empty.run s ops).2 = q at *
  have hact := hstep.symm.trans (bucket_apply hv now op)
  simp only [Option.some.injEq, Prod.mk.injEq] at hact
  obtain ⟨rfl, rfl⟩ := hact
  have hloses : Loses q now op (q.act s now op).1 k := (act_effect hv now op).loses hin hout
  generalize (q.act s now op).1 = answer at hloses
  cases hloses with
  | removed => exact .inl rfl
  | failed op key h reason => exact .inr (.inl ⟨reason, rfl, h⟩)
  | evicted p head full first waiting late =>
    obtain ⟨t, node, hmem, hkey, htime⟩ := hordered.waiting p (hq ▸ waiting)
    obtain ⟨rest, hd⟩ : ∃ rest, q.disconnected = head :: rest := List.head?_eq_some_iff.1 first
    have hhead : q.nodes.head? = some head := by
      rw [Queues.nodes, hd, List.cons_append, List.head?_cons]
    refine .inr (.inr ⟨rfl, full, head, t, node, hhead, rfl,
      hv.disconnected head (by simp [hd]), fun n hn hs => ?_, hmem, htime ▸ late, by rw [hkey]⟩)
    have horder := hordered.disconnected
    have hn' : n ∈ q.disconnected := hv.disconnected_eq ▸ List.mem_filter.2 ⟨hn, decide_eq_true hs⟩
    rw [hq, hd, List.map_cons, List.pairwise_cons] at horder
    rw [hd, List.mem_cons] at hn'
    rcases hn' with rfl | hn'
    · exact Nat.le_refl _
    · exact Nat.le_of_lt (horder.1 n.key (List.mem_map_of_mem hn'))

end

/-- Sixteen disconnected nodes, and one that is connected and has to wait. -/
def crowdedOps : List (Nat × BucketOp Unit) :=
  (List.range 17).map fun i =>
    (i, .insert ⟨BitVec.ofNat 256 i, (), ⟨.outgoing, if i < 16 then .disconnected else .connected⟩⟩)

/-- The node that waits takes the place of the first one: that one was touched before the others,
the one that waits came 60 before, and the answer names both. -/
theorem KBucket.run_loses_crowded :
    ∃ answers b b' head answer,
      (KBucket.new 60 16 none).run crowdedOps = some (answers, b) ∧
      b.apply 76 (.applyPending : BucketOp Unit) = some (answer, b') ∧
      b.nodes.length = 16 ∧ b.nodes.head? = some head ∧ head.key = 0 ∧
      head.status.state = .disconnected ∧
      (∀ n ∈ b.nodes, Queues.lastTouch ⟨60, none, 16⟩ crowdedOps 0 ≤
        Queues.lastTouch ⟨60, none, 16⟩ crowdedOps n.key) ∧
      ∃ t node, (t, .insert node) ∈ crowdedOps ∧ t + 60 ≤ 76 ∧
        answer = .applied (some { inserted := node.key, evicted := some head }) := by
  have hloses := @KBucket.run_loses Unit _ ⟨60, none, 16⟩ crowdedOps 76 .applyPending _ _ _ _ 0
    rfl rfl (by decide) (by decide)
  rcases hloses with h | ⟨_, h, -⟩ | ⟨-, hfull, head, t, node, hhead, hkey, hstate, hfirst, hmem,
    htime, hanswer⟩
  · cases h
  · cases h
  · refine ⟨_, _, _, head, _, rfl, rfl, hfull, hhead, hkey, hstate, fun n hn => hfirst n hn ?_,
      t, node, hmem, htime, hanswer⟩
    revert n
    decide

end Discv5
