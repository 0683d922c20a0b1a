import Neverust.Discv5.Proof.Closest
import Neverust.Discv5.Proof.KBucketRun

/-!
# The routing table in every run

* `KBucketsTable.Ok`: every bucket holds two valid queues, and the nodes of one distance.
* `KBucketsTable.apply_ok`: one call. `KBucketsTable.run_soundTable`: every run.
-/

namespace Discv5

variable {V : Type}

/-! ## The nodes of a bucket -/

/-- The nodes of a bucket are at its distance. No node waits for the first bucket, which has room for
the one key of its distance. -/
structure Located (localKey : Key) (i : BucketIndex) (q : Queues V) : Prop where
  keys : ∀ k ∈ q.keys, BucketIndex.new (distance localKey k) = some i
  pending : ∀ p, q.pending = some p → BucketIndex.new (distance localKey p.node.key) = some i
  first : i = 0 → q.pending = none

/-- A bucket of the table. -/
def BucketOk (s : BucketSettings V) (localKey : Key) (i : BucketIndex) (b : KBucket V) : Prop :=
  ∃ q : Queues V, b = q.bucket s ∧ q.Valid s ∧ Located localKey i q

section
variable {s : BucketSettings V} {localKey k : Key} {i : BucketIndex} {q q' m : Queues V} {now : Nat}
  {op : BucketOp V} {answer : BucketAnswer V} {b : KBucket V}

/-- The only key at the first distance. -/
theorem eq_of_index_zero (h : BucketIndex.new (distance localKey k) = some 0) :
    k = localKey ^^^ 1 := by
  obtain ⟨hne, hlog⟩ := BucketIndex.new_eq_some h
  have hlt : (distance localKey k).toNat < 2 := by
    have hlt := Nat.lt_log2_self (n := (distance localKey k).toNat)
    rwa [hlog] at hlt
  have hone : distance localKey k = 1 := by
    have hpos : (distance localKey k).toNat ≠ 0 := fun h0 => hne (BitVec.eq_of_toNat_eq h0)
    exact BitVec.eq_of_toNat_eq (by rw [show (1 : Key).toNat = 1 from rfl]; omega)
  rw [← hone, distance, ← BitVec.xor_assoc, BitVec.xor_self, BitVec.zero_xor]

theorem Located.length_le (h : Located localKey 0 q) (hv : q.Valid s) : q.nodes.length ≤ 1 := by
  have hall : ∀ k ∈ q.keys, k = localKey ^^^ 1 := fun k hk => eq_of_index_zero (h.keys k hk)
  have hlen : q.keys.length = q.nodes.length := List.length_map ..
  have hnodup := hv.nodup
  rw [← hlen]
  rcases hkeys : q.keys with _ | ⟨a, _ | ⟨b, l⟩⟩
  · exact Nat.zero_le _
  · exact Nat.le_refl _
  · rw [hkeys] at hall hnodup
    have hab : a = b := (hall a (by simp)).trans (hall b (by simp)).symm
    simp [hab] at hnodup

theorem Located.trims (h : Located localKey i q) (hv : q.Valid s) (ht : q.Trims s now op m)
    (hop : ∀ k, Queues.named op = some k → BucketIndex.new (distance localKey k) = some i) :
    Located localKey i m where
  keys k hk := h.keys k (ht.keys_subset hk)
  pending p hp := by
    rcases ht.slot p hp with ⟨p₀, hp₀, hkey, -⟩ | ⟨rfl, -, -, -⟩
    · exact hkey ▸ h.pending p₀ hp₀
    · exact hop _ rfl
  first := by
    rintro rfl
    cases hp : m.pending with
    | none => rfl
    | some p =>
      rcases ht.slot p hp with ⟨p₀, hp₀, -, -⟩ | ⟨rfl, -, -, hfull⟩
      · rw [h.first rfl] at hp₀
        cases hp₀
      · have := h.length_le hv
        rw [hfull] at this
        simp [maxNodesPerBucket] at this

theorem Located.effect (h : Located localKey i q) (hv : q.Valid s)
    (he : q.Effect s now op answer q')
    (hop : ∀ k, Queues.named op = some k → BucketIndex.new (distance localKey k) = some i) :
    Located localKey i q' := by
  cases he with
  | trims m ht => exact h.trims hv ht hop
  | values key value =>
    exact ⟨fun k hk => h.keys k (Queues.setValue_keys ▸ hk), h.pending, h.first⟩
  | places m node ht comes =>
    have hm := h.trims hv ht hop
    refine ⟨fun k hk => ?_, fun p hp => hm.pending p (Queues.settle_pending ▸ hp), fun h0 => ?_⟩
    · rcases Queues.mem_settle_keys.1 hk with rfl | hk
      · rcases comes.known with hn | ⟨p, hp, hkey⟩
        · exact hop _ hn
        · exact hkey ▸ h.pending p hp
      · exact hm.keys k hk
    · rw [Queues.settle_pending]
      exact hm.first h0

variable [DecidableEq V]

/-- One call on a bucket of the table. -/
theorem BucketOk.apply (hb : BucketOk s localKey i b) (now : Nat) (op : BucketOp V)
    (hop : ∀ k, Queues.named op = some k → BucketIndex.new (distance localKey k) = some i) :
    ∃ answer b', b.apply now op = some (answer, b') ∧ BucketOk s localKey i b' := by
  obtain ⟨q, rfl, hv, hl⟩ := hb
  exact ⟨_, _, Queues.bucket_apply hv now op, _, rfl, hv.act now op,
    hl.effect hv (Queues.act_effect hv now op) hop⟩

section
variable (hb : BucketOk s localKey i b) (now : Nat)
include hb

omit [DecidableEq V] in
theorem BucketOk.applyPending : ∃ applied b', b.applyPending now = some (applied, b') ∧
    BucketOk s localKey i b' := by
  classical
  obtain ⟨answer, b', h, hok⟩ := hb.apply now .applyPending (by simp [Queues.named])
  obtain ⟨⟨applied, b'⟩, hcall, heq⟩ := Option.map_eq_some_iff.1 h
  cases heq
  exact ⟨applied, b', hcall, hok⟩

omit [DecidableEq V] in
theorem BucketOk.remove {key : Key} (hk : BucketIndex.new (distance localKey key) = some i) :
    ∃ removed b', b.remove now key = some (removed, b') ∧ BucketOk s localKey i b' := by
  classical
  obtain ⟨answer, b', h, hok⟩ := hb.apply now (.remove key) (by simp [Queues.named, hk])
  obtain ⟨⟨removed, b'⟩, hcall, heq⟩ := Option.map_eq_some_iff.1 h
  cases heq
  exact ⟨removed, b', hcall, hok⟩

omit [DecidableEq V] in
theorem BucketOk.updateStatus {key : Key} (hk : BucketIndex.new (distance localKey key) = some i)
    (state : ConnectionState) (direction : Option ConnectionDirection) :
    ∃ result b', b.updateStatus now key state direction = some (result, b') ∧
      BucketOk s localKey i b' := by
  classical
  obtain ⟨answer, b', h, hok⟩ := hb.apply now (.updateStatus key state direction)
    (by simp [Queues.named, hk])
  obtain ⟨⟨result, b'⟩, hcall, heq⟩ := Option.map_eq_some_iff.1 h
  cases heq
  exact ⟨result, b', hcall, hok⟩

end

theorem updateValue_result (key : Key) (value : V) :
    (q.updateValue s key value).1 ≠ .updatedAndPromoted := by
  rw [Queues.updateValue]
  cases q.find key with
  | none =>
    rw [Queues.updateWaiting]
    cases q.pending with
    | none => simp
    | some p =>
      simp only
      split <;> simp
  | some old =>
    simp only
    split
    · simp
    · split <;> simp

theorem BucketOk.updateValue (hb : BucketOk s localKey i b) {key : Key}
    (hk : BucketIndex.new (distance localKey key) = some i) (value : V) :
    ∃ result b', b.updateValue key value = some (result, b') ∧ result ≠ .updatedAndPromoted ∧
      BucketOk s localKey i b' := by
  obtain ⟨q, rfl, hv, hl⟩ := hb
  exact ⟨_, _, Queues.bucket_updateValue hv value, updateValue_result key value, _, rfl,
    hv.act 0 (.updateValue key value),
    hl.effect hv (Queues.act_effect hv 0 (.updateValue key value)) (by simp [Queues.named, hk])⟩

theorem BucketOk.insert (hb : BucketOk s localKey i b) (now : Nat) (node : Node V)
    (hk : BucketIndex.new (distance localKey node.key) = some i) :
    ∃ result b', b.insert now node = some (result, b') ∧
      ((b.position node.key).isNone = true → result ≠ .nodeExists) ∧ BucketOk s localKey i b' := by
  obtain ⟨q, rfl, hv, hl⟩ := hb
  refine ⟨_, _, Queues.bucket_insert hv.room, fun hnone => ?_, _, rfl, hv.act now (.insert node),
    hl.effect hv (Queues.act_effect hv now (.insert node)) (by simp [Queues.named, hk])⟩
  have hnot : node.key ∉ q.keys := fun h => by
    have hsome := Queues.bucket_position_isSome (s := s).2 h
    rw [← Option.not_isNone, hnone] at hsome
    cases hsome
  rw [Queues.insert, if_neg hnot]
  repeat' split
  all_goals simp

end

/-! ## The table -/

namespace KBucketsTable

/-- What holds of the table at every moment. -/
structure Ok (s : BucketSettings V) (localKey : Key) (t : KBucketsTable V) : Prop where
  own : t.localKey = localKey
  buckets : ∀ i, BucketOk s localKey i (t.buckets i)

section
variable {s : BucketSettings V} {localKey : Key} {i : BucketIndex} {t : KBucketsTable V}
  {b : KBucket V}

theorem Ok.new (localKey : Key) (s : BucketSettings V) (tableFilter : Option (Filter V)) :
    (new localKey s.pendingTimeout s.maxIncoming tableFilter s.filter).Ok s localKey :=
  ⟨rfl, fun _ => ⟨(Queues.empty : Queues V), rfl, .empty s,
    by simp [Queues.empty, Queues.keys, Queues.nodes], by simp [Queues.empty], fun _ => rfl⟩⟩

theorem Ok.setBucket (ht : t.Ok s localKey) (hb : BucketOk s localKey i b) :
    (t.setBucket i b).Ok s localKey := by
  refine ⟨ht.own, fun j => ?_⟩
  by_cases hj : j = i
  · subst hj
    rwa [show (t.setBucket j b).buckets j = b from Function.update_self ..]
  · rw [show (t.setBucket i b).buckets j = t.buckets j from Function.update_of_ne hj ..]
    exact ht.buckets j

theorem Ok.withApplied (ht : t.Ok s localKey) (l : List (AppliedPending V)) :
    Ok s localKey { t with appliedPending := l } := ⟨ht.own, ht.buckets⟩

theorem Ok.applyPendingAt (ht : t.Ok s localKey) (now : Nat) (i : BucketIndex) :
    ∃ t', t.applyPendingAt now i = some t' ∧ t'.Ok s localKey := by
  obtain ⟨applied, b, hcall, hb⟩ := (ht.buckets i).applyPending now
  refine ⟨{ t.setBucket i b with appliedPending := t.appliedPending ++ applied.toList }, ?_,
    (ht.setBucket hb).withApplied _⟩
  rw [KBucketsTable.applyPendingAt, hcall]
  rfl

theorem Ok.located (ht : t.Ok s localKey) {key : Key} (hi : t.index key = some i) :
    BucketIndex.new (distance localKey key) = some i := by
  rw [← ht.own]
  exact hi

theorem Ok.remove (ht : t.Ok s localKey) (clock : Nat → Nat) (key : Key) :
    ∃ removed t', t.remove clock key = some (removed, t') ∧ t'.Ok s localKey := by
  rw [KBucketsTable.remove]
  cases hi : t.index key with
  | none => exact ⟨_, t, rfl, ht⟩
  | some i =>
    obtain ⟨t', happly, ht'⟩ := ht.applyPendingAt (clock 0) i
    obtain ⟨removed, b, hcall, hb⟩ := (ht'.buckets i).remove (clock 1) (ht.located hi)
    refine ⟨removed, t'.setBucket i b, ?_, ht'.setBucket hb⟩
    simp only [happly, hcall, Option.bind_eq_bind, Option.bind_some]
    rfl

theorem Ok.entry (ht : t.Ok s localKey) (clock : Nat → Nat) (key : Key) :
    ∃ found t', t.entry clock key = some (found, t') ∧ t'.Ok s localKey := by
  rw [KBucketsTable.entry]
  cases hi : t.index key with
  | none => exact ⟨_, t, rfl, ht⟩
  | some i =>
    obtain ⟨t', happly, ht'⟩ := ht.applyPendingAt (clock 0) i
    refine ⟨(t'.buckets i).get key, t', ?_, ht'⟩
    simp only [happly, Option.bind_eq_bind, Option.bind_some]
    rfl

theorem Ok.iterFrom (clock : Nat → Nat) (is : List BucketIndex) (k : Nat) (ht : t.Ok s localKey) :
    ∃ nodes t', iterFrom clock is k t = some (nodes, t') ∧ t'.Ok s localKey := by
  induction is generalizing k t with
  | nil => exact ⟨_, t, rfl, ht⟩
  | cons i is ih =>
    obtain ⟨t', happly, ht'⟩ := ht.applyPendingAt (clock k) i
    obtain ⟨nodes, t'', hrest, ht''⟩ := ih (k + 1) ht'
    refine ⟨(t'.buckets i).nodes ++ nodes, t'', ?_, ht''⟩
    rw [KBucketsTable.iterFrom]
    simp only [happly, hrest, Option.bind_eq_bind, Option.bind_some]
    rfl

theorem Ok.updateNodeStatus (ht : t.Ok s localKey) (clock : Nat → Nat) (key : Key)
    (state : ConnectionState) (direction : Option ConnectionDirection) :
    ∃ result t', t.updateNodeStatus clock key state direction = some (result, t') ∧
      t'.Ok s localKey := by
  rw [KBucketsTable.updateNodeStatus]
  cases hi : t.index key with
  | none => exact ⟨_, t, rfl, ht⟩
  | some i =>
    obtain ⟨t', happly, ht'⟩ := ht.applyPendingAt (clock 0) i
    obtain ⟨result, b, hcall, hb⟩ :=
      (ht'.buckets i).updateStatus (clock 1) (ht.located hi) state direction
    refine ⟨result, t'.setBucket i b, ?_, ht'.setBucket hb⟩
    simp only [happly, hcall, Option.bind_eq_bind, Option.bind_some]
    rfl

variable [DecidableEq V]

theorem Ok.updateNode (ht : t.Ok s localKey) (clock : Nat → Nat) (key : Key) (value : V)
    (state : Option ConnectionState) :
    ∃ result t', t.updateNode clock key value state = some (result, t') ∧ t'.Ok s localKey := by
  rw [KBucketsTable.updateNode]
  cases hi : t.index key with
  | none => exact ⟨_, t, rfl, ht⟩
  | some i =>
    have hkey := ht.located hi
    obtain ⟨t', happly, ht'⟩ := ht.applyPendingAt (clock 0) i
    simp only [happly, Option.bind_eq_bind, Option.bind_some]
    by_cases hp : (!t.passesTableFilter key value) = true
    · obtain ⟨removed, b, hcall, hb⟩ := (ht'.buckets i).remove (clock 1) hkey
      refine ⟨.failed .tableFilter, t'.setBucket i b, ?_, ht'.setBucket hb⟩
      simp only [if_pos hp, hcall, Option.bind_some]
      rfl
    obtain ⟨update, b, hcall, -, hb⟩ := (ht'.buckets i).updateValue hkey value
    simp only [if_neg hp, hcall, Option.bind_some]
    by_cases hf : update.isFailed = true
    · refine ⟨update, t'.setBucket i b, ?_, ht'.setBucket hb⟩
      simp only [if_pos hf]
      rfl
    cases state with
    | none =>
      refine ⟨nodeResult update .notModified, t'.setBucket i b, ?_, ht'.setBucket hb⟩
      simp only [if_neg hf]
      rfl
    | some state =>
      obtain ⟨status, b', hcall', hb'⟩ := hb.updateStatus (clock 1) hkey state none
      refine ⟨nodeResult update status, t'.setBucket i b', ?_, ht'.setBucket hb'⟩
      simp only [if_neg hf, hcall', Option.bind_some]
      rfl

theorem insertedResult_of_ne {result : BucketInsertResult} (h : result ≠ .nodeExists) :
    ∃ r, insertedResult result = some r := by
  cases result with
  | nodeExists => exact (h rfl).elim
  | inserted | pending | failedFilter | tooManyIncoming | full => exact ⟨_, rfl⟩

theorem updatedResult_of_ne {value status : UpdateResult} (hv : value ≠ .updatedAndPromoted)
    (hs : status.isFailed ≠ true) : ∃ r, updatedResult value status = some r := by
  cases status with
  | failed reason => exact (hs rfl).elim
  | updated | updatedAndPromoted | updatedPending | notModified =>
    cases value with
    | updatedAndPromoted => exact (hv rfl).elim
    | updated | updatedPending | failed | notModified => exact ⟨_, rfl⟩

theorem Ok.insertOrUpdate (ht : t.Ok s localKey) (clock : Nat → Nat) (key : Key) (value : V)
    (status : NodeStatus) :
    ∃ result t', t.insertOrUpdate clock key value status = some (result, t') ∧ t'.Ok s localKey := by
  rw [KBucketsTable.insertOrUpdate]
  cases hi : t.index key with
  | none => exact ⟨_, t, rfl, ht⟩
  | some i =>
    have hkey := ht.located hi
    obtain ⟨t', happly, ht'⟩ := ht.applyPendingAt (clock 0) i
    simp only [happly, Option.bind_eq_bind, Option.bind_some]
    by_cases hp : (!t.passesTableFilter key value) = true
    · obtain ⟨removed, b, hcall, hb⟩ := (ht'.buckets i).remove (clock 1) hkey
      refine ⟨.failed .tableFilter, t'.setBucket i b, ?_, ht'.setBucket hb⟩
      simp only [if_pos hp, hcall, Option.bind_some]
      rfl
    by_cases hn : ((t'.buckets i).position key).isNone = true
    · obtain ⟨result, b, hcall, hne, hb⟩ :=
        (ht'.buckets i).insert (clock 1) { key, value, status } hkey
      obtain ⟨r, hr⟩ := insertedResult_of_ne (hne hn)
      refine ⟨r, t'.setBucket i b, ?_, ht'.setBucket hb⟩
      simp only [if_neg hp, if_pos hn, hcall, hr, Option.bind_some]
      rfl
    obtain ⟨updateStatus, b, hcall, hb⟩ :=
      (ht'.buckets i).updateStatus (clock 1) hkey status.state (some status.direction)
    simp only [if_neg hp, if_neg hn, hcall, Option.bind_some]
    by_cases hf : updateStatus.isFailed = true
    · refine ⟨.failed .tooManyIncoming, t'.setBucket i b, ?_, ht'.setBucket hb⟩
      simp only [if_pos hf]
      rfl
    obtain ⟨updateValue, b', hcall', hne, hb'⟩ := hb.updateValue hkey value
    obtain ⟨r, hr⟩ := updatedResult_of_ne hne hf
    refine ⟨r, t'.setBucket i b', ?_, ht'.setBucket hb'⟩
    simp only [if_neg hf, hcall', hr, Option.bind_some]
    rfl

end

/-! ## Nodes at distances -/

section
variable {s : BucketSettings V} {localKey : Key} {i : BucketIndex} {t : KBucketsTable V}

theorem matchingNodes_eq {maxNodes : Nat} {acc : List (Node V)} (h : acc.length < max maxNodes 1)
    (nodes : List (Node V)) :
    matchingNodes maxNodes acc nodes = (acc ++ nodes).take (max maxNodes 1) := by
  induction nodes generalizing acc with
  | nil => rw [matchingNodes, List.append_nil, List.take_of_length_le (Nat.le_of_lt h)]
  | cons node nodes ih =>
    rw [matchingNodes]
    have hlen : (acc ++ [node]).length = acc.length + 1 := List.length_append
    by_cases hfull : maxNodes ≤ (acc ++ [node]).length
    · have hmax : max maxNodes 1 = (acc ++ [node]).length := by omega
      rw [if_pos hfull, hmax, List.append_cons acc node nodes, List.take_left]
    · rw [if_neg hfull, ih (by omega), ← List.append_cons]

theorem Ok.applyDistances (clock : Nat → Nat) (maxNodes : Nat) (is : List BucketIndex)
    (k count : Nat) (ht : t.Ok s localKey) :
    ∃ t', applyDistances clock maxNodes is k count t = some t' ∧ t'.Ok s localKey := by
  induction is generalizing k count t with
  | nil => exact ⟨t, rfl, ht⟩
  | cons i is ih =>
    obtain ⟨applied, b, hcall, hb⟩ := (ht.buckets i).applyPending (clock k)
    have ht' := (ht.setBucket hb).withApplied (t.appliedPending ++ applied.toList)
    rw [KBucketsTable.applyDistances]
    simp only [hcall, Option.bind_eq_bind, Option.bind_some]
    by_cases ha : applied.isSome = true
    · by_cases hm : maxNodes ≤ count + b.numEntries
      · exact ⟨_, by simp only [if_pos ha, if_pos hm]; rfl, ht'⟩
      · simp only [if_pos ha, if_neg hm]
        exact ih _ _ ht'
    · simp only [if_neg ha]
      exact ih _ _ ht'

theorem log2Distance_of_index {a b : Key} (h : BucketIndex.new (distance a b) = some i) :
    log2Distance a b = some (i.1 + 1) := by
  obtain ⟨hne, hlog⟩ := BucketIndex.new_eq_some h
  rw [log2Distance, if_neg hne, hlog]

theorem Ok.index_of_mem (ht : t.Ok s localKey) {node : Node V} (h : node ∈ (t.buckets i).nodes) :
    BucketIndex.new (distance localKey node.key) = some i := by
  obtain ⟨q, hq, -, hl⟩ := ht.buckets i
  rw [hq] at h
  exact hl.keys _ (List.mem_map_of_mem h)

/-- What `nodes_by_distances` answers: nodes at the distances asked for, in this order. -/
theorem Ok.nodesByDistances (ht : t.Ok s localKey) (clock : Nat → Nat) (log2Distances : List Nat)
    (maxNodes : Nat) : ∃ nodes t',
      t.nodesByDistances clock log2Distances maxNodes = some (nodes, t') ∧ t'.Ok s localKey ∧
      nodes = ((log2Distances.filterMap distanceBucket).flatMap fun i =>
        (t'.buckets i).nodes).take (max maxNodes 1) ∧
      ∀ node ∈ nodes, ∃ d ∈ log2Distances, log2Distance localKey node.key = some d := by
  obtain ⟨t', happly, ht'⟩ :=
    ht.applyDistances clock maxNodes (log2Distances.filterMap distanceBucket) 0 0
  refine ⟨_, t', by rw [KBucketsTable.nodesByDistances, happly]; rfl, ht', ?_, fun node hnode => ?_⟩
  · rw [matchingNodes_eq (by rw [List.length_nil]; omega), List.nil_append]
  · rw [matchingNodes_eq (by rw [List.length_nil]; omega), List.nil_append] at hnode
    obtain ⟨i, hi, hnode⟩ := List.mem_flatMap.1 (List.mem_of_mem_take hnode)
    obtain ⟨d, hd, hbucket⟩ := List.mem_filterMap.1 hi
    refine ⟨d, hd, ?_⟩
    rw [distanceBucket] at hbucket
    split at hbucket
    · rename_i hpos
      obtain rfl := Option.some.inj hbucket
      rw [log2Distance_of_index (ht'.index_of_mem hnode), Nat.sub_add_cancel hpos.1]
    · cases hbucket

/-! ## The closest nodes -/

/-- The buckets `is` are visited for at most `n` nodes. -/
structure Takes (target : Key) (is : List BucketIndex) (n : Nat) (t t' : KBucketsTable V)
    (nodes : List (Node V)) : Prop where
  length : nodes.length ≤ n
  sorted : nodes.Pairwise fun a b => distance target a.key ≤ distance target b.key
  known : ∀ x ∈ nodes, ∃ i ∈ is, x ∈ (t'.buckets i).nodes
  complete : ∀ i ∈ is, ∀ x ∈ (t'.buckets i).nodes, x ∈ nodes ∨
    nodes.length = n ∧ ∀ y ∈ nodes, distance target y.key ≤ distance target x.key
  count : ∀ k i, BucketIndex.new (distance t.localKey k) = some i →
    (nodes.map Node.key).count k ≤ is.count i
  exact : nodes.length < n → ∀ i, ∀ x ∈ (t'.buckets i).nodes,
    (nodes.map Node.key).count x.key = is.count i
  frame : ∀ i, i ∉ is ∨ i = 0 → t'.buckets i = t.buckets i

theorem distance_eq (localKey target k : Key) :
    distance localKey target ^^^ distance localKey k = distance target k := by
  rw [distance, distance, distance, BitVec.xor_comm localKey target, BitVec.xor_assoc,
    ← BitVec.xor_assoc localKey, BitVec.xor_self, BitVec.zero_xor]

theorem sortedNodes_pairwise (target : Key) (nodes : List (Node V)) :
    (sortedNodes target nodes).Pairwise fun a b => distance target a.key ≤ distance target b.key := by
  refine (List.pairwise_mergeSort (fun a b c hab hbc => ?_) (fun a b => ?_) nodes).imp
    fun h => of_decide_eq_true h
  · exact decide_eq_true (BitVec.le_trans (of_decide_eq_true hab) (of_decide_eq_true hbc))
  · rw [Bool.or_eq_true, decide_eq_true_iff, decide_eq_true_iff]
    exact BitVec.le_total _ _

theorem sortedNodes_perm (target : Key) (nodes : List (Node V)) :
    (sortedNodes target nodes).Perm nodes := List.mergeSort_perm ..

theorem mem_sortedNodes {target : Key} {nodes : List (Node V)} {x : Node V} :
    x ∈ sortedNodes target nodes ↔ x ∈ nodes := (sortedNodes_perm target nodes).mem_iff

theorem Ok.applyPendingAt_frame (ht : t.Ok s localKey) {now : Nat} {t' : KBucketsTable V}
    (h : t.applyPendingAt now i = some t') {j : BucketIndex} (hj : j ≠ i ∨ j = 0) :
    t'.buckets j = t.buckets j := by
  rw [KBucketsTable.applyPendingAt] at h
  obtain ⟨⟨applied, b⟩, hcall, h⟩ := Option.bind_eq_some_iff.1 h
  cases h
  show Function.update t.buckets i b j = t.buckets j
  by_cases hij : j = i
  · subst hij
    obtain rfl := hj.resolve_left fun h => h rfl
    obtain ⟨q, hq, -, hl⟩ := ht.buckets 0
    rw [hq, KBucket.applyPending, Queues.bucket_pending, hl.first rfl] at hcall
    cases hcall
    rw [Function.update_self, hq]
  · exact Function.update_of_ne hij ..

theorem Ok.nodup (ht : t.Ok s localKey) (i : BucketIndex) :
    ((t.buckets i).nodes.map Node.key).Nodup := by
  obtain ⟨q, hq, hv, -⟩ := ht.buckets i
  rw [hq]
  exact hv.nodup

theorem Ok.count_keys (ht : t.Ok s localKey) {k : Key} {j : BucketIndex}
    (hk : BucketIndex.new (distance localKey k) = some j) (target : Key) :
    ((sortedNodes target (t.buckets i).nodes).map Node.key).count k ≤ if i = j then 1 else 0 := by
  rw [((sortedNodes_perm target _).map Node.key).count_eq]
  by_cases hij : i = j
  · rw [if_pos hij]
    exact List.nodup_iff_count_le_one.1 (ht.nodup i) k
  · rw [if_neg hij, Nat.le_zero, List.count_eq_zero]
    intro hmem
    obtain ⟨node, hnode, rfl⟩ := List.mem_map.1 hmem
    exact hij (Option.some.inj ((ht.index_of_mem hnode).symm.trans hk))

/-- Nodes of a bucket that is visited before another one are closer. -/
theorem Ok.closer (ht : t.Ok s localKey) {target : Key} {j : BucketIndex} {x y : Node V}
    {t' : KBucketsTable V} (ht' : t'.Ok s localKey)
    (h : Nearer (distance localKey target) i j ∨ i = 0 ∧ j = 0) (hx : x ∈ (t.buckets i).nodes)
    (hy : y ∈ (t'.buckets j).nodes) : distance target x.key ≤ distance target y.key := by
  have hxi := ht.index_of_mem hx
  have hyj := ht'.index_of_mem hy
  rcases h with h | ⟨rfl, rfl⟩
  · have hlt := h.lt hxi hyj
    rw [distance_eq, distance_eq] at hlt
    exact BitVec.le_of_lt hlt
  · rw [eq_of_index_zero hxi, eq_of_index_zero hyj]
    exact BitVec.le_refl _

theorem Ok.takeClosest (clock : Nat → Nat) (target : Key) (is : List BucketIndex) (k n : Nat)
    (ht : t.Ok s localKey)
    (hpair : is.Pairwise fun i j => Nearer (distance localKey target) i j ∨ i = 0 ∧ j = 0) :
    ∃ nodes t', takeClosest clock target is k n t = some (nodes, t') ∧ t'.Ok s localKey ∧
      Takes target is n t t' nodes := by
  induction is generalizing k n t with
  | nil =>
    exact ⟨[], t, rfl, ht, Nat.zero_le _, .nil, by simp, by simp, by simp, by simp, fun _ _ => rfl⟩
  | cons i is ih =>
    rw [KBucketsTable.takeClosest]
    by_cases hn : n = 0
    · subst hn
      exact ⟨[], t, rfl, ht, Nat.zero_le _, .nil, by simp, by simp, by simp, by simp, fun _ _ => rfl⟩
    rw [if_neg hn]
    obtain ⟨hi, hpair⟩ := List.pairwise_cons.1 hpair
    obtain ⟨t₁, happly, ht₁⟩ := ht.applyPendingAt (clock k) i
    obtain ⟨rest, t', hrest, ht', htakes⟩ :=
      ih (k + 1) (n - (sortedNodes target (t₁.buckets i).nodes).length) ht₁ hpair
    have hlen : (sortedNodes target (t₁.buckets i).nodes).length = (t₁.buckets i).nodes.length :=
      (sortedNodes_perm target _).length_eq
    -- a bucket that is visited again is the first one, which does not change
    have hhead : t'.buckets i = t₁.buckets i := htakes.frame i (by
      by_cases hmem : i ∈ is
      · rcases hi i hmem with (⟨h, -⟩ | ⟨h, -⟩) | ⟨h, -⟩
        · exact (lt_irrefl _ h).elim
        · exact (lt_irrefl _ h).elim
        · exact .inr h
      · exact .inl hmem)
    refine ⟨(sortedNodes target (t₁.buckets i).nodes).take n ++ rest, t', ?_, ht', ?_⟩
    · simp only [happly, hrest, Option.bind_eq_bind, Option.bind_some]
      rfl
    generalize hsorted : sortedNodes target (t₁.buckets i).nodes = sorted at *
    have hmem : ∀ x, x ∈ sorted ↔ x ∈ (t'.buckets i).nodes := fun x => by
      rw [← hsorted, mem_sortedNodes, hhead]
    have hpairwise := sortedNodes_pairwise target (t₁.buckets i).nodes
    rw [hsorted] at hpairwise
    have hcross : ∀ x ∈ sorted, ∀ j ∈ is, ∀ y ∈ (t'.buckets j).nodes,
        distance target x.key ≤ distance target y.key := fun x hx j hj y hy =>
      ht'.closer ht' (hi j hj) ((hmem x).1 hx) hy
    refine ⟨?_, ?_, ?_, ?_, ?_, ?_, ?_⟩
    · have := htakes.length
      rw [List.length_append, List.length_take]
      omega
    · refine List.pairwise_append.2 ⟨hpairwise.sublist (List.take_sublist ..), htakes.sorted,
        fun x hx y hy => ?_⟩
      obtain ⟨j, hj, hy⟩ := htakes.known y hy
      exact hcross x (List.mem_of_mem_take hx) j hj y hy
    · intro x hx
      rcases List.mem_append.1 hx with hx | hx
      · exact ⟨i, List.mem_cons_self, (hmem x).1 (List.mem_of_mem_take hx)⟩
      · obtain ⟨j, hj, hx⟩ := htakes.known x hx
        exact ⟨j, List.mem_cons_of_mem _ hj, hx⟩
    · intro j hj x hx
      rcases List.mem_cons.1 hj with rfl | hj
      · have hx := (hmem x).2 hx
        rw [← List.take_append_drop n sorted] at hx hpairwise
        rcases List.mem_append.1 hx with hx | hx
        · exact .inl (List.mem_append_left _ hx)
        · have hlong : n < sorted.length := by
            by_contra hle
            rw [List.drop_eq_nil_of_le (Nat.le_of_not_lt hle)] at hx
            cases hx
          have hnil : rest = [] := List.length_eq_zero_iff.1 (by have := htakes.length; omega)
          subst hnil
          refine .inr ⟨by rw [List.append_nil, List.length_take]; omega, fun y hy => ?_⟩
          rw [List.append_nil] at hy
          exact (List.pairwise_append.1 hpairwise).2.2 y hy x hx
      · rcases htakes.complete j hj x hx with hx' | ⟨hfull, hle⟩
        · exact .inl (List.mem_append_right _ hx')
        · refine .inr ⟨by rw [List.length_append, List.length_take]; omega, fun y hy => ?_⟩
          rcases List.mem_append.1 hy with hy | hy
          · exact hcross y (List.mem_of_mem_take hy) j hj x hx
          · exact hle y hy
    · intro key j hkey
      have hfirst := ht₁.count_keys (i := i) (ht.own ▸ hkey) target
      have hrest' := htakes.count key j (by rw [ht₁.own, ← ht.own]; exact hkey)
      have htake : ((sorted.take n).map Node.key).count key ≤ (sorted.map Node.key).count key :=
        ((List.take_sublist n sorted).map Node.key).count_le key
      rw [hsorted] at hfirst
      rw [List.map_append, List.count_append, List.count_cons]
      simp only [beq_iff_eq]
      omega
    · intro hshort j x hx
      have hmin := List.length_take (i := n) (l := sorted)
      rw [List.length_append] at hshort
      have hall : sorted.take n = sorted := List.take_of_length_le (by omega)
      have hrest' := htakes.exact (by rw [hall] at hshort; omega) j x hx
      rw [hall, List.map_append, List.count_append, List.count_cons, hrest', Nat.add_comm]
      refine congrArg (is.count j + ·) ?_
      have hfirst := ht₁.count_keys (i := i) (ht'.index_of_mem hx) target
      rw [hsorted] at hfirst
      by_cases hij : i = j
      · subst hij
        have hpos : 0 < (sorted.map Node.key).count x.key :=
          List.count_pos_iff.2 (List.mem_map_of_mem ((hmem x).2 hx))
        simp only [reduceIte, beq_self_eq_true] at hfirst ⊢
        omega
      · simp only [if_neg hij] at hfirst
        simp only [beq_iff_eq, if_neg hij]
        omega
    · intro j hj
      have hout : j ∉ is ∨ j = 0 := hj.imp_left fun h hmem => h (List.mem_cons_of_mem _ hmem)
      have hne : j ≠ i ∨ j = 0 := hj.imp_left fun h heq => h (heq ▸ List.mem_cons_self)
      rw [htakes.frame j hout, ht.applyPendingAt_frame happly hne]

theorem Ok.closest (ht : t.Ok s localKey) (clock : Nat → Nat) (target : Key) (n : Nat) :
    ∃ nodes t', t.closest clock target n = some (nodes, t') ∧ t'.Ok s localKey ∧
      Takes target (closestBuckets (distance localKey target)) n t t' nodes := by
  rw [KBucketsTable.closest, ht.own]
  exact ht.takeClosest clock target _ 0 n (closestBuckets_pairwise _)

end

/-! ## Runs -/

section
variable {s : BucketSettings V} {localKey : Key} {t : KBucketsTable V} [DecidableEq V]

theorem Ok.apply (ht : t.Ok s localKey) (clock : Nat → Nat) (op : TableOp V) :
    ∃ answer t', t.apply clock op = some (answer, t') ∧ t'.Ok s localKey := by
  cases op with
  | insertOrUpdate key value status =>
    obtain ⟨r, t', h, ht'⟩ := ht.insertOrUpdate clock key value status
    exact ⟨.inserted r, t', by rw [KBucketsTable.apply, h]; rfl, ht'⟩
  | updateNode key value state =>
    obtain ⟨r, t', h, ht'⟩ := ht.updateNode clock key value state
    exact ⟨.updated r, t', by rw [KBucketsTable.apply, h]; rfl, ht'⟩
  | updateNodeStatus key state direction =>
    obtain ⟨r, t', h, ht'⟩ := ht.updateNodeStatus clock key state direction
    exact ⟨.updated r, t', by rw [KBucketsTable.apply, h]; rfl, ht'⟩
  | remove key =>
    obtain ⟨r, t', h, ht'⟩ := ht.remove clock key
    exact ⟨.removed r, t', by rw [KBucketsTable.apply, h]; rfl, ht'⟩
  | entry key =>
    obtain ⟨r, t', h, ht'⟩ := ht.entry clock key
    exact ⟨.found r, t', by rw [KBucketsTable.apply, h]; rfl, ht'⟩
  | iter =>
    obtain ⟨r, t', h, ht'⟩ := ht.iterFrom clock (List.finRange numBuckets) 0
    exact ⟨.nodes r, t', by rw [KBucketsTable.apply, KBucketsTable.iter, h]; rfl, ht'⟩
  | nodesByDistances ds maxNodes =>
    obtain ⟨r, t', h, ht', -⟩ := ht.nodesByDistances clock ds maxNodes
    exact ⟨.nodes r, t', by rw [KBucketsTable.apply, h]; rfl, ht'⟩
  | closest target n =>
    obtain ⟨r, t', h, ht', -⟩ := ht.closest clock target n
    exact ⟨.nodes r, t', by rw [KBucketsTable.apply, h]; rfl, ht'⟩
  | takeAppliedPending => exact ⟨_, _, rfl, ht.withApplied _⟩

theorem Ok.run (ops : List ((Nat → Nat) × TableOp V)) (ht : t.Ok s localKey) :
    ∃ answers t', t.run ops = some (answers, t') ∧ t'.Ok s localKey := by
  induction ops generalizing t with
  | nil => exact ⟨[], t, rfl, ht⟩
  | cons o ops ih =>
    obtain ⟨answer, t₁, happly, ht₁⟩ := ht.apply o.1 o.2
    obtain ⟨answers, t', hrun, ht'⟩ := ih ht₁
    refine ⟨answer :: answers, t', ?_, ht'⟩
    rw [KBucketsTable.run]
    simp only [happly, hrun, Option.bind_eq_bind, Option.bind_some]
    rfl

omit [DecidableEq V] in
theorem mem_iterRef {x : Node V} : x ∈ t.iterRef ↔ ∃ i, x ∈ (t.buckets i).nodes := by
  rw [iterRef, List.mem_flatMap]
  exact ⟨fun ⟨i, _, h⟩ => ⟨i, h⟩, fun ⟨i, h⟩ => ⟨i, List.mem_finRange i, h⟩⟩

omit [DecidableEq V] in
theorem Ok.iterRef_nodup (ht : t.Ok s localKey) : (t.iterRef.map Node.key).Nodup := by
  rw [iterRef, List.map_flatMap]
  refine List.nodup_flatMap.2 ⟨fun i _ => ht.nodup i, ?_⟩
  refine (List.nodup_finRange numBuckets).imp fun {i j} hij k hi hj => hij ?_
  obtain ⟨x, hx, rfl⟩ := List.mem_map.1 hi
  obtain ⟨y, hy, hxy⟩ := List.mem_map.1 hj
  exact Option.some.inj ((ht.index_of_mem hx).symm.trans (hxy ▸ ht.index_of_mem hy))

/-- **In every run** of the routing table no call panics, whatever the filters: no `unreachable!` is
reached and no bucket is indexed out of its bounds. The table holds no key twice and not the local
one, every node is in the bucket of its distance, and every bucket holds two valid queues. -/
theorem run_soundTable (localKey : Key) (s : BucketSettings V) (tableFilter : Option (Filter V))
    (ops : List ((Nat → Nat) × TableOp V)) : ∃ answers t,
    (new localKey s.pendingTimeout s.maxIncoming tableFilter s.filter).run ops = some (answers, t) ∧
      (t.iterRef.map Node.key).Nodup ∧ localKey ∉ t.iterRef.map Node.key ∧
      (∀ i, ∀ x ∈ (t.buckets i).nodes, log2Distance localKey x.key = some (i.1 + 1)) ∧
      ∀ i, ∃ q : Queues V, t.buckets i = q.bucket s ∧ q.Valid s := by
  obtain ⟨answers, t, hrun, ht⟩ := (Ok.new localKey s tableFilter).run ops
  refine ⟨answers, t, hrun, ht.iterRef_nodup, fun h => ?_, fun i x hx =>
    log2Distance_of_index (ht.index_of_mem hx), fun i => ?_⟩
  · obtain ⟨x, hx, hkey⟩ := List.mem_map.1 h
    obtain ⟨i, hx⟩ := mem_iterRef.1 hx
    have hindex := ht.index_of_mem hx
    rw [hkey, distance, BitVec.xor_self] at hindex
    exact (BucketIndex.new_eq_some hindex).1 rfl
  · obtain ⟨q, hq, hv, -⟩ := ht.buckets i
    exact ⟨q, hq, hv⟩

omit [DecidableEq V] in
theorem timesGiven_eq {target k : Key} {i : BucketIndex}
    (hi : BucketIndex.new (distance localKey k) = some i) :
    timesGiven localKey target k = if Twice (distance localKey target) i then 2 else 1 := by
  have hkey : k = localKey ^^^ 1 ↔ i = 0 := by
    constructor
    · intro hk
      have hd : distance localKey k = 1 := by
        rw [hk, distance, ← BitVec.xor_assoc, BitVec.xor_self, BitVec.zero_xor]
      rw [hd] at hi
      obtain ⟨-, hlog⟩ := BucketIndex.new_eq_some hi
      exact Fin.ext (hlog.symm.trans rfl)
    · rintro rfl
      exact eq_of_index_zero hi
  have htarget : localKey = target ↔ distance localKey target = 0 := BitVec.xor_eq_zero_iff.symm
  exact if_congr (and_congr hkey (or_congr_right htarget)) rfl rfl

/-- **The closest nodes.** After every run, the first `n` nodes that an iteration around a target
gives are nodes of the table in the order of their distance to the target, and every node that is
not given is at least as far as all of them. Each is given once, but the node of the first bucket is
given twice when the distance of the target to the local key is odd or 0. -/
theorem run_closest (localKey : Key) (s : BucketSettings V) (tableFilter : Option (Filter V))
    (ops : List ((Nat → Nat) × TableOp V)) (clock : Nat → Nat) (target : Key) (n : Nat) :
    ∃ answers t nodes t',
      (new localKey s.pendingTimeout s.maxIncoming tableFilter s.filter).run ops = some (answers, t) ∧
      t.closest clock target n = some (nodes, t') ∧ nodes.length ≤ n ∧
      (nodes.Pairwise fun a b => distance target a.key ≤ distance target b.key) ∧
      (∀ x ∈ nodes, x ∈ t'.iterRef) ∧
      (∀ x ∈ t'.iterRef, x ∈ nodes ∨
        nodes.length = n ∧ ∀ y ∈ nodes, distance target y.key ≤ distance target x.key) ∧
      ∀ x ∈ t'.iterRef, (nodes.map Node.key).count x.key ≤ timesGiven localKey target x.key ∧
        (nodes.length < n →
          (nodes.map Node.key).count x.key = timesGiven localKey target x.key) := by
  obtain ⟨answers, t, hrun, ht⟩ := (Ok.new localKey s tableFilter).run ops
  obtain ⟨nodes, t', hclosest, ht', htakes⟩ := ht.closest clock target n
  have hmem : ∀ i, i ∈ closestBuckets (distance localKey target) := fun i => by
    refine List.count_pos_iff.1 ?_
    rw [closestBuckets_count]
    split <;> omega
  refine ⟨answers, t, nodes, t', hrun, hclosest, htakes.length, htakes.sorted, fun x hx => ?_,
    fun x hx => ?_, fun x hx => ?_⟩
  · obtain ⟨i, -, hx⟩ := htakes.known x hx
    exact mem_iterRef.2 ⟨i, hx⟩
  · obtain ⟨i, hx⟩ := mem_iterRef.1 hx
    exact htakes.complete i (hmem i) x hx
  · obtain ⟨i, hx⟩ := mem_iterRef.1 hx
    have hi := ht'.index_of_mem hx
    rw [timesGiven_eq hi, ← closestBuckets_count]
    exact ⟨htakes.count x.key i (ht.own ▸ hi), fun h => htakes.exact h i x hx⟩

/-- **Nodes at distances.** After every run, the nodes that are given for some distances are those of
the buckets at these distances, in the order asked for, up to the limit; when the limit is 0 one
node is given all the same. -/
theorem run_nodesByDistances (localKey : Key) (s : BucketSettings V) (tableFilter : Option (Filter V))
    (ops : List ((Nat → Nat) × TableOp V)) (clock : Nat → Nat) (log2Distances : List Nat)
    (maxNodes : Nat) : ∃ answers t nodes t',
      (new localKey s.pendingTimeout s.maxIncoming tableFilter s.filter).run ops = some (answers, t) ∧
      t.nodesByDistances clock log2Distances maxNodes = some (nodes, t') ∧
      nodes = ((log2Distances.filterMap distanceBucket).flatMap fun i =>
        (t'.buckets i).nodes).take (max maxNodes 1) ∧
      ∀ node ∈ nodes, ∃ d ∈ log2Distances, log2Distance localKey node.key = some d := by
  obtain ⟨answers, t, hrun, ht⟩ := (Ok.new localKey s tableFilter).run ops
  obtain ⟨nodes, t', hcall, -, heq, hnodes⟩ := ht.nodesByDistances clock log2Distances maxNodes
  exact ⟨answers, t, nodes, t', hrun, hcall, heq, hnodes⟩

end

end KBucketsTable

end Discv5
