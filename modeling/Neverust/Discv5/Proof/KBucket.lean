import Mathlib.Data.List.Nodup
import Neverust.Discv5.Queues

/-!
# Buckets are two queues

`Queues.bucket_*`: each operation of the source on the array of two valid queues does what the
operation of the queues does, and does not panic. `Queues.Valid.*`: the queues stay valid.
-/

namespace Discv5

variable {V : Type}

/-! ## A key among the nodes -/

section
variable {l l₁ l₂ : List (Node V)} {n : Node V} {key : Key}

theorem keys_apart (hn : ((l₁ ++ n :: l₂).map Node.key).Nodup) :
    (∀ m ∈ l₁, m.key ≠ n.key) ∧ ∀ m ∈ l₂, m.key ≠ n.key := by
  rw [List.map_append, List.map_cons, List.nodup_append] at hn
  obtain ⟨-, h₂, hne⟩ := hn
  refine ⟨fun _ hm => hne _ (List.mem_map_of_mem hm) _ List.mem_cons_self, fun _ hm he => ?_⟩
  exact (List.nodup_cons.1 h₂).1 (he ▸ List.mem_map_of_mem hm)

theorem filter_key (hn : ((l₁ ++ n :: l₂).map Node.key).Nodup) :
    ((l₁ ++ n :: l₂).filter fun m => m.key ≠ n.key) = l₁ ++ l₂ := by
  obtain ⟨h₁, h₂⟩ := keys_apart hn
  rw [List.filter_append, List.filter_cons_of_neg (by simp),
    List.filter_eq_self.2 fun m hm => decide_eq_true (h₁ m hm),
    List.filter_eq_self.2 fun m hm => decide_eq_true (h₂ m hm)]

theorem filter_key_absent (h : key ∉ l.map Node.key) : (l.filter fun m => m.key ≠ key) = l :=
  List.filter_eq_self.2 fun _ hm => decide_eq_true fun he => h (he ▸ List.mem_map_of_mem hm)

theorem find_key (hn : ((l₁ ++ n :: l₂).map Node.key).Nodup) :
    ((l₁ ++ n :: l₂).find? fun m => m.key = n.key) = some n := by
  have h₁ : (l₁.find? fun m => m.key = n.key) = none :=
    List.find?_eq_none.2 fun m hm => by simpa using (keys_apart hn).1 m hm
  rw [List.find?_append, h₁, Option.none_or, List.find?_cons_of_pos (by simp)]

theorem findIdx_key (hn : ((l₁ ++ n :: l₂).map Node.key).Nodup) :
    ((l₁ ++ n :: l₂).findIdx? fun m => m.key = n.key) = some l₁.length := by
  have h₁ : (l₁.findIdx? fun m => m.key = n.key) = none :=
    List.findIdx?_eq_none_iff.2 fun m hm => by simpa using (keys_apart hn).1 m hm
  rw [List.findIdx?_append, h₁, Option.none_or, List.findIdx?_cons]
  simp

theorem map_key {f : Node V → Node V} (hn : ((l₁ ++ n :: l₂).map Node.key).Nodup) :
    ((l₁ ++ n :: l₂).map fun m => if m.key = n.key then f m else m) = l₁ ++ f n :: l₂ := by
  have hid : ∀ {l : List (Node V)}, (∀ m ∈ l, m.key ≠ n.key) →
      (l.map fun m => if m.key = n.key then f m else m) = l := fun h =>
    (List.map_congr_left fun m hm => if_neg (h m hm)).trans (List.map_id' _)
  obtain ⟨h₁, h₂⟩ := keys_apart hn
  rw [List.map_append, List.map_cons, hid h₁, hid h₂, if_pos rfl]

theorem exists_split (h : key ∈ l.map Node.key) : ∃ l₁ n l₂, l = l₁ ++ n :: l₂ ∧ n.key = key := by
  obtain ⟨n, hn, rfl⟩ := List.mem_map.1 h
  obtain ⟨l₁, l₂, rfl⟩ := List.append_of_mem hn
  exact ⟨l₁, n, l₂, rfl, rfl⟩

end

section
variable {α : Type} {l l₁ l₂ : List α} {a : α}

theorem insertIdx_length (l₁ l₂ : List α) (a : α) :
    (l₁ ++ l₂).insertIdx l₁.length a = l₁ ++ a :: l₂ := by
  induction l₁ with
  | nil => rfl
  | cons b l₁ ih => exact congrArg (b :: ·) ih

theorem arrayInsert_append (h : (l₁ ++ l₂).length < maxNodesPerBucket) (a : α) :
    arrayInsert (l₁ ++ l₂) l₁.length a = some (l₁ ++ a :: l₂) := by
  rw [arrayInsert, if_pos ⟨by simp, h⟩, insertIdx_length]

theorem arrayPush_append (h : l.length < maxNodesPerBucket) (a : α) :
    arrayPush l a = some (l ++ [a]) := by
  have hl : (l ++ []).length < maxNodesPerBucket := by rwa [List.append_nil]
  have := arrayInsert_append hl a
  rwa [List.append_nil] at this

theorem arrayRemove_append : arrayRemove (l₁ ++ a :: l₂) l₁.length = some (a, l₁ ++ l₂) := by
  rw [arrayRemove, List.getElem?_append_right (Nat.le_refl _), Nat.sub_self, List.getElem?_cons_zero,
    Option.map_some, List.eraseIdx_append_of_length_le (Nat.le_refl _), Nat.sub_self,
    List.eraseIdx_cons_zero]

@[simp] theorem arrayRemove_zero : arrayRemove (a :: l) 0 = some (a, l) := rfl

end

namespace Queues

variable {s : BucketSettings V} {q : Queues V} {node : Node V} {key : Key} {now : Nat}

/-! ## The parts of a bucket -/

@[simp] theorem bucket_nodes : (q.bucket s).nodes = q.nodes := rfl

@[simp] theorem bucket_pending : (q.bucket s).pending = q.pending := rfl

@[simp] theorem bucket_isFull : (q.bucket s).isFull = q.isFull := rfl

@[simp] theorem bucket_passes (v : V) : (q.bucket s).passes v = q.passes s v := rfl

theorem bucket_isMaxIncoming :
    (q.bucket s).isMaxIncoming = decide (s.maxIncoming ≤ q.nodes.countP isIncoming) := rfl

theorem mem_keys : key ∈ q.keys ↔ ∃ n ∈ q.nodes, n.key = key := List.mem_map

theorem bucket_position_isSome : ((q.bucket s).position key).isSome = true ↔ key ∈ q.keys := by
  rw [KBucket.position, bucket_nodes, List.findIdx?_isSome, List.any_eq_true, mem_keys]
  simp

theorem bucket_position_none (h : key ∉ q.keys) : (q.bucket s).position key = none :=
  Option.not_isSome_iff_eq_none.1 fun hs => h (bucket_position_isSome.1 hs)

theorem find_some (h : q.find key = some node) : node ∈ q.nodes ∧ node.key = key :=
  ⟨List.mem_of_find?_eq_some h, by simpa using List.find?_some h⟩

theorem find_none (h : key ∉ q.keys) : q.find key = none :=
  List.find?_eq_none.2 fun n hn => by
    simpa using fun he : n.key = key => h (mem_keys.2 ⟨n, hn, he⟩)

theorem nodes_without : (q.without key).nodes = q.nodes.filter fun n => n.key ≠ key :=
  List.filter_append .. |>.symm

@[simp] theorem without_pending : (q.without key).pending = q.pending := rfl

theorem isFull_iff (h : q.nodes.length ≤ maxNodesPerBucket) :
    q.isFull = false ↔ q.nodes.length < maxNodesPerBucket := by
  rw [isFull, decide_eq_false_iff_not]
  omega

/-- What becomes of the array when a node leaves it. -/
structure Leaves (q : Queues V) (key : Key) (pos : Nat) (old : Node V) : Prop where
  eq : old.key = key
  find : q.find key = some old
  remove : arrayRemove q.nodes pos = some (old, (q.without key).nodes)
  restore : ∀ f : Node V → Node V, (q.without key).nodes.length < maxNodesPerBucket →
    arrayInsert (q.without key).nodes pos (f old) =
      some (q.nodes.map fun m => if m.key = key then f m else m)
  first : q.nodes.head?.map Node.key = some key ↔ pos = 0
  bound : pos < q.nodes.length
  part : old ∈ q.disconnected ∧ pos < q.disconnected.length ∧
        (q.without key).disconnected.length + 1 = q.disconnected.length ∧
        (q.without key).connected = q.connected ∨
      old ∈ q.connected ∧ q.disconnected.length ≤ pos ∧
        (q.without key).disconnected = q.disconnected ∧
        (q.without key).connected.length + 1 = q.connected.length

theorem leaves_of_split {l₁ l₂ : List (Node V)} {n : Node V} (hn : q.keys.Nodup)
    (hl : q.nodes = l₁ ++ n :: l₂)
    (hpart : n ∈ q.disconnected ∧ l₁.length < q.disconnected.length ∧
        (q.without n.key).disconnected.length + 1 = q.disconnected.length ∧
        (q.without n.key).connected = q.connected ∨
      n ∈ q.connected ∧ q.disconnected.length ≤ l₁.length ∧
        (q.without n.key).disconnected = q.disconnected ∧
        (q.without n.key).connected.length + 1 = q.connected.length) :
    (q.bucket s).position n.key = some l₁.length ∧ q.Leaves n.key l₁.length n := by
  have hnodes : ((l₁ ++ n :: l₂).map Node.key).Nodup := hl ▸ hn
  have hwithout : (q.without n.key).nodes = l₁ ++ l₂ := by
    rw [nodes_without, hl, filter_key hnodes]
  refine ⟨by rw [KBucket.position, bucket_nodes, hl, findIdx_key hnodes], rfl, ?_, ?_, ?_, ?_, ?_,
    hpart⟩
  · rw [Queues.find, hl, find_key hnodes]
  · rw [hwithout, hl, arrayRemove_append]
  · intro f hlt
    rw [hwithout] at hlt
    rw [hwithout, hl, arrayInsert_append hlt, map_key hnodes]
  · rw [hl]
    cases l₁ with
    | nil => simp
    | cons m l₁ => simpa using (keys_apart hnodes).1 m List.mem_cons_self
  · rw [hl]
    simp

/-- A key of the queues is found in one of them. -/
theorem exists_leaves (hn : q.keys.Nodup) (h : key ∈ q.keys) :
    ∃ pos old, (q.bucket s).position key = some pos ∧ q.Leaves key pos old := by
  have hmap : q.keys = q.disconnected.map Node.key ++ q.connected.map Node.key := List.map_append
  obtain ⟨hd, hc, hne⟩ := List.nodup_append.1 (hmap ▸ hn)
  rcases List.mem_append.1 (hmap ▸ h) with hk | hk
  · have habsent : key ∉ q.connected.map Node.key := fun h' => hne _ hk _ h' rfl
    obtain ⟨d₁, n, d₂, hq, rfl⟩ := exists_split hk
    have hwithout : (q.without n.key).disconnected = d₁ ++ d₂ := by
      rw [without, hq, filter_key (hq ▸ hd)]
    have hnodes : q.nodes = d₁ ++ n :: (d₂ ++ q.connected) := by
      rw [nodes, hq, List.append_assoc, List.cons_append]
    refine ⟨d₁.length, n, leaves_of_split hn hnodes (.inl ⟨?_, ?_, ?_, ?_⟩)⟩
    · simp [hq]
    · simp [hq]
    · rw [hwithout, hq]
      simp [Nat.add_assoc]
    · exact filter_key_absent habsent
  · have habsent : key ∉ q.disconnected.map Node.key := fun h' => hne _ h' _ hk rfl
    obtain ⟨c₁, n, c₂, hq, rfl⟩ := exists_split hk
    have hwithout : (q.without n.key).connected = c₁ ++ c₂ := by
      rw [without, hq, filter_key (hq ▸ hc)]
    have hnodes : q.nodes = (q.disconnected ++ c₁) ++ n :: c₂ := by
      rw [nodes, hq, List.append_assoc]
    refine ⟨_, n, leaves_of_split hn hnodes (.inr ⟨?_, ?_, ?_, ?_⟩)⟩
    · simp [hq]
    · simp
    · exact filter_key_absent habsent
    · rw [hwithout, hq]
      simp [Nat.add_assoc]

theorem without_length (hn : q.keys.Nodup) (h : key ∈ q.keys) :
    (q.without key).nodes.length + 1 = q.nodes.length := by
  obtain ⟨pos, old, -, hl⟩ := exists_leaves (s := ⟨0, none, 0⟩) hn h
  rcases hl.part with ⟨-, -, hd, hc⟩ | ⟨-, -, hd, hc⟩
  · rw [nodes, nodes, List.length_append, List.length_append, hc]
    omega
  · rw [nodes, nodes, List.length_append, List.length_append, hd]
    omega

/-! ## Insertion -/

theorem settle_connected (h : node.status.state = .connected) :
    q.settle node = { q with connected := q.connected ++ [node] } := by
  rw [settle, h]

theorem settle_disconnected (h : node.status.state = .disconnected) :
    q.settle node = { q with disconnected := q.disconnected ++ [node] } := by
  rw [settle, h]

theorem state_cases (state : ConnectionState) : state = .connected ∨ state = .disconnected := by
  cases state with
  | connected => exact .inl rfl
  | disconnected => exact .inr rfl

@[simp] theorem release_disconnected : (q.release key).disconnected = q.disconnected := rfl

@[simp] theorem release_connected : (q.release key).connected = q.connected := rfl

theorem nodes_nil (h : q.connected = []) : q.nodes = q.disconnected := by
  rw [nodes, h, List.append_nil]

theorem bucket_insert (hroom : q.nodes.length ≤ maxNodesPerBucket) :
    (q.bucket s).insert now node =
      some ((q.insert s now node).1, (q.insert s now node).2.bucket s) := by
  rw [KBucket.insert, insert]
  by_cases hk : node.key ∈ q.keys
  · rw [if_pos (bucket_position_isSome.2 hk), if_pos hk]
  rw [if_neg fun h => hk (bucket_position_isSome.1 h), if_neg hk, bucket_passes]
  by_cases hp : (!q.passes s node.value) = true
  · rw [if_pos hp, if_pos hp]
  rw [if_neg hp, if_neg hp]
  rcases state_cases node.status.state with hs | hs
  · have htoo : (node.status.isIncoming && (q.bucket s).isMaxIncoming) = q.tooMany s node := by
      simp [tooMany, isIncoming, NodeStatus.isConnected, hs, bucket_isMaxIncoming]
    rw [htoo]
    by_cases ht : q.tooMany s node = true
    · simp only [hs, if_pos ht]
    by_cases hf : q.isFull = true
    · cases hd : q.disconnected with
      | nil =>
        have hc : q.connected ≠ [] := fun hc => by
          rw [isFull, nodes, hd, hc] at hf
          simp [maxNodesPerBucket] at hf
        simp only [hs, if_neg ht, bucket_isFull, hf, reduceIte]
        simp [hd, oldest, bucket, hc]
      | cons head rest =>
        simp only [hs, if_neg ht, bucket_isFull, hf, reduceIte]
        by_cases hq : q.pending = none
        · simp [hd, hq, oldest, bucket, nodes]
        · simp [hd, hq, oldest, bucket, Option.isSome_iff_ne_none]
    · have hlt := (isFull_iff hroom).1 (Bool.eq_false_iff.2 hf)
      rw [if_neg ht, if_neg hf]
      simp only [hs, if_neg ht, bucket_isFull, if_neg hf, bucket_nodes, arrayPush_append hlt,
        settle_connected hs]
      by_cases hc : q.connected = []
      · simp [bucket, nodes, release, hc]
      · simp [bucket, nodes, release, hc]
  · have ht : ¬ q.tooMany s node = true := by
      simp [tooMany, isIncoming, NodeStatus.isConnected, hs]
    rw [if_neg ht]
    by_cases hf : q.isFull = true
    · cases hd : q.disconnected with
      | nil => simp [hs, hf, hd, oldest]
      | cons head rest => simp [hs, hf, hd, oldest]
    · have hfalse := Bool.eq_false_iff.2 hf
      have hlt := (isFull_iff hroom).1 hfalse
      rw [if_neg hf]
      simp only [hs, bucket_isFull, hfalse, settle_disconnected hs]
      by_cases hc : q.connected = []
      · simp [bucket, nodes, release, hc, arrayPush_append (nodes_nil hc ▸ hlt)]
      · simp [bucket, nodes, release, hc, arrayInsert_append hlt]

/-! ## The waiting node -/

theorem bucket_replaceFirst (hv : q.Valid s) (hf : q.isFull = true) :
    (q.bucket s).replaceFirst node =
      some ((q.takePlace s node).1, (q.takePlace s node).2.bucket s) := by
  have hlen : q.nodes.length = maxNodesPerBucket := of_decide_eq_true hf
  have htoo : (node.status.isConnected && node.status.isIncoming && (q.bucket s).isMaxIncoming) =
      q.tooMany s node := rfl
  rw [KBucket.replaceFirst, bucket_passes, htoo, takePlace, if_pos hf]
  cases hd : q.disconnected with
  | nil =>
    cases hc : q.connected with
    | nil =>
      rw [nodes, hd, hc] at hlen
      cases hlen
    | cons head rest =>
      have hs := hv.connected head (by simp [hc])
      have hhead : (q.bucket s).nodes[0]? = some head := by simp [nodes, hd, hc]
      rw [hhead]
      simp [NodeStatus.isConnected, hs]
  | cons head rest =>
    have hs := hv.disconnected head (by simp [hd])
    have hnodes : q.nodes = head :: (rest ++ q.connected) := by rw [nodes, hd, List.cons_append]
    have hlt : (rest ++ q.connected).length < maxNodesPerBucket := by
      rw [hnodes, List.length_cons] at hlen
      omega
    have hhead : (q.bucket s).nodes[0]? = some head := by simp [hnodes]
    rw [hhead]
    by_cases hp : q.passes s node.value = true
    swap
    · simp [NodeStatus.isConnected, hp]
    by_cases ht : q.tooMany s node = true
    · simp [NodeStatus.isConnected, hp, ht]
    have hpush := arrayPush_append hlt node
    have hinsert := arrayInsert_append hlt node
    rcases state_cases node.status.state with hn | hn
    · by_cases hc : q.connected = []
      · rw [hc, List.append_nil] at hpush
        simp [NodeStatus.isConnected, hs, hn, hp, ht, bucket, hc, hd, settle_connected hn, nodes,
          hpush]
      · simp [NodeStatus.isConnected, hs, hn, hp, ht, bucket, hc, hd, settle_connected hn, nodes,
          hpush]
    · by_cases hc : q.connected = []
      · rw [hc, List.append_nil] at hpush
        simp [NodeStatus.isConnected, hs, hn, hp, ht, bucket, hc, hd, settle_disconnected hn, nodes,
          hpush]
      · simp [NodeStatus.isConnected, hs, hn, hp, ht, bucket, hc, hd, settle_disconnected hn, nodes,
          hinsert]

theorem bucket_applyPending (hv : q.Valid s) :
    (q.bucket s).applyPending now =
      some ((q.applyPending s now).1, (q.applyPending s now).2.bucket s) := by
  rw [KBucket.applyPending, bucket_pending, applyPending]
  cases hp : q.pending with
  | none => rfl
  | some p =>
    by_cases hr : p.replace ≤ now
    swap
    · simp only [if_neg hr]
    simp only [if_pos hr]
    have hv' : ({ q with pending := none } : Queues V).Valid s :=
      { hv with waits := fun _ h => by cases h }
    have hb : { q.bucket s with pending := none } = bucket s { q with pending := none } := rfl
    rw [hb, bucket_isFull]
    by_cases hf : isFull { q with pending := none } = true
    · rw [if_pos hf, bucket_replaceFirst hv' hf]
    · rw [if_neg hf, bucket_insert hv'.room]
      have hk : p.node.key ∉ keys { q with pending := none } := hv.waits p hp
      rw [insert, takePlace, if_neg hk, if_neg hf, if_neg hf]
      by_cases hpass : passes s { q with pending := none } p.node.value = true
      swap
      · simp [hpass]
      by_cases ht : tooMany s { q with pending := none } p.node = true
      · simp [hpass, ht]
      · simp [hpass, ht, release]

/-! ## Updates and removal -/

section
variable {pos : Nat} {old : Node V}

theorem Leaves.adjustFirstConnectedPos (hv : q.Valid s) (hl : q.Leaves key pos old) :
    (q.bucket s).adjustFirstConnectedPos old.status pos (q.without key).nodes =
      ((q.without key).bucket s).firstConnectedPos := by
  rw [KBucket.adjustFirstConnectedPos]
  have hb := hl.bound
  rw [nodes, List.length_append] at hb
  rcases hl.part with ⟨hold, -, hd, hc⟩ | ⟨hold, hpos, hd, hc⟩
  · rw [hv.disconnected old hold]
    by_cases he : q.connected = []
    · simp [bucket, hc, he]
    · simp [bucket, hc, he, ← hd]
  · have hne : q.connected ≠ [] := List.ne_nil_of_mem hold
    rw [hv.connected old hold]
    simp only [bucket, hne, hd, nodes, List.length_append, reduceIte]
    by_cases he : (q.without key).connected = []
    · rw [he] at hc
      simp only [he, reduceIte, List.length_nil] at hc ⊢
      rw [if_pos ⟨congrArg some (by omega), by omega⟩]
    · have := List.length_pos_iff.2 he
      rw [if_neg he, if_neg fun h => by have := Option.some.inj h.1; omega]

/-- `first_connected_pos` after `update_first_connected_pos_for_removal`. -/
theorem Leaves.bucket_removal (hl : q.Leaves key pos old) :
    ({ q.bucket s with nodes := (q.without key).nodes } : KBucket V).updateFirstConnectedPosForRemoval
      pos = (q.without key).bucket s := by
  have hb := hl.bound
  rw [nodes, List.length_append] at hb
  rw [KBucket.updateFirstConnectedPosForRemoval]
  rcases hl.part with ⟨-, hpos, hd, hc⟩ | ⟨hold, hpos, hd, hc⟩
  · by_cases he : q.connected = []
    · simp [bucket, hc, he]
    · simp only [bucket, hc, if_neg he, Option.bind_some, if_pos hpos]
      rw [← hd, Nat.add_sub_cancel]
      rfl
  · have hne : q.connected ≠ [] := List.ne_nil_of_mem hold
    simp only [bucket, if_neg hne, Option.bind_some, if_neg (Nat.not_lt.2 hpos), hd, nodes,
      List.length_append]
    by_cases he : (q.without key).connected = []
    · simp [he]
    · have := List.length_pos_iff.2 he
      rw [if_neg he, if_pos (by omega)]
      rfl

theorem mem_without_keys {k : Key} : k ∈ (q.without key).keys ↔ k ∈ q.keys ∧ k ≠ key := by
  rw [mem_keys, mem_keys, nodes_without]
  constructor
  · rintro ⟨n, hn, rfl⟩
    obtain ⟨hn, hne⟩ := List.mem_filter.1 hn
    exact ⟨⟨n, hn, rfl⟩, of_decide_eq_true hne⟩
  · rintro ⟨⟨n, hn, rfl⟩, hne⟩
    exact ⟨n, List.mem_filter.2 ⟨hn, decide_eq_true hne⟩, rfl⟩

theorem not_mem_without : key ∉ (q.without key).keys := fun h => (mem_without_keys.1 h).2 rfl

theorem insert_of_room (node : Node V) (hk : node.key ∉ q.keys)
    (hf : q.nodes.length < maxNodesPerBucket) (hw : ∀ p, q.pending = some p → p.node.key ≠ node.key) :
    q.insert s now node =
      if !q.passes s node.value then (.failedFilter, q)
      else if q.tooMany s node then (.tooManyIncoming, q)
      else (.inserted, q.settle node) := by
  have hrelease : q.release node.key = q := by
    rw [release]
    cases hp : q.pending with
    | none => rw [Option.filter_none, ← hp]
    | some p => rw [Option.filter_some, if_pos (by simpa using hw p hp), ← hp]
  rw [insert, if_neg hk, (isFull_iff (Nat.le_of_lt hf)).2 hf, hrelease]
  rfl

theorem bucket_vacate (hv : q.Valid s) (hl : q.Leaves key pos old) (state : ConnectionState) :
    { q.bucket s with
      nodes := (q.without key).nodes
      firstConnectedPos := (q.bucket s).adjustFirstConnectedPos old.status pos (q.without key).nodes
      pending := if pos = 0 ∧ state = .connected then none else (q.bucket s).pending } =
      (q.vacate key state).bucket s := by
  rw [hl.adjustFirstConnectedPos hv, vacate]
  simp only [hl.first]
  rfl

theorem bucket_updateStatus (hv : q.Valid s) (state : ConnectionState)
    (direction : Option ConnectionDirection) :
    (q.bucket s).updateStatus now key state direction =
      some ((q.updateStatus s key state direction).1,
        (q.updateStatus s key state direction).2.bucket s) := by
  by_cases hk : key ∈ q.keys
  · obtain ⟨pos, old, hpos, hl⟩ := exists_leaves (s := s) hv.nodup hk
    have hlen : (q.vacate key state).nodes.length + 1 = q.nodes.length := without_length hv.nodup hk
    have hroom := hv.room
    have hkey : old.key ∉ (q.vacate key state).keys := hl.eq ▸ not_mem_without
    have hwait : ∀ p, (q.vacate key state).pending = some p → p.node.key ≠ old.key := fun p hp he => by
      rw [vacate] at hp
      split at hp
      · cases hp
      · exact hv.waits p hp (he ▸ hl.eq ▸ hk)
    rw [KBucket.updateStatus, hpos, updateStatus, hl.find]
    simp only [bucket_nodes, hl.remove, Option.bind_eq_bind, Option.bind_some]
    have hb := bucket_vacate hv hl state
    dsimp only at hb
    rw [hb, bucket_insert (by omega), reinsert,
      insert_of_room { old with status := old.status.update state direction } hkey (by omega) hwait]
    by_cases hp : (q.vacate key state).passes s old.value = true
    swap
    · simp [hp]
    by_cases ht : (q.vacate key state).tooMany s
      { old with status := old.status.update state direction } = true
    · simp [hp, ht]
    · have hconn : (old.status.update state direction).isConnected = decide (state = .connected) := rfl
      simp [hp, ht, hconn]
  · rw [KBucket.updateStatus, bucket_position_none hk, updateStatus, find_none hk]
    cases hp : q.pending with
    | none => simp [updateWaiting, hp]
    | some p =>
      by_cases he : p.node.key = key
      · simp [updateWaiting, hp, he, bucket, nodes]
      · simp [updateWaiting, hp, he]

/-! ### The queues stay valid -/

theorem settle_perm : (q.settle node).nodes.Perm (node :: q.nodes) := by
  rcases state_cases node.status.state with h | h
  · rw [settle_connected h, nodes, nodes, ← List.append_assoc]
    exact List.perm_append_singleton node _
  · rw [settle_disconnected h, nodes, nodes, List.append_assoc]
    exact List.perm_middle

@[simp] theorem settle_pending : (q.settle node).pending = q.pending := by
  rcases state_cases node.status.state with h | h
  · rw [settle_connected h]
  · rw [settle_disconnected h]

theorem mem_settle_keys {k : Key} : k ∈ (q.settle node).keys ↔ k = node.key ∨ k ∈ q.keys :=
  (settle_perm.map Node.key).mem_iff.trans List.mem_cons

theorem Valid.fewer {m : Queues V} (hv : q.Valid s) (hd : m.disconnected.Sublist q.disconnected)
    (hc : m.connected.Sublist q.connected) (hp : ∀ p, m.pending = some p → q.pending = some p) :
    m.Valid s :=
  have hsub : m.nodes.Sublist q.nodes := hd.append hc
  { disconnected := fun n hn => hv.disconnected n (hd.subset hn)
    connected := fun n hn => hv.connected n (hc.subset hn)
    room := Nat.le_trans hsub.length_le hv.room
    nodup := hv.nodup.sublist (hsub.map Node.key)
    waits := fun p h hk => hv.waits p (hp p h) ((hsub.map Node.key).subset hk)
    incoming := Nat.le_trans hsub.countP_le hv.incoming }

theorem Valid.without (hv : q.Valid s) (key : Key) : (q.without key).Valid s :=
  hv.fewer List.filter_sublist List.filter_sublist fun _ hp => hp

theorem tooMany_of_le {m : Queues V} (h : m.nodes.countP isIncoming ≤ q.nodes.countP isIncoming)
    (hq : q.tooMany s node = false) : m.tooMany s node = false := by
  rw [tooMany, Bool.and_eq_false_iff, decide_eq_false_iff_not] at hq ⊢
  exact hq.imp_right fun hlt hle => hlt (Nat.le_trans hle h)

theorem Valid.settle (hv : q.Valid s) (hk : node.key ∉ q.keys)
    (hroom : q.nodes.length < maxNodesPerBucket) (ht : q.tooMany s node = false)
    (hw : ∀ p, q.pending = some p → p.node.key ≠ node.key) : (q.settle node).Valid s where
  disconnected n hn := by
    rcases state_cases node.status.state with h | h
    · rw [settle_connected h] at hn
      exact hv.disconnected n hn
    · rw [settle_disconnected h] at hn
      rcases List.mem_append.1 hn with hn | hn
      · exact hv.disconnected n hn
      · rw [List.mem_singleton.1 hn, h]
  connected n hn := by
    rcases state_cases node.status.state with h | h
    · rw [settle_connected h] at hn
      rcases List.mem_append.1 hn with hn | hn
      · exact hv.connected n hn
      · rw [List.mem_singleton.1 hn, h]
    · rw [settle_disconnected h] at hn
      exact hv.connected n hn
  room := by
    rw [settle_perm.length_eq, List.length_cons]
    omega
  nodup := ((settle_perm.map Node.key).nodup_iff).2 (List.nodup_cons.2 ⟨hk, hv.nodup⟩)
  waits p hp h := by
    rw [settle_pending] at hp
    rcases mem_settle_keys.1 h with h | h
    · exact hw p hp h
    · exact hv.waits p hp h
  incoming := by
    rw [settle_perm.countP_eq, List.countP_cons]
    have hmax := hv.incoming
    by_cases hi : isIncoming node = true
    · have : ¬ s.maxIncoming ≤ q.nodes.countP isIncoming := by
        simpa [tooMany, hi] using ht
      rw [if_pos hi]
      omega
    · rw [if_neg hi]
      omega

section
variable {value : V}

theorem setValue_nodes : (q.setValue key value).nodes =
    q.nodes.map fun n => if n.key = key then { n with value } else n := List.map_append.symm

theorem map_setValue_keys (l : List (Node V)) :
    (l.map fun n => if n.key = key then { n with value } else n).map Node.key = l.map Node.key := by
  rw [List.map_map]
  refine List.map_congr_left fun n _ => ?_
  rw [Function.comp_apply]
  split <;> rfl

theorem setValue_keys : (q.setValue key value).keys = q.keys := by
  rw [keys, setValue_nodes, map_setValue_keys, keys]

theorem setValue_status {l : List (Node V)} {state : ConnectionState}
    (h : ∀ n ∈ l, n.status.state = state) :
    ∀ n ∈ l.map fun n => if n.key = key then { n with value } else n, n.status.state = state := by
  intro n hn
  obtain ⟨m, hm, rfl⟩ := List.mem_map.1 hn
  have hs := h m hm
  split <;> exact hs

theorem Valid.setValue (hv : q.Valid s) : (q.setValue key value).Valid s where
  disconnected := setValue_status hv.disconnected
  connected := setValue_status hv.connected
  room := by
    rw [setValue_nodes, List.length_map]
    exact hv.room
  nodup := by rw [setValue_keys]; exact hv.nodup
  waits p hp := by rw [setValue_keys]; exact hv.waits p hp
  incoming := by
    rw [setValue_nodes, List.countP_map, List.countP_congr fun n _ => ?_]
    · exact hv.incoming
    · rw [Function.comp_apply]
      split <;> exact Iff.rfl

end

theorem bucket_updateValue [DecidableEq V] (hv : q.Valid s) (value : V) :
    (q.bucket s).updateValue key value =
      some ((q.updateValue s key value).1, (q.updateValue s key value).2.bucket s) := by
  by_cases hk : key ∈ q.keys
  · obtain ⟨pos, old, hpos, hl⟩ := exists_leaves (s := s) hv.nodup hk
    have hlen := without_length hv.nodup hk
    have hroom := hv.room
    rw [KBucket.updateValue, hpos, updateValue, hl.find]
    simp only [bucket_nodes, hl.remove, Option.bind_eq_bind, Option.bind_some]
    by_cases hval : old.value = value
    · have hself : (q.nodes.map fun m => if m.key = key then m else m) = q.nodes := by simp
      have hrestore := hl.restore id (by omega)
      simp only [id_eq, hself] at hrestore
      simp [hval, hrestore, bucket]
    have hb := hl.bucket_removal (s := s)
    dsimp only at hb
    have hpass : KBucket.passes { q.bucket s with nodes := (q.without key).nodes } value =
      (q.without key).passes s value := rfl
    have hset : { q.bucket s with
        nodes := q.nodes.map fun n => if n.key = key then { n with value } else n } =
        (q.setValue key value).bucket s := by
      rw [← setValue_nodes]
      simp [bucket, setValue]
    dsimp only at hpass hset
    by_cases hp : (q.without key).passes s value = true
    · simp only [if_neg hval, hpass, hp, Bool.not_true, Bool.false_eq_true, reduceIte,
        hl.restore (fun n => { n with value }) (by omega), Option.bind_some, hset]
      rfl
    · simp only [if_neg hval, hpass, Bool.eq_false_iff.2 hp, Bool.not_false, reduceIte, hb]
      rfl
  · rw [KBucket.updateValue, bucket_position_none hk, updateValue, find_none hk]
    cases hp : q.pending with
    | none => simp [updateWaiting, hp]
    | some p =>
      by_cases he : p.node.key = key
      · simp [updateWaiting, hp, he, bucket, nodes]
      · simp [updateWaiting, hp, he]

theorem bucket_remove (hv : q.Valid s) :
    (q.bucket s).remove now key = some ((q.remove s now key).1, (q.remove s now key).2.bucket s) := by
  by_cases hk : key ∈ q.keys
  · obtain ⟨pos, old, hpos, hl⟩ := exists_leaves (s := s) hv.nodup hk
    rw [KBucket.remove, hpos, remove, if_pos hk]
    simp only [bucket_nodes, hl.remove, Option.bind_eq_bind, Option.bind_some]
    have hb := hl.bucket_removal (s := s)
    dsimp only at hb
    rw [hb, bucket_applyPending (hv.without key)]
    rfl
  · rw [KBucket.remove, bucket_position_none hk, remove, if_neg hk]

end

end Queues

end Discv5
