import Neverust.Cluster.Archivist

/-!
# Every attempt of a pin is accounted for

The loop of `pin_payload` keeps `Accounts`: the members that were tried are the first ones of the
placement, each of them pinned or failed, and the pinned ones are not more than asked for. Batches
whose tasks end in another order record the same (`record_batch`).

* `pin_accounts`: what a pin records, whatever the members answer.
* `pinPayload_accounts`: with the answers of `pin_to_member`, the pinned members took the content.
-/

namespace Cluster

open Ranking Storage CidBlake3

variable {pin : ClusterMember → Except ClusterError Unit} {healthy : List ClusterMember}
  {ordered : List ClusterNode} {replicas cursor parallelism : Nat} {out : PinOutcome}
  {order : Nat → List ClusterMember → List ClusterMember}

/-- The ids of the members that were tried. -/
def PinOutcome.attempted (out : PinOutcome) : List String :=
  out.pinnedNodes ++ out.failedNodes.map Prod.fst

/-- What is recorded is what became of the uploads. -/
structure Truthful (pin : ClusterMember → Except ClusterError Unit) (healthy : List ClusterMember)
    (out : PinOutcome) : Prop where
  achieved : out.achievedReplicas = out.pinnedNodes.length
  pinned : ∀ id ∈ out.pinnedNodes, ∃ m ∈ healthy, m.node.id = id ∧ pin m = .ok ()
  failed : ∀ f ∈ out.failedNodes, ∃ m ∈ healthy, ∃ e, m.node.id = f.1 ∧ pin m = .error e ∧
    f.2 = e.text

/-- What the loop has recorded when `cursor` nodes of the placement were tried. -/
structure Accounts (pin : ClusterMember → Except ClusterError Unit) (healthy : List ClusterMember)
    (ordered : List ClusterNode) (replicas cursor : Nat) (out : PinOutcome) : Prop extends
    Truthful pin healthy out where
  requested : out.requestedReplicas = replicas
  bound : out.achievedReplicas ≤ replicas
  cursor_le : cursor ≤ ordered.length
  attempted : out.attempted.Perm ((ordered.take cursor).map ClusterNode.id)

/-! ## Members and nodes -/

theorem memberById_of_mem (hids : (healthy.map fun m => m.node.id).Nodup) {m : ClusterMember}
    (hm : m ∈ healthy) : memberById healthy m.node.id = some m := by
  cases hfind : memberById healthy m.node.id with
  | none =>
    have := List.find?_eq_none.1 hfind m (List.mem_reverse.2 hm)
    simp at this
  | some m' =>
    have hid : m'.node.id = m.node.id := by simpa using List.find?_some hfind
    have hmem : m' ∈ healthy := List.mem_reverse.1 (List.mem_of_find?_eq_some hfind)
    rw [List.inj_on_of_nodup_map hids hmem hm hid]

/-- The jobs of a batch are the members of its nodes. -/
theorem jobs_spec (hids : (healthy.map fun m => m.node.id).Nodup) : ∀ {nodes : List ClusterNode},
    (∀ n ∈ nodes, n ∈ healthy.map ClusterMember.node) →
      (nodes.filterMap fun n => memberById healthy n.id).map ClusterMember.node = nodes ∧
      ∀ m ∈ nodes.filterMap fun n => memberById healthy n.id, m ∈ healthy
  | [], _ => ⟨rfl, by simp⟩
  | n :: nodes, hn => by
    obtain ⟨m, hm, rfl⟩ := List.mem_map.1 (hn n List.mem_cons_self)
    obtain ⟨hmap, hmem⟩ := jobs_spec hids fun n' hn' => hn n' (List.mem_cons_of_mem _ hn')
    have hget := memberById_of_mem hids hm
    rw [List.filterMap_cons, hget]
    refine ⟨by rw [List.map_cons, hmap], fun m' hm' => ?_⟩
    obtain rfl | hm' := List.mem_cons.1 hm'
    · exact hm
    · exact hmem m' hm'

theorem placement_perm (hash : Bytes → Bytes) (healthy : List ClusterMember) (cid : String) :
    (placement hash healthy cid).Perm (healthy.map ClusterMember.node) := by
  rw [placement, selectReplicas_eq_top, top, ← (rank_perm (rankKey hash cid) _).length_eq,
    List.take_length]
  exact rank_perm _ _

/-! ## One batch -/

/-- What one task adds. -/
theorem record_spec {m : ClusterMember} (hm : m ∈ healthy) (h : Truthful pin healthy out) :
    Truthful pin healthy (out.record pin m) ∧
    (out.record pin m).requestedReplicas = out.requestedReplicas ∧
    (out.record pin m).attempted.Perm (out.attempted ++ [m.node.id]) ∧
    (out.record pin m).achievedReplicas ≤ out.achievedReplicas + 1 := by
  unfold PinOutcome.record PinOutcome.attempted
  cases hpin : pin m with
  | ok u =>
    refine ⟨⟨by simp [h.achieved], fun id hid => ?_, h.failed⟩, rfl, ?_, Nat.le_refl _⟩
    · obtain hid | hid := List.mem_append.1 hid
      · exact h.pinned id hid
      · exact ⟨m, hm, (List.mem_singleton.1 hid).symm, hpin⟩
    · rw [List.append_assoc, List.append_assoc]
      exact List.perm_append_comm.append_left _
  | error e =>
    refine ⟨⟨h.achieved, h.pinned, fun f hf => ?_⟩, rfl, by simp, Nat.le_succ _⟩
    obtain hf | hf := List.mem_append.1 hf
    · exact h.failed f hf
    · rw [List.mem_singleton.1 hf]
      exact ⟨m, hm, e, rfl, hpin, rfl⟩

theorem record_batch : ∀ (jobs : List ClusterMember) {out : PinOutcome},
    (∀ m ∈ jobs, m ∈ healthy) → Truthful pin healthy out →
    Truthful pin healthy (jobs.foldl (PinOutcome.record pin) out) ∧
    (jobs.foldl (PinOutcome.record pin) out).requestedReplicas = out.requestedReplicas ∧
    (jobs.foldl (PinOutcome.record pin) out).attempted.Perm
      (out.attempted ++ jobs.map fun m => m.node.id) ∧
    (jobs.foldl (PinOutcome.record pin) out).achievedReplicas ≤
      out.achievedReplicas + jobs.length
  | [], _, _, h => ⟨h, rfl, by simp, Nat.le_refl _⟩
  | m :: jobs, out, hjobs, h => by
    obtain ⟨h₁, hreq₁, hperm₁, hle₁⟩ := record_spec (hjobs m List.mem_cons_self) h
    obtain ⟨h₂, hreq₂, hperm₂, hle₂⟩ := record_batch jobs
      (fun m' hm' => hjobs m' (List.mem_cons_of_mem _ hm')) h₁
    refine ⟨h₂, hreq₂.trans hreq₁, ?_, ?_⟩
    · refine hperm₂.trans ((hperm₁.append_right _).trans ?_)
      rw [List.append_assoc]
      exact .refl _
    · rw [List.foldl_cons, List.length_cons]
      omega

/-! ## The loop -/

/-- One round of the loop. -/
theorem Accounts.batch (hids : (healthy.map fun m => m.node.id).Nodup)
    (hordered : ∀ n ∈ ordered, n ∈ healthy.map ClusterMember.node)
    (horder : ∀ c l, (order c l).Perm l) (h : Accounts pin healthy ordered replicas cursor out)
    {size : Nat} (hsize : size ≤ replicas - out.achievedReplicas)
    (hroom : size ≤ ordered.length - cursor) :
    Accounts pin healthy ordered replicas (cursor + size)
      ((order cursor (((ordered.drop cursor).take size).filterMap fun n =>
        memberById healthy n.id)).foldl (PinOutcome.record pin) out) := by
  have hnodes : ∀ n ∈ (ordered.drop cursor).take size, n ∈ healthy.map ClusterMember.node :=
    fun n hn => hordered n (List.mem_of_mem_drop (List.mem_of_mem_take hn))
  obtain ⟨hmap, hmem⟩ := jobs_spec hids hnodes
  generalize hjobs : (((ordered.drop cursor).take size).filterMap fun n =>
    memberById healthy n.id) = jobs at hmap hmem ⊢
  have hperm := horder cursor jobs
  have hlen : jobs.length ≤ size := by
    have := congrArg List.length hmap
    simp only [List.length_map, List.length_take] at this
    omega
  obtain ⟨htrue, hreq, hatt, hle⟩ := record_batch (order cursor jobs)
    (fun m hm => hmem m (hperm.mem_iff.1 hm)) h.toTruthful
  rw [hperm.length_eq] at hle
  have hbound := h.bound
  have hcursor := h.cursor_le
  refine ⟨htrue, hreq.trans h.requested, by omega, by omega, ?_⟩
  refine hatt.trans ((h.attempted.append (hperm.map _)).trans ?_)
  have hnames : jobs.map (fun m => m.node.id) =
      ((ordered.drop cursor).take size).map ClusterNode.id := by
    rw [← hmap, List.map_map]
    rfl
  rw [hnames, ← List.map_append, List.take_add]

theorem pinLoop_accounts (hids : (healthy.map fun m => m.node.id).Nodup)
    (hordered : ∀ n ∈ ordered, n ∈ healthy.map ClusterMember.node)
    (horder : ∀ c l, (order c l).Perm l) (hpar : 0 < parallelism) :
    ∀ (k : Nat) {cursor : Nat} {out : PinOutcome},
      Accounts pin healthy ordered replicas cursor out → ordered.length - cursor ≤ k →
      ∃ n, Accounts pin healthy ordered replicas n
          (pinLoop pin order healthy ordered replicas parallelism k cursor out) ∧
        ((pinLoop pin order healthy ordered replicas parallelism k cursor out).achievedReplicas <
          replicas → n = ordered.length)
  | 0, cursor, out, h, hk => ⟨cursor, h, fun _ => by have := h.cursor_le; omega⟩
  | k + 1, cursor, out, h, hk => by
    rw [pinLoop]
    split
    · rename_i hcond
      refine pinLoop_accounts hids hordered horder hpar k
        (h.batch hids hordered horder (by omega) (by omega)) ?_
      omega
    · rename_i hcond
      refine ⟨cursor, h, fun hlt => ?_⟩
      have := h.cursor_le
      omega

/-- What a pin has recorded when it ends. -/
structure Accounted (pin : ClusterMember → Except ClusterError Unit) (hash : Bytes → Bytes)
    (cluster : ArchivistCluster) (cid : String) (replicas : Nat) (out : PinOutcome) : Prop where
  requested : out.requestedReplicas = max replicas 1
  achieved : out.achievedReplicas = out.pinnedNodes.length
  bound : out.achievedReplicas ≤ out.requestedReplicas
  nodup : out.attempted.Nodup
  pinned : ∀ id ∈ out.pinnedNodes, ∃ m ∈ cluster.members, m.healthy ∧ m.node.id = id ∧ pin m = .ok ()
  failed : ∀ f ∈ out.failedNodes, ∃ m ∈ cluster.members, m.healthy ∧
    ∃ e, m.node.id = f.1 ∧ pin m = .error e ∧ f.2 = e.text
  first : ∃ n, out.attempted.Perm
    (((placement hash (cluster.members.filter ClusterMember.healthy) cid).take n).map ClusterNode.id)
  tried : out.achievedReplicas < out.requestedReplicas → ∀ m ∈ cluster.members, m.healthy →
    m.node.id ∈ out.attempted

theorem pinPayloadWith_accounted {hash : Bytes → Bytes} {cluster : ArchivistCluster} {cid : String}
    (horder : ∀ c l, (order c l).Perm l) (hids : (cluster.members.map fun m => m.node.id).Nodup)
    (h : pinPayloadWith pin order hash cluster cid replicas = .ok out) :
    Accounted pin hash cluster cid replicas out := by
  unfold pinPayloadWith at h
  split at h
  · cases h
  dsimp only at h
  split at h
  · cases h
  generalize hhealthy : cluster.members.filter ClusterMember.healthy = healthy at h
  have hmem : ∀ m, m ∈ healthy ↔ m ∈ cluster.members ∧ m.healthy := by
    intro m
    rw [← hhealthy, List.mem_filter]
  have hids' : (healthy.map fun m => m.node.id).Nodup :=
    hids.sublist ((hhealthy ▸ List.filter_sublist).map _)
  have hplaced := placement_perm hash healthy cid
  have hstart : Accounts pin healthy (placement hash healthy cid) (max replicas 1) 0
      ⟨cid, max replicas 1, 0, [], []⟩ :=
    ⟨⟨rfl, by simp, by simp⟩, rfl, Nat.zero_le _, Nat.zero_le _, .refl _⟩
  obtain ⟨n, hacc, hall⟩ := pinLoop_accounts hids' (fun x hx => hplaced.mem_iff.1 hx) horder
    cluster.parallelism_pos (placement hash healthy cid).length hstart (by omega)
  rw [Except.ok.inj h] at hacc hall
  have hnodup : ((placement hash healthy cid).map ClusterNode.id).Nodup := by
    refine ((hplaced.map _).nodup_iff).2 ?_
    rw [List.map_map]
    exact hids'
  refine ⟨hacc.requested, hacc.achieved, hacc.requested ▸ hacc.bound, ?_, fun id hid => ?_,
    fun f hf => ?_, ⟨n, hhealthy ▸ hacc.attempted⟩, fun hlt m hm hup => ?_⟩
  · exact (hacc.attempted.nodup_iff).2 (hnodup.sublist ((List.take_sublist _ _).map _))
  · obtain ⟨m, hm, hrest⟩ := hacc.pinned id hid
    exact ⟨m, ((hmem m).1 hm).1, ((hmem m).1 hm).2, hrest⟩
  · obtain ⟨m, hm, hrest⟩ := hacc.failed f hf
    exact ⟨m, ((hmem m).1 hm).1, ((hmem m).1 hm).2, hrest⟩
  · rw [hacc.requested] at hlt
    refine hacc.attempted.mem_iff.2 ?_
    rw [hall hlt, List.take_length]
    exact ((hplaced.map _).mem_iff).2 (List.mem_map.2
      ⟨m.node, List.mem_map_of_mem ((hmem m).2 ⟨hm, hup⟩), rfl⟩)

/-- **A pin accounts for every attempt**, whatever the members answer and in whatever order the
tasks end: the pinned nodes are as many as counted and not more than asked for; pinned and failed
nodes are members that were up, each tried once, and the first ones of the placement; and if they
are fewer than asked for, every member that was up was tried. -/
theorem pin_accounts (pin : ClusterMember → Except ClusterError Unit)
    (order : Nat → List ClusterMember → List ClusterMember) (horder : ∀ c l, (order c l).Perm l)
    (hash : Bytes → Bytes) (cluster : ArchivistCluster)
    (hids : (cluster.members.map fun m => m.node.id).Nodup) (cid : String) (replicas : Nat)
    (out : PinOutcome) (h : pinPayloadWith pin order hash cluster cid replicas = .ok out) :
    out.requestedReplicas = max replicas 1 ∧
    out.achievedReplicas = out.pinnedNodes.length ∧
    out.achievedReplicas ≤ out.requestedReplicas ∧
    (out.pinnedNodes ++ out.failedNodes.map Prod.fst).Nodup ∧
    (∀ id ∈ out.pinnedNodes, ∃ m ∈ cluster.members, m.healthy ∧ m.node.id = id ∧ pin m = .ok ()) ∧
    (∀ f ∈ out.failedNodes, ∃ m ∈ cluster.members, m.healthy ∧
      ∃ e, m.node.id = f.1 ∧ pin m = .error e ∧ f.2 = e.text) ∧
    (∃ n, (out.pinnedNodes ++ out.failedNodes.map Prod.fst).Perm
      (((placement hash (cluster.members.filter ClusterMember.healthy) cid).take n).map
        ClusterNode.id)) ∧
    (out.achievedReplicas < out.requestedReplicas → ∀ m ∈ cluster.members, m.healthy →
      m.node.id ∈ out.pinnedNodes ++ out.failedNodes.map Prod.fst) := by
  have hacc := pinPayloadWith_accounted horder hids h
  exact ⟨hacc.requested, hacc.achieved, hacc.bound, hacc.nodup, hacc.pinned, hacc.failed,
    hacc.first, hacc.tried⟩

/-- Three members, one of them down. -/
def sampleCluster : ArchivistCluster :=
  .new (sampleNodes.map fun n => ⟨n, .httpApi, n.id ≠ "c"⟩) 2

/-- One of the two others does not answer. -/
def flaky (m : ClusterMember) : Except ClusterError Unit :=
  if m.node.id = "a" then .error (.http "timeout") else .ok ()

theorem pin_accounts_flaky : ∃ out,
    pinPayloadWith flaky (fun _ jobs => jobs.reverse) (fun b => b) sampleCluster "cid" 2 = .ok out ∧
      out.requestedReplicas = 2 ∧ out.achievedReplicas ≤ 2 := by
  obtain ⟨out, hout⟩ : ∃ out, pinPayloadWith flaky (fun _ jobs => jobs.reverse) (fun b => b)
      sampleCluster "cid" 2 = .ok out :=
    ⟨_, by rw [pinPayloadWith, if_neg (by decide), if_neg (by decide)]⟩
  obtain ⟨hreq, -, hle, -⟩ := pin_accounts flaky (fun _ jobs => jobs.reverse)
    (fun _ jobs => jobs.reverse_perm) (fun b => b) sampleCluster (by decide) "cid" 2 out hout
  exact ⟨out, hout, hreq, hle.trans (Nat.le_of_eq hreq)⟩

/-! ## The members of the source -/

section
variable {cr : Crates} {env : Outside} {cid : String} {payload : Bytes}

/-- The member took the content: it answered the upload with the CID, or its store took the data as
a block that the CID verifies. -/
def Took (cr : Crates) (env : Outside) (cid uploadPath : String) (payload : Bytes)
    (m : ClusterMember) : Prop :=
  match m.backend with
  | .httpApi =>
    (trimSlashes m.node.baseUrl).isEmpty = false ∧ ∃ returned,
      env.post (trimSlashes m.node.baseUrl ++ uploadPath) payload = .accepted returned ∧
        trimText returned = cid
  | .localNeverust =>
    uploadPath = "/api/archivist/v1/data/raw" ∧ ∃ expected,
      cr.cidOfString cid = some expected ∧ verifyBlake3 cr payload expected = .ok () ∧
        env.put m.node.id { cid := expected, data := payload } = none

theorem pinToMember_eq_ok_iff {uploadPath : String} {m : ClusterMember} :
    pinToMember cr env cid uploadPath payload m = .ok () ↔ Took cr env cid uploadPath payload m := by
  unfold pinToMember Took
  cases m.backend with
  | httpApi =>
    dsimp only
    cases hbase : (trimSlashes m.node.baseUrl).isEmpty with
    | true => exact iff_of_false (fun h => nomatch h) fun h => nomatch h.1
    | false =>
      cases hpost : env.post (trimSlashes m.node.baseUrl ++ uploadPath) payload with
      | failed msg => exact iff_of_false (fun h => nomatch h) fun ⟨_, _, h, _⟩ => nomatch h
      | refused code body => exact iff_of_false (fun h => nomatch h) fun ⟨_, _, h, _⟩ => nomatch h
      | unreadable msg => exact iff_of_false (fun h => nomatch h) fun ⟨_, _, h, _⟩ => nomatch h
      | accepted returned =>
        by_cases hcid : trimText returned = cid
        · exact iff_of_true (by simp [hcid]; rfl) ⟨rfl, returned, rfl, hcid⟩
        · refine iff_of_false (fun h => ?_) fun ⟨_, _, h, h'⟩ => ?_
          · simp [hcid] at h
          · cases h
            exact hcid h'
  | localNeverust =>
    dsimp only
    cases hcid : cr.cidOfString cid with
    | none => exact iff_of_false (fun h => nomatch h) fun ⟨_, _, h, _⟩ => nomatch h
    | some expected =>
      by_cases hpath : uploadPath = "/api/archivist/v1/data/raw"
      · subst hpath
        cases hblock : Block.fromCidAndData cr expected payload with
        | error e =>
          refine iff_of_false (fun h => ?_) fun ⟨_, _, h, hv, _⟩ => ?_
          · simp [hblock] at h
          · cases h
            cases hblock.symm.trans (Block.fromCidAndData_eq_ok_iff.2 ⟨hv, rfl⟩)
        | ok block =>
          obtain ⟨hv, rfl⟩ := Block.fromCidAndData_eq_ok_iff.1 hblock
          cases hput : env.put m.node.id { cid := expected, data := payload } with
          | some msg =>
            refine iff_of_false (fun h => ?_) fun ⟨_, _, h, _, h'⟩ => ?_
            · simp [hblock, hput] at h
            · cases h
              cases hput.symm.trans h'
          | none => exact iff_of_true (by simp [hblock, hput]; rfl) ⟨rfl, expected, rfl, hv, hput⟩
      · refine iff_of_false (fun h => ?_) fun h => hpath h.1
        simp [hpath] at h
        cases h

/-- **A pin on the members of the source**: no member is tried twice, what is counted are members
that were up and took the content, and those in the list of the failed did not take it; if they are
fewer than asked for, exactly the members that took it are counted. -/
theorem pinPayload_accounts {cluster : ArchivistCluster} (horder : ∀ c l, (order c l).Perm l)
    (hids : (cluster.members.map fun m => m.node.id).Nodup)
    (h : pinPayload cr env order cluster cid payload replicas = .ok out) :
    let took := Took cr env cid (uploadPathForCidStr cr cid) payload
    out.achievedReplicas = out.pinnedNodes.length ∧ out.achievedReplicas ≤ max replicas 1 ∧
    out.attempted.Nodup ∧
    (∀ id ∈ out.pinnedNodes, ∃ m ∈ cluster.members, m.healthy ∧ m.node.id = id ∧ took m) ∧
    (∀ f ∈ out.failedNodes, ∃ m ∈ cluster.members, m.healthy ∧ m.node.id = f.1 ∧ ¬ took m) ∧
    (out.achievedReplicas < max replicas 1 → ∀ m ∈ cluster.members, m.healthy →
      (m.node.id ∈ out.pinnedNodes ↔ took m)) := by
  have hacc := pinPayloadWith_accounted horder hids h
  dsimp only
  have hpinned : ∀ id ∈ out.pinnedNodes, ∃ m ∈ cluster.members, m.healthy ∧ m.node.id = id ∧
      Took cr env cid (uploadPathForCidStr cr cid) payload m := by
    intro id hid
    obtain ⟨m, hm, hup, hname, hok⟩ := hacc.pinned id hid
    exact ⟨m, hm, hup, hname, pinToMember_eq_ok_iff.1 hok⟩
  have hfailed : ∀ f ∈ out.failedNodes, ∃ m ∈ cluster.members, m.healthy ∧ m.node.id = f.1 ∧
      ¬ Took cr env cid (uploadPathForCidStr cr cid) payload m := by
    intro f hf
    obtain ⟨m, hm, hup, e, hname, herr, -⟩ := hacc.failed f hf
    refine ⟨m, hm, hup, hname, fun htook => ?_⟩
    cases herr.symm.trans (pinToMember_eq_ok_iff.2 htook)
  refine ⟨hacc.achieved, hacc.requested ▸ hacc.bound, hacc.nodup, hpinned, hfailed,
    fun hlt m hm hup => ⟨fun hid => ?_, fun htook => ?_⟩⟩
  · obtain ⟨m', hm', -, hname, htook⟩ := hpinned _ hid
    rwa [← List.inj_on_of_nodup_map hids hm' hm hname]
  · rcases List.mem_append.1 (hacc.tried (hacc.requested ▸ hlt) m hm hup) with hid | hid
    · exact hid
    · obtain ⟨f, hf, hname⟩ := List.mem_map.1 hid
      obtain ⟨m', hm', -, hname', hnot⟩ := hfailed f hf
      rw [List.inj_on_of_nodup_map hids hm' hm (hname'.trans hname)] at hnot
      exact absurd htook hnot

end

end Cluster
