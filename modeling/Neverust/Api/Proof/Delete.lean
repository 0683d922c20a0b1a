import Neverust.Api.Proof.Puts
import Neverust.Api.Proof.Roundtrip

/-!
# What a retrieval reads and a delete removes

`contents`: the CIDs of the dataset that a table has under a CID.

* `asked_retrieve`: a retrieval that succeeds asks for these blocks and no others.
* `delete_ends`: `archivist_delete` removes these blocks and no others, whatever other datasets they
  belong to.
* `eval_removeAll_iff`: so a dataset is still there after the delete of another one exactly if
  they have no CID in common.
-/

namespace Api

open Std (ExtTreeMap)
open Rust Storage Request

section
variable (cr : Crates) (px : Prost)

abbrev Table := ExtTreeMap String Bytes

/-- The default backend. -/
abbrev redb : Backend := RedbStore.backend cr false

/-- A store whose transactions do not fail. -/
def storeOf (t : Table) : (redb cr).State := ({ table := t, failures := [] } : RedbStore)

/-! ## The CIDs of a dataset -/

/-- The CIDs in the block list. -/
def blocksOf (t : Table) (metadataCid : Cid) : List Cid :=
  match RedbStore.lookup cr metadataCid t with
  | .error _ => []
  | .ok metadataBlock =>
    match Tree.deserializeBlockList cr metadataBlock.data with
    | .ok blockCids => blockCids
    | .error _ => []

/-- The CIDs of the blocks and of the block list, if the CID is that of a manifest. -/
def partsOf (t : Table) (cid : Cid) : List Cid :=
  if cid.codec = Manifest.manifestCodec then
    match RedbStore.lookup cr cid t with
    | .error _ => []
    | .ok manifestBlock =>
      match Manifest.fromBlock cr px manifestBlock with
      | .error _ => []
      | .ok manifest =>
        match metadataCidFromManifest cr manifest with
        | none => []
        | some metadataCid => blocksOf cr t metadataCid ++ [metadataCid]
  else []

def contents (t : Table) (cid : Cid) : List Cid := partsOf cr px t cid ++ [cid]

end

/-! ## Reading a table -/

theorem wrapCall_eq_ok {ε α : Type} {f : ε → ApiError} {r : Result ε α} {a : α}
    (h : wrapCall f r = .ok a) : r = .ok a := by
  cases r with
  | ok b => exact congrArg Except.ok (Except.ok.inj h)
  | error e =>
    cases e with
    | err e => cases h
    | panic p => cases h
    | fuel => cases h

section
variable (cr : Crates)

/-- The answers of a store with the table `t`. -/
def tableAns (t : Table) : (r : ApiReq) → ApiAns r
  | .store r => ((redb cr).answer r (storeOf cr t)).1
  | .spawn _ _ _ => ()
  | .next => none

/-- The calls of a retrieval. -/
def IsGet (r : ApiReq) : Prop := ∃ cid, r = .store (.get cid)

/-- A block that the store lacks. -/
def Missed : (r : ApiReq) → ApiAns r → Prop
  | .store (.get _), a => ∃ e, a = .error e
  | _, _ => False

end

section
variable {cr : Crates} {px : Prost} {t : Table}

theorem answer_get (cid : Cid) :
    (redb cr).answer (.get cid) (storeOf cr t) = (RedbStore.lookup cr cid t, storeOf cr t) :=
  @RedbStore.get_of_nil cr cid ⟨t, []⟩ rfl

theorem tableAns_get (cid : Cid) :
    tableAns cr t (.store (.get cid)) = RedbStore.lookup cr cid t :=
  congrArg Prod.fst (answer_get cid)

theorem isGet_getBlock (missing : String) (fail : StorageError → Internal) (cid : Cid) :
    Makes IsGet (getBlock missing fail cid) :=
  Makes.request_bind ⟨cid, rfl⟩ fun _ => Makes.lift _

theorem failsOn_getBlock (missing : String) (fail : StorageError → Internal) (cid : Cid) :
    FailsOn Missed (getBlock missing fail cid) := by
  refine ⟨?_, fun a => FailsOn.lift _⟩
  rintro a ⟨e, rfl⟩
  exact ⟨_, rfl⟩

theorem eval_getBlock {missing : String} {fail : StorageError → Internal} {cid : Cid} {b : Block}
    (h : (getBlock missing fail cid).eval (tableAns cr t) = .ok b) :
    RedbStore.lookup cr cid t = .ok b := by
  change wrap _ (tableAns cr t (.store (.get cid))) = .ok b at h
  rw [tableAns_get] at h
  exact wrap_eq_ok h

theorem asked_getBlock (missing : String) (fail : StorageError → Internal) (cid : Cid) :
    (getBlock missing fail cid).asked (tableAns cr t) = [.store (.get cid)] := rfl

/-! ### A retrieval -/

theorem isGet_retrieve (cid : Cid) (cidStr : String) :
    Makes IsGet (retrieveLocalCidData cr px cid cidStr) := by
  refine Makes.bind (isGet_getBlock _ _ _) fun block => ?_
  split
  · refine Makes.lift_bind fun manifest _ => ?_
    split
    · exact Makes.lift _
    · refine Makes.bind (isGet_getBlock _ _ _) fun metadataBlock => ?_
      refine Makes.lift_bind fun cids _ => ?_
      refine Makes.lift_bind fun expected _ => ?_
      split
      · exact Makes.lift _
      · refine Makes.lift_bind fun _ _ => ?_
        refine Makes.bind (Makes.foldlM cids [] fun _ _ _ => ?_) fun data => ?_
        · exact Makes.bind (isGet_getBlock _ _ _) fun _ => Makes.pure _
        · split
          · exact Makes.lift _
          · exact Makes.pure data
  · exact Makes.pure _

theorem failsOn_retrieve (cid : Cid) (cidStr : String) :
    FailsOn Missed (retrieveLocalCidData cr px cid cidStr) := by
  refine FailsOn.bind (failsOn_getBlock _ _ _) fun block => ?_
  split
  · refine FailsOn.bind (FailsOn.lift _) fun manifest => ?_
    split
    · exact FailsOn.lift _
    · refine FailsOn.bind (failsOn_getBlock _ _ _) fun metadataBlock => ?_
      refine FailsOn.bind (FailsOn.lift _) fun cids => ?_
      refine FailsOn.bind (FailsOn.lift _) fun expected => ?_
      split
      · exact FailsOn.lift _
      · refine FailsOn.bind (FailsOn.lift _) fun _ => ?_
        refine FailsOn.bind (FailsOn.foldlM (fun _ _ => ?_) cids []) fun data => ?_
        · exact FailsOn.bind (failsOn_getBlock _ _ _) fun _ => FailsOn.pure _
        · split
          · exact FailsOn.lift _
          · exact FailsOn.pure data
  · exact FailsOn.pure _

/-- The requests for the blocks. -/
def gets (cids : List Cid) : List ApiReq := cids.map fun c => .store (.get c)

theorem gets_append (cids cids' : List Cid) : gets (cids ++ cids') = gets cids ++ gets cids' :=
  List.map_append

theorem asked_assemble :
    ∀ (cids : List Cid) (data : Bytes) {d : Bytes},
      (cids.foldlM (fun data blockCid => do
        let text := cr.cidToString blockCid
        let b ← getBlock s!"manifest block {text} not found" (.fetchBlock blockCid) blockCid
        return data ++ b.data) data : Handler Bytes).eval (tableAns cr t) = .ok d →
      (cids.foldlM (fun data blockCid => do
        let text := cr.cidToString blockCid
        let b ← getBlock s!"manifest block {text} not found" (.fetchBlock blockCid) blockCid
        return data ++ b.data) data : Handler Bytes).asked (tableAns cr t) = gets cids
  | [], _, _, _ => rfl
  | c :: cids, data, d, h => by
    rw [List.foldlM_cons] at h ⊢
    obtain ⟨data', h1, h2, hasked⟩ := Prog.eval_bind_ok h
    obtain ⟨b, -, -, hasked'⟩ := Prog.eval_bind_ok h1
    rw [hasked, hasked', asked_assemble cids data' h2, asked_getBlock]
    rfl

theorem blocksOf_eq {metadataCid : Cid} {metadataBlock : Block} {cids : List Cid}
    (hget : RedbStore.lookup cr metadataCid t = .ok metadataBlock)
    (hlist : Tree.deserializeBlockList cr metadataBlock.data = .ok cids) :
    blocksOf cr t metadataCid = cids := by
  unfold blocksOf
  rw [hget]
  dsimp only
  rw [hlist]

theorem partsOf_eq {cid metadataCid : Cid} {manifestBlock : Block} {manifest : Manifest}
    (hcodec : cid.codec = Manifest.manifestCodec)
    (hget : RedbStore.lookup cr cid t = .ok manifestBlock)
    (hman : Manifest.fromBlock cr px manifestBlock = .ok manifest)
    (hmeta : metadataCidFromManifest cr manifest = some metadataCid) :
    partsOf cr px t cid = blocksOf cr t metadataCid ++ [metadataCid] := by
  unfold partsOf
  rw [if_pos hcodec, hget]
  dsimp only
  rw [hman]
  dsimp only
  rw [hmeta]

/-- **A retrieval that succeeds asks for the contents of the dataset**, and for nothing else. -/
theorem asked_retrieve {cid : Cid} {cidStr : String} {d : Bytes}
    (h : (retrieveLocalCidData cr px cid cidStr).eval (tableAns cr t) = .ok d) (r : ApiReq) :
    r ∈ (retrieveLocalCidData cr px cid cidStr).asked (tableAns cr t) ↔
      r ∈ gets (contents cr px t cid) := by
  unfold retrieveLocalCidData at h ⊢
  obtain ⟨block, hblock, h, hasked⟩ := Prog.eval_bind_ok h
  rw [hasked, asked_getBlock]
  have hblock := eval_getBlock hblock
  by_cases hcodec : cid.codec = Manifest.manifestCodec
  · rw [if_pos hcodec] at h ⊢
    obtain ⟨manifest, hman, h, hasked⟩ := Prog.eval_bind_ok h
    rw [hasked]
    have hman := wrap_eq_ok hman
    cases hmeta : metadataCidFromManifest cr manifest with
    | none =>
      rw [hmeta] at h
      cases h
    | some metadataCid =>
      rw [hmeta] at h
      dsimp only at h ⊢
      obtain ⟨metadataBlock, hget, h, hasked⟩ := Prog.eval_bind_ok h
      rw [hasked, asked_getBlock]
      obtain ⟨cids, hcids, h, hasked⟩ := Prog.eval_bind_ok h
      rw [hasked]
      obtain ⟨expected, -, h, hasked⟩ := Prog.eval_bind_ok h
      rw [hasked]
      split at h
      · cases h
      · rename_i hcount
        rw [if_neg hcount]
        obtain ⟨capacity, -, h, hasked⟩ := Prog.eval_bind_ok h
        rw [hasked]
        obtain ⟨data, hdata, h, hasked⟩ := Prog.eval_bind_ok h
        rw [hasked, assemble, asked_assemble cids [] hdata]
        split at h
        · cases h
        · rename_i hsize
          rw [if_neg hsize, contents, partsOf_eq hcodec hblock hman hmeta,
            blocksOf_eq (eval_getBlock hget) (wrapCall_eq_ok hcids), gets_append, gets_append]
          change r ∈ gets [cid] ++ ([] ++ (gets [metadataCid] ++ ([] ++ ([] ++ ([] ++ (gets cids ++ []))))))
            ↔ _
          simp only [List.mem_append, List.not_mem_nil, false_or, or_false]
          rw [or_comm, or_comm (a := r ∈ gets [metadataCid])]
  · rw [if_neg hcodec, contents, partsOf, if_neg hcodec]
    rfl

/-! ## Removing from a table -/

variable (cr) in
/-- The table without some CIDs. -/
def removeAll (t : Table) (cids : List Cid) : Table :=
  cids.foldl (fun t c => t.erase (cr.cidToString c)) t

theorem removeAll_append (t : Table) (cids cids' : List Cid) :
    removeAll cr t (cids ++ cids') = removeAll cr (removeAll cr t cids) cids' :=
  List.foldl_append

theorem getElem?_removeAll (c : Cid) :
    ∀ (cids : List Cid) (t : Table), (removeAll cr t cids)[cr.cidToString c]? =
      if c ∈ cids then none else t[cr.cidToString c]?
  | [], t => by
    rw [if_neg List.not_mem_nil]
    rfl
  | c' :: cids, t => by
    rw [removeAll, List.foldl_cons]
    change (removeAll cr (t.erase (cr.cidToString c')) cids)[cr.cidToString c]? = _
    rw [getElem?_removeAll c cids, ExtTreeMap.getElem?_erase]
    by_cases hc : c ∈ cids
    · rw [if_pos hc, if_pos (List.mem_cons_of_mem c' hc)]
    · rw [if_neg hc]
      by_cases hcc : c' = c
      · subst hcc
        rw [if_pos (Std.ReflCmp.compare_self), if_pos List.mem_cons_self]
      · rw [if_neg, if_neg]
        · intro h
          rcases List.mem_cons.1 h with rfl | h
          · exact hcc rfl
          · exact hc h
        · intro h
          exact hcc (cr.cidToString_inj (Std.LawfulEqCmp.eq_of_compare h))

theorem lookup_removeAll_of_mem {c : Cid} {cids : List Cid} (h : c ∈ cids) :
    RedbStore.lookup cr c (removeAll cr t cids) =
      .error (.blockNotFound (cr.cidToString c)) := by
  rw [RedbStore.lookup, getElem?_removeAll, if_pos h]

theorem lookup_removeAll_of_not_mem {c : Cid} {cids : List Cid} (h : c ∉ cids) :
    RedbStore.lookup cr c (removeAll cr t cids) = RedbStore.lookup cr c t := by
  rw [RedbStore.lookup, getElem?_removeAll, if_neg h, RedbStore.lookup]

/-- The two tables answer alike for the CIDs that stay. -/
theorem tableAns_removeAll {cids : List Cid} {c : Cid} (h : c ∉ cids) :
    tableAns cr (removeAll cr t cids) (.store (.get c)) = tableAns cr t (.store (.get c)) := by
  rw [tableAns_get, tableAns_get, lookup_removeAll_of_not_mem h]

theorem missed_removeAll {cids : List Cid} {c : Cid} (h : c ∈ cids) :
    Missed (.store (.get c)) (tableAns cr (removeAll cr t cids) (.store (.get c))) :=
  ⟨_, (tableAns_get c).trans (lookup_removeAll_of_mem h)⟩

/-- **What is left of a dataset**: all of it, if none of its CIDs is removed, and else it cannot be
retrieved. -/
theorem eval_removeAll_iff {cid : Cid} {cidStr : String} {d : Bytes}
    (h : (retrieveLocalCidData cr px cid cidStr).eval (tableAns cr t) = .ok d) (cids : List Cid) :
    (retrieveLocalCidData cr px cid cidStr).eval (tableAns cr (removeAll cr t cids)) = .ok d ↔
      ∀ c ∈ cids, c ∉ contents cr px t cid := by
  constructor
  · intro h' c hc hmem
    have hgot := FailsOn.not_bad (failsOn_retrieve cid cidStr) h'
    -- Whatever the retrieval asks for is still there, so it asks for the same blocks as before.
    have hanswers : ∀ r ∈ (retrieveLocalCidData cr px cid cidStr).asked
        (tableAns cr (removeAll cr t cids)),
        tableAns cr t r = tableAns cr (removeAll cr t cids) r := by
      intro r hr
      obtain ⟨c', rfl⟩ := Prog.of_mem_asked (isGet_retrieve cid cidStr) r hr
      have hstay : c' ∉ cids := fun hc' => hgot _ hr (missed_removeAll hc')
      exact (tableAns_removeAll hstay).symm
    have hsame := Prog.eval_congr hanswers
    have hask : ApiReq.store (.get c) ∈
        (retrieveLocalCidData cr px cid cidStr).asked (tableAns cr t) :=
      (asked_retrieve h _).2 (List.mem_map_of_mem hmem)
    rw [hsame.2] at hask
    exact hgot _ hask (missed_removeAll hc)
  · intro hstay
    rw [← h]
    refine (Prog.eval_congr fun r hr => ?_).1
    obtain ⟨c, hc, rfl⟩ := List.mem_map.1 ((asked_retrieve h r).1 hr)
    exact tableAns_removeAll fun hc' => hstay c hc' hc

end

/-! ## Handlers that are alone -/

section
variable {cr : Crates} {px : Prost} {t : Table} {sched : Schedule}

/-- No task runs, and the store has the table `t`. -/
structure Alone (t : Table) (w : Sys (redb cr)) : Prop where
  store : w.store = storeOf cr t
  inflight : w.inflight = []

theorem alone_start (t : Table) : Alone t (Sys.start (storeOf cr t)) := ⟨rfl, rfl⟩

theorem Alone.idle {w : Sys (redb cr)} (h : Alone t w) : Alone t (w.idle sched) := by
  rw [Sys.idle_of_inflight sched h.inflight]
  exact ⟨h.store, h.inflight⟩

/-- The answer to a call of the store, and the world after it. -/
theorem Alone.answer {w : Sys (redb cr)} (h : Alone t w) (r : StoreReq) :
    (Sys.answer sched (.store r) w).1 = ((redb cr).answer r (storeOf cr t)).1 ∧
      (Sys.answer sched (.store r) w).2.store = ((redb cr).answer r (storeOf cr t)).2 ∧
      (Sys.answer sched (.store r) w).2.inflight = [] := by
  have hi : Alone t (w.idle sched) := h.idle
  refine ⟨?_, ?_, hi.inflight⟩
  · change ((redb cr).answer r (w.idle sched).store).1 = _
    rw [hi.store]
  · change ((redb cr).answer r (w.idle sched).store).2 = _
    rw [hi.store]

theorem answer_delete (cid : Cid) :
    ((redb cr).answer (.delete cid) (storeOf cr t)).2 =
      storeOf cr (t.erase (cr.cidToString cid)) := by
  change (RedbStore.transact (RedbStore.remove cr cid) ⟨t, []⟩).2 = _
  rw [RedbStore.transact_of_nil _ rfl]
  change storeOf cr (RedbStore.remove cr cid t).2 = _
  unfold RedbStore.remove
  split
  · rfl
  · rename_i hnone
    congr 1
    apply ExtTreeMap.ext_getElem?
    intro k
    rw [ExtTreeMap.getElem?_erase]
    split
    · rename_i hk
      rw [← Std.LawfulEqCmp.eq_of_compare hk, hnone]
    · rfl

/-- A block, read by a handler that is alone. -/
theorem Alone.get_ends {α : Type} {w : Sys (redb cr)} (h : Alone t w) {cid : Cid}
    {f : Except StorageError Block → Handler α} {Q : α → Sys (redb cr) → Prop}
    {E : Stop ApiError → Sys (redb cr) → Prop}
    (hf : ∀ w', Alone t w' → Ends (Sys.answer sched) (f (RedbStore.lookup cr cid t)) w' Q E) :
    Ends (Sys.answer sched) (storeCall (.get cid) >>= f) w Q E := by
  obtain ⟨hans, hstore, hinflight⟩ := @Alone.answer cr t sched w h (.get cid)
  rw [answer_get] at hans hstore
  refine Ends.request_bind ?_
  rw [hans]
  exact hf _ ⟨hstore, hinflight⟩

theorem deleteQuietly_ends {w : Sys (redb cr)} (h : Alone t w) (cid : Cid)
    {E : Stop ApiError → Sys (redb cr) → Prop} :
    Ends (Sys.answer sched) (deleteQuietly cid) w
      (fun _ w' => Alone (removeAll cr t [cid]) w') E := by
  obtain ⟨-, hstore, hinflight⟩ := @Alone.answer cr t sched w h (.delete cid)
  rw [answer_delete] at hstore
  exact Ends.request_bind (Ends.pure ⟨hstore, hinflight⟩)

theorem deleteAll_ends {E : Stop ApiError → Sys (redb cr) → Prop} :
    ∀ (cids : List Cid) {t : Table} {w : Sys (redb cr)}, Alone t w →
      Ends (Sys.answer sched) (cids.foldlM (fun _ c => deleteQuietly c) ()) w
        (fun _ w' => Alone (removeAll cr t cids) w') E
  | [], _, _, h => Ends.pure h
  | c :: cids, t, w, h => by
    rw [List.foldlM_cons]
    refine Ends.bind (deleteQuietly_ends h c) fun _ w' h' => ?_
    exact deleteAll_ends cids h'

theorem deleteBlocks_ends {w : Sys (redb cr)} (h : Alone t w) (metadataCid : Cid)
    {E : Stop ApiError → Sys (redb cr) → Prop} :
    Ends (Sys.answer sched) (deleteBlocks cr metadataCid) w
      (fun _ w' => Alone (removeAll cr t (blocksOf cr t metadataCid)) w') E := by
  refine h.get_ends fun w' h' => ?_
  unfold blocksOf
  cases RedbStore.lookup cr metadataCid t with
  | error e => exact Ends.pure h'
  | ok metadataBlock =>
    dsimp only
    cases hlist : Tree.deserializeBlockList cr metadataBlock.data with
    | ok cids => exact deleteAll_ends cids h'
    | error e =>
      obtain ⟨e', rfl⟩ := Tree.deserializeBlockList_error hlist
      exact Ends.pure h'

theorem deleteDataset_ends {w : Sys (redb cr)} (h : Alone t w) {cid : Cid}
    (hcodec : cid.codec = Manifest.manifestCodec) {E : Stop ApiError → Sys (redb cr) → Prop} :
    Ends (Sys.answer sched) (deleteDataset cr px cid) w
      (fun _ w' => Alone (removeAll cr t (partsOf cr px t cid)) w') E := by
  refine h.get_ends fun w' h' => ?_
  unfold partsOf
  rw [if_pos hcodec]
  cases RedbStore.lookup cr cid t with
  | error e => exact Ends.pure h'
  | ok manifestBlock =>
    dsimp only
    cases Manifest.fromBlock cr px manifestBlock with
    | error e => exact Ends.pure h'
    | ok manifest =>
      dsimp only
      cases metadataCidFromManifest cr manifest with
      | none => exact Ends.pure h'
      | some metadataCid =>
        refine Ends.bind (deleteBlocks_ends h' metadataCid) fun _ w'' h'' => ?_
        dsimp only
        rw [removeAll_append]
        exact deleteQuietly_ends h'' metadataCid

/-- **A delete removes the contents of the dataset**, and nothing else. -/
theorem delete_ends (t : Table) (cid : Cid) {E : Stop ApiError → Sys (redb cr) → Prop} :
    Ends (Sys.answer sched) (archivistDelete cr px cid) (Sys.start (storeOf cr t))
      (fun _ w => Alone (removeAll cr t (contents cr px t cid)) w) E := by
  have h : Alone t (Sys.start (storeOf cr t)) := alone_start t
  unfold archivistDelete contents
  rw [removeAll_append]
  by_cases hcodec : cid.codec = Manifest.manifestCodec
  · rw [if_pos hcodec]
    exact Ends.bind (deleteDataset_ends h hcodec) fun _ w' h' => deleteQuietly_ends h' cid
  · rw [if_neg hcodec, partsOf, if_neg hcodec]
    exact deleteQuietly_ends h cid

variable (sched px) in
/-- The store after a delete. -/
theorem store_delete (t : Table) (cid : Cid) :
    (Handler.run (B := redb cr) (archivistDelete cr px cid) sched (storeOf cr t)).2.store =
      storeOf cr (removeAll cr t (contents cr px t cid)) := by
  have h := @delete_ends cr px sched t cid fun _ w => Alone (removeAll cr t (contents cr px t cid)) w
  unfold Ends at h
  unfold Handler.run
  cases hr : (Prog.run (Sys.answer sched) (archivistDelete cr px cid)
      (Sys.start (storeOf cr t))).1 with
  | ok u =>
    rw [hr] at h
    exact h.store
  | error e =>
    rw [hr] at h
    exact h.store

variable (sched px) in
/-- A retrieval gives what the table has. -/
theorem run_retrieve (t : Table) (cid : Cid) (cidStr : String) :
    (Handler.run (B := redb cr) (retrieveLocalCidData cr px cid cidStr) sched (storeOf cr t)).1 =
      (retrieveLocalCidData cr px cid cidStr).eval (tableAns cr t) := by
  refine Prog.run_eq_eval (I := Alone t) (fun r hr w hw => ?_) (isGet_retrieve cid cidStr)
    (alone_start t)
  obtain ⟨c, rfl⟩ := hr
  obtain ⟨hans, hstore, hinflight⟩ := @Alone.answer cr t sched w hw (.get c)
  rw [answer_get] at hstore
  exact ⟨hans, hstore, hinflight⟩

end

end Api
