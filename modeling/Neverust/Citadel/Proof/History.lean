import Neverust.Citadel.Proof.Log

/-!
# Histories

The operations that a node has applied, in the order in which it did. The graph depends only on
which operations they are, because their timestamps are different (`History.graph_congr`); what a
node says about the trust in an origin is what the last of them about it says
(`History.mem_trusted_iff`).
-/

namespace Citadel

open Std (ExtTreeMap ExtTreeSet)
open Rust DefederationNode

/-- What the last operation about an origin says. -/
def lastTrust (hist : List LensOp) (o : NodeId) : Option Bool :=
  hist.foldl (fun cur op =>
    match op.trustUpdate with
    | some (subject, trusted) => if subject = o then some trusted else cur
    | none => cur) none

/-- `hist` are the operations that `n` has applied, since it trusted `trusted`. -/
structure History (trusted : ExtTreeSet NodeId) (hist : List LensOp) (n : DefederationNode) :
    Prop where
  follows : n.graph.follows = Lww.updateAll LwwEntry.ts ∅ (hist.flatMap LensOp.followUpdate)
  content : n.graph.content = Lww.updateAll LwwEntry.ts ∅ (hist.flatMap LensOp.contentUpdate)
  trust : ∀ o, o ∈ n.trustedOrigins ↔
    lastTrust hist o = some true ∨ lastTrust hist o = none ∧ o ∈ trusted
  logs : ∀ o, ofOrigin o hist = n.logFor o

variable {trusted : ExtTreeSet NodeId} {hist : List LensOp} {n : DefederationNode} {op : LensOp}

theorem history_new (nodeId : NodeId) (hostId : UInt8) (localSiteId : SiteId)
    (trusted : ExtTreeSet NodeId) (cfg : DefederationGuardConfig) :
    History (trusted.insert nodeId) [] (.new nodeId hostId localSiteId trusted cfg) where
  follows := rfl
  content := rfl
  trust o := by simp [lastTrust, DefederationNode.new]
  logs o := by simp [ofOrigin, logFor, DefederationNode.new]

theorem lastTrust_append (hist : List LensOp) (op : LensOp) (o : NodeId) :
    lastTrust (hist ++ [op]) o =
      match op.trustUpdate with
      | some (subject, trusted) => if subject = o then some trusted else lastTrust hist o
      | none => lastTrust hist o := by
  simp [lastTrust]

/-- The last word on an origin is the last word of one of the origins that have one. -/
theorem exists_lastTrust {hist : List LensOp} {o : NodeId} {b : Bool}
    (h : lastTrust hist o = some b) : ∃ a, lastTrust (ofOrigin a hist) o = some b := by
  induction hist using List.reverseRecOn with
  | nil => simp [lastTrust] at h
  | append_singleton hist op ih =>
    have hof : ∀ a, ofOrigin a (hist ++ [op]) =
        if op.origin = a then ofOrigin a hist ++ [op] else ofOrigin a hist := by
      intro a
      by_cases ha : op.origin = a
      · simp [ofOrigin, ha]
      · simp [ofOrigin, ha]
    rw [lastTrust_append] at h
    by_cases hop : ∃ flag, op.trustUpdate = some (o, flag)
    · obtain ⟨flag, hflag⟩ := hop
      refine ⟨op.origin, ?_⟩
      rw [hof, if_pos rfl, lastTrust_append, hflag]
      simpa [hflag] using h
    · have hold : ∀ l, lastTrust (l ++ [op]) o = lastTrust l o := by
        intro l
        rw [lastTrust_append]
        rcases hu : op.trustUpdate with _ | ⟨subject, flag⟩
        · rfl
        · have hs : ¬ subject = o := fun hs => hop ⟨flag, by rw [hu, hs]⟩
          simp [hs]
      rw [← lastTrust_append, hold] at h
      obtain ⟨a, ha⟩ := ih h
      refine ⟨a, ?_⟩
      rw [hof]
      split
      · rw [hold]
        exact ha
      · exact ha

/-- If nothing was said about an origin, none of the origins said anything. -/
theorem lastTrust_ofOrigin_none {hist : List LensOp} {o : NodeId} (h : lastTrust hist o = none)
    (a : NodeId) : lastTrust (ofOrigin a hist) o = none := by
  induction hist using List.reverseRecOn with
  | nil => rfl
  | append_singleton hist op ih =>
    rw [lastTrust_append] at h
    have hold : lastTrust hist o = none ∧ ∀ l, lastTrust (l ++ [op]) o = lastTrust l o := by
      rcases hu : op.trustUpdate with _ | ⟨subject, flag⟩
      · rw [hu] at h
        exact ⟨h, fun l => by rw [lastTrust_append, hu]⟩
      · rw [hu] at h
        by_cases hs : subject = o
        · simp [hs] at h
        · simp only [hs, if_false] at h
          exact ⟨h, fun l => by rw [lastTrust_append, hu]; simp [hs]⟩
    by_cases ha : op.origin = a
    · have hof : ofOrigin a (hist ++ [op]) = ofOrigin a hist ++ [op] := by simp [ofOrigin, ha]
      rw [hof, hold.2]
      exact ih hold.1
    · have hof : ofOrigin a (hist ++ [op]) = ofOrigin a hist := by simp [ofOrigin, ha]
      rw [hof]
      exact ih hold.1

/-- An operation that is logged continues the history. -/
theorem History.apply (h : History trusted hist n)
    (hpush : (n.logFor op.origin).length = op.counter.toNat - 1) :
    History trusted (hist ++ [op]) (n.applyOrderedOp op) where
  follows := by
    rw [follows_applyOrderedOp, h.follows]
    simp [Lww.updateAll]
  content := by
    rw [content_applyOrderedOp, h.content]
    simp [Lww.updateAll]
  trust o := by
    rw [mem_trusted_applyOrderedOp, h.trust o, lastTrust_append]
    rcases op.trustUpdate with _ | ⟨subject, flag⟩
    · simp
    · by_cases hs : subject = o
      · cases flag <;> simp [hs]
      · simp [hs]
  logs o := by
    rw [logFor_applyOrderedOp]
    by_cases ho : op.origin = o
    · subst ho
      rw [if_pos ⟨rfl, hpush⟩, ← h.logs]
      simp [ofOrigin]
    · rw [if_neg (fun hc => ho hc.1), ← h.logs]
      simp [ofOrigin, ho]

theorem History.mem_iff (h : History trusted hist n) : op ∈ hist ↔ op ∈ n.logFor op.origin := by
  rw [← h.logs]
  simp [ofOrigin]

/-- Two operations of a history with the same timestamp are the same. -/
theorem History.eq_of_ts (h : History trusted hist n) (hlogs : ∀ o, IsLog o (n.logFor o))
    {op' : LensOp} (hop : op ∈ hist) (hop' : op' ∈ hist) (hts : op.ts = op'.ts) : op = op' := by
  have ho : op.origin = op'.origin := congrArg Lamport.origin hts
  have hc : op.counter = op'.counter := congrArg Lamport.counter hts
  rw [h.mem_iff] at hop hop'
  rw [← ho] at hop'
  obtain ⟨i, hi⟩ := List.mem_iff_getElem?.1 hop
  obtain ⟨j, hj⟩ := List.mem_iff_getElem?.1 hop'
  have hi' := (hlogs _ i op hi).2
  have hj' := (hlogs _ j op' hj).2
  have hij : i = j := by
    rw [hc] at hi'
    omega
  subst hij
  rw [hi] at hj
  exact Option.some.inj hj

/-- No two updates of a key have the same timestamp. -/
theorem History.stamped (h : History trusted hist n) (hlogs : ∀ o, IsLog o (n.logFor o))
    {upd : LensOp → List ((UInt64 × UInt64) × LwwEntry)}
    (hts : ∀ op, ∀ u ∈ upd op, u.2.ts = op.ts)
    (hone : ∀ op, ∀ u ∈ upd op, ∀ v ∈ upd op, u = v) (k : UInt64 × UInt64) :
    Lww.Stamped LwwEntry.ts (Lww.updatesOf (hist.flatMap upd) k) := by
  intro a ha b hb heq
  rw [Lww.mem_updatesOf, List.mem_flatMap] at ha hb
  obtain ⟨op, hop, ha⟩ := ha
  obtain ⟨op', hop', hb⟩ := hb
  have hsame : op = op' := by
    refine h.eq_of_ts hlogs hop hop' ?_
    rw [← hts op _ ha, ← hts op' _ hb]
    exact heq
  subst hsame
  exact congrArg Prod.snd (hone op _ ha _ hb)

/-- **The graph depends only on the logs.** -/
theorem History.graph_congr {trusted' : ExtTreeSet NodeId} {hist' : List LensOp}
    {n' : DefederationNode} (h : History trusted hist n) (h' : History trusted' hist' n')
    (hlogs : ∀ o, IsLog o (n.logFor o)) (heq : ∀ o, n.logFor o = n'.logFor o) :
    n.graph = n'.graph := by
  have hmem : ∀ op, op ∈ hist ↔ op ∈ hist' := fun op => by rw [h.mem_iff, h'.mem_iff, heq]
  have hone : ∀ op : LensOp, (∀ u ∈ op.followUpdate, ∀ v ∈ op.followUpdate, u = v) ∧
      ∀ u ∈ op.contentUpdate, ∀ v ∈ op.contentUpdate, u = v := by
    intro op
    unfold LensOp.followUpdate LensOp.contentUpdate
    cases op.kind <;> simp
  have hf : n.graph.follows = n'.graph.follows := by
    rw [h.follows, h'.follows]
    refine Lww.updateAll_congr (h.stamped hlogs (fun op u => LensOp.ts_followUpdate)
      fun op => (hone op).1) fun u => ?_
    simp [List.mem_flatMap, hmem]
  have hc : n.graph.content = n'.graph.content := by
    rw [h.content, h'.content]
    refine Lww.updateAll_congr (h.stamped hlogs (fun op u => LensOp.ts_contentUpdate)
      fun op => (hone op).2) fun u => ?_
    simp [List.mem_flatMap, hmem]
  cases hg : n.graph with
  | mk f c =>
    cases hg' : n'.graph with
    | mk f' c' =>
      rw [hg, hg'] at hf hc
      cases hf
      cases hc
      rfl

/-- What a node says about an origin, if those who spoke about it agree. -/
theorem History.mem_trusted_iff (h : History trusted hist n) {o : NodeId} {P : Prop}
    (hstart : o ∈ trusted ↔ P) {word : Option Bool}
    (hword : ∀ a b, lastTrust (n.logFor a) o = some b → word = some b)
    (hsaid : word ≠ none → ∃ a, lastTrust (n.logFor a) o ≠ none) :
    o ∈ n.trustedOrigins ↔ word = some true ∨ word = none ∧ P := by
  rw [h.trust o, hstart]
  cases hl : lastTrust hist o with
  | none =>
    have hnone : word = none := by
      by_contra hw
      obtain ⟨a, ha⟩ := hsaid hw
      rw [← h.logs] at ha
      exact ha (lastTrust_ofOrigin_none hl a)
    rw [hnone]
  | some b =>
    obtain ⟨a, ha⟩ := exists_lastTrust hl
    rw [h.logs] at ha
    rw [hword a b ha]

end Citadel
