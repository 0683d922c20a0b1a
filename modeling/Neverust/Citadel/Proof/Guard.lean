import Neverust.Citadel.Proof.Log

/-!
# The guard

* `trust_by_trust_ops`: a batch changes the trust in an origin only through an operation about it,
  which anybody may send (`stranger_gains_trust`).
* `caps_hold`: if the calls with a round number come one after the other, the guard lets through
  no more operations of an origin, and no more new origins of a host, than its limits say. The
  counters are cleared with every change of the round number, so they do not hold if calls with
  another number come in between (`caps_exceeded`).
-/

namespace Citadel

open Std (ExtTreeMap ExtTreeSet)
open Rust

/-! ## Trust -/

namespace DefederationNode

variable {cr : Crates} {n : DefederationNode} {op : LensOp}

/-- The operation carries the work that the guard asks of a stranger or of a trusted origin. -/
def HasWork (cr : Crates) (cfg : DefederationGuardConfig) (op : LensOp) : Prop :=
  op.validPow cr cfg.basePowBits ∨ op.validPow cr cfg.trustedPowBits

/-- The operation is in the batch or in a queue of the node. -/
def Offered (n : DefederationNode) (ops : List LensOp) (op : LensOp) : Prop :=
  op ∈ ops ∨ ∃ (o : NodeId) (c : UInt64), (n.pendingFor o)[c]? = some op

/-- What passes the guard carries work. -/
theorem hasWork_of_checkGuards (h : n.checkGuards cr op = none) : HasWork cr n.guardCfg op := by
  unfold checkGuards at h
  split at h
  · cases h
  · split at h
    · cases h
    · split at h
      · cases h
      · rename_i hpow
        have hpow : op.validPow cr (n.requiredPowBitsFor op.origin) = true := by simpa using hpow
        unfold requiredPowBitsFor at hpow
        split at hpow
        · exact .inr hpow
        · exact .inl hpow

/-- The trust in an origin is as before, or as an operation of `P` says. -/
def Trusts (P : LensOp → Prop) (n n' : DefederationNode) : Prop :=
  ∀ o, (o ∈ n'.trustedOrigins ↔ o ∈ n.trustedOrigins) ∨
    ∃ op trusted, P op ∧ op.trustUpdate = some (o, trusted) ∧ (o ∈ n'.trustedOrigins ↔ trusted = true)

theorem Trusts.apply {P : LensOp → Prop} {n' : DefederationNode} (h : Trusts P n n') (hop : P op) :
    Trusts P n (n'.applyOrderedOp op) := by
  intro o
  have hmem := mem_trusted_applyOrderedOp n' op o
  by_cases habout : ∃ trusted, op.trustUpdate = some (o, trusted)
  · obtain ⟨trusted, htrust⟩ := habout
    refine .inr ⟨op, trusted, hop, htrust, ?_⟩
    rw [hmem, htrust]
    cases trusted <;> simp
  · have hsame : o ∈ (n'.applyOrderedOp op).trustedOrigins ↔ o ∈ n'.trustedOrigins := by
      rw [hmem]
      constructor
      · rintro (htrue | hold)
        · exact absurd ⟨true, htrue⟩ habout
        · exact hold.1
      · exact fun hold => .inr ⟨hold, fun hfalse => habout ⟨false, hfalse⟩⟩
    rcases h o with hold | ⟨op', trusted, hop', htrust, hsays⟩
    · exact .inl (hsame.trans hold)
    · exact .inr ⟨op', trusted, hop', htrust, hsame.trans hsays⟩

end DefederationNode

open DefederationNode

/-- The operations in the queues of a reachable state are in order and carry work. -/
theorem Reachable.pendingOk {cr : Crates} {n : DefederationNode} (h : Reachable cr n) :
    n.PendingOk (HasWork cr n.guardCfg) := by
  obtain ⟨nodeId, hostId, localSiteId, trusted, cfg, calls, hrun⟩ := h
  obtain ⟨hcfg, hpend⟩ := hrun.induction (P := HasWork cr cfg) (I := fun n => n.guardCfg = cfg)
    (fun _ _ _ _ _ h => h) (fun n op h hpass => h ▸ hasWork_of_checkGuards hpass)
    (fun n op h _ _ => (guardCfg_applyKind n op).trans h)
    (fun n e n' op h _ he => by
      rw [emit_eq] at he
      rw [(emitLocal_cases he).1]
      exact (guardCfg_applyKind _ op).trans h)
    ⟨rfl, PendingOk.new _ nodeId hostId localSiteId trusted cfg⟩
  rw [hcfg]
  exact hpend

/-- **Trust changes only by trust operations.** In every reachable state a batch leaves the trust in
an origin as it was, or as an operation about that origin says, which is in the batch or was queued
and carries proof of work; who sent it plays no part. -/
theorem trust_by_trust_ops (cr : Crates) {n : DefederationNode} (h : Reachable cr n)
    (round : UInt64) (ops : List LensOp) (o : NodeId) :
    (o ∈ (n.ingestBatch cr round ops).1.trustedOrigins ↔ o ∈ n.trustedOrigins) ∨
    ∃ op trusted, n.Offered ops op ∧ HasWork cr n.guardCfg op ∧ op.kind = .trustOrigin o trusted ∧
      (o ∈ (n.ingestBatch cr round ops).1.trustedOrigins ↔ trusted = true) := by
  have hpend : n.PendingOk fun op => n.Offered ops op ∧ HasWork cr n.guardCfg op := by
    intro origin counter op hop
    obtain ⟨ho, hc, hwork⟩ := h.pendingOk origin counter op hop
    exact ⟨ho, hc, .inr ⟨origin, counter, hop⟩, hwork⟩
  have hall := (ingestBatch_induction
    (I := fun m => m.guardCfg = n.guardCfg ∧
      Trusts (fun op => n.Offered ops op ∧ HasWork cr n.guardCfg op) n m)
    (fun _ _ _ _ _ hm => hm)
    (fun m op hm hop _ => ⟨(guardCfg_applyKind m op).trans hm.1, hm.2.apply hop⟩) cr round
    (fun op hop m hm hpass => ⟨.inl hop, hm.1 ▸ hasWork_of_checkGuards hpass⟩) hpend
    ⟨rfl, fun _ => .inl Iff.rfl⟩).1.2
  rcases hall o with hsame | ⟨op, trusted, hop, htrust, hsays⟩
  · exact .inl hsame
  · refine .inr ⟨op, trusted, hop.1, hop.2, ?_, hsays⟩
    unfold LensOp.trustUpdate at htrust
    cases hk : op.kind with
    | follow a b enabled => simp [hk] at htrust
    | content a b present => simp [hk] at htrust
    | trustOrigin subject flag =>
      simp [hk] at htrust
      rw [htrust.1, htrust.2]

/-- An operation with which an origin asks for trust in itself. -/
def selfTrust : LensOp := ⟨2, 1, 0, .trustOrigin 2 true, 0⟩

/-- An origin that nobody trusts makes a node trust it. -/
theorem stranger_gains_trust :
    Reachable .standard (.new 1 0 7 ∅ freeGuard) ∧
    (∀ op, (DefederationNode.new 1 0 7 ∅ freeGuard).Offered [selfTrust] op →
      op.origin ∉ (DefederationNode.new 1 0 7 ∅ freeGuard).trustedOrigins) ∧
    ((DefederationNode.new 1 0 7 ∅ freeGuard).ingestBatch .standard 1 [selfTrust]).1.trustedOrigins ≠
      (DefederationNode.new 1 0 7 ∅ freeGuard).trustedOrigins := by
  refine ⟨⟨1, 0, 7, ∅, freeGuard, [], .nil _⟩, ?_, by decide +kernel⟩
  rintro op (hop | ⟨o, c, hop⟩)
  · rw [List.mem_singleton.1 hop]
    decide +kernel
  · simp [pendingFor, DefederationNode.new] at hop

theorem trust_by_trust_ops_sample : Reachable .standard sampleNode ∧
    (2 ∈ (sampleNode.ingestBatch .standard 1 [⟨2, 2, 0, .trustOrigin 3 true, 0⟩]).1.trustedOrigins ↔
      2 ∈ sampleNode.trustedOrigins) := by
  have hreach : Reachable .standard sampleNode := ⟨1, 0, 7, ∅, freeGuard,
    [.ingest 1 [⟨2, 1, 0, .content 5 0 true, 0⟩]], .cons trivial (.ingest ..) (.nil _)⟩
  refine ⟨hreach, ?_⟩
  rcases trust_by_trust_ops .standard hreach 1 [⟨2, 2, 0, .trustOrigin 3 true, 0⟩] 2 with
    hsame | ⟨op, trusted, hop, -, hkind, -⟩
  · exact hsame
  · rcases hop with hop | ⟨o, c, hop⟩
    · rw [List.mem_singleton.1 hop] at hkind
      cases hkind
    · have hpending : sampleNode.pending = ∅ := by decide +kernel
      rw [pendingFor, hpending] at hop
      simp at hop

/-! ## Limits -/

namespace DefederationNode

variable {cr : Crates} {n : DefederationNode} {op : LensOp}

/-- The operations of a batch that pass the guard, each with whether its origin was new. -/
def passed (cr : Crates) : DefederationNode → List LensOp → List (LensOp × Bool)
  | _, [] => []
  | n, op :: ops =>
    (if n.checkGuards cr op = none then [(op, n.isNewcomer op)] else []) ++
      passed cr (n.ingestOp cr op).1 ops

/-- The operations that pass the guard in the calls with the round number `r`. -/
def passedIn (cr : Crates) (r : UInt64) : DefederationNode → List Call → List (LensOp × Bool)
  | _, [] => []
  | n, .emit e :: cs =>
    match n.emit cr e with
    | some (n', _) => passedIn cr r n' cs
    | none => []
  | n, .ingest round ops :: cs =>
    (if round = r then passed cr (n.rollTo round) ops else []) ++
      passedIn cr r (n.ingestBatch cr round ops).1 cs

/-- How many of the operations are of an origin. -/
def countOf (o : NodeId) (l : List (LensOp × Bool)) : Nat :=
  (l.filter fun x => x.1.origin = o).length

/-- How many of the operations brought a new origin of a host. -/
def newOf (host : UInt8) (l : List (LensOp × Bool)) : Nat :=
  (l.filter fun x => x.2 ∧ x.1.hostId = host).length

/-- The counters of the guard. -/
def opsOf (n : DefederationNode) (o : NodeId) : Nat :=
  (n.guardState.perOriginCounts.getD o 0).toNat

def originsOf (n : DefederationNode) (host : UInt8) : Nat :=
  (n.guardState.perHostNewOrigins.getD host 0).toNat

/-- The counters are within the limits. -/
structure Capped (n : DefederationNode) : Prop where
  ops : ∀ o, n.opsOf o ≤ n.guardCfg.maxOpsPerOriginPerRound.toNat
  origins : ∀ host, n.originsOf host ≤ n.guardCfg.maxNewOriginsPerHostPerRound.toNat

theorem guardState_drain (k : Nat) (n : DefederationNode) (o : NodeId) :
    (drain k n o).guardState = n.guardState ∧ (drain k n o).guardCfg = n.guardCfg := by
  induction k generalizing n with
  | zero => exact ⟨rfl, rfl⟩
  | succ k ih =>
    rw [drain]
    dsimp only
    split
    · exact ⟨rfl, rfl⟩
    · rename_i nextOp _
      obtain ⟨h₁, h₂⟩ := ih _
      rw [h₁, h₂]
      exact ⟨guardState_applyKind _ nextOp, guardCfg_applyKind _ nextOp⟩

theorem guardState_tryApply (n : DefederationNode) (op : LensOp) :
    (n.tryApplyWithReordering op).guardState = n.guardState ∧
      (n.tryApplyWithReordering op).guardCfg = n.guardCfg := by
  unfold tryApplyWithReordering
  dsimp only
  split
  · exact ⟨rfl, rfl⟩
  · split
    · split
      · exact ⟨rfl, rfl⟩
      · exact ⟨rfl, rfl⟩
    · obtain ⟨h₁, h₂⟩ := guardState_drain _ _ op.origin
      rw [h₁, h₂]
      exact ⟨guardState_applyKind n op, guardCfg_applyKind n op⟩

/-- What one operation of a batch does to the records of the guard. -/
structure Counted (cr : Crates) (n : DefederationNode) (op : LensOp) (n' : DefederationNode) :
    Prop where
  cfg : n'.guardCfg = n.guardCfg
  round : n'.guardState.round = n.guardState.round
  ops : ∀ o, n'.guardState.perOriginCounts.getD o 0 =
    if n.checkGuards cr op = none ∧ op.origin = o then n.guardState.perOriginCounts.getD o 0 + 1
    else n.guardState.perOriginCounts.getD o 0
  origins : ∀ host, n'.guardState.perHostNewOrigins.getD host 0 =
    if n.checkGuards cr op = none ∧ n.isNewcomer op ∧ op.hostId = host then
      n.guardState.perHostNewOrigins.getD host 0 + 1
    else n.guardState.perHostNewOrigins.getD host 0

theorem seeHost_fields (n : DefederationNode) (op : LensOp) :
    (n.seeHost op).guardCfg = n.guardCfg ∧ (n.seeHost op).guardState.round = n.guardState.round ∧
    (n.seeHost op).isNewcomer op = n.isNewcomer op ∧
    (n.seeHost op).guardState.perOriginCounts = n.guardState.perOriginCounts ∧
    ∀ host, (n.seeHost op).guardState.perHostNewOrigins.getD host 0 =
      n.guardState.perHostNewOrigins.getD host 0 := by
  unfold seeHost
  split
  · refine ⟨rfl, rfl, rfl, rfl, fun host => ?_⟩
    simp only [ExtTreeMap.getD_insertIfNew]
    split
    · rename_i hnew
      have hhost : op.hostId = host := Std.LawfulEqCmp.eq_of_compare hnew.1
      rw [← hhost, ExtTreeMap.getD_eq_fallback hnew.2]
    · rfl
  · exact ⟨rfl, rfl, rfl, rfl, fun _ => rfl⟩

theorem ingestOp_counted (cr : Crates) (n : DefederationNode) (op : LensOp) :
    Counted cr n op (n.ingestOp cr op).1 := by
  obtain ⟨hcfg, hround, hnew, hops, hhosts⟩ := seeHost_fields n op
  cases hpass : n.checkGuards cr op with
  | some refusal =>
    have hstate : (n.ingestOp cr op).1.guardState = (n.seeHost op).guardState ∧
        (n.ingestOp cr op).1.guardCfg = (n.seeHost op).guardCfg := by
      simp only [ingestOp, hpass]
      cases refusal <;> exact ⟨rfl, rfl⟩
    refine ⟨hstate.2.trans hcfg, by rw [hstate.1]; exact hround, fun o => ?_, fun host => ?_⟩
    · simp [hstate.1, hops, hpass]
    · simp [hstate.1, hhosts, hpass]
  | none =>
    have hstate := guardState_tryApply ((n.seeHost op).enroll op) op
    have hop : (n.ingestOp cr op).1 = ((n.seeHost op).enroll op).tryApplyWithReordering op := by
      simp only [ingestOp, hpass]
    rw [← hop] at hstate
    refine ⟨hstate.2.trans hcfg, by rw [hstate.1]; exact hround, fun o => ?_, fun host => ?_⟩
    · rw [hstate.1]
      simp only [enroll, hops, ExtTreeMap.getD_insert, hpass, true_and]
      by_cases ho : op.origin = o
      · simp [ho]
      · simp [ho]
    · rw [hstate.1]
      simp only [enroll, hnew, hpass, true_and]
      by_cases hn : n.isNewcomer op
      · simp only [hn, if_true, ExtTreeMap.getD_insert, hhosts]
        by_cases hh : op.hostId = host
        · simp [hh]
        · simp [hh]
      · simp [hn, hhosts]

/-- What passes the guard is below the limits. -/
theorem lt_of_checkGuards (h : n.checkGuards cr op = none) :
    n.opsOf op.origin < n.guardCfg.maxOpsPerOriginPerRound.toNat ∧
    (n.isNewcomer op → n.originsOf op.hostId < n.guardCfg.maxNewOriginsPerHostPerRound.toNat) := by
  unfold checkGuards at h
  split at h
  · cases h
  · rename_i hsybil
    split at h
    · cases h
    · rename_i hrate
      refine ⟨?_, fun hnew => ?_⟩
      · exact UInt32.lt_iff_toNat_lt.1 (UInt32.not_le.1 hrate)
      · exact UInt32.lt_iff_toNat_lt.1 (UInt32.not_le.1 fun hge => hsybil ⟨hnew, hge⟩)

theorem toNat_add_one {a b : UInt32} (h : a.toNat < b.toNat) : (a + 1).toNat = a.toNat + 1 := by
  have := b.toNat_lt
  rw [UInt32.toNat_add]
  simp
  omega

theorem Counted.opsOf_eq {n' : DefederationNode} (h : Counted cr n op n') (o : NodeId) :
    n'.opsOf o = n.opsOf o + if n.checkGuards cr op = none ∧ op.origin = o then 1 else 0 := by
  rw [opsOf, h.ops o]
  split
  · rename_i hpass
    have hlt := (lt_of_checkGuards hpass.1).1
    rw [hpass.2] at hlt
    exact toNat_add_one hlt
  · rfl

theorem Counted.originsOf_eq {n' : DefederationNode} (h : Counted cr n op n') (host : UInt8) :
    n'.originsOf host = n.originsOf host +
      if n.checkGuards cr op = none ∧ n.isNewcomer op ∧ op.hostId = host then 1 else 0 := by
  rw [originsOf, h.origins host]
  split
  · rename_i hpass
    have hlt := (lt_of_checkGuards hpass.1).2 hpass.2.1
    rw [hpass.2.2] at hlt
    exact toNat_add_one hlt
  · rfl

theorem Counted.capped {n' : DefederationNode} (h : Counted cr n op n') (hn : n.Capped) :
    n'.Capped where
  ops o := by
    have ho := hn.ops o
    rw [h.opsOf_eq, h.cfg]
    split
    · rename_i hpass
      have hlt := (lt_of_checkGuards hpass.1).1
      rw [hpass.2] at hlt
      exact hlt
    · exact ho
  origins host := by
    have hh := hn.origins host
    rw [h.originsOf_eq, h.cfg]
    split
    · rename_i hpass
      have hlt := (lt_of_checkGuards hpass.1).2 hpass.2.1
      rw [hpass.2.2] at hlt
      exact hlt
    · exact hh

/-- A batch counts what it lets through. -/
theorem ingestOps_counted (cr : Crates) (ops : List LensOp) (hn : n.Capped) :
    (n.ingestOps cr ops).1.Capped ∧ (n.ingestOps cr ops).1.guardCfg = n.guardCfg ∧
    (n.ingestOps cr ops).1.guardState.round = n.guardState.round ∧
    (∀ o, (n.ingestOps cr ops).1.opsOf o = countOf o (passed cr n ops) + n.opsOf o) ∧
    ∀ host, (n.ingestOps cr ops).1.originsOf host =
      newOf host (passed cr n ops) + n.originsOf host := by
  induction ops generalizing n with
  | nil => exact ⟨hn, rfl, rfl, fun _ => (Nat.zero_add _).symm, fun _ => (Nat.zero_add _).symm⟩
  | cons op ops ih =>
    have hstep := ingestOp_counted cr n op
    obtain ⟨hcap, hcfg, hround, hops, horigins⟩ := ih (hstep.capped hn)
    refine ⟨hcap, hcfg.trans hstep.cfg, hround.trans hstep.round, fun o => ?_, fun host => ?_⟩
    · have heq := hops o
      rw [hstep.opsOf_eq o] at heq
      refine heq.trans ?_
      rw [passed]
      by_cases hpass : n.checkGuards cr op = none
      · by_cases ho : op.origin = o
        · simp [hpass, ho, countOf]
          omega
        · simp [hpass, ho, countOf]
      · simp [hpass, countOf]
    · have heq := horigins host
      rw [hstep.originsOf_eq host] at heq
      refine heq.trans ?_
      rw [passed]
      by_cases hpass : n.checkGuards cr op = none
      · by_cases hnew : n.isNewcomer op = true ∧ op.hostId = host
        · simp [hpass, hnew, newOf]
          omega
        · simp [hpass, hnew, newOf]
      · simp [hpass, newOf]

end DefederationNode

/-! ## Whole runs -/

/-- The round numbers of the calls. -/
def rounds (cs : List Call) : List UInt64 :=
  cs.filterMap fun c =>
    match c with
    | .emit _ => none
    | .ingest round _ => some round

/-- The calls with the round number `r` come one after the other, emits apart. -/
def Unbroken (r : UInt64) (cs : List Call) : Prop :=
  ∃ before k later, rounds cs = before ++ List.replicate k r ++ later ∧ r ∉ before ∧ r ∉ later

section
variable {cr : Crates} {r : UInt64} {n : DefederationNode}

theorem passedIn_of_not_mem (cs : List Call) (n : DefederationNode) (h : r ∉ rounds cs) :
    passedIn cr r n cs = [] := by
  induction cs generalizing n with
  | nil => rfl
  | cons c cs ih =>
    cases c with
    | emit e =>
      rw [passedIn]
      split
      · exact ih _ h
      · rfl
    | ingest round ops =>
      have hne : ¬ round = r := fun heq => h (by simp [rounds, heq])
      have hcs : r ∉ rounds cs := fun hmem => h (List.mem_cons_of_mem _ hmem)
      rw [passedIn, if_neg hne, ih _ hcs]
      rfl

theorem emit_guard {e : Emit} {n' : DefederationNode} {op : LensOp}
    (h : n.emit cr e = some (n', op)) :
    n'.guardState = n.guardState ∧ n'.guardCfg = n.guardCfg := by
  rw [emit_eq] at h
  rw [(emitLocal_cases h).1]
  exact ⟨guardState_applyKind _ op, guardCfg_applyKind _ op⟩

/-- The counters that count for the round number `r`. -/
theorem rollTo_counts (n : DefederationNode) (r : UInt64) :
    (n.guardState.round = r ∧ n.rollTo r = n) ∨
    (n.guardState.round ≠ r ∧ (∀ o, (n.rollTo r).opsOf o = 0) ∧
      ∀ host, (n.rollTo r).originsOf host = 0) := by
  by_cases h : n.guardState.round = r
  · exact .inl ⟨h, by simp [rollTo, DefederationGuardState.rollTo, h]⟩
  · refine .inr ⟨h, fun o => ?_, fun host => ?_⟩
    · simp [rollTo, DefederationGuardState.rollTo, h, opsOf]
    · simp [rollTo, DefederationGuardState.rollTo, h, originsOf]

theorem DefederationNode.Capped.rollTo (h : n.Capped) (r : UInt64) : (n.rollTo r).Capped := by
  rcases rollTo_counts n r with ⟨-, heq⟩ | ⟨-, hops, horigins⟩
  · rw [heq]
    exact h
  · exact ⟨fun o => (hops o).symm ▸ Nat.zero_le _, fun host => (horigins host).symm ▸ Nat.zero_le _⟩

/-- What passed, with what the guard has counted for the round number, is within the limits. -/
structure Within (r : UInt64) (n : DefederationNode) (l : List (LensOp × Bool)) : Prop where
  ops : ∀ o, countOf o l + (if n.guardState.round = r then n.opsOf o else 0) ≤
    n.guardCfg.maxOpsPerOriginPerRound.toNat
  origins : ∀ host, newOf host l + (if n.guardState.round = r then n.originsOf host else 0) ≤
    n.guardCfg.maxNewOriginsPerHostPerRound.toNat

theorem DefederationNode.Capped.within (h : n.Capped) : Within r n [] where
  ops o := by
    have := h.ops o
    simp only [countOf, List.filter_nil, List.length_nil]
    split <;> omega
  origins host := by
    have := h.origins host
    simp only [newOf, List.filter_nil, List.length_nil]
    split <;> omega

/-- A call with the round number adds what it lets through to the counters. -/
theorem Within.ingest {l : List (LensOp × Bool)} {ops : List LensOp} (hn : n.Capped)
    (h : Within r (n.ingestBatch cr r ops).1 l) :
    Within r n (passed cr (n.rollTo r) ops ++ l) := by
  obtain ⟨-, hcfg, hround, hops, horigins⟩ := ingestOps_counted cr ops (hn.rollTo r)
  have hr : (n.ingestBatch cr r ops).1.guardState.round = r := by
    refine hround.trans ?_
    unfold rollTo DefederationGuardState.rollTo
    by_cases h : n.guardState.round = r
    · simp [h]
    · simp [h]
  have hcfg : (n.ingestBatch cr r ops).1.guardCfg = n.guardCfg := hcfg
  refine ⟨fun o => ?_, fun host => ?_⟩
  · have hle := h.ops o
    rw [if_pos hr, hcfg, show (n.ingestBatch cr r ops).1.opsOf o = _ from hops o] at hle
    have happ : countOf o (passed cr (n.rollTo r) ops ++ l) =
        countOf o (passed cr (n.rollTo r) ops) + countOf o l := by simp [countOf]
    rw [happ]
    rcases rollTo_counts n r with ⟨hsame, heq⟩ | ⟨hother, hzero, -⟩
    · rw [if_pos hsame]
      rw [heq] at hle ⊢
      omega
    · rw [if_neg hother]
      rw [hzero] at hle
      omega
  · have hle := h.origins host
    rw [if_pos hr, hcfg, show (n.ingestBatch cr r ops).1.originsOf host = _ from horigins host] at hle
    have happ : newOf host (passed cr (n.rollTo r) ops ++ l) =
        newOf host (passed cr (n.rollTo r) ops) + newOf host l := by simp [newOf]
    rw [happ]
    rcases rollTo_counts n r with ⟨hsame, heq⟩ | ⟨hother, -, hzero⟩
    · rw [if_pos hsame]
      rw [heq] at hle ⊢
      omega
    · rw [if_neg hother]
      rw [hzero] at hle
      omega

/-- From the first call with the round number on. -/
theorem within_passedIn (cs : List Call) {n : DefederationNode} {k : Nat} {later : List UInt64}
    (hrounds : rounds cs = List.replicate k r ++ later) (hlater : r ∉ later) (hn : n.Capped) :
    Within r n (passedIn cr r n cs) := by
  induction cs generalizing n k with
  | nil => exact hn.within
  | cons c cs ih =>
    cases c with
    | emit e =>
      rw [passedIn]
      split
      · rename_i n' op he
        obtain ⟨hstate, hcfg⟩ := emit_guard he
        have hn' : n'.Capped := by
          refine ⟨fun o => ?_, fun host => ?_⟩
          · rw [opsOf, hstate, hcfg]
            exact hn.ops o
          · rw [originsOf, hstate, hcfg]
            exact hn.origins host
        obtain ⟨hops, horigins⟩ := ih hrounds hn'
        simp only [opsOf, originsOf, hstate, hcfg] at hops horigins
        exact ⟨hops, horigins⟩
      · exact hn.within
    | ingest round ops =>
      have hcons : rounds (.ingest round ops :: cs) = round :: rounds cs := rfl
      rw [hcons] at hrounds
      cases k with
      | zero =>
        rw [List.replicate_zero, List.nil_append] at hrounds
        rw [passedIn_of_not_mem _ n (by rw [hcons, hrounds]; exact hlater)]
        exact hn.within
      | succ k =>
        rw [List.replicate_succ, List.cons_append, List.cons.injEq] at hrounds
        obtain ⟨rfl, hrounds⟩ := hrounds
        rw [passedIn, if_pos rfl]
        refine Within.ingest hn (ih hrounds ?_)
        exact (ingestOps_counted cr ops (hn.rollTo round)).1

/-- The whole run: nothing passes under the round number before its first call. -/
theorem passedIn_le (cs : List Call) {n : DefederationNode} (h : Unbroken r cs) (hn : n.Capped) :
    (∀ o, countOf o (passedIn cr r n cs) ≤ n.guardCfg.maxOpsPerOriginPerRound.toNat) ∧
    ∀ host, newOf host (passedIn cr r n cs) ≤ n.guardCfg.maxNewOriginsPerHostPerRound.toNat := by
  obtain ⟨before, k, later, hrounds, hbefore, hlater⟩ := h
  induction cs generalizing n before with
  | nil => exact ⟨fun _ => Nat.zero_le _, fun _ => Nat.zero_le _⟩
  | cons c cs ih =>
    cases before with
    | nil =>
      rw [List.nil_append] at hrounds
      have hw := @within_passedIn cr r (c :: cs) n k later hrounds hlater hn
      exact ⟨fun o => Nat.le_of_add_right_le (hw.ops o),
        fun host => Nat.le_of_add_right_le (hw.origins host)⟩
    | cons b before =>
      cases c with
      | emit e =>
        rw [passedIn]
        split
        · rename_i n' op he
          obtain ⟨hstate, hcfg⟩ := emit_guard he
          rw [← hcfg]
          refine ih ⟨fun o => ?_, fun host => ?_⟩ (b :: before) hrounds hbefore
          · rw [opsOf, hstate, hcfg]
            exact hn.ops o
          · rw [originsOf, hstate, hcfg]
            exact hn.origins host
        · exact ⟨fun _ => Nat.zero_le _, fun _ => Nat.zero_le _⟩
      | ingest round ops =>
        have hcons : rounds (.ingest round ops :: cs) = round :: rounds cs := rfl
        rw [hcons, List.cons_append, List.cons_append, List.cons.injEq] at hrounds
        obtain ⟨rfl, hrounds⟩ := hrounds
        have hne : ¬ round = r := fun heq => hbefore (by rw [heq]; exact .head _)
        obtain ⟨hcap, hcfg, -⟩ := ingestOps_counted cr ops (hn.rollTo round)
        have hcfg : (n.ingestBatch cr round ops).1.guardCfg = n.guardCfg := hcfg
        rw [passedIn, if_neg hne, List.nil_append, ← hcfg]
        exact ih hcap before hrounds fun hmem => hbefore (.tail _ hmem)

end

/-- **The limits of the guard.** In every run of a new node in which the calls with the round number
`r` come one after the other, the guard lets through in them at most as many operations of an
origin, and at most as many new origins of a host, as its limits say. -/
theorem caps_hold (cr : Crates) (nodeId : NodeId) (hostId : UInt8) (localSiteId : SiteId)
    (trusted : ExtTreeSet NodeId) (cfg : DefederationGuardConfig) (calls : List Call) (r : UInt64)
    (h : Unbroken r calls) :
    (∀ o, countOf o (passedIn cr r (.new nodeId hostId localSiteId trusted cfg) calls) ≤
      cfg.maxOpsPerOriginPerRound.toNat) ∧
    ∀ host, newOf host (passedIn cr r (.new nodeId hostId localSiteId trusted cfg) calls) ≤
      cfg.maxNewOriginsPerHostPerRound.toNat := by
  refine passedIn_le (n := .new nodeId hostId localSiteId trusted cfg) calls h ⟨fun o => ?_, fun host => ?_⟩
  · simp [opsOf, DefederationNode.new]
  · simp [originsOf, DefederationNode.new]

/-- A guard that lets through one operation of an origin and one new origin of a host. -/
def strictGuard : DefederationGuardConfig :=
  { freeGuard with maxOpsPerOriginPerRound := 1, maxNewOriginsPerHostPerRound := 1 }

/-- Operations of two origins of one host. -/
def floodOps (c : UInt64) : List LensOp :=
  [⟨2, c, 0, .content 5 0 true, 0⟩, ⟨3, c, 0, .content 6 0 true, 0⟩]

theorem caps_hold_sample :
    countOf 2 (passedIn .standard 1 (.new 1 0 7 ∅ strictGuard)
      [.ingest 1 (floodOps 1), .ingest 1 (floodOps 2), .ingest 2 []]) ≤ 1 ∧
    newOf 0 (passedIn .standard 1 (.new 1 0 7 ∅ strictGuard)
      [.ingest 1 (floodOps 1), .ingest 1 (floodOps 2), .ingest 2 []]) ≤ 1 := by
  obtain ⟨hops, horigins⟩ := caps_hold .standard 1 0 7 ∅ strictGuard
    [.ingest 1 (floodOps 1), .ingest 1 (floodOps 2), .ingest 2 []] 1
    ⟨[], 2, [2], rfl, by simp, by decide⟩
  exact ⟨hops 2, horigins 0⟩

/-- A call with another round number clears the counters, and the limits are exceeded. -/
theorem caps_exceeded :
    countOf 2 (passedIn .standard 1 (.new 1 0 7 ∅ strictGuard)
      [.ingest 1 (floodOps 1), .ingest 2 [], .ingest 1 (floodOps 2)]) = 2 ∧
    newOf 0 (passedIn .standard 1 (.new 1 0 7 ∅ strictGuard)
      [.ingest 1 (floodOps 1), .ingest 2 [], .ingest 1 (floodOps 1)]) = 2 ∧
    strictGuard.maxOpsPerOriginPerRound = 1 ∧ strictGuard.maxNewOriginsPerHostPerRound = 1 := by
  decide +kernel

end Citadel
