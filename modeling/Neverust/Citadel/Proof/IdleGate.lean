import Mathlib.Tactic.Ring
import Neverust.CidForms
import Neverust.Citadel.Simulation

/-!
# The idle bandwidth gate

In an idle round a node charges itself only within the budget, and the malicious nodes charge only
themselves (`WithinBudget`). So what is observed of the honest nodes stays within the budget, and the sum
over the idle rounds within their number times the maximum (`Observed.Fits`).
-/

namespace Citadel

open Rust

variable {cr : Crates} {u : Setup} {r r' : Round} {round : UInt64}

/-- No honest node has sent more than the budget. -/
def WithinBudget (u : Setup) (r : Round) : Prop :=
  ∀ sent ∈ r.bytesSent.take u.honestCount, sent ≤ u.idleBudget

/-! ## One round -/

theorem push_bytesSent {dst : Nat} {op : LensOp} (h : r.push dst op = .ok r') :
    r'.bytesSent = r.bytesSent := by
  obtain ⟨inbox, -, h⟩ := bind_eq_ok h
  cases h
  rfl

/-- A charge of a malicious node is not observed. -/
theorem WithinBudget.charge_malicious {idx bytes : Nat} (hidx : u.honestCount ≤ idx) (hw : WithinBudget u r)
    (h : r.charge idx bytes = .ok r') : WithinBudget u r' := by
  obtain ⟨sent, -, h⟩ := bind_eq_ok h
  cases h
  intro sent' hmem
  rw [List.take_set, List.set_eq_of_length_le (by simp; omega)] at hmem
  exact hw sent' hmem

/-- A charge that the gate lets through. -/
theorem WithinBudget.charge {src bytes : Nat} {sent : UInt64}
    (hsent : (index r.bytesSent src : Result Empty UInt64) = .ok sent)
    (hle : saturatingAdd64 sent bytes ≤ u.idleBudget) (hw : WithinBudget u r)
    (h : r.charge src bytes = .ok r') : WithinBudget u r' := by
  obtain ⟨sent', hsent', h⟩ := bind_eq_ok h
  cases h
  have heq : sent' = sent := Except.ok.inj (hsent'.symm.trans hsent)
  subst heq
  intro sent'' hmem
  rw [List.take_set] at hmem
  obtain hmem | rfl := List.mem_or_eq_of_mem_set hmem
  · exact hw sent'' hmem
  · exact hle

theorem le_of_not_exceeds (hidle : u.idleMode round = true) {sent : UInt64} {bytes : Nat}
    (h : ¬ u.exceeds round sent bytes = true) : saturatingAdd64 sent bytes ≤ u.idleBudget := by
  rw [Setup.exceeds, hidle, Bool.true_and, decide_eq_true_eq] at h
  exact UInt64.not_lt.1 h

theorem attack_within {idx target : Nat} {op : LensOp} (hidx : u.honestCount ≤ idx)
    (hw : WithinBudget u r) (h : u.attack r idx target op = .ok r') : WithinBudget u r' := by
  obtain ⟨r₁, hpush, h⟩ := bind_eq_ok h
  obtain ⟨r₂, hcharge, h⟩ := bind_eq_ok h
  cases h
  have hw₁ : WithinBudget u r₁ := by
    rw [WithinBudget, push_bytesSent hpush]
    exact hw
  have hw₂ : WithinBudget u r₂ := hw₁.charge_malicious hidx hcharge
  exact hw₂

theorem spam_within {idx i : Nat} {hostId : UInt8} {siteId : SiteId} (hidx : u.honestCount ≤ idx)
    (hw : WithinBudget u r) (h : u.spam round idx hostId siteId r i = .ok r') : WithinBudget u r' := by
  obtain ⟨base, -, h⟩ := bind_eq_ok h
  obtain ⟨shift, -, h⟩ := bind_eq_ok h
  obtain ⟨sum, -, h⟩ := bind_eq_ok h
  exact attack_within hidx hw h

theorem sybil_within {m idx i : Nat} {hostId : UInt8} {siteId : SiteId}
    (hidx : u.honestCount ≤ idx) (hw : WithinBudget u r)
    (h : u.sybil cr round m idx hostId siteId r i = .ok r') : WithinBudget u r' := by
  obtain ⟨base, -, h⟩ := bind_eq_ok h
  obtain ⟨shift, -, h⟩ := bind_eq_ok h
  obtain ⟨sum, -, h⟩ := bind_eq_ok h
  dsimp only at h
  split at h
  · exact attack_within hidx hw h
  · cases h

theorem pressure_within {m : Nat} (hw : WithinBudget u r) (h : u.pressure cr round r m = .ok r') :
    WithinBudget u r' := by
  obtain ⟨node, -, h⟩ := bind_eq_ok h
  obtain ⟨r₁, hspam, hsybil⟩ := bind_eq_ok h
  have hidx : u.honestCount ≤ u.honestCount + m := Nat.le_add_right _ _
  have hw₁ := foldlM_induction (fun _ _ _ hw h => spam_within hidx hw h) hw hspam
  exact foldlM_induction (fun _ _ _ hw h => sybil_within hidx hw h) hw₁ hsybil

theorem gossipOps_within (hidle : u.idleMode round = true) {src dst : Nat} {log : List LensOp}
    {srcCtr next : UInt64} {k : Nat} {missingAny : Bool} {out : Round × Bool} (hw : WithinBudget u r)
    (h : u.gossipOps round src dst log srcCtr k next (r, missingAny) = .ok out) :
    WithinBudget u out.1 := by
  induction k generalizing r next missingAny with
  | zero => cases h
  | succ k ih =>
    obtain ⟨inbox, -, h⟩ := bind_eq_ok h
    split at h
    · obtain ⟨sent, hsent, h⟩ := bind_eq_ok h
      split at h
      · cases h
        exact hw
      · rename_i hnot
        split at h
        · obtain ⟨r₁, hpush, h⟩ := bind_eq_ok h
          obtain ⟨r₂, hcharge, h⟩ := bind_eq_ok h
          have hbytes := push_bytesSent hpush
          have hw₁ : WithinBudget u r₁ := by
            rw [WithinBudget, hbytes]
            exact hw
          rw [← hbytes] at hsent
          have hw₂ : WithinBudget u r₂ := hw₁.charge hsent (le_of_not_exceeds hidle hnot) hcharge
          refine ih ?_ h
          exact hw₂
        · exact ih hw h
    · cases h
      exact hw

theorem gossipWriters_within (hidle : u.idleMode round = true) {src dst : Nat}
    {snapshot : List (List UInt64)} {writers : List (NodeId × Nat)} {missingAny : Bool}
    {out : Round × Bool} (hw : WithinBudget u r)
    (h : u.gossipWriters round src dst snapshot writers (r, missingAny) = .ok out) :
    WithinBudget u out.1 := by
  induction writers generalizing r missingAny with
  | nil =>
    cases h
    exact hw
  | cons writer writers ih =>
    obtain ⟨inbox, -, h⟩ := bind_eq_ok h
    split at h
    · cases h
      exact hw
    · obtain ⟨srcRow, -, h⟩ := bind_eq_ok h
      obtain ⟨srcCtr, -, h⟩ := bind_eq_ok h
      obtain ⟨dstRow, -, h⟩ := bind_eq_ok h
      obtain ⟨dstCtr, -, h⟩ := bind_eq_ok h
      split at h
      · exact ih hw h
      · split at h
        · exact ih hw h
        · obtain ⟨⟨r₁, missing₁⟩, hops, h⟩ := bind_eq_ok h
          exact ih (gossipOps_within hidle hw hops) h

theorem probe_within (hidle : u.idleMode round = true) {snapshot : List (List UInt64)} {src : Nat}
    {peers : List Nat} {start step : Nat} (hw : WithinBudget u r)
    (h : u.probe round snapshot src peers start r step = .ok r') : WithinBudget u r' := by
  obtain ⟨dst, -, h⟩ := bind_eq_ok h
  obtain ⟨sent, hsent, h⟩ := bind_eq_ok h
  split at h
  · cases h
    exact hw
  · rename_i hnot
    obtain ⟨r₁, hcharge, h⟩ := bind_eq_ok h
    obtain ⟨⟨r₂, missingAny⟩, hwriters, h⟩ := bind_eq_ok h
    have hw₂ := gossipWriters_within hidle
      (hw.charge hsent (le_of_not_exceeds hidle hnot) hcharge) hwriters
    dsimp only at h
    split at h <;> cases h <;> exact hw₂

theorem gossip_within (hidle : u.idleMode round = true) {snapshot : List (List UInt64)} {src : Nat}
    (hw : WithinBudget u r) (h : u.gossip round snapshot r src = .ok r') : WithinBudget u r' := by
  obtain ⟨peers, -, h⟩ := bind_eq_ok h
  split at h
  · cases h
    exact hw
  · exact foldlM_induction (fun _ _ _ hw h => probe_within hidle hw h) hw h

/-- **In an idle round every honest node stays within the budget.** -/
theorem traffic_within (hidle : u.idleMode round = true) {s : Swarm}
    (h : u.traffic cr round s = .ok r) : WithinBudget u r := by
  obtain ⟨r₁, hpressure, h⟩ := bind_eq_ok h
  have hstart : WithinBudget u
      { swarm := s, bytesSent := List.replicate u.cfg.nodeCount 0,
        inboxes := List.replicate u.cfg.nodeCount [] } := by
    intro sent hmem
    rw [List.eq_of_mem_replicate (List.mem_of_mem_take hmem), UInt64.le_iff_toNat_le]
    exact Nat.zero_le _
  have hw₁ := foldlM_induction (fun _ _ _ hw h => pressure_within hw h) hstart hpressure
  exact foldlM_induction (fun _ _ _ hw h => gossip_within hidle hw h) hw₁ h

/-! ## The observations -/

theorem max64_le {a b c : UInt64} : max a b ≤ c ↔ a ≤ c ∧ b ≤ c := by
  rw [show max a b = if a ≤ b then b else a from rfl]
  simp only [UInt64.le_iff_toNat_le]
  split <;> omega

theorem le_max64_left (a b : UInt64) : a ≤ max a b := (max64_le.1 (UInt64.le_refl _)).1

theorem le_max64_right (a b : UInt64) : b ≤ max a b := (max64_le.1 (UInt64.le_refl _)).2

theorem foldl_max64_le {c : UInt64} {l : List UInt64} {a : UInt64} :
    l.foldl max a ≤ c ↔ a ≤ c ∧ ∀ x ∈ l, x ≤ c := by
  induction l generalizing a with
  | nil => simp
  | cons x l ih => simp [ih, max64_le, and_assoc]

/-- A saturating sum. -/
theorem foldl_saturatingAdd128_le {b : UInt64} : ∀ {l : List UInt64} {accum : Nat},
    (∀ x ∈ l, x ≤ b) →
    l.foldl (fun accum bytes => saturatingAdd128 accum bytes.toNat) accum ≤
      accum + l.length * b.toNat
  | [], _, _ => by simp
  | x :: l, accum, hl => by
    have hx := UInt64.le_iff_toNat_le.1 (hl x (.head _))
    have hrest := @foldl_saturatingAdd128_le b l (saturatingAdd128 accum x.toNat) fun y hy =>
      hl y (.tail _ hy)
    have hsat : saturatingAdd128 accum x.toNat ≤ accum + x.toNat := Nat.min_le_left _ _
    rw [List.foldl_cons, List.length_cons, Nat.add_mul, Nat.one_mul]
    omega

/-- The observations before a round. -/
structure Observed.Fits (u : Setup) (round : Nat) (o : Observed) : Prop where
  max_le : o.maxIdleBytesPerSec ≤ u.idleBudget
  accum_le : o.idleBytesAccum ≤
    o.idleRounds.toNat * u.honestCount * o.maxIdleBytesPerSec.toNat
  rounds_le : o.idleRounds.toNat ≤ round

theorem Observed.Fits.observe {o : Observed} {n : Nat} {bytesSent : List UInt64}
    (h : o.Fits u n) (hn : n + 1 < 2 ^ 64)
    (hw : ∀ sent ∈ bytesSent.take u.honestCount, sent ≤ u.idleBudget) :
    (u.observe o bytesSent).Fits u (n + 1) := by
  have hrounds : (saturatingAdd64 o.idleRounds 1).toNat = o.idleRounds.toNat + 1 := by
    have := h.rounds_le
    exact saturatingAdd64_of_lt (by omega)
  have hzero : (0 : UInt64) ≤ u.idleBudget := UInt64.le_iff_toNat_le.2 (Nat.zero_le _)
  have hmax : ∀ sent ∈ bytesSent.take u.honestCount,
      sent ≤ (u.observe o bytesSent).maxIdleBytesPerSec := fun sent hsent =>
    UInt64.le_trans ((foldl_max64_le.1 (UInt64.le_refl _)).2 sent hsent) (le_max64_right _ _)
  have hold : o.maxIdleBytesPerSec.toNat ≤ (u.observe o bytesSent).maxIdleBytesPerSec.toNat :=
    UInt64.le_iff_toNat_le.1 (le_max64_left _ _)
  refine ⟨max64_le.2 ⟨h.max_le, foldl_max64_le.2 ⟨hzero, hw⟩⟩, ?_, ?_⟩
  · calc (u.observe o bytesSent).idleBytesAccum
        ≤ o.idleBytesAccum + (bytesSent.take u.honestCount).length *
            (u.observe o bytesSent).maxIdleBytesPerSec.toNat := foldl_saturatingAdd128_le hmax
      _ ≤ o.idleRounds.toNat * u.honestCount * (u.observe o bytesSent).maxIdleBytesPerSec.toNat +
            u.honestCount * (u.observe o bytesSent).maxIdleBytesPerSec.toNat :=
          Nat.add_le_add (h.accum_le.trans (Nat.mul_le_mul_left _ hold))
            (Nat.mul_le_mul_right _ (List.length_take_le _ _))
      _ = (u.observe o bytesSent).idleRounds.toNat * u.honestCount *
            (u.observe o bytesSent).maxIdleBytesPerSec.toNat := by
          rw [show (u.observe o bytesSent).idleRounds.toNat = o.idleRounds.toNat + 1 from hrounds]
          ring
  · exact hrounds.le.trans (Nat.succ_le_succ h.rounds_le)

theorem Observed.Fits.mono {o : Observed} {n n' : Nat} (h : o.Fits u n) (hle : n ≤ n') :
    o.Fits u n' := ⟨h.max_le, h.accum_le, h.rounds_le.trans hle⟩

theorem runRound_fits {s s' : Swarm} {o o' : Observed} {converged : Bool}
    (ho : o.Fits u round.toNat) (hround : round.toNat + 1 < 2 ^ 64)
    (h : u.runRound cr round s o = .ok (s', o', converged)) : o'.Fits u (round.toNat + 1) := by
  obtain ⟨s₁, -, h⟩ := bind_eq_ok h
  obtain ⟨r, htraffic, h⟩ := bind_eq_ok h
  dsimp only at h
  split at h
  · rename_i hidle
    cases h
    exact ho.observe hround (traffic_within hidle htraffic)
  · cases h
    exact ho.mono (Nat.le_succ _)

theorem runRounds_fits {k : Nat} {s s' : Swarm} {o o' : Observed} {converged : Option UInt64}
    (ho : o.Fits u round.toNat) (hround : round.toNat + k < 2 ^ 64)
    (h : u.runRounds cr k round s o = .ok (s', o', converged)) : ∃ n, o'.Fits u n := by
  induction k generalizing round s o with
  | zero =>
    cases h
    exact ⟨_, ho⟩
  | succ k ih =>
    obtain ⟨⟨s₁, o₁, done⟩, hrun, h⟩ := bind_eq_ok h
    have ho₁ := runRound_fits ho (by omega) hrun
    have hnext : (round + 1).toNat = round.toNat + 1 := by
      rw [UInt64.toNat_add, UInt64.toNat_one, Nat.mod_eq_of_lt (by omega)]
    dsimp only at h
    split at h
    · cases h
      exact ⟨_, ho₁⟩
    · refine @ih (round + 1) _ _ ?_ ?_ h
      · rw [hnext]
        exact ho₁
      · omega

theorem average_le {o : Observed} {n : Nat} (h : o.Fits u n) :
    u.average o ≤ o.maxIdleBytesPerSec := by
  rw [Setup.average, UInt64.le_iff_toNat_le]
  split
  · exact Nat.zero_le _
  · have hdiv : o.idleBytesAccum / (o.idleRounds.toNat * u.honestCount) ≤
        o.maxIdleBytesPerSec.toNat := Nat.div_le_of_le_mul h.accum_le
    rw [UInt64.toNat_ofNat']
    exact (Nat.mod_le _ _).trans hdiv

/-- **The idle bandwidth gate holds in every simulation that returns.** -/
theorem idle_gate (cr : Crates) (gate : GateFunctions) (order : Finset Nat → List Nat)
    (bound : Nat) (cfg : DefederationSimulationConfig) (out : DefederationSimulationResult)
    (h : runDefederationSimulation cr gate order bound cfg = .ok out) :
    out.maxIdleBytesPerSecObserved ≤ out.idleBudgetBytesPerSec ∧
      out.avgIdleBytesPerSecObserved ≤ out.maxIdleBytesPerSecObserved := by
  rw [runDefederationSimulation] at h
  split at h
  · cases h
    exact ⟨UInt64.le_iff_toNat_le.2 (Nat.zero_le _), UInt64.le_refl _⟩
  · obtain ⟨topology, -, h⟩ := bind_eq_ok h
    obtain ⟨repairPeers, -, h⟩ := bind_eq_ok h
    obtain ⟨s, -, h⟩ := bind_eq_ok h
    obtain ⟨⟨s', o, convergedRound⟩, hrun, h⟩ := bind_eq_ok h
    cases h
    have hstart : ∀ u : Setup, Observed.Fits u (0 : UInt64).toNat {} := fun u =>
      ⟨UInt64.le_iff_toNat_le.2 (Nat.zero_le _), by simp, by simp⟩
    obtain ⟨n, ho⟩ := runRounds_fits (hstart _)
      (by simpa using UInt64.toNat_lt (saturatingAdd64 cfg.rounds cfg.settleRounds.toNat)) hrun
    exact ⟨ho.max_le, average_le ho⟩

/-- Three honest nodes and a malicious one in an idle round. -/
def smallSwarm : DefederationSimulationConfig :=
  { nodeCount := 4, writerCount := 2, maliciousNodes := 1, rounds := 0, settleRounds := 1, fanout := 2,
    maxGossipBatch := 3, guard := { basePowBits := 0 }, idleGate := { maxIdleBytesPerSec := 400 } }

theorem idle_gate_small_swarm : ∃ out,
    runDefederationSimulation .standard (gateFunctions (fun _ => 2) fun _ _ => 0)
        (fun s => (List.range 4).filter (· ∈ s)) 20 smallSwarm = .ok out ∧
      out.maxIdleBytesPerSecObserved = 352 ∧
      out.maxIdleBytesPerSecObserved ≤ out.idleBudgetBytesPerSec ∧
      out.avgIdleBytesPerSecObserved ≤ out.maxIdleBytesPerSecObserved := by
  have hmax : (runDefederationSimulation .standard (gateFunctions (fun _ => 2) fun _ _ => 0)
      (fun s => (List.range 4).filter (· ∈ s)) 20 smallSwarm).toOption.map
        DefederationSimulationResult.maxIdleBytesPerSecObserved = some 352 := by decide +kernel
  cases hrun : runDefederationSimulation .standard (gateFunctions (fun _ => 2) fun _ _ => 0)
      (fun s => (List.range 4).filter (· ∈ s)) 20 smallSwarm with
  | ok out =>
    rw [hrun] at hmax
    exact ⟨out, rfl, Option.some.inj hmax, idle_gate _ _ _ _ _ _ hrun⟩
  | error e =>
    rw [hrun] at hmax
    cases hmax

end Citadel
