import Neverust.Discv5.RateLimiter
import Neverust.Lib.Gcra

/-!
# The limits that the packet filter keeps

* `Limiter.allows_spec`, `Limiter.prune_spec`: a call against the history of what was allowed.
* `Limiter.allows_exact`: after every run a request is allowed if and only if it fits.
* `PacketFilter.after_bounded`: what the filter lets through, in every window of every run.
-/

namespace Discv5

namespace Limiter

variable {K : Type} {l : Limiter K} {now later tokens : Nat} {key k : K}
  {past : K → List (Nat × Nat)}

/-- What holds of a limiter that has allowed, to each key, the requests of a history. -/
structure Ok (l : Limiter K) (now : Nat) (past : K → List (Nat × Nat)) : Prop where
  before : ∀ k, Gcra.Before now (past k)
  conforms : ∀ k, Gcra.Conforms l.tau (past k)
  tat : ∀ k, max now ((l.tatPerKey k).getD now) = max now (Gcra.tat (past k))

/-- The clock has not run so long that a sum leaves `u64`. -/
def InTime (l : Limiter K) (now : Nat) : Prop := now + 2 * l.tau < 2 ^ 64

theorem Ok.mono (h : l.Ok now past) (hle : now ≤ later) : l.Ok later past := by
  refine ⟨fun k => (h.before k).mono hle, h.conforms, fun k => ?_⟩
  have := h.tat k
  cases hk : l.tatPerKey k with
  | none =>
    simp only [hk, Option.getD_none] at this ⊢
    omega
  | some tat =>
    simp only [hk, Option.getD_some] at this ⊢
    omega

/-- The arrival time is `tau` ahead at most. -/
theorem Ok.tat_le (h : l.Ok now past) (k : K) : (l.tatPerKey k).getD now ≤ now + l.tau := by
  obtain ⟨a, ha, heq⟩ := Gcra.exists_tat (h.before k)
  have hspent := (h.conforms k).spent_le (h.before k) ha
  have htat := h.tat k
  omega

variable [DecidableEq K]

@[simp] theorem setTat_self (key : K) (tat : Nat) :
    (l.setTat key tat).tatPerKey key = some tat := Function.update_self ..

theorem setTat_ne {tat : Nat} (hk : k ≠ key) :
    (l.setTat key tat).tatPerKey k = l.tatPerKey k := Function.update_of_ne hk ..

/-- The entry that a request makes for a new key changes nothing. -/
theorem Ok.entry (h : l.Ok now past) (key : K) :
    (l.setTat key ((l.tatPerKey key).getD now)).Ok now past := by
  refine ⟨h.before, h.conforms, fun k => ?_⟩
  by_cases hk : k = key
  · subst hk
    rw [setTat_self]
    exact h.tat k
  · rw [setTat_ne hk]
    exact h.tat k

/-- A request that is allowed. -/
theorem Ok.allow {c : Nat} (h : l.Ok now past) (hfits : Gcra.Fits l.tau (past key) now c) :
    (l.setTat key (max now ((l.tatPerKey key).getD now) + c)).Ok now
      (Function.update past key ((now, c) :: past key)) := by
  refine ⟨fun k => ?_, fun k => ?_, fun k => ?_⟩ <;> by_cases hk : k = key
  · subst hk
    rw [Function.update_self]
    exact ⟨Nat.le_refl _, h.before k⟩
  · rw [Function.update_of_ne hk]
    exact h.before k
  · subst hk
    rw [Function.update_self]
    exact .cons (h.conforms k) hfits
  · rw [Function.update_of_ne hk]
    exact h.conforms k
  · subst hk
    rw [setTat_self, Function.update_self, h.tat k]
    rfl
  · rw [setTat_ne hk, Function.update_of_ne hk]
    exact h.tat k

/-- What a request for `tokens` of a key finds. -/
inductive Decides (l : Limiter K) (now : Nat) (key : K) (tokens : Nat)
    (past : K → List (Nat × Nat)) : Rust.Result RateLimitedErr Unit × Limiter K → Prop
  | allowed (l' : Limiter K) (hsame : l'.tau = l.tau ∧ l'.t = l.t)
      (hfits : Gcra.Fits l.tau (past key) now (l.t * tokens))
      (hok : l'.Ok now
        (Function.update past key ((now, l.t * tokens) :: past key))) :
      Decides l now key tokens past (.ok (), l')
  | tooLarge (hlarge : l.tau < l.t * tokens) :
      Decides l now key tokens past (.error (.err .tooLarge), l)
  | tooSoon (l' : Limiter K) (hsame : l'.tau = l.tau ∧ l'.t = l.t) (wait : Nat) (hwait : 0 < wait)
      (hsmall : l.t * tokens ≤ l.tau)
      (htat : now + wait + l.tau = Gcra.tat (past key) + l.t * tokens) (hok : l'.Ok now past) :
      Decides l now key tokens past (.error (.err (.tooSoon wait)), l')

theorem usizeAdd_of_lt {ε : Type} {a b : Nat} (h : a + b < 2 ^ 64) :
    (Rust.usizeAdd a b : Rust.Result ε Nat) = .ok (a + b) := if_pos h

theorem usizeMul_of_lt {ε : Type} {a b : Nat} (h : a * b < 2 ^ 64) :
    (Rust.usizeMul a b : Rust.Result ε Nat) = .ok (a * b) := if_pos h

/-- **A request** is decided by the history of its key. -/
theorem allows_decides (key : K) (h : l.Ok now past) (htime : l.InTime now)
    (htokens : l.t * tokens < 2 ^ 64) :
    Decides l now key tokens past (l.allows now key tokens) := by
  rw [InTime] at htime
  have hmod : now % 2 ^ 64 = now := Nat.mod_eq_of_lt (by omega)
  have hfits := Gcra.fits_iff l.tau (l.t * tokens) (h.before key)
  have htat := h.tat key
  have hle := h.tat_le key
  simp only [allows, usizeMul_of_lt htokens, hmod]
  by_cases hlarge : l.tau < l.t * tokens
  · rw [if_pos hlarge]
    exact .tooLarge hlarge
  · rw [if_neg hlarge, usizeAdd_of_lt (by omega)]
    simp only [setTat, Function.update_idem]
    by_cases hsoon : now < (l.tatPerKey key).getD now + l.t * tokens - l.tau
    · rw [if_pos hsoon]
      have hentry := h.entry key
      refine @Decides.tooSoon K _ l now key tokens past
        (l.setTat key ((l.tatPerKey key).getD now)) ⟨rfl, rfl⟩ _ ?_ ?_ ?_ hentry
      · omega
      · omega
      · omega
    · rw [if_neg hsoon, usizeAdd_of_lt (by omega)]
      have hfit := hfits.2 (by omega)
      exact .allowed _ ⟨rfl, rfl⟩ hfit (h.allow hfit)

omit [DecidableEq K] in
/-- **A prune** forgets nothing that a decision needs. -/
theorem prune_ok (h : l.Ok now past) (htime : l.InTime now) :
    (l.prune now).Ok now past := by
  refine ⟨h.before, h.conforms, fun k => ?_⟩
  rw [InTime] at htime
  have hmod : now % 2 ^ 64 = now := Nat.mod_eq_of_lt (by omega)
  have htat := h.tat k
  simp only [prune, hmod]
  cases hk : l.tatPerKey k with
  | none => simpa [hk] using htat
  | some tat =>
    by_cases hle : now ≤ tat
    · simpa [hk, hle, Option.filter] using htat
    · simp only [hk, Option.getD_some] at htat
      simp only [Option.filter, hle, decide_false, Bool.false_eq_true, if_false, Option.getD_none]
      omega

/-- The requests of a key that are allowed in a history of calls. -/
def granted (l : Limiter K) (k : K) : List (LimiterCall K) → List (Nat × Nat)
  | [] => []
  | .allows now key tokens :: older =>
    if key = k ∧ ((l.after older).allows now key tokens).1 = .ok () then
      (now, l.t * tokens) :: l.granted k older
    else l.granted k older
  | .prune _ :: older => l.granted k older

/-- The calls come one after the other, at times and for tokens for which no sum leaves `u64`. -/
def Timely (l : Limiter K) (calls : List (LimiterCall K)) : Prop :=
  (calls.Pairwise fun a b => b.time ≤ a.time) ∧ ∀ c ∈ calls, l.InTime c.time ∧
    ∀ now key tokens, c = .allows now key tokens → l.t * tokens < 2 ^ 64

theorem granted_allows {l : Limiter K} {older : List (LimiterCall K)} {time : Nat} :
    (fun k => l.granted k (.allows time key tokens :: older)) =
      if ((l.after older).allows time key tokens).1 = .ok () then
        Function.update (fun k => l.granted k older) key
          ((time, l.t * tokens) :: l.granted key older)
      else fun k => l.granted k older := by
  funext k
  rw [granted]
  by_cases hok : ((l.after older).allows time key tokens).1 = .ok ()
  · by_cases hk : key = k
    · subst hk
      simp [hok]
    · rw [if_neg fun h => hk h.1, if_pos hok, Function.update_of_ne (Ne.symm hk)]
  · rw [if_neg fun h => hok h.2, if_neg hok]

theorem after_ok {l : Limiter K} (hnew : ∀ k, l.tatPerKey k = none) {calls : List (LimiterCall K)}
    (hcalls : l.Timely calls) (hnow : ∀ c ∈ calls, c.time ≤ now) :
    (l.after calls).Ok now (fun k => l.granted k calls) ∧ (l.after calls).tau = l.tau ∧
      (l.after calls).t = l.t := by
  induction calls generalizing now with
  | nil =>
    refine ⟨⟨fun _ => trivial, fun _ => .nil, fun k => ?_⟩, rfl, rfl⟩
    show max now ((l.tatPerKey k).getD now) = max now 0
    simp [hnew k]
  | cons call older ih =>
    obtain ⟨hpair, hin⟩ := hcalls
    obtain ⟨hbefore, hpair⟩ := List.pairwise_cons.1 hpair
    obtain ⟨⟨htime, htokens⟩, hin⟩ := List.forall_mem_cons.1 hin
    obtain ⟨hok, htau, ht⟩ := ih ⟨hpair, hin⟩ hbefore
    have hle : call.time ≤ now := hnow call (List.mem_cons_self ..)
    cases call with
    | prune time =>
      exact ⟨(prune_ok hok (by rw [InTime, htau]; exact htime)).mono hle, htau, ht⟩
    | allows time key tokens =>
      have hdec : Decides (l.after older) time key tokens (fun k => l.granted k older)
          ((l.after older).allows time key tokens) :=
        allows_decides key hok (by rw [InTime, htau]; exact htime)
          (by rw [ht]; exact htokens _ _ _ rfl)
      rw [granted_allows, after]
      generalize (l.after older).allows time key tokens = found at hdec ⊢
      cases hdec with
      | allowed l' hsame hfits hok' =>
        rw [if_pos rfl]
        exact ⟨(ht ▸ hok').mono hle, hsame.1.trans htau, hsame.2.trans ht⟩
      | tooLarge hlarge =>
        rw [if_neg (by simp)]
        exact ⟨hok.mono hle, htau, ht⟩
      | tooSoon l' hsame wait hwait hsmall htat hok' =>
        rw [if_neg (by simp)]
        exact ⟨hok'.mono hle, hsame.1.trans htau, hsame.2.trans ht⟩

omit [DecidableEq K] in
theorem fromQuota_spec {quota : Quota} {l : Limiter K} (h : fromQuota quota = .ok l) :
    (∀ k, l.tatPerKey k = none) ∧ l.t ≤ l.tau ∧ l.tau < 2 ^ 64 := by
  simp only [fromQuota] at h
  split at h
  · cases h
  split at h
  · cases h
  split at h
  · cases h
  split at h
  · cases h
  rename_i hlt
  obtain rfl := Except.ok.inj h
  exact ⟨fun _ => rfl, Nat.div_le_self .., Nat.not_le.1 hlt⟩

/-- **The limiter is exact.** After any calls one after the other, prunes among them, a request of
`tokens` is allowed if and only if no window that ends with it is exceeded: from any `a` on, what
was allowed to its key and what it takes is replenished in the window and in `tau`. A request that
is refused is too large to be ever allowed, or is told the least time after which it fits. -/
theorem allows_exact (quota : Quota) (l : Limiter K) (hquota : fromQuota quota = .ok l)
    (calls : List (LimiterCall K)) (now : Nat) (key : K) (tokens : Nat)
    (hcalls : l.Timely (.allows now key tokens :: calls)) :
    (((l.after calls).allows now key tokens).1 = .ok () ↔
        Gcra.Fits l.tau (l.granted key calls) now (l.t * tokens)) ∧
      (((l.after calls).allows now key tokens).1 = .error (.err .tooLarge) ↔
        ∀ h later, ¬ Gcra.Fits l.tau h later (l.t * tokens)) ∧
      (∀ wait, ((l.after calls).allows now key tokens).1 = .error (.err (.tooSoon wait)) →
        ∀ w, Gcra.Fits l.tau (l.granted key calls) (now + w) (l.t * tokens) ↔ wait ≤ w) ∧
      ∀ p, ((l.after calls).allows now key tokens).1 ≠ .error (.panic p) := by
  obtain ⟨hpair, hin⟩ := hcalls
  obtain ⟨hbefore, hpair⟩ := List.pairwise_cons.1 hpair
  obtain ⟨⟨htime, htokens⟩, hin⟩ := List.forall_mem_cons.1 hin
  obtain ⟨hok, htau, ht⟩ := after_ok (fromQuota_spec hquota).1 ⟨hpair, hin⟩ hbefore
  have hdec : Decides (l.after calls) now key tokens (fun k => l.granted k calls)
      ((l.after calls).allows now key tokens) :=
    allows_decides key hok (by rw [InTime, htau]; exact htime)
      (by rw [ht]; exact htokens _ _ _ rfl)
  rw [← htau, ← ht]
  have hfits := fun w => Gcra.fits_iff (l.after calls).tau ((l.after calls).t * tokens)
    ((hok.mono (Nat.le_add_right now w)).before key)
  generalize (l.after calls).allows now key tokens = found at hdec ⊢
  cases hdec with
  | allowed l' hsame hfit hok' =>
    refine ⟨by simpa using hfit, ?_, by simp, by simp⟩
    simp only [reduceCtorEq, false_iff]
    exact fun hnever => hnever _ _ hfit
  | tooLarge hlarge =>
    have hnever : ∀ h later,
        ¬ Gcra.Fits (l.after calls).tau h later ((l.after calls).t * tokens) := by
      intro h later hfit
      have := hfit later (Nat.le_refl _)
      omega
    exact ⟨by simpa using hnever _ _, by simpa using hnever, by simp, by simp⟩
  | tooSoon l' hsame wait hwait hsmall htat hok' =>
    have hexact : ∀ w, Gcra.Fits (l.after calls).tau (l.granted key calls) (now + w)
        ((l.after calls).t * tokens) ↔ wait ≤ w := by
      intro w
      rw [hfits w]
      omega
    refine ⟨?_, ?_, fun w hw => ?_, by simp⟩
    · have h0 := hexact 0
      rw [Nat.add_zero] at h0
      simp only [reduceCtorEq, false_iff, h0]
      omega
    · simp only [Except.error.injEq, Rust.Stop.err.injEq, reduceCtorEq, false_iff]
      exact fun hnever => hnever _ _ ((hexact wait).2 (Nat.le_refl _))
    · simp only [Except.error.injEq, Rust.Stop.err.injEq, RateLimitedErr.tooSoon.injEq] at hw
      exact hw ▸ hexact

/-- Of four tokens for 2000 a burst has used all: at 100 the next one is to wait for 400. -/
theorem allows_exact_burst :
    ∃ l, fromQuota { replenishAllEvery := 2000, maxTokens := 4 } = .ok l ∧
      ∀ w, Gcra.Fits l.tau (l.granted 7 [.prune 90, .allows 0 7 4]) (100 + w) (l.t * 1) ↔
        400 ≤ w := by
  refine ⟨{ tau := 2000, t := 500, tatPerKey := fun _ => none }, rfl, ?_⟩
  have hexact := allows_exact { replenishAllEvery := 2000, maxTokens := 4 }
    { tau := 2000, t := 500, tatPerKey := fun _ => none } rfl [.prune 90, .allows 0 7 4] 100 7 1
    ⟨by simp [LimiterCall.time], by simp [InTime, LimiterCall.time]⟩
  exact hexact.2.2.1 400 (by decide)

/-! ## The limiters of the filter -/

/-- A limiter that has run on from `l₀`. -/
structure From (l₀ l : Limiter K) (now : Nat) (past : K → List (Nat × Nat)) : Prop where
  ok : l.Ok now past
  tau : l.tau = l₀.tau
  t : l.t = l₀.t

/-- A request of one token. -/
theorem From.allows {l₀ : Limiter K} (h : From l₀ l now past) (htime : l₀.InTime now)
    (ht : l₀.t ≤ l₀.tau) (key : K) :
    ∃ ok : Bool, isErr (l.allows now key 1).1 = some (!ok) ∧
      From l₀ (l.allows now key 1).2 now
        (if ok then Function.update past key ((now, l₀.t) :: past key) else past) := by
  have hone : l.t * 1 < 2 ^ 64 := by
    have := h.t
    rw [InTime] at htime
    omega
  have hdec := allows_decides key h.ok (by rw [InTime, h.tau]; exact htime) hone
  generalize l.allows now key 1 = found at hdec ⊢
  cases hdec with
  | allowed l' hsame hfits hok =>
    rw [Nat.mul_one, h.t] at hok
    exact ⟨true, rfl, hok, hsame.1.trans h.tau, hsame.2.trans h.t⟩
  | tooLarge hlarge => exact ⟨false, rfl, h⟩
  | tooSoon l' hsame wait hwait hsmall htat hok =>
    exact ⟨false, rfl, hok, hsame.1.trans h.tau, hsame.2.trans h.t⟩

omit [DecidableEq K] in
theorem From.prune {l₀ : Limiter K} (h : From l₀ l now past) (htime : l₀.InTime now) :
    From l₀ (l.prune now) now past :=
  ⟨prune_ok h.ok (by rw [InTime, h.tau]; exact htime), h.tau, h.t⟩

omit [DecidableEq K] in
theorem From.mono {l₀ : Limiter K} (h : From l₀ l now past) (hle : now ≤ later) :
    From l₀ l later past :=
  ⟨h.ok.mono hle, h.tau, h.t⟩

/-- A limiter that has run on from `l₀`, with at least `count k a` requests allowed to `k` from `a`
on. -/
def Counts (l₀ l : Limiter K) (now : Nat) (count : K → Nat → Nat) : Prop :=
  ∃ past, From l₀ l now past ∧ ∀ k a, count k a * l₀.t ≤ Gcra.spent a (past k)

variable {l₀ : Limiter K} {count count₁ : K → Nat → Nat} {a : Nat}

omit [DecidableEq K] in
theorem Counts.new (hnew : ∀ k, l.tatPerKey k = none) : Counts l l 0 fun _ _ => 0 := by
  refine ⟨fun _ => [], ⟨⟨fun _ => trivial, fun _ => .nil, fun k => ?_⟩, rfl, rfl⟩, fun k a => ?_⟩
  · rw [hnew k]
    rfl
  · exact Nat.le_of_eq (Nat.zero_mul _)

omit [DecidableEq K] in
theorem Counts.mono (h : Counts l₀ l now count) (hle : now ≤ later)
    (hcount : ∀ k a, count₁ k a ≤ count k a) : Counts l₀ l later count₁ := by
  obtain ⟨past, hfrom, hspent⟩ := h
  exact ⟨past, hfrom.mono hle, fun k a => (Nat.mul_le_mul_right _ (hcount k a)).trans (hspent k a)⟩

omit [DecidableEq K] in
theorem Counts.prune (h : Counts l₀ l now count) (htime : l₀.InTime now) :
    Counts l₀ (l.prune now) now count := by
  obtain ⟨past, hfrom, hspent⟩ := h
  exact ⟨past, hfrom.prune htime, hspent⟩

theorem Counts.allows (h : Counts l₀ l now count) (htime : l₀.InTime now) (ht : l₀.t ≤ l₀.tau)
    (key : K) :
    ∃ ok : Bool, isErr (l.allows now key 1).1 = some (!ok) ∧
      Counts l₀ (l.allows now key 1).2 now
        fun k a => count k a + if ok ∧ k = key ∧ a ≤ now then 1 else 0 := by
  obtain ⟨past, hfrom, hspent⟩ := h
  obtain ⟨ok, hok, hfrom⟩ := hfrom.allows htime ht key
  refine ⟨ok, hok, _, hfrom, fun k a => ?_⟩
  have hle := hspent k a
  cases ok with
  | false => simpa using hle
  | true =>
    simp only [if_true, true_and]
    by_cases hk : k = key
    · subst hk
      rw [Function.update_self, Gcra.spent, Nat.add_mul]
      by_cases ha : a ≤ now
      · rw [if_pos ⟨rfl, ha⟩, if_pos ha]
        omega
      · rw [if_neg fun h => ha h.2, if_neg ha]
        omega
    · rw [Function.update_of_ne hk, if_neg fun h => hk h.1]
      exact hle

omit [DecidableEq K] in
/-- **The bound** of every window. -/
theorem Counts.bound (h : Counts l₀ l now count) (k : K) (ha : a ≤ now) :
    count k a * l₀.t ≤ (now - a) + l₀.tau := by
  obtain ⟨past, hfrom, hspent⟩ := h
  have hwindow := (hfrom.ok.conforms k).spent_le (hfrom.ok.before k) ha
  rw [hfrom.tau] at hwindow
  exact (hspent k a).trans hwindow

end Limiter

/-! ## What the filter lets through -/

/-- A call that asks about a packet. -/
def FilterCall.isPass : FilterCall → Bool
  | .initialPass .. | .finalPass .. => true
  | _ => false

namespace Verdict

/-- A packet of an unsolicited source that has passed, though not by a permit list. -/
def isInitial (v : Verdict) : Bool :=
  match v.call with
  | .initialPass _ _ => v.passes && !v.permitted
  | _ => false

def isInitialOf (ip : IpAddr) (v : Verdict) : Bool :=
  match v.call with
  | .initialPass _ src => v.passes && !v.permitted && src = ip
  | _ => false

def isFinalOf (nodeId : NodeId) (v : Verdict) : Bool :=
  match v.call with
  | .finalPass _ address => v.passes && !v.permitted && address.nodeId = nodeId
  | _ => false

end Verdict

/-- How many verdicts of a kind there are from a time on. -/
def since (p : Verdict → Bool) (a : Nat) (verdicts : List Verdict) : Nat :=
  verdicts.countP fun v => p v && a ≤ v.call.time

theorem since_cons {p : Verdict → Bool} {a : Nat} {v : Verdict} {verdicts : List Verdict} :
    since p a (v :: verdicts) =
      since p a verdicts + if p v = true ∧ a ≤ v.call.time then 1 else 0 := by
  simp [since, List.countP_cons]

namespace RateLimiter

variable {r₀ r : RateLimiter} {now later : Nat} {total total₁ : Nat → Nat}
  {ips ips₁ : IpAddr → Nat → Nat} {nodes nodes₁ : NodeId → Nat → Nat}

/-- The limiters of the filter with what they have allowed at least, in all, to each IP and to each
node, from a time on. -/
structure Counts (r₀ r : RateLimiter) (now : Nat) (total : Nat → Nat) (ips : IpAddr → Nat → Nat)
    (nodes : NodeId → Nat → Nat) : Prop where
  total : r₀.totalRl.Counts r.totalRl now fun _ => total
  ip : Option.Rel (fun l₀ l => Limiter.Counts l₀ l now ips) r₀.ipRl r.ipRl
  node : Option.Rel (fun l₀ l => Limiter.Counts l₀ l now nodes) r₀.nodeRl r.nodeRl

/-- No sum of a limiter leaves `u64`. -/
structure InTime (r₀ : RateLimiter) (now : Nat) : Prop where
  total : r₀.totalRl.InTime now
  ip : ∀ l ∈ r₀.ipRl, l.InTime now
  node : ∀ l ∈ r₀.nodeRl, l.InTime now

/-- A new limiter allows one token. -/
structure Sized (r₀ : RateLimiter) : Prop where
  total : r₀.totalRl.t ≤ r₀.totalRl.tau
  ip : ∀ l ∈ r₀.ipRl, l.t ≤ l.tau
  node : ∀ l ∈ r₀.nodeRl, l.t ≤ l.tau

theorem Counts.mono (h : r₀.Counts r now total ips nodes) (hle : now ≤ later)
    (htotal : ∀ a, total₁ a ≤ total a) (hips : ∀ ip a, ips₁ ip a ≤ ips ip a)
    (hnodes : ∀ nodeId a, nodes₁ nodeId a ≤ nodes nodeId a) :
    r₀.Counts r later total₁ ips₁ nodes₁ := by
  obtain ⟨total, node, ip⟩ := r
  obtain ⟨total₀, node₀, ip₀⟩ := r₀
  obtain ⟨ht, hi, hn⟩ := h
  refine ⟨ht.mono hle fun _ => htotal, ?_, ?_⟩
  · cases hi with
    | none => exact .none
    | some hi => exact .some (hi.mono hle hips)
  · cases hn with
    | none => exact .none
    | some hn => exact .some (hn.mono hle hnodes)

theorem Counts.prune (h : r₀.Counts r now total ips nodes) (htime : r₀.InTime now) :
    r₀.Counts (r.prune now) now total ips nodes := by
  obtain ⟨total, node, ip⟩ := r
  obtain ⟨total₀, node₀, ip₀⟩ := r₀
  obtain ⟨ht, hi, hn⟩ := h
  refine ⟨ht.prune htime.total, ?_, ?_⟩
  · cases hi with
    | none => exact .none
    | some hi => exact .some (hi.prune (htime.ip _ rfl))
  · cases hn with
    | none => exact .none
    | some hn => exact .some (hn.prune (htime.node _ rfl))

theorem Counts.allows_total (h : r₀.Counts r now total ips nodes) (htime : r₀.InTime now)
    (hsized : r₀.Sized) :
    ∃ ok : Bool, isErr (r.allows now .total).1 = some (!ok) ∧
      r₀.Counts (r.allows now .total).2 now (fun a => total a + if ok ∧ a ≤ now then 1 else 0)
        ips nodes := by
  obtain ⟨ok, hok, hcounts⟩ := h.total.allows htime.total hsized.total ()
  simp only [true_and] at hcounts
  exact ⟨ok, hok, hcounts, h.ip, h.node⟩

theorem Counts.allows_ip (h : r₀.Counts r now total ips nodes) (htime : r₀.InTime now)
    (hsized : r₀.Sized) (src : IpAddr) :
    ∃ ok : Bool, isErr (r.allows now (.ip src)).1 = some (!ok) ∧
      r₀.Counts (r.allows now (.ip src)).2 now total
        (fun ip a => ips ip a + if ok ∧ ip = src ∧ a ≤ now then 1 else 0) nodes := by
  obtain ⟨total, node, ip⟩ := r
  obtain ⟨total₀, node₀, ip₀⟩ := r₀
  obtain ⟨ht, hi, hn⟩ := h
  cases hi with
  | none => exact ⟨true, rfl, ht, .none, hn⟩
  | some hi =>
    obtain ⟨ok, hok, hcounts⟩ := hi.allows (htime.ip _ rfl) (hsized.ip _ rfl) src
    exact ⟨ok, hok, ht, .some hcounts, hn⟩

theorem Counts.allows_node (h : r₀.Counts r now total ips nodes) (htime : r₀.InTime now)
    (hsized : r₀.Sized) (nodeId : NodeId) :
    ∃ ok : Bool, isErr (r.allows now (.nodeId nodeId)).1 = some (!ok) ∧
      r₀.Counts (r.allows now (.nodeId nodeId)).2 now total ips
        (fun k a => nodes k a + if ok ∧ k = nodeId ∧ a ≤ now then 1 else 0) := by
  obtain ⟨total, node, ip⟩ := r
  obtain ⟨total₀, node₀, ip₀⟩ := r₀
  obtain ⟨ht, hi, hn⟩ := h
  cases hn with
  | none => exact ⟨true, rfl, ht, hi, .none⟩
  | some hn =>
    obtain ⟨ok, hok, hcounts⟩ := hn.allows (htime.node _ rfl) (hsized.node _ rfl) nodeId
    exact ⟨ok, hok, ht, hi, .some hcounts⟩

theorem optional_spec {K : Type} {quota : Option Quota} {limiter : Option (Limiter K)}
    (h : (quota.elim (.ok none) fun q => (Limiter.fromQuota q).map some) = .ok limiter) :
    (∀ l ∈ limiter, l.t ≤ l.tau) ∧
      Option.Rel (fun l₀ l => Limiter.Counts l₀ l 0 fun _ _ => 0) limiter limiter := by
  cases quota with
  | none =>
    obtain rfl := Except.ok.inj h
    refine ⟨fun l hl => ?_, .none⟩
    cases hl
  | some q =>
    simp only [Option.elim_some] at h
    cases hl : Limiter.fromQuota (K := K) q with
    | error e =>
      rw [hl] at h
      cases h
    | ok l =>
      rw [hl] at h
      obtain rfl := Except.ok.inj h
      obtain ⟨hnew, ht, -⟩ := Limiter.fromQuota_spec hl
      refine ⟨fun l' hl' => ?_, .some (.new hnew)⟩
      obtain rfl := Option.some.inj hl'
      exact ht

/-- A limiter that has been built has allowed nothing. -/
theorem build_spec {totalQuota nodeQuota ipQuota : Option Quota}
    (h : build totalQuota nodeQuota ipQuota = .ok r) :
    r.Sized ∧ r.Counts r 0 (fun _ => 0) (fun _ _ => 0) fun _ _ => 0 := by
  obtain ⟨tq, -, h⟩ := Rust.bind_eq_ok h
  obtain ⟨total, htotal, h⟩ := Rust.bind_eq_ok h
  obtain ⟨node, hnode, h⟩ := Rust.bind_eq_ok h
  obtain ⟨ip, hip, h⟩ := Rust.bind_eq_ok h
  obtain rfl := Except.ok.inj h
  obtain ⟨hnew, ht, -⟩ := Limiter.fromQuota_spec htotal
  exact ⟨⟨ht, (optional_spec hip).1, (optional_spec hnode).1⟩, .new hnew, (optional_spec hip).2,
    (optional_spec hnode).2⟩

end RateLimiter

namespace PacketFilter

variable {C D : Type} {known : LruOps C IpAddr (List NodeId)} {banned : LruOps D IpAddr Nat}
  {f : PacketFilter C D} {lists : PermitBanList} {r₀ r : RateLimiter} {now later : Nat}
  {verdicts : List Verdict} {v : Verdict}

/-- What holds of an enabled filter after its verdicts. -/
structure Keeps (f : PacketFilter C D) (r₀ : RateLimiter) (now : Nat) (verdicts : List Verdict) :
    Prop where
  enabled : f.enabled = true
  counts : ∃ r, f.rateLimiter = some r ∧
    r₀.Counts r now (since Verdict.isInitial · verdicts)
      (fun ip a => since (Verdict.isInitialOf ip) a verdicts)
      (fun nodeId a => since (Verdict.isFinalOf nodeId) a verdicts)

theorem Keeps.mono (h : f.Keeps r₀ now verdicts) (hle : now ≤ later) :
    f.Keeps r₀ later verdicts := by
  obtain ⟨r, hr, hcounts⟩ := h.counts
  exact ⟨h.enabled, r, hr, hcounts.mono hle (fun _ => Nat.le_refl _) (fun _ _ => Nat.le_refl _)
    fun _ _ => Nat.le_refl _⟩

/-- A packet that a permit list lets through, one that does not pass and a call without a packet
are not counted. -/
theorem Keeps.skip (h : f.Keeps r₀ now verdicts)
    (hv : v.permitted = true ∨ v.passes = false ∨ ¬ v.call.isPass) :
    f.Keeps r₀ now (v :: verdicts) := by
  obtain ⟨call, permitted, passes⟩ := v
  have hnot : call.isPass = true → (passes && !permitted) = false := by
    intro hpass
    rcases hv with hv | hv | hv
    · simp_all
    · simp_all
    · exact absurd hpass hv
  obtain ⟨r, hr, hcounts⟩ := h.counts
  refine ⟨h.enabled, r, hr, ?_⟩
  cases call with
  | initialPass time src =>
    simpa [since_cons, Verdict.isInitial, Verdict.isInitialOf, Verdict.isFinalOf, hnot rfl]
      using hcounts
  | finalPass time address =>
    simpa [since_cons, Verdict.isInitial, Verdict.isInitialOf, Verdict.isFinalOf, hnot rfl]
      using hcounts
  | pruneLimiter time =>
    simpa [since_cons, Verdict.isInitial, Verdict.isInitialOf, Verdict.isFinalOf] using hcounts
  | edit time change =>
    simpa [since_cons, Verdict.isInitial, Verdict.isInitialOf, Verdict.isFinalOf] using hcounts

theorem nodesPerIp_same (address : NodeAddress) :
    (f.nodesPerIp lists known now address).2.1.enabled = f.enabled ∧
      (f.nodesPerIp lists known now address).2.1.rateLimiter = f.rateLimiter := by
  simp only [nodesPerIp]
  split
  · exact ⟨rfl, rfl⟩
  · generalize known.getMut f.knownAddrs address.ip (List.insert address.nodeId) = found
    obtain ⟨_ | ids, knownAddrs⟩ := found <;> dsimp only <;> split <;> exact ⟨rfl, rfl⟩

theorem countBan_same (ip : IpAddr) (timeout : Option Nat) :
    (f.countBan lists banned ip timeout).1.enabled = f.enabled ∧
      (f.countBan lists banned ip timeout).1.rateLimiter = f.rateLimiter := by
  simp only [countBan]
  split
  · exact ⟨rfl, rfl⟩
  · split
    · split <;> exact ⟨rfl, rfl⟩
    · exact ⟨rfl, rfl⟩

/-- A packet that the limiters let through. -/
theorem keeps_initial {src : IpAddr} (henabled : f.enabled = true)
    (hr : f.rateLimiter = some r)
    (hcounts : r₀.Counts r now
      (fun a => since Verdict.isInitial a verdicts + if a ≤ now then 1 else 0)
      (fun ip a => since (Verdict.isInitialOf ip) a verdicts +
        if ip = src ∧ a ≤ now then 1 else 0)
      (fun nodeId a => since (Verdict.isFinalOf nodeId) a verdicts)) :
    f.Keeps r₀ now (⟨.initialPass now src, false, true⟩ :: verdicts) := by
  refine ⟨henabled, r, hr, hcounts.mono (Nat.le_refl _) (fun a => ?_) (fun ip a => ?_)
    fun nodeId a => ?_⟩
  · simp [since_cons, Verdict.isInitial, FilterCall.time]
  · simp [since_cons, Verdict.isInitialOf, FilterCall.time, eq_comm]
  · simp [since_cons, Verdict.isFinalOf]

theorem keeps_final {address : NodeAddress} (passes : Bool) (henabled : f.enabled = true)
    (hr : f.rateLimiter = some r)
    (hcounts : r₀.Counts r now (since Verdict.isInitial · verdicts)
      (fun ip a => since (Verdict.isInitialOf ip) a verdicts)
      (fun nodeId a => since (Verdict.isFinalOf nodeId) a verdicts +
        if nodeId = address.nodeId ∧ a ≤ now then 1 else 0)) :
    f.Keeps r₀ now (⟨.finalPass now address, false, passes⟩ :: verdicts) := by
  refine ⟨henabled, r, hr, hcounts.mono (Nat.le_refl _) (fun a => ?_) (fun ip a => ?_)
    fun nodeId a => ?_⟩
  · simp [since_cons, Verdict.isInitial]
  · simp [since_cons, Verdict.isInitialOf]
  · cases passes with
    | false => simp [since_cons, Verdict.isFinalOf]
    | true => simp [since_cons, Verdict.isFinalOf, FilterCall.time, eq_comm]

theorem Keeps.same {g : PacketFilter C D} (h : f.Keeps r₀ now verdicts)
    (hsame : g.enabled = f.enabled ∧ g.rateLimiter = f.rateLimiter) :
    g.Keeps r₀ now verdicts := by
  obtain ⟨r, hr, hcounts⟩ := h.counts
  exact ⟨hsame.1.trans h.enabled, r, hsame.2.trans hr, hcounts⟩

/-- **The first check**. -/
theorem Keeps.initialPass (h : f.Keeps r₀ now verdicts) (htime : r₀.InTime now)
    (hsized : r₀.Sized) (src : IpAddr) :
    ∃ passes f' lists', f.initialPass lists now src = some (passes, f', lists') ∧
      f'.Keeps r₀ now
        (⟨.initialPass now src, lists.permitIps src, passes⟩ :: verdicts) := by
  rw [PacketFilter.initialPass]
  by_cases hpermit : lists.permitIps src
  · rw [if_pos hpermit]
    exact ⟨_, _, _, rfl, h.skip (.inl hpermit)⟩
  · rw [if_neg hpermit]
    by_cases hban : (lists.banIps src).isSome
    · rw [if_pos hban]
      exact ⟨_, _, _, rfl, h.skip (.inr (.inl rfl))⟩
    · have hon : ¬ (!f.enabled) = true := by simp [h.enabled]
      obtain ⟨r, hr, hcounts⟩ := h.counts
      rw [if_neg hban, if_neg hon, hr, Bool.eq_false_of_not_eq_true hpermit]
      obtain ⟨ok, hok, hip⟩ := hcounts.allows_ip htime hsized src
      simp only [hok]
      cases ok with
      | false =>
        have hkeeps : PacketFilter.Keeps
            { f with rateLimiter := some (r.allows now (.ip src)).2 } r₀ now verdicts :=
          ⟨h.enabled, _, rfl, by simpa using hip⟩
        exact ⟨_, _, _, rfl, hkeeps.skip (.inr (.inl rfl))⟩
      | true =>
        obtain ⟨ok, hok, htotal⟩ := hip.allows_total htime hsized
        simp only [Option.bind_eq_bind, Option.bind_some, Bool.not_true, Bool.false_eq_true,
          if_false, hok]
        cases ok with
        | false =>
          have hkeeps : PacketFilter.Keeps
              { f with rateLimiter := some ((r.allows now (.ip src)).2.allows now .total).2 }
              r₀ now verdicts := by
            refine ⟨h.enabled, _, rfl, htotal.mono (Nat.le_refl _) (fun a => ?_) (fun ip a => ?_)
              fun _ _ => Nat.le_refl _⟩
            · exact Nat.le_add_right ..
            · exact Nat.le_add_right ..
          exact ⟨_, _, _, rfl, hkeeps.skip (.inr (.inl rfl))⟩
        | true => exact ⟨_, _, _, rfl, keeps_initial h.enabled rfl (by simpa using htotal)⟩

/-- **The second check**. -/
theorem Keeps.finalPass (h : f.Keeps r₀ now verdicts) (htime : r₀.InTime now)
    (hsized : r₀.Sized) (address : NodeAddress) :
    ∃ passes f' lists', f.finalPass lists known banned now address = some (passes, f', lists') ∧
      f'.Keeps r₀ now
        (⟨.finalPass now address, lists.permitNodes address.nodeId, passes⟩ :: verdicts) := by
  rw [PacketFilter.finalPass]
  by_cases hpermit : lists.permitNodes address.nodeId
  · rw [if_pos hpermit]
    exact ⟨_, _, _, rfl, h.skip (.inl hpermit)⟩
  · rw [if_neg hpermit]
    by_cases hban : (lists.banNodes address.nodeId).isSome
    · rw [if_pos hban]
      exact ⟨_, _, _, rfl, h.skip (.inr (.inl rfl))⟩
    · have hon : ¬ (!f.enabled) = true := by simp [h.enabled]
      obtain ⟨r, hr, hcounts⟩ := h.counts
      rw [if_neg hban, if_neg hon, hr, Bool.eq_false_of_not_eq_true hpermit]
      obtain ⟨ok, hok, hnode⟩ := hcounts.allows_node htime hsized address.nodeId
      simp only [hok]
      cases ok with
      | false =>
        have hkeeps : PacketFilter.Keeps
            { f with rateLimiter := some (r.allows now (.nodeId address.nodeId)).2 }
            r₀ now verdicts :=
          ⟨h.enabled, _, rfl, by simpa using hnode⟩
        exact ⟨_, _, _, rfl, (hkeeps.same (countBan_same ..)).skip (.inr (.inl rfl))⟩
      | true =>
        have hkeeps : ∀ passes, PacketFilter.Keeps
            { f with rateLimiter := some (r.allows now (.nodeId address.nodeId)).2 }
            r₀ now (⟨.finalPass now address, false, passes⟩ :: verdicts) :=
          fun passes => keeps_final passes h.enabled rfl (by simpa using hnode)
        exact ⟨_, _, _, rfl, (hkeeps _).same (nodesPerIp_same ..)⟩

variable (known banned lists) in
theorem Keeps.act (h : f.Keeps r₀ now verdicts) {call : FilterCall} (hle : now ≤ call.time)
    (htime : r₀.InTime call.time) (hsized : r₀.Sized) :
    ∃ passes f' lists', f.act known banned lists call = some (passes, f', lists') ∧
      f'.Keeps r₀ call.time (⟨call, call.permitted lists, passes⟩ :: verdicts) := by
  have h := h.mono hle
  cases call with
  | initialPass time src => exact h.initialPass htime hsized src
  | finalPass time address => exact h.finalPass htime hsized address
  | pruneLimiter time =>
    obtain ⟨r, hr, hcounts⟩ := h.counts
    have hkeeps : (f.pruneLimiter time).Keeps r₀ time verdicts := by
      refine ⟨h.enabled, r.prune time, ?_, hcounts.prune htime⟩
      rw [pruneLimiter, hr]
      rfl
    exact ⟨_, _, _, rfl, hkeeps.skip (.inr (.inr Bool.false_ne_true))⟩
  | edit time change => exact ⟨_, _, _, rfl, h.skip (.inr (.inr Bool.false_ne_true))⟩

/-- The calls come one after the other, at times for which no sum leaves `u64`. -/
def Timely (r₀ : RateLimiter) (calls : List FilterCall) : Prop :=
  (calls.Pairwise fun a b => b.time ≤ a.time) ∧ ∀ c ∈ calls, r₀.InTime c.time

theorem Keeps.after (h : f.Keeps r₀ 0 []) (hsized : r₀.Sized) {calls : List FilterCall}
    (hcalls : Timely r₀ calls) (hnow : ∀ c ∈ calls, c.time ≤ now) :
    ∃ verdicts f' lists', f.after known banned lists calls = some (verdicts, f', lists') ∧
      f'.Keeps r₀ now verdicts := by
  induction calls generalizing now with
  | nil => exact ⟨_, _, _, rfl, h.mono (Nat.zero_le _)⟩
  | cons call older ih =>
    obtain ⟨hpair, hin⟩ := hcalls
    obtain ⟨hbefore, hpair⟩ := List.pairwise_cons.1 hpair
    obtain ⟨htime, hin⟩ := List.forall_mem_cons.1 hin
    obtain ⟨verdicts, f', lists', hafter, hkeeps⟩ := ih ⟨hpair, hin⟩ hbefore
    obtain ⟨passes, g, lists'', hact, hkeeps⟩ :=
      hkeeps.act known banned lists' (Nat.le_refl _) htime hsized
    have hcall := hnow call (List.mem_cons_self ..)
    refine ⟨_, g, lists'', ?_, hkeeps.mono hcall⟩
    simp only [PacketFilter.after, hafter, hact, Option.bind_eq_bind, Option.bind_some]

/-- **What the filter lets through.** In every run of an enabled filter with limits, prunes and
changes of the lists by others among its calls, the limiters do not panic, and in every window that
ends with the run the packets that pass, though not by a permit list, keep the limits: the
unsolicited packets in all, those of each IP and those of each node. -/
theorem after_bounded (totalQuota nodeQuota ipQuota : Option Quota) (r₀ : RateLimiter)
    (hbuild : RateLimiter.build totalQuota nodeQuota ipQuota = .ok r₀) (f : PacketFilter C D)
    (henabled : f.enabled = true) (hlimiter : f.rateLimiter = some r₀) (lists : PermitBanList)
    (calls : List FilterCall) (now : Nat) (hcalls : Timely r₀ calls)
    (hnow : ∀ c ∈ calls, c.time ≤ now) :
    ∃ verdicts f' lists', f.after known banned lists calls = some (verdicts, f', lists') ∧
      ∀ a ≤ now,
        since Verdict.isInitial a verdicts * r₀.totalRl.t ≤ (now - a) + r₀.totalRl.tau ∧
        (∀ l ∈ r₀.ipRl, ∀ ip,
          since (Verdict.isInitialOf ip) a verdicts * l.t ≤ (now - a) + l.tau) ∧
        ∀ l ∈ r₀.nodeRl, ∀ nodeId,
          since (Verdict.isFinalOf nodeId) a verdicts * l.t ≤ (now - a) + l.tau := by
  obtain ⟨hsized, hcounts⟩ := RateLimiter.build_spec hbuild
  have hstart : f.Keeps r₀ 0 [] := ⟨henabled, r₀, hlimiter, hcounts⟩
  obtain ⟨verdicts, f', lists', hafter, hkeeps⟩ := hstart.after hsized hcalls hnow
  refine ⟨verdicts, f', lists', hafter, fun a ha => ?_⟩
  obtain ⟨⟨total, node, ip⟩, -, htotal, hip, hnode⟩ := hkeeps.counts
  refine ⟨htotal.bound () ha, fun l hl ip => ?_, fun l hl nodeId => ?_⟩
  · rw [Option.mem_def.1 hl] at hip
    cases hip with
    | some hip => exact hip.bound ip ha
  · rw [Option.mem_def.1 hl] at hnode
    cases hnode with
    | some hnode => exact hnode.bound nodeId ha

/-- Packets of one IP, of which one is allowed within a second and two are in all. -/
theorem after_bounded_burst :
    ∃ (r₀ : RateLimiter) (f : PacketFilter (List (IpAddr × List NodeId)) (List (IpAddr × Nat)))
      (src : IpAddr) (lists : PermitBanList) (verdicts : List Verdict) (f' : _) (lists' : _),
      f.after (.ofList 500) (.ofList 50) lists
          [.initialPass 20 src, .pruneLimiter 15, .initialPass 10 src] =
        some (verdicts, f', lists') ∧
      RateLimiter.build (some ⟨1000, 2⟩) none (some ⟨1000, 1⟩) = .ok r₀ ∧
      since (Verdict.isInitialOf src) 10 verdicts * 1000 ≤ (20 - 10) + 1000 := by
  let src : IpAddr := .v4 ⟨[127, 0, 0, 1], rfl⟩
  let r₀ : RateLimiter :=
    { totalRl := { tau := 1000, t := 500, tatPerKey := fun _ => none }
      nodeRl := none
      ipRl := some { tau := 1000, t := 1000, tatPerKey := fun _ => none } }
  have htime : ∀ now ≤ 1000, r₀.InTime now := by
    intro now hnow
    refine ⟨?_, fun l hl => ?_, fun l hl => ?_⟩
    · simp only [Limiter.InTime, r₀]
      omega
    · obtain rfl := Option.some.inj hl
      simp only [Limiter.InTime]
      omega
    · cases hl
  obtain ⟨verdicts, f', lists', hafter, hbound⟩ := after_bounded (some ⟨1000, 2⟩) none
    (some ⟨1000, 1⟩) r₀ rfl
    { enabled := true, rateLimiter := some r₀, banDuration := some 5000, knownAddrs := []
      bannedNodes := [], maxNodesPerIp := some 10, maxBansPerIp := some 5 } rfl rfl
    { permitIps := fun _ => false, banIps := fun _ => none, permitNodes := fun _ => false
      banNodes := fun _ => none }
    [.initialPass 20 src, .pruneLimiter 15, .initialPass 10 src] 20
    ⟨by simp [FilterCall.time], by simp [FilterCall.time, htime]⟩ (by simp [FilterCall.time])
  exact ⟨_, _, src, _, verdicts, f', lists', hafter, rfl, (hbound 10 (by decide)).2.1 _ rfl _⟩

end PacketFilter

end Discv5
