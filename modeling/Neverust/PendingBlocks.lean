import Mathlib.Data.List.AList
import Mathlib.Data.List.Induction
import Neverust.Storage.Types

/-!
# Pending blocks (`pending_blocks.rs`)

`PendingBlocksManager` keeps one entry for each CID that is waited for. A receiver is a number; what
it has received, or that its sender is gone, is kept in `receivers`. Instants are natural numbers of
nanoseconds. `start_time`, which only a log line reads, is left out.

* `Tracks`: every entry belongs to a receiver of its CID that is still waiting.
* `delivers_iff`: in which runs every waiter gets its block.
-/

namespace PendingBlocks

open Storage

/-- `DEFAULT_MAX_RETRIES`. -/
def defaultMaxRetries : UInt32 := 3

/-- `DEFAULT_RETRY_INTERVAL`, 500 ms. -/
def defaultRetryInterval : Nat := 500 * 1000000

/-- The receiving end of a `oneshot` channel. -/
inductive Receiver
  | waiting
  | received (block : Block)
  | closed
  deriving Repr, DecidableEq

structure PendingBlock where
  sender : Nat
  retriesLeft : UInt32
  lastAttempt : Nat
  inFlight : Bool
  deriving Repr, DecidableEq

structure PendingBlocksManager where
  pending : AList fun _ : Cid => PendingBlock
  maxRetries : UInt32
  retryInterval : Nat
  receivers : List Receiver

namespace PendingBlocksManager

def withConfig (maxRetries : UInt32) (retryInterval : Nat) : PendingBlocksManager :=
  { pending := ∅, maxRetries, retryInterval, receivers := [] }

def new : PendingBlocksManager := withConfig defaultMaxRetries defaultRetryInterval

variable (m : PendingBlocksManager)

def isPending (cid : Cid) : Bool := (m.pending.lookup cid).isSome

/-- The manager after the call, and the receiver it returns. -/
def addPending (now : Nat) (cid : Cid) : PendingBlocksManager × Nat :=
  let receiver := m.receivers.length
  match m.pending.lookup cid with
  | some _ => ({ m with receivers := m.receivers ++ [.closed] }, receiver)
  | none =>
    let pendingBlock : PendingBlock :=
      { sender := receiver, retriesLeft := m.maxRetries, lastAttempt := now, inFlight := false }
    ({ m with
        pending := m.pending.insert cid pendingBlock
        receivers := m.receivers ++ [.waiting] }, receiver)

def complete (cid : Cid) (block : Block) : PendingBlocksManager × Bool :=
  match m.pending.lookup cid with
  | some pending =>
    ({ m with
        pending := m.pending.erase cid
        receivers := m.receivers.set pending.sender (.received block) }, true)
  | none => (m, false)

/-- `get_mut` and a change of the entry. -/
def modify (cid : Cid) (f : PendingBlock → PendingBlock) : PendingBlocksManager :=
  match m.pending.lookup cid with
  | some pending => { m with pending := m.pending.insert cid (f pending) }
  | none => m

def setInFlight (now : Nat) (cid : Cid) (inFlight : Bool) : PendingBlocksManager :=
  m.modify cid fun pending =>
    { pending with
      inFlight
      lastAttempt := if inFlight then now else pending.lastAttempt }

def decrementRetries (cid : Cid) : PendingBlocksManager :=
  m.modify cid fun pending =>
    if pending.retriesLeft > 0 then { pending with retriesLeft := pending.retriesLeft - 1 }
    else pending

def isInFlight (cid : Cid) : Bool := ((m.pending.lookup cid).map PendingBlock.inFlight).getD false

/-- `elapsed` saturates. -/
def shouldRetry (now : Nat) (cid : Cid) : Bool :=
  match m.pending.lookup cid with
  | some pending =>
    !pending.inFlight && pending.retriesLeft > 0 && now - pending.lastAttempt ≥ m.retryInterval
  | none => false

def getPendingCids : List Cid := m.pending.keys

def len : Nat := m.pending.entries.length

def isEmpty : Bool := m.pending.entries.isEmpty

def retriesRemaining (cid : Cid) : Option UInt32 :=
  (m.pending.lookup cid).map PendingBlock.retriesLeft

def retriesExhausted (cid : Cid) : Bool :=
  ((m.pending.lookup cid).map fun pending => decide (pending.retriesLeft = 0)).getD false

end PendingBlocksManager

/-! ## Runs -/

inductive Query
  | isPending (cid : Cid)
  | isInFlight (cid : Cid)
  | shouldRetry (now : Nat) (cid : Cid)
  | getPendingCids
  | len
  | isEmpty
  | retriesRemaining (cid : Cid)
  | retriesExhausted (cid : Cid)
  deriving Repr, DecidableEq

inductive Answer
  | flag (b : Bool)
  | cids (cids : List Cid)
  | count (n : Nat)
  | retries (n : Option UInt32)
  deriving Repr, DecidableEq

def Query.answer (m : PendingBlocksManager) : Query → Answer
  | .isPending cid => .flag (m.isPending cid)
  | .isInFlight cid => .flag (m.isInFlight cid)
  | .shouldRetry now cid => .flag (m.shouldRetry now cid)
  | .getPendingCids => .cids m.getPendingCids
  | .len => .count m.len
  | .isEmpty => .flag m.isEmpty
  | .retriesRemaining cid => .retries (m.retriesRemaining cid)
  | .retriesExhausted cid => .flag (m.retriesExhausted cid)

inductive Call
  | addPending (now : Nat) (cid : Cid)
  | complete (cid : Cid) (block : Block)
  | setInFlight (now : Nat) (cid : Cid) (inFlight : Bool)
  | decrementRetries (cid : Cid)
  | query (q : Query)
  deriving Repr, DecidableEq

/-- The value of a call. -/
inductive Outcome
  | receiver (r : Nat)
  | completed (b : Bool)
  | done
  | answer (a : Answer)
  deriving Repr, DecidableEq

def Call.step (m : PendingBlocksManager) : Call → PendingBlocksManager × Outcome
  | .addPending now cid =>
    let (m, receiver) := m.addPending now cid
    (m, .receiver receiver)
  | .complete cid block =>
    let (m, completed) := m.complete cid block
    (m, .completed completed)
  | .setInFlight now cid inFlight => (m.setInFlight now cid inFlight, .done)
  | .decrementRetries cid => (m.decrementRetries cid, .done)
  | .query q => (m, .answer (q.answer m))

def run (m : PendingBlocksManager) (calls : List Call) : PendingBlocksManager :=
  calls.foldl (fun m call => (call.step m).1) m

/-- Every waiter gets its block: the receiver of an `add_pending` gets the block of the next
`complete` of the CID, and a receiver gets no block under another CID. -/
structure Delivers (m : PendingBlocksManager) (calls : List Call) : Prop where
  receives : ∀ pre now cid mid block post,
    calls = pre ++ .addPending now cid :: (mid ++ .complete cid block :: post) →
    (∀ b, .complete cid b ∉ mid) →
    (run m calls).receivers[((run m pre).addPending now cid).2]? = some (.received block)
  own : ∀ pre now cid post block, calls = pre ++ .addPending now cid :: post →
    (run m calls).receivers[((run m pre).addPending now cid).2]? = some (.received block) →
    block.cid = cid

/-- Nobody else waits for a CID that is asked for and completed later, and a pending CID is completed
with a block under this CID. -/
structure Disciplined (m : PendingBlocksManager) (calls : List Call) : Prop where
  single : ∀ pre now cid mid block post,
    calls = pre ++ .addPending now cid :: (mid ++ .complete cid block :: post) →
    (∀ b, .complete cid b ∉ mid) → (run m pre).isPending cid = false
  matching : ∀ pre cid block post, calls = pre ++ .complete cid block :: post →
    (run m pre).isPending cid = true → block.cid = cid

/-! ## One call -/

section
variable {m : PendingBlocksManager} {cid cid' : Cid} {call : Call}

theorem lookup_modify (f : PendingBlock → PendingBlock) :
    (m.modify cid f).pending.lookup cid' =
      (m.pending.lookup cid').map fun pending => if cid' = cid then f pending else pending := by
  rw [PendingBlocksManager.modify]
  cases hlook : m.pending.lookup cid with
  | none =>
    obtain rfl | heq := eq_or_ne cid' cid
    · simp [hlook]
    · simp [heq]
  | some pending =>
    obtain rfl | heq := eq_or_ne cid' cid
    · simp [hlook]
    · simp [heq, AList.lookup_insert_ne heq]

@[simp] theorem receivers_modify (f : PendingBlock → PendingBlock) :
    (m.modify cid f).receivers = m.receivers := by
  rw [PendingBlocksManager.modify]
  split <;> rfl

/-- The receivers that wait for a CID. -/
def senderOf (m : PendingBlocksManager) (cid : Cid) : Option Nat :=
  (m.pending.lookup cid).map PendingBlock.sender

theorem isPending_eq : m.isPending cid = (senderOf m cid).isSome := by
  simp [PendingBlocksManager.isPending, senderOf]

/-- What a call does to the senders and the receivers. -/
theorem step_cases (m : PendingBlocksManager) (call : Call) :
    (∃ now cid, call = .addPending now cid ∧ senderOf m cid ≠ none ∧
      (∀ c, senderOf (call.step m).1 c = senderOf m c) ∧
      (call.step m).1.receivers = m.receivers ++ [.closed]) ∨
    (∃ now cid, call = .addPending now cid ∧ senderOf m cid = none ∧
      (∀ c, senderOf (call.step m).1 c =
        if c = cid then some m.receivers.length else senderOf m c) ∧
      (call.step m).1.receivers = m.receivers ++ [.waiting]) ∨
    (∃ cid block sender, call = .complete cid block ∧ senderOf m cid = some sender ∧
      (∀ c, senderOf (call.step m).1 c = if c = cid then none else senderOf m c) ∧
      (call.step m).1.receivers = m.receivers.set sender (.received block)) ∨
    ((∀ now cid, call ≠ .addPending now cid) ∧
      (∀ cid block, call = .complete cid block → senderOf m cid = none) ∧
      (∀ c, senderOf (call.step m).1 c = senderOf m c) ∧
      (call.step m).1.receivers = m.receivers) := by
  cases call with
  | addPending now cid =>
    cases hlook : m.pending.lookup cid with
    | some pending =>
      refine .inl ⟨now, cid, rfl, by simp [senderOf, hlook], fun c => ?_, ?_⟩ <;>
        simp [Call.step, PendingBlocksManager.addPending, hlook, senderOf]
    | none =>
      refine .inr (.inl ⟨now, cid, rfl, by simp [senderOf, hlook], fun c => ?_, ?_⟩)
      · obtain rfl | heq := eq_or_ne c cid
        · simp [Call.step, PendingBlocksManager.addPending, hlook, senderOf]
        · simp [Call.step, PendingBlocksManager.addPending, hlook, senderOf, heq,
            AList.lookup_insert_ne heq]
      · simp [Call.step, PendingBlocksManager.addPending, hlook]
  | complete cid block =>
    cases hlook : m.pending.lookup cid with
    | some pending =>
      refine .inr (.inr (.inl ⟨cid, block, pending.sender, rfl, by simp [senderOf, hlook],
        fun c => ?_, ?_⟩))
      · obtain rfl | heq := eq_or_ne c cid
        · simp [Call.step, PendingBlocksManager.complete, hlook, senderOf]
        · simp [Call.step, PendingBlocksManager.complete, hlook, senderOf, heq,
            AList.lookup_erase_ne heq]
      · simp [Call.step, PendingBlocksManager.complete, hlook]
    | none =>
      refine .inr (.inr (.inr ⟨by simp, fun c b heq => ?_, fun c => ?_, ?_⟩))
      · cases heq
        simp [senderOf, hlook]
      · simp [Call.step, PendingBlocksManager.complete, hlook]
      · simp [Call.step, PendingBlocksManager.complete, hlook]
  | setInFlight now cid inFlight =>
    refine .inr (.inr (.inr ⟨by simp, by simp, fun c => ?_, ?_⟩))
    · rw [senderOf, senderOf, Call.step, PendingBlocksManager.setInFlight, lookup_modify,
        Option.map_map]
      congr 1
      funext pending
      simp only [Function.comp_apply]
      split <;> rfl
    · simp [Call.step, PendingBlocksManager.setInFlight]
  | decrementRetries cid =>
    refine .inr (.inr (.inr ⟨by simp, by simp, fun c => ?_, ?_⟩))
    · rw [senderOf, senderOf, Call.step, PendingBlocksManager.decrementRetries, lookup_modify,
        Option.map_map]
      congr 1
      funext pending
      simp only [Function.comp_apply]
      split
      · split <;> rfl
      · rfl
    · simp [Call.step, PendingBlocksManager.decrementRetries]
  | query q => exact .inr (.inr (.inr ⟨by simp, by simp, fun _ => rfl, rfl⟩))

theorem addPending_receiver (m : PendingBlocksManager) (now : Nat) (cid : Cid) :
    (m.addPending now cid).2 = m.receivers.length := by
  rw [PendingBlocksManager.addPending]
  split <;> rfl

end

/-! ## Whole runs -/

section
variable {m : PendingBlocksManager} {owners : List Cid} {cid : Cid} {call : Call} {r : Nat}

/-- The CIDs of the receivers. -/
def ownersOf (calls : List Call) : List Cid :=
  calls.filterMap fun call =>
    match call with
    | .addPending _ cid => some cid
    | _ => none

/-- Every entry belongs to a receiver of its CID that is still waiting. -/
structure Tracks (m : PendingBlocksManager) (owners : List Cid) : Prop where
  length_eq : m.receivers.length = owners.length
  owner : ∀ cid r, senderOf m cid = some r → owners[r]? = some cid
  waiting : ∀ cid r, senderOf m cid = some r → m.receivers[r]? = some .waiting

theorem Tracks.init (maxRetries : UInt32) (retryInterval : Nat) :
    Tracks (.withConfig maxRetries retryInterval) [] := by
  constructor <;> simp [PendingBlocksManager.withConfig, senderOf]

theorem Tracks.step (h : Tracks m owners) (call : Call) :
    Tracks (call.step m).1 (owners ++ ownersOf [call]) := by
  obtain ⟨hlen, howner, hwait⟩ := h
  have hlt : ∀ {c r}, senderOf m c = some r → r < owners.length := fun hs =>
    (List.getElem?_eq_some_iff.1 (howner _ _ hs)).1
  obtain ⟨now, cid, rfl, -, hs, hr⟩ | ⟨now, cid, rfl, -, hs, hr⟩ |
    ⟨cid, block, sender, rfl, hsend, hs, hr⟩ | ⟨hadd, -, hs, hr⟩ := step_cases m call
  · refine ⟨by simp [hr, hlen, ownersOf], fun c r hc => ?_, fun c r hc => ?_⟩ <;> rw [hs] at hc
    · rw [List.getElem?_append_left (hlt hc)]
      exact howner c r hc
    · rw [hr, List.getElem?_append_left (hlen ▸ hlt hc)]
      exact hwait c r hc
  · refine ⟨by simp [hr, hlen, ownersOf], fun c r hc => ?_, fun c r hc => ?_⟩ <;> rw [hs] at hc <;>
      split at hc
    · rename_i heq
      cases hc
      simp [hlen, heq, ownersOf]
    · rw [List.getElem?_append_left (hlt hc)]
      exact howner c r hc
    · cases hc
      simp [hr]
    · rw [hr, List.getElem?_append_left (hlen ▸ hlt hc)]
      exact hwait c r hc
  · refine ⟨by simp [hr, hlen, ownersOf], fun c r hc => ?_, fun c r hc => ?_⟩ <;> rw [hs] at hc <;>
      split at hc
    · cases hc
    · simpa [ownersOf] using howner c r hc
    · cases hc
    · rename_i hne
      -- two CIDs do not share a receiver
      have hneq : sender ≠ r := by
        rintro rfl
        exact hne (Option.some.inj ((howner c sender hc).symm.trans (howner cid sender hsend)))
      rw [hr, List.getElem?_set_ne hneq]
      exact hwait c r hc
  · have hnone : ownersOf [call] = [] := by
      cases call <;> simp_all [ownersOf]
    rw [hnone, List.append_nil]
    exact ⟨hr ▸ hlen, fun c r hc => howner c r (hs c ▸ hc), fun c r hc => hr ▸ hwait c r (hs c ▸ hc)⟩

/-- A receiver that no longer waits keeps what it has. -/
theorem Tracks.settled (h : Tracks m owners) (call : Call) {slot : Receiver}
    (hslot : m.receivers[r]? = some slot) (hne : slot ≠ .waiting) :
    (call.step m).1.receivers[r]? = some slot := by
  have hlt := (List.getElem?_eq_some_iff.1 hslot).1
  obtain ⟨now, cid, -, -, -, hr⟩ | ⟨now, cid, -, -, -, hr⟩ | ⟨cid, block, sender, -, hsend, -, hr⟩ |
    ⟨-, -, -, hr⟩ := step_cases m call
  · rw [hr, List.getElem?_append_left hlt, hslot]
  · rw [hr, List.getElem?_append_left hlt, hslot]
  · have hneq : sender ≠ r := by
      rintro rfl
      exact hne (Option.some.inj (hslot.symm.trans (h.waiting cid sender hsend)))
    rw [hr, List.getElem?_set_ne hneq, hslot]
  · rw [hr, hslot]

theorem run_cons (m : PendingBlocksManager) (call : Call) (calls : List Call) :
    run m (call :: calls) = run (call.step m).1 calls := rfl

theorem run_append (m : PendingBlocksManager) (pre calls : List Call) :
    run m (pre ++ calls) = run (run m pre) calls := List.foldl_append

theorem ownersOf_append (pre calls : List Call) :
    ownersOf (pre ++ calls) = ownersOf pre ++ ownersOf calls := List.filterMap_append

theorem Tracks.run (h : Tracks m owners) (calls : List Call) :
    Tracks (run m calls) (owners ++ ownersOf calls) := by
  induction calls generalizing m owners with
  | nil =>
    rw [show ownersOf [] = [] from rfl, List.append_nil]
    exact h
  | cons call calls ih =>
    rw [run_cons, show call :: calls = [call] ++ calls from rfl, ownersOf_append,
      ← List.append_assoc]
    exact ih (h.step call)

theorem Tracks.settled_run (h : Tracks m owners) (calls : List Call) {slot : Receiver}
    (hslot : m.receivers[r]? = some slot) (hne : slot ≠ .waiting) :
    (PendingBlocks.run m calls).receivers[r]? = some slot := by
  induction calls generalizing m owners with
  | nil => exact hslot
  | cons call calls ih => exact ih (h.step call) (h.settled call hslot hne)

/-- A CID stays pending, with its receiver, until it is completed. -/
theorem senderOf_run (calls : List Call) (hnot : ∀ b, .complete cid b ∉ calls)
    (h : senderOf m cid = some r) : senderOf (run m calls) cid = some r := by
  induction calls generalizing m with
  | nil => exact h
  | cons call calls ih =>
    refine ih (fun b hb => hnot b (List.mem_cons_of_mem _ hb)) ?_
    obtain ⟨now, c, -, -, hs, -⟩ | ⟨now, c, -, hc, hs, -⟩ | ⟨c, block, sender, rfl, -, hs, -⟩ |
      ⟨-, -, hs, -⟩ := step_cases m call
    · rw [hs, h]
    · rw [hs, if_neg (by rintro rfl; simp [h] at hc), h]
    · rw [hs, if_neg (by rintro rfl; exact hnot block (by simp)), h]
    · rw [hs, h]

/-- The call that has made a receiver. -/
theorem exists_addPending {calls : List Call} (h : (ownersOf calls)[r]? = some cid) :
    ∃ pre now post, calls = pre ++ .addPending now cid :: post ∧ (ownersOf pre).length = r := by
  induction calls generalizing r with
  | nil => simp [ownersOf] at h
  | cons call calls ih =>
    rw [show call :: calls = [call] ++ calls from rfl, ownersOf_append] at h
    by_cases hr : r < (ownersOf [call]).length
    · rw [List.getElem?_append_left hr] at h
      cases call with
      | addPending now c =>
        obtain rfl : r = 0 := by simpa [ownersOf] using hr
        obtain rfl : c = cid := by simpa [ownersOf] using h
        exact ⟨[], now, calls, rfl, rfl⟩
      | _ => simp [ownersOf] at h
    · rw [List.getElem?_append_right (by omega)] at h
      obtain ⟨pre, now, post, rfl, hlen⟩ := ih h
      refine ⟨call :: pre, now, post, rfl, ?_⟩
      rw [show call :: pre = [call] ++ pre from rfl, ownersOf_append, List.length_append, hlen]
      omega

end

section
variable {m : PendingBlocksManager} {owners : List Cid} {cid : Cid} {r : Nat}

theorem addPending_fresh (now : Nat) (h : senderOf m cid = none) :
    senderOf ((Call.addPending now cid).step m).1 cid = some m.receivers.length := by
  have hlook : m.pending.lookup cid = none := by simpa [senderOf] using h
  simp [senderOf, Call.step, PendingBlocksManager.addPending, hlook]

theorem addPending_again (now : Nat) (h : senderOf m cid ≠ none) :
    ((Call.addPending now cid).step m).1.receivers[m.receivers.length]? = some .closed := by
  obtain ⟨pending, hlook⟩ : ∃ pending, m.pending.lookup cid = some pending :=
    Option.ne_none_iff_exists'.1 fun hnone => h (by simp [senderOf, hnone])
  simp [Call.step, PendingBlocksManager.addPending, hlook]

theorem complete_received (htracks : Tracks m owners) (block : Block)
    (h : senderOf m cid = some r) :
    ((Call.complete cid block).step m).1.receivers[r]? = some (.received block) := by
  have hlt := (List.getElem?_eq_some_iff.1 (htracks.waiting cid r h)).1
  obtain ⟨pending, hlook, rfl⟩ := Option.map_eq_some_iff.1 h
  simp [Call.step, PendingBlocksManager.complete, hlook, hlt]

end

section
variable {calls : List Call} {maxRetries : UInt32} {retryInterval : Nat}

theorem getElem?_of_snoc {α : Type} {l : List α} {a b : α} {r : Nat} (h : (l ++ [a])[r]? = some b)
    (hne : a ≠ b) : l[r]? = some b := by
  rw [List.getElem?_append] at h
  split at h
  · exact h
  · simp only [List.getElem?_singleton] at h
    split at h
    · exact absurd (Option.some.inj h) hne
    · cases h

theorem tracks_run (maxRetries : UInt32) (retryInterval : Nat) (calls : List Call) :
    Tracks (run (.withConfig maxRetries retryInterval) calls) (ownersOf calls) :=
  (Tracks.init maxRetries retryInterval).run calls

/-- What a receiver has received has its CID. -/
theorem received_own {rest : List Call}
    (h : Disciplined (.withConfig maxRetries retryInterval) calls) {pre : List Call}
    (hsplit : calls = pre ++ rest) {r : Nat} {block : Block}
    (hslot : (run (.withConfig maxRetries retryInterval) pre).receivers[r]? =
      some (.received block)) : (ownersOf pre)[r]? = some block.cid := by
  induction pre using List.reverseRecOn generalizing rest with
  | nil => simp [run, PendingBlocksManager.withConfig] at hslot
  | append_singleton pre call ih =>
    have hprev := @ih (call :: rest) (by simpa using hsplit)
    have htracks := tracks_run maxRetries retryInterval pre
    have hold : (run (.withConfig maxRetries retryInterval) pre).receivers[r]? =
        some (.received block) → (ownersOf (pre ++ [call]))[r]? = some block.cid := fun hslot => by
      have howner := hprev hslot
      rw [ownersOf_append, List.getElem?_append_left (List.getElem?_eq_some_iff.1 howner).1]
      exact howner
    rw [run_append] at hslot
    change (call.step _).1.receivers[r]? = _ at hslot
    obtain ⟨now, cid, -, -, -, hr⟩ | ⟨now, cid, -, -, -, hr⟩ | ⟨cid, b, sender, rfl, hsend, -, hr⟩ |
      ⟨-, -, -, hr⟩ := step_cases (run (.withConfig maxRetries retryInterval) pre) call <;>
      rw [hr] at hslot
    · exact hold (getElem?_of_snoc hslot (by simp))
    · exact hold (getElem?_of_snoc hslot (by simp))
    · obtain rfl | hneq := eq_or_ne sender r
      · have howner := htracks.owner cid sender hsend
        have hcid := h.matching pre cid b rest (by simpa using hsplit)
          (by rw [isPending_eq, hsend, Option.isSome_some])
        rw [List.getElem?_set_self
          (List.getElem?_eq_some_iff.1 (htracks.waiting cid sender hsend)).1] at hslot
        cases hslot
        rw [ownersOf_append, List.getElem?_append_left (List.getElem?_eq_some_iff.1 howner).1, hcid,
          howner]
      · rw [List.getElem?_set_ne hneq] at hslot
        exact hold hslot
    · exact hold hslot

/-- **In which runs every waiter gets its block.** -/
theorem delivers_iff (maxRetries : UInt32) (retryInterval : Nat) (calls : List Call) :
    Delivers (.withConfig maxRetries retryInterval) calls ↔
      Disciplined (.withConfig maxRetries retryInterval) calls := by
  constructor
  · intro h
    constructor
    · intro pre now cid mid block post hsplit hmid
      have hgot := h.receives pre now cid mid block post hsplit hmid
      have htracks := tracks_run maxRetries retryInterval pre
      rw [isPending_eq, Option.isSome_eq_false_iff, Option.isNone_iff_eq_none]
      by_contra hpend
      have hclosed := (htracks.step (.addPending now cid)).settled_run
        (mid ++ .complete cid block :: post) (addPending_again now hpend) (by simp)
      rw [addPending_receiver, hsplit, run_append, run_cons, hclosed] at hgot
      cases hgot
    · intro pre cid block post hsplit hpend
      have htracks := tracks_run maxRetries retryInterval pre
      rw [isPending_eq] at hpend
      obtain ⟨r, hsend⟩ := Option.isSome_iff_exists.1 hpend
      obtain ⟨pre', now, mid, rfl, hlen⟩ := exists_addPending (htracks.owner cid r hsend)
      refine h.own pre' now cid (mid ++ .complete cid block :: post) block (by simp [hsplit]) ?_
      rw [addPending_receiver, (tracks_run maxRetries retryInterval pre').length_eq, hlen, hsplit,
        run_append, run_cons]
      exact (htracks.step _).settled_run post (complete_received htracks block hsend) (by simp)
  · intro h
    constructor
    · intro pre now cid mid block post hsplit hmid
      have hfree := h.single pre now cid mid block post hsplit hmid
      have htracks := (tracks_run maxRetries retryInterval pre).step (.addPending now cid)
      rw [isPending_eq, Option.isSome_eq_false_iff, Option.isNone_iff_eq_none] at hfree
      have hsend := senderOf_run mid hmid (addPending_fresh now hfree)
      have htracks' := htracks.run mid
      rw [addPending_receiver, hsplit, run_append, run_cons, run_append, run_cons]
      exact (htracks'.step _).settled_run post (complete_received htracks' block hsend) (by simp)
    · intro pre now cid post block hsplit hslot
      have howner := received_own h (List.append_nil calls).symm hslot
      rw [addPending_receiver, (tracks_run maxRetries retryInterval pre).length_eq, hsplit,
        ownersOf_append, List.getElem?_append_right (Nat.le_refl _)] at howner
      simpa [ownersOf] using howner.symm

/-- Two callers wait for one block: the second one does not get it. -/
theorem second_waiter_lost : ¬ Delivers .new
    [.addPending 0 (Cid.newV1 0 ⟨0, []⟩), .addPending 1 (Cid.newV1 0 ⟨0, []⟩),
      .complete (Cid.newV1 0 ⟨0, []⟩) ⟨Cid.newV1 0 ⟨0, []⟩, []⟩] := by
  intro h
  have hgot := h.receives [.addPending 0 (Cid.newV1 0 ⟨0, []⟩)] 1 _ [] _ [] rfl (by simp)
  revert hgot
  decide

end

end PendingBlocks
