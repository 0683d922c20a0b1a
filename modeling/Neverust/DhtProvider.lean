import Mathlib.Data.List.Induction
import Mathlib.Logic.Function.Basic
import Neverust.Lib.Bytes
import Neverust.Lib.Ranking
import Neverust.Lib.Recent

/-!
# Provider records (`dht_provider.rs`)

`ProviderStore` keeps for each content id the records of its providers, each until it expires. A
record that is added again lives on; a new record in a full list takes the place of the one that
expires first. Instants are natural numbers of nanoseconds.

* `Holds`: what the list of an id holds, given by the whole history of the store.
* `get_exact`: the answers of the store, for every history.
-/

namespace DhtProvider

open Recent

/-- `MAX_PROVIDERS_PER_ENTRY`. -/
def maxProvidersPerEntry : Nat := 20

/-- `PROVIDER_TTL`, 24 hours. -/
def providerTtl : Nat := 24 * 60 * 60 * 1000000000

/-- `now + PROVIDER_TTL`. -/
def expiry (now : Nat) : Nat := now + providerTtl

abbrev NodeId := BitVec 256

structure ProviderRecord where
  signedPeerRecord : Bytes
  expires : Nat
  deriving Repr, DecidableEq

structure ProviderStore where
  records : NodeId → Option (List ProviderRecord)

namespace ProviderStore

def new : ProviderStore := ⟨fun _ => none⟩

/-- The loop that moves the expiry of a record. -/
def refresh (now : Nat) (spr : Bytes) : List ProviderRecord → List ProviderRecord
  | [] => []
  | r :: rs =>
    if r.signedPeerRecord = spr then { r with expires := expiry now } :: rs
    else r :: refresh now spr rs

/-- The removal of the record that expires first. -/
def evict (entry : List ProviderRecord) : List ProviderRecord :=
  (entry.mergeSort fun a b => decide (a.expires ≤ b.expires)).drop 1

/-- `entry.retain`. -/
def retain (now : Nat) (entry : List ProviderRecord) : List ProviderRecord :=
  entry.filter fun r => r.expires > now

def add (s : ProviderStore) (now : Nat) (contentId : NodeId) (spr : Bytes) : ProviderStore :=
  let entry := retain now ((s.records contentId).getD [])
  let entry :=
    if entry.any fun r => r.signedPeerRecord = spr then refresh now spr entry
    else (if entry.length ≥ maxProvidersPerEntry then evict entry else entry) ++
      [{ signedPeerRecord := spr, expires := expiry now }]
  ⟨Function.update s.records contentId (some entry)⟩

def get (s : ProviderStore) (now : Nat) (contentId : NodeId) : List Bytes × ProviderStore :=
  match s.records contentId with
  | some entry =>
    ((retain now entry).map ProviderRecord.signedPeerRecord,
      ⟨Function.update s.records contentId (some (retain now entry))⟩)
  | none => ([], s)

end ProviderStore

/-! ## Runs -/

inductive Event
  | add (time : Nat) (contentId : NodeId) (spr : Bytes)
  | get (time : Nat) (contentId : NodeId)
  deriving Repr, DecidableEq

def Event.time : Event → Nat
  | .add time _ _ => time
  | .get time _ => time

def Event.contentId : Event → NodeId
  | .add _ contentId _ => contentId
  | .get _ contentId => contentId

def Event.step (s : ProviderStore) : Event → ProviderStore
  | .add time contentId spr => s.add time contentId spr
  | .get time contentId => (s.get time contentId).2

def run (events : List Event) : ProviderStore := events.foldl Event.step .new

/-- The adds for a content id, the last one first. -/
def uses (contentId : NodeId) (events : List Event) : List (Nat × Bytes) :=
  (events.filterMap fun e =>
    match e with
    | .add time id spr => if id = contentId then some (time, spr) else none
    | .get _ _ => none).reverse

/-! ## What the list of an id holds -/

/-- The record that a use leaves. -/
def recordOf (p : Nat × Bytes) : ProviderRecord := ⟨p.2, expiry p.1⟩

/-- A use that has not expired. -/
def live (now : Nat) (p : Nat × Bytes) : Bool := now < expiry p.1

/-- The uses that are held: of the unexpired records the most recently used. -/
def window (now : Nat) (l : List (Nat × Bytes)) : List (Nat × Bytes) :=
  ((latest l).filter (live now)).take maxProvidersPerEntry

/-- The times of a history decrease from the newest use on. -/
def Descending (l : List (Nat × Bytes)) : Prop := l.Pairwise fun p q => q.1 < p.1

variable {l : List (Nat × Bytes)} {now t : Nat} {spr : Bytes} {entry : List ProviderRecord}

theorem expiry_lt {a b : Nat} (h : a < b) : expiry a < expiry b := Nat.add_lt_add_right h _

theorem live_sorted (h : Descending l) (now : Nat) :
    (latest l).Pairwise fun p q => live now q → live now p := by
  refine (h.sublist (latest_sublist l)).imp fun {p q} hlt hq => ?_
  rw [live, decide_eq_true_eq] at hq ⊢
  exact hq.trans (expiry_lt hlt)

theorem live_of_le {p : Nat × Bytes} (hle : t ≤ now) (h : live now p) : live t p := by
  rw [live, decide_eq_true_eq] at h ⊢
  exact hle.trans_lt h

/-- Of the most recently used records the unexpired ones. -/
theorem window_eq (h : Descending l) :
    window now l = ((latest l).take maxProvidersPerEntry).filter (live now) :=
  (take_filter_of_sorted _ (live_sorted h now)).symm

theorem window_nodup (h : Descending l) : ((window now l).map Prod.snd).Nodup := by
  rw [window_eq h]
  exact (latest_nodup l).sublist ((List.filter_sublist.trans (List.take_sublist _ _)).map _)

theorem window_sorted (h : Descending l) : Descending (window now l) := by
  rw [window_eq h]
  exact h.sublist ((List.filter_sublist.trans (List.take_sublist _ _)).trans (latest_sublist l))

theorem retain_map (l : List (Nat × Bytes)) :
    ProviderStore.retain now (l.map recordOf) = (l.filter (live now)).map recordOf := by
  rw [ProviderStore.retain, List.filter_map]
  rfl

/-- What is held later is what is still unexpired. -/
theorem filter_window (h : Descending l) (hle : t ≤ now) :
    (window t l).filter (live now) = window now l := by
  have hboth : (fun p => live now p && live t p) = live now := by
    funext p
    cases hp : live now p with
    | false => rfl
    | true => rw [live_of_le hle hp, Bool.true_and]
  rw [window_eq h, window_eq h, List.filter_filter, hboth]

theorem retain_window (h : Descending l) (hle : t ≤ now)
    (hentry : entry.Perm ((window t l).map recordOf)) :
    (ProviderStore.retain now entry).Perm ((window now l).map recordOf) := by
  rw [← filter_window h hle, ← retain_map]
  exact hentry.filter _

/-- The window after one more use. -/
theorem window_cons (hlt : t < expiry now) :
    window t ((now, spr) :: l) = (now, spr) ::
      (((latest l).filter (live t)).filter fun p => p.2 ≠ spr).take (maxProvidersPerEntry - 1) := by
  rw [window, latest, List.filter_cons_of_pos (by simpa [live] using hlt), List.filter_filter,
    List.filter_filter, show maxProvidersPerEntry = (maxProvidersPerEntry - 1) + 1 from rfl,
    List.take_succ_cons]
  simp only [Bool.and_comm]
  rfl

/-! ## What a use does to the list -/

theorem map_spr_recordOf (l : List (Nat × Bytes)) :
    (l.map recordOf).map ProviderRecord.signedPeerRecord = l.map Prod.snd := by
  rw [List.map_map]
  rfl

/-- A refreshed record is one record that is replaced. -/
theorem refresh_perm : ∀ {entry : List ProviderRecord},
    (entry.map ProviderRecord.signedPeerRecord).Nodup →
    spr ∈ entry.map ProviderRecord.signedPeerRecord →
    (ProviderStore.refresh now spr entry).Perm
      (recordOf (now, spr) :: entry.filter fun r => r.signedPeerRecord ≠ spr)
  | [], _, hmem => by simp at hmem
  | r :: rs, hnd, hmem => by
    rw [List.map_cons, List.nodup_cons] at hnd
    rw [ProviderStore.refresh]
    by_cases hr : r.signedPeerRecord = spr
    · subst hr
      have hself : (rs.filter fun q => q.signedPeerRecord ≠ r.signedPeerRecord) = rs :=
        List.filter_eq_self.2 fun q hq =>
          decide_eq_true fun heq => hnd.1 (heq ▸ List.mem_map_of_mem hq)
      rw [if_pos rfl, List.filter_cons_of_neg (by simp), hself]
      exact .refl _
    · rw [List.map_cons, List.mem_cons] at hmem
      rw [if_neg hr, List.filter_cons_of_pos (by simpa using hr)]
      exact ((refresh_perm hnd.2 (hmem.resolve_left (Ne.symm hr))).cons r).trans (.swap _ _ _)

/-- The record that goes is the least recently used one. -/
theorem evict_window {w : List (Nat × Bytes)} (hw : Descending w)
    (hentry : entry.Perm (w.map recordOf)) :
    ProviderStore.evict entry = ((w.take (w.length - 1)).map recordOf).reverse := by
  have hsorted : (w.map recordOf).reverse.Pairwise fun a b => a.expires < b.expires := by
    rw [List.pairwise_reverse, List.pairwise_map]
    exact hw.imp fun hlt => expiry_lt hlt
  have hkeys : (entry.map ProviderRecord.expires).Nodup := by
    rw [((hentry.trans (List.reverse_perm _).symm).map _).nodup_iff]
    exact List.pairwise_map.2 (hsorted.imp fun hlt => Nat.ne_of_lt hlt)
  have hrank := Ranking.eq_rank hkeys ((List.reverse_perm _).trans hentry.symm)
    (hsorted.imp fun hlt => Nat.le_of_lt hlt)
  calc ProviderStore.evict entry = (Ranking.rank ProviderRecord.expires entry).drop 1 := rfl
    _ = ((w.take (w.length - 1)).map recordOf).reverse := by
      rw [← hrank, List.drop_reverse, List.length_map, List.map_take]

variable {s : ProviderStore} {contentId : NodeId}

theorem add_records (s : ProviderStore) (now : Nat) (contentId : NodeId) (spr : Bytes) :
    (s.add now contentId spr).records contentId =
      let entry := ProviderStore.retain now ((s.records contentId).getD [])
      some (if entry.any fun r => r.signedPeerRecord = spr then ProviderStore.refresh now spr entry
        else (if entry.length ≥ maxProvidersPerEntry then ProviderStore.evict entry else entry) ++
          [recordOf (now, spr)]) := Function.update_self _ _ _

/-- **An `add` keeps the most recently used records.** -/
theorem add_window (h : Descending l) (hle : t ≤ now)
    (hentry : ((s.records contentId).getD []).Perm ((window t l).map recordOf)) :
    (((s.add now contentId spr).records contentId).getD []).Perm
      ((window now ((now, spr) :: l)).map recordOf) := by
  have hkept := retain_window h hle hentry
  have hsprs := hkept.map ProviderRecord.signedPeerRecord
  rw [map_spr_recordOf] at hsprs
  have hany : ((ProviderStore.retain now ((s.records contentId).getD [])).any fun r =>
      r.signedPeerRecord = spr) = true ↔ spr ∈ (window now l).map Prod.snd := by
    rw [← hsprs.mem_iff, List.any_eq_true, List.mem_map]
    simp only [decide_eq_true_eq]
  have hnd : (((latest l).filter (live now)).map Prod.snd).Nodup :=
    (latest_nodup l).sublist (List.filter_sublist.map _)
  rw [add_records, Option.getD_some, window_cons (Nat.lt_add_of_pos_right (by decide))]
  generalize ProviderStore.retain now ((s.records contentId).getD []) = entry at *
  by_cases hin : spr ∈ (window now l).map Prod.snd
  · -- the record is refreshed: the others stay
    have hrest := @take_filter_ne_of_mem Bytes _ _ _ (maxProvidersPerEntry - 1) hnd hin
    rw [if_pos (hany.2 hin), hrest]
    refine (refresh_perm (hsprs.nodup_iff.2 (window_nodup h)) (hsprs.mem_iff.2 hin)).trans ?_
    rw [List.map_cons]
    refine .cons _ ((hkept.filter _).trans ?_)
    rw [List.filter_map]
    exact .refl _
  · have hnot : spr ∉ (((latest l).filter (live now)).take (maxProvidersPerEntry - 1)).map
        Prod.snd := fun hmem =>
      hin (((List.take_sublist_take_left (Nat.sub_le _ _)).map _).subset hmem)
    rw [if_neg fun hmem => hin (hany.1 hmem), take_filter_ne_of_not_mem hnot, List.map_cons]
    refine List.perm_append_singleton _ _ |>.trans (.cons _ ?_)
    have hlen : (window now l).length = min maxProvidersPerEntry
        ((latest l).filter (live now)).length := List.length_take
    by_cases hfull : entry.length ≥ maxProvidersPerEntry
    · -- a full list: the least recently used record goes
      rw [if_pos hfull, evict_window (window_sorted h) hkept]
      refine (List.reverse_perm _).trans (.of_eq ?_)
      rw [hkept.length_eq, List.length_map] at hfull
      rw [show (window now l).length = maxProvidersPerEntry by omega, window, List.take_take]
      rfl
    · rw [if_neg hfull]
      rw [hkept.length_eq, List.length_map] at hfull
      refine hkept.trans (.of_eq ?_)
      rw [window, List.take_of_length_le (by omega), List.take_of_length_le (by omega)]

/-! ## Every history -/

theorem uses_add (time : Nat) (contentId : NodeId) (spr : Bytes) (events : List Event) :
    uses contentId (events ++ [.add time contentId spr]) = (time, spr) :: uses contentId events := by
  simp [uses]

theorem uses_get (time : Nat) (id contentId : NodeId) (events : List Event) :
    uses contentId (events ++ [.get time id]) = uses contentId events := by
  simp [uses]

theorem uses_other {e : Event} (h : e.contentId ≠ contentId) (events : List Event) :
    uses contentId (events ++ [e]) = uses contentId events := by
  cases e with
  | add time id spr => simp [uses, show id ≠ contentId from h]
  | get time id => exact uses_get time id contentId events

theorem run_append (events : List Event) (e : Event) :
    run (events ++ [e]) = e.step (run events) := by
  rw [run, List.foldl_append]
  rfl

/-- A call leaves the lists of the other ids alone. -/
theorem step_records_of_ne {e : Event} (h : e.contentId ≠ contentId) :
    (e.step s).records contentId = s.records contentId := by
  cases e with
  | add time id spr => exact Function.update_of_ne (Ne.symm h) _ _
  | get time id =>
    rw [Event.step, ProviderStore.get]
    split
    · exact Function.update_of_ne (Ne.symm h) _ _
    · rfl

theorem get_records (s : ProviderStore) (now : Nat) (contentId : NodeId) :
    ((s.get now contentId).2.records contentId).getD [] =
      ProviderStore.retain now ((s.records contentId).getD []) := by
  rw [ProviderStore.get]
  split
  · rename_i entry hentry
    simp [hentry]
  · rename_i hnone
    simp [hnone, ProviderStore.retain]

theorem get_answer (s : ProviderStore) (now : Nat) (contentId : NodeId) :
    (s.get now contentId).1 = (ProviderStore.retain now ((s.records contentId).getD [])).map
      ProviderRecord.signedPeerRecord := by
  rw [ProviderStore.get]
  split
  · rename_i entry hentry
    rw [hentry, Option.getD_some]
  · rename_i hnone
    rw [hnone]
    rfl

/-- The times of the calls. -/
def Increasing (events : List Event) : Prop := events.Pairwise fun e f => e.time < f.time

theorem increasing_append {events : List Event} {e : Event} (h : Increasing (events ++ [e])) :
    Increasing events ∧ ∀ e' ∈ events, e'.time < e.time := by
  obtain ⟨hev, -, hlt⟩ := List.pairwise_append.1 h
  exact ⟨hev, fun e' he' => hlt e' he' e (by simp)⟩

theorem descending_uses {events : List Event} (contentId : NodeId) (h : Increasing events) :
    Descending (uses contentId events) := by
  rw [Descending, uses, List.pairwise_reverse, List.pairwise_filterMap]
  refine List.Pairwise.imp (fun {e f} hlt p hp q hq => ?_) h
  cases e <;> cases f <;> simp_all [Event.time]
  obtain ⟨-, rfl⟩ := hp
  obtain ⟨-, rfl⟩ := hq
  exact hlt

/-- What the list of an id holds: since its last call nothing but time has changed it. -/
def Holds (s : ProviderStore) (events : List Event) : Prop :=
  ∀ contentId, ∃ t, (∀ now, (∀ e ∈ events, e.time < now) → t ≤ now) ∧
    ((s.records contentId).getD []).Perm ((window t (uses contentId events)).map recordOf)

theorem holds_step {events : List Event} {e : Event} (hinc : Increasing (events ++ [e]))
    (h : Holds s events) : Holds (e.step s) (events ++ [e]) := by
  intro contentId
  obtain ⟨hev, hlt⟩ := increasing_append hinc
  obtain ⟨t, ht, hentry⟩ := h contentId
  have hdesc := descending_uses contentId hev
  have hlast : ∀ now, (∀ e' ∈ events ++ [e], e'.time < now) → e.time ≤ now := fun now hnow =>
    Nat.le_of_lt (hnow e (by simp))
  by_cases hid : e.contentId = contentId
  · subst hid
    cases e with
    | add time id spr =>
      refine ⟨time, hlast, ?_⟩
      rw [Event.contentId, uses_add]
      exact add_window hdesc (ht time hlt) hentry
    | get time id =>
      refine ⟨time, hlast, ?_⟩
      rw [Event.contentId, uses_get, Event.step, get_records]
      exact retain_window hdesc (ht time hlt) hentry
  · refine ⟨t, fun now hnow => ht now fun e' he' => hnow e' (List.mem_append_left _ he'), ?_⟩
    rw [step_records_of_ne hid, uses_other hid]
    exact hentry

theorem holds_run {events : List Event} (hinc : Increasing events) :
    Holds (run events) events := by
  induction events using List.reverseRecOn with
  | nil => exact fun contentId => ⟨0, fun now _ => Nat.zero_le now, .refl _⟩
  | append_singleton events e ih =>
    rw [run_append]
    exact holds_step hinc (ih (increasing_append hinc).1)

/-- Only the calls for an id make its list. -/
theorem records_run_filter (contentId : NodeId) (events : List Event) :
    (run events).records contentId =
      (run (events.filter fun e => e.contentId = contentId)).records contentId := by
  induction events using List.reverseRecOn with
  | nil => rfl
  | append_singleton events e ih =>
    rw [run_append, List.filter_append]
    by_cases hid : e.contentId = contentId
    · rw [List.filter_cons_of_pos (by simpa using hid), List.filter_nil, run_append]
      subst hid
      cases e with
      | add time id spr =>
        simp only [Event.step, Event.contentId, add_records] at ih ⊢
        rw [ih]
      | get time id =>
        simp only [Event.step, Event.contentId, ProviderStore.get] at ih ⊢
        rw [ih]
        split <;> simp [*]
    · rw [List.filter_cons_of_neg (by simpa using hid), List.filter_nil, List.append_nil,
        step_records_of_ne hid]
      exact ih

/-- **The store is a bounded most-recent set with expiry**: a `get` answers with the unexpired
ones of the 20 most recently used records of the id, and only the calls for the id count. -/
theorem get_exact (events : List Event) (hinc : Increasing events) (now : Nat)
    (hnow : ∀ e ∈ events, e.time < now) (contentId : NodeId) :
    ((run events).get now contentId).1.Nodup ∧
    (∀ spr, spr ∈ ((run events).get now contentId).1 ↔
      ∃ used, (used, spr) ∈ (latest (uses contentId events)).take maxProvidersPerEntry ∧
        now < used + providerTtl) ∧
    ((run events).get now contentId).1 =
      ((run (events.filter fun e => e.contentId = contentId)).get now contentId).1 := by
  obtain ⟨t, ht, hentry⟩ := holds_run hinc contentId
  have hdesc := descending_uses contentId hinc
  have hanswer := (retain_window hdesc (ht now hnow) hentry).map ProviderRecord.signedPeerRecord
  rw [← get_answer, map_spr_recordOf] at hanswer
  refine ⟨hanswer.nodup_iff.2 (window_nodup hdesc), fun spr => ?_, ?_⟩
  · rw [hanswer.mem_iff, window_eq hdesc, List.mem_map]
    constructor
    · rintro ⟨⟨used, _⟩, hmem, rfl⟩
      rw [List.mem_filter, live, decide_eq_true_eq] at hmem
      exact ⟨used, hmem⟩
    · rintro ⟨used, hmem, hlt⟩
      exact ⟨(used, spr), List.mem_filter.2 ⟨hmem, decide_eq_true hlt⟩, rfl⟩
  · rw [get_answer, get_answer, records_run_filter]

/-- Of two records the refreshed one outlives the other. -/
theorem get_exact_refreshed :
    let events := [.add 1 0 [97], .add 2 0 [98], .add 5 0 [97]]
    [97] ∈ ((run events).get 86400000000003 0).1 ∧ [98] ∉ ((run events).get 86400000000003 0).1 := by
  intro events
  obtain ⟨-, hmem, -⟩ := get_exact events (by simp [events, Increasing, Event.time])
    86400000000003 (by simp [events, Event.time]) 0
  refine ⟨(hmem _).2 ⟨5, by decide, by decide⟩, fun h => ?_⟩
  obtain ⟨used, hused, hlt⟩ := (hmem _).1 h
  have hall : ∀ p ∈ (latest (uses 0 events)).take maxProvidersPerEntry,
      p.2 = [98] → ¬ 86400000000003 < p.1 + providerTtl := by decide
  exact hall _ hused rfl hlt

end DhtProvider
