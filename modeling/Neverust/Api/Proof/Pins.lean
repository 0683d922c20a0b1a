import Neverust.Api.Pins
import Neverust.Storage.Held

/-!
# Unpins and the tasks of earlier pins

`Stores` tells of a task that it will store its content if it finds that missing. After the last
deletion of a CID such a task brings the block back (`Lost`), and without one it stays away
(`Gone`); both are kept by every step. `unpin_wins_iff`: when an unpin wins over the earlier pins.
-/

namespace Api

open Rust Storage Request

/-- The task stores a block if each `has` is answered with no. -/
def Stores {α : Type} : Handler α → Prop
  | .done _ => False
  | .ask (.store (.has _)) k => Stores (k false)
  | .ask (.store (.putMany _)) _ => True
  | .ask _ _ => False

/-- The requests that a task for a text makes. -/
def About (cr : Crates) (cidStr : String) (r : ApiReq) : Prop :=
  ∃ cid, cr.cidOfString cidStr = some cid ∧
    (r = .store (.has cid) ∨ ∃ data, r = .store (.put { cid, data }))

namespace PinTask

/-- The task will store the CID if it finds that missing. -/
def WillStore (cr : Crates) (cid : Cid) : PinTask → Prop
  | .queued cidStr peers =>
    cr.cidOfString cidStr = some cid ∧ Stores (ensurePinLocally cr cidStr peers)
  | .running cidStr rest => cr.cidOfString cidStr = some cid ∧ Stores rest
  | .deleting _ => False
  | .finished => False

def isFinished : PinTask → Bool
  | .finished => true
  | _ => false

theorem isFinished_iff {task : PinTask} : task.isFinished = true ↔ task = .finished := by
  cases task <;> simp [isFinished]

/-- A task makes requests for its own CID only. -/
def Ok (cr : Crates) : PinTask → Prop
  | .running cidStr rest => Makes (About cr cidStr) rest
  | _ => True

end PinTask

section
variable {cr : Crates}

theorem acceptBody_makes {cid : Cid} {cidStr : String} {data : Bytes}
    (hcid : cr.cidOfString cidStr = some cid) : Makes (About cr cidStr) (acceptBody cr cid data) := by
  rw [acceptBody]
  split
  · refine Makes.lift_bind fun block hblock => ?_
    have hb : block = { cid, data } := by
      cases hv : Block.fromCidAndData cr cid data with
      | ok b =>
        rw [hv] at hblock
        cases hblock
        exact (Block.fromCidAndData_eq_ok_iff.1 hv).2
      | error e =>
        rw [hv] at hblock
        cases hblock
    subst hb
    refine Makes.bind (Makes.request_bind ⟨cid, hcid, .inr ⟨data, rfl⟩⟩ fun _ => Makes.lift _)
      fun _ => Makes.pure _
  · exact Makes.pure _

theorem tryPeers_makes {cid : Cid} {cidStr : String} (hcid : cr.cidOfString cidStr = some cid) :
    ∀ peers : List PeerAnswer, Makes (About cr cidStr) (tryPeers cr cid cidStr peers)
  | [] => Makes.lift _
  | .body _ :: _ => acceptBody_makes hcid
  | .failed :: rest | .status _ :: rest | .unreadable :: rest => tryPeers_makes hcid rest

theorem ensurePinLocally_makes (cidStr : String) (peers : List PeerAnswer) :
    Makes (About cr cidStr) (ensurePinLocally cr cidStr peers) := by
  rw [ensurePinLocally]
  split
  · exact Makes.pure _
  · rename_i cid hcid
    have hhas : About cr cidStr (.store (.has cid)) := ⟨cid, hcid, .inl rfl⟩
    refine Makes.request_bind hhas fun held => ?_
    split
    · exact Makes.pure _
    · refine Makes.bind (tryPeers_makes hcid _).attempt fun r => ?_
      split
      · exact Makes.pure _
      · exact Makes.lift _
      · refine Makes.request_bind hhas fun held => ?_
        split <;> exact Makes.pure _

end

/-! ## One step -/

section
variable {cr : Crates} {B : Backend} {Valid : B.State → Prop} {s : PinState B} {task : PinTask}
  {cid : Cid}

@[simp] theorem tasks_setStatus (s : PinState B) (cidStr : String) (status : PinStatus)
    (error : Option PinError) : (s.setStatus cidStr status error).tasks = s.tasks := by
  rw [PinState.setStatus]
  split <;> rfl

@[simp] theorem store_setStatus (s : PinState B) (cidStr : String) (status : PinStatus)
    (error : Option PinError) : (s.setStatus cidStr status error).store = s.store := by
  rw [PinState.setStatus]
  split <;> rfl

/-- A status update makes no record. -/
@[simp] theorem pins_setStatus (s : PinState B) (cidStr t : String) (status : PinStatus)
    (error : Option PinError) :
    (s.setStatus cidStr status error).pins t = none ↔ s.pins t = none := by
  rw [PinState.setStatus]
  split
  · rename_i record hrecord
    by_cases ht : t = cidStr
    · simp [ht, hrecord]
    · simp [ht]
  · rfl

@[simp] theorem tasks_stepTask : (s.stepTask cr task).2.tasks = s.tasks := by
  unfold PinState.stepTask
  split <;> simp

@[simp] theorem pins_stepTask {t : String} :
    (s.stepTask cr task).2.pins t = none ↔ s.pins t = none := by
  unfold PinState.stepTask
  split <;> simp

theorem stepTask_ne_deleting : (s.stepTask cr task).1 ≠ .deleting cid := by
  unfold PinState.stepTask
  split <;> simp

/-- What the next request of a task does. -/
theorem answer_cases (hB : B.Tells Valid) (hvalid : Valid s.store) {cidStr : String}
    {r : ApiReq} (h : About cr cidStr r) : Valid (PinState.answer (B := B) r s.store).2 ∧
      ∃ c, cr.cidOfString cidStr = some c ∧
        ((r = .store (.has c) ∧ ∀ cid, B.held (PinState.answer (B := B) r s.store).2 cid =
            B.held s.store cid) ∨
          ∃ data, r = .store (.put { cid := c, data }) ∧
            ∀ cid, B.held (PinState.answer (B := B) r s.store).2 cid =
              (decide (cid = c) || B.held s.store cid)) := by
  obtain ⟨c, hc, rfl | ⟨data, rfl⟩⟩ := h
  · exact ⟨hB.has_valid c hvalid, c, hc, .inl ⟨rfl, fun cid => hB.held_has c cid hvalid⟩⟩
  · exact ⟨hB.put_valid _ hvalid, c, hc, .inr ⟨data, rfl, fun cid => hB.held_put _ cid hvalid⟩⟩

theorem stepTask_sound (hB : B.Tells Valid) (hvalid : Valid s.store) (hok : task.Ok cr) :
    Valid (s.stepTask cr task).2.store ∧ (s.stepTask cr task).1.Ok cr := by
  unfold PinState.stepTask
  split
  · exact ⟨by simpa using hvalid, ensurePinLocally_makes _ _⟩
  · exact ⟨(answer_cases hB hvalid hok.1).1, hok.2 _⟩
  · exact ⟨by simpa using hvalid, trivial⟩
  · exact ⟨by simpa using hvalid, trivial⟩
  · exact ⟨hvalid, trivial⟩
  · exact ⟨hB.delete_valid _ hvalid, trivial⟩
  · exact ⟨hvalid, trivial⟩

/-- Nothing but a deletion takes a block away, and a task that will store one does so in the end. -/
theorem stepTask_lost (hB : B.Tells Valid) (hvalid : Valid s.store) (hok : task.Ok cr)
    (hne : task ≠ .deleting cid) :
    (B.held s.store cid = true → B.held (s.stepTask cr task).2.store cid = true) ∧
      (task.WillStore cr cid → B.held (s.stepTask cr task).2.store cid = true ∨
        (s.stepTask cr task).1.WillStore cr cid) := by
  cases task with
  | queued cidStr peers => exact ⟨fun h => by simpa [PinState.stepTask] using h, fun h => .inr h⟩
  | running cidStr rest =>
    cases rest with
    | ask r k =>
      obtain ⟨-, c, hc, ⟨rfl, heq⟩ | ⟨data, rfl, heq⟩⟩ := answer_cases (s := s) hB hvalid hok.1
      · refine ⟨fun h => (heq cid).trans h, fun ⟨hcid, hstores⟩ => ?_⟩
        obtain rfl : c = cid := Option.some.inj (hc.symm.trans hcid)
        cases hheld : B.held s.store c with
        | true => exact .inl ((heq c).trans hheld)
        | false =>
          refine .inr ⟨hcid, ?_⟩
          change Stores (k (B.held s.store c))
          rw [hheld]
          exact hstores
      · refine ⟨fun h => (heq cid).trans (by simp [h]), fun ⟨hcid, _⟩ => .inl ?_⟩
        obtain rfl : c = cid := Option.some.inj (hc.symm.trans hcid)
        exact (heq c).trans (by simp)
    | done r =>
      refine ⟨fun h => ?_, fun h => h.2.elim⟩
      unfold PinState.stepTask
      split <;> simp_all
  | deleting c =>
    refine ⟨fun h => ?_, fun h => h.elim⟩
    have hc : cid ≠ c := fun heq => hne (heq ▸ rfl)
    exact (hB.held_delete c cid hvalid).trans (by simp [hc, h])
  | finished => exact ⟨fun h => h, fun h => h.elim⟩

theorem stepTask_gone (hB : B.Tells Valid) (hvalid : Valid s.store) (hok : task.Ok cr)
    (hno : ¬ task.WillStore cr cid) (hheld : B.held s.store cid = false) :
    B.held (s.stepTask cr task).2.store cid = false ∧
      ¬ (s.stepTask cr task).1.WillStore cr cid := by
  cases task with
  | queued cidStr peers => exact ⟨by simpa [PinState.stepTask] using hheld, hno⟩
  | running cidStr rest =>
    cases rest with
    | ask r k =>
      obtain ⟨-, c, hc, ⟨rfl, heq⟩ | ⟨data, rfl, heq⟩⟩ := answer_cases (s := s) hB hvalid hok.1
      · refine ⟨(heq cid).trans hheld, fun ⟨hcid, hstores⟩ => hno ⟨hcid, ?_⟩⟩
        obtain rfl : c = cid := Option.some.inj (hc.symm.trans hcid)
        change Stores (k (B.held s.store c)) at hstores
        rw [hheld] at hstores
        exact hstores
      · have hne : cid ≠ c := by
          rintro rfl
          exact hno ⟨hc, trivial⟩
        exact ⟨(heq cid).trans (by simp [hne, hheld]), fun ⟨hcid, _⟩ =>
          hne (Option.some.inj (hcid.symm.trans hc))⟩
    | done r =>
      unfold PinState.stepTask
      split <;> simp_all [PinTask.WillStore]
  | deleting c => exact ⟨(hB.held_delete c cid hvalid).trans (by simp [hheld]), fun h => h.elim⟩
  | finished => exact ⟨hheld, fun h => h.elim⟩

end

/-! ## Whole runs -/

section
variable {cr : Crates} {B : Backend} {Valid : B.State → Prop} {s : PinState B} {cid : Cid}
  {e : PinEvent} {events : List PinEvent}

/-- The state of a run: the store is in order, and each task makes requests for its own CID. -/
structure Sound (cr : Crates) (Valid : B.State → Prop) (s : PinState B) : Prop where
  valid : Valid s.store
  ok : ∀ task ∈ s.tasks, task.Ok cr

/-- No deletion of the CID is pending. -/
def NoDeletion (cid : Cid) (s : PinState B) : Prop := ∀ task ∈ s.tasks, task ≠ .deleting cid

/-- The block is away and no task will store it. -/
def Gone (cr : Crates) (cid : Cid) (s : PinState B) : Prop :=
  B.held s.store cid = false ∧ ∀ task ∈ s.tasks, ¬ task.WillStore cr cid

/-- The block is there, or a task will store it. -/
def Lost (cr : Crates) (cid : Cid) (s : PinState B) : Prop :=
  B.held s.store cid = true ∨ ∃ task ∈ s.tasks, task.WillStore cr cid

/-- An event is no request for the CID. -/
def PinEvent.Spares (cr : Crates) (cid : Cid) (e : PinEvent) : Prop :=
  ∀ c, e = .call c → cr.cidOfString c.cidStr ≠ some cid

/-- What a request does to the store, the tasks and the records. -/
theorem call_apply (cr : Crates) (s : PinState B) (c : PinCall) :
    (c.apply cr s).store = s.store ∧
      (∃ new, (c.apply cr s).tasks = s.tasks ++ new ∧ ∀ task ∈ new, task.Ok cr ∧
        ∀ cid, cr.cidOfString c.cidStr ≠ some cid →
          ¬ task.WillStore cr cid ∧ task ≠ .deleting cid) ∧
      ∀ t, t ≠ c.cidStr → (c.apply cr s).pins t = s.pins t := by
  cases c with
  | pin cidStr body peers =>
    rw [PinCall.apply, PinState.pinCid]
    split
    · exact ⟨rfl, ⟨[], by simp, by simp⟩, fun t _ => rfl⟩
    · refine ⟨rfl, ⟨[.queued cidStr peers], rfl, fun task htask => ?_⟩,
        fun t ht => Function.update_of_ne ht _ _⟩
      obtain rfl := List.mem_singleton.1 htask
      exact ⟨trivial, fun cid hne => ⟨fun h => hne h.1, by simp⟩⟩
  | recover cidStr peers =>
    refine ⟨rfl, ⟨[.queued cidStr peers], rfl, fun task htask => ?_⟩,
      fun t ht => Function.update_of_ne ht _ _⟩
    obtain rfl := List.mem_singleton.1 htask
    exact ⟨trivial, fun cid hne => ⟨fun h => hne h.1, by simp⟩⟩
  | unpin cidStr =>
    rw [PinCall.apply, PinState.unpinCid]
    split
    · exact ⟨rfl, ⟨[], by simp, by simp⟩, fun t _ => rfl⟩
    · rename_i c hc
      refine ⟨rfl, ⟨[.deleting c], rfl, fun task htask => ?_⟩,
        fun t ht => Function.update_of_ne ht _ _⟩
      obtain rfl := List.mem_singleton.1 htask
      refine ⟨trivial, fun cid hne => ⟨fun h => h.elim, ?_⟩⟩
      rintro ⟨⟩
      exact hne hc

/-- What an event does: a request, or a step of a task. -/
theorem apply_cases (cr : Crates) (s : PinState B) (e : PinEvent) :
    (∃ c, e = .call c ∧ e.apply cr s = c.apply cr s) ∨
    (∃ i task, e = .step i ∧ s.tasks[i]? = some task ∧
      (e.apply cr s).pins = (s.stepTask cr task).2.pins ∧
      (e.apply cr s).store = (s.stepTask cr task).2.store ∧
      (e.apply cr s).tasks = s.tasks.set i (s.stepTask cr task).1) ∨
    e.apply cr s = s := by
  cases e with
  | call c => exact .inl ⟨c, rfl, rfl⟩
  | step i =>
    cases htask : s.tasks[i]? with
    | some task =>
      refine .inr (.inl ⟨i, task, rfl, htask, ?_⟩)
      simp [PinEvent.apply, htask]
    | none => exact .inr (.inr (by simp [PinEvent.apply, htask]))

theorem Sound.apply (hB : B.Tells Valid) (h : Sound cr Valid s) (e : PinEvent) :
    Sound cr Valid (e.apply cr s) := by
  obtain ⟨c, -, heq⟩ | ⟨i, task, -, htask, -, hstore, htasks⟩ | heq := apply_cases cr s e
  · obtain ⟨hstore, ⟨new, htasks, hnew⟩, -⟩ := call_apply cr s c
    rw [heq]
    refine ⟨hstore ▸ h.valid, fun task hmem => ?_⟩
    rw [htasks] at hmem
    obtain hmem | hmem := List.mem_append.1 hmem
    · exact h.ok task hmem
    · exact (hnew task hmem).1
  · obtain ⟨hvalid, hok⟩ := stepTask_sound hB h.valid (h.ok task (List.mem_of_getElem? htask))
    refine ⟨hstore ▸ hvalid, fun task' hmem => ?_⟩
    rw [htasks] at hmem
    obtain hmem | rfl := List.mem_or_eq_of_mem_set hmem
    · exact h.ok task' hmem
    · exact hok
  · rw [heq]
    exact h

theorem NoDeletion.apply (h : NoDeletion cid s) (hspare : e.Spares cr cid) :
    NoDeletion cid (e.apply cr s) := by
  intro task hmem
  obtain ⟨c, he, heq⟩ | ⟨i, task', -, -, -, -, htasks⟩ | heq := apply_cases cr s e
  · obtain ⟨-, ⟨new, htasks, hnew⟩, -⟩ := call_apply cr s c
    rw [heq, htasks] at hmem
    obtain hmem | hmem := List.mem_append.1 hmem
    · exact h task hmem
    · exact ((hnew task hmem).2 cid (hspare c he)).2
  · rw [htasks] at hmem
    obtain hmem | rfl := List.mem_or_eq_of_mem_set hmem
    · exact h task hmem
    · exact stepTask_ne_deleting
  · exact h task (heq ▸ hmem)

theorem Gone.apply (hB : B.Tells Valid) (hsound : Sound cr Valid s) (h : Gone cr cid s)
    (hspare : e.Spares cr cid) : Gone cr cid (e.apply cr s) := by
  obtain ⟨c, he, heq⟩ | ⟨i, task, -, htask, -, hstore, htasks⟩ | heq := apply_cases cr s e
  · obtain ⟨hstore, ⟨new, htasks, hnew⟩, -⟩ := call_apply cr s c
    rw [heq]
    refine ⟨hstore ▸ h.1, fun task hmem => ?_⟩
    rw [htasks] at hmem
    obtain hmem | hmem := List.mem_append.1 hmem
    · exact h.2 task hmem
    · exact ((hnew task hmem).2 cid (hspare c he)).1
  · have hmem := List.mem_of_getElem? htask
    obtain ⟨hheld, hno⟩ := stepTask_gone hB hsound.valid (hsound.ok task hmem) (h.2 task hmem) h.1
    refine ⟨hstore ▸ hheld, fun task' hmem' => ?_⟩
    rw [htasks] at hmem'
    obtain hmem' | rfl := List.mem_or_eq_of_mem_set hmem'
    · exact h.2 task' hmem'
    · exact hno
  · rw [heq]
    exact h

theorem Lost.apply (hB : B.Tells Valid) (hsound : Sound cr Valid s) (h : Lost cr cid s)
    (hdel : NoDeletion cid s) (e : PinEvent) : Lost cr cid (e.apply cr s) := by
  obtain ⟨c, he, heq⟩ | ⟨i, task, -, htask, -, hstore, htasks⟩ | heq := apply_cases cr s e
  · obtain ⟨hstore, ⟨new, htasks, -⟩, -⟩ := call_apply cr s c
    rw [heq]
    obtain h | ⟨task, hmem, hwill⟩ := h
    · exact .inl (hstore ▸ h)
    · exact .inr ⟨task, htasks ▸ List.mem_append_left _ hmem, hwill⟩
  · have hmem := List.mem_of_getElem? htask
    have hlt := (List.getElem?_eq_some_iff.1 htask).1
    obtain ⟨hkeep, hwills⟩ :=
      stepTask_lost hB hsound.valid (hsound.ok task hmem) (hdel task hmem)
    obtain h | ⟨task', hmem', hwill⟩ := h
    · exact .inl (hstore ▸ hkeep h)
    · obtain ⟨j, hj⟩ := List.mem_iff_getElem?.1 hmem'
      by_cases hij : i = j
      · subst hij
        obtain rfl := Option.some.inj (htask.symm.trans hj)
        obtain hheld | hwill := hwills hwill
        · exact .inl (hstore ▸ hheld)
        · refine .inr ⟨_, ?_, hwill⟩
          rw [htasks]
          exact List.mem_set hlt _
      · refine .inr ⟨task', ?_, hwill⟩
        rw [htasks]
        exact List.mem_of_getElem? (by rw [List.getElem?_set_ne hij, hj])
  · rw [heq]
    exact h

/-- Records of a CID come and go with requests for it only. -/
theorem pins_apply (hspare : e.Spares cr cid) {t : String} (ht : cr.cidOfString t = some cid) :
    (e.apply cr s).pins t = none ↔ s.pins t = none := by
  obtain ⟨c, he, heq⟩ | ⟨i, task, -, -, hpins, -, -⟩ | heq := apply_cases cr s e
  · have hne : t ≠ c.cidStr := by
      rintro rfl
      exact hspare c he ht
    rw [heq, (call_apply cr s c).2.2 t hne]
  · rw [hpins, pins_stepTask]
  · rw [heq]

theorem run_cons (s : PinState B) (e : PinEvent) (events : List PinEvent) :
    s.run cr (e :: events) = (e.apply cr s).run cr events := rfl

theorem run_append (s : PinState B) (pre events : List PinEvent) :
    s.run cr (pre ++ events) = (s.run cr pre).run cr events := List.foldl_append

theorem Sound.run (hB : B.Tells Valid) (h : Sound cr Valid s) (events : List PinEvent) :
    Sound cr Valid (s.run cr events) := by
  induction events generalizing s with
  | nil => exact h
  | cons e events ih => exact ih (h.apply hB e)

theorem pins_run (hspare : ∀ e ∈ events, e.Spares cr cid) {t : String}
    (ht : cr.cidOfString t = some cid) : (s.run cr events).pins t = none ↔ s.pins t = none := by
  induction events generalizing s with
  | nil => exact .rfl
  | cons e events ih =>
    exact (ih fun e' he' => hspare e' (List.mem_cons_of_mem _ he')).trans
      (pins_apply (hspare e (by simp)) ht)

/-- After the last deletion nothing changes for the better or the worse. -/
theorem Gone.run (hB : B.Tells Valid) (hsound : Sound cr Valid s) (h : Gone cr cid s)
    (hspare : ∀ e ∈ events, e.Spares cr cid) : Gone cr cid (s.run cr events) := by
  induction events generalizing s with
  | nil => exact h
  | cons e events ih =>
    exact ih (hsound.apply hB e) (h.apply hB hsound (hspare e (by simp)))
      fun e' he' => hspare e' (List.mem_cons_of_mem _ he')

theorem Lost.run (hB : B.Tells Valid) (hsound : Sound cr Valid s) (h : Lost cr cid s)
    (hdel : NoDeletion cid s) (hspare : ∀ e ∈ events, e.Spares cr cid) :
    Lost cr cid (s.run cr events) := by
  induction events generalizing s with
  | nil => exact h
  | cons e events ih =>
    exact ih (hsound.apply hB e) (h.apply hB hsound hdel e) (hdel.apply (hspare e (by simp)))
      fun e' he' => hspare e' (List.mem_cons_of_mem _ he')

/-- The step of the task `i` is the last deletion of the CID. -/
def LastDeletion (cid : Cid) (s : PinState B) (i : Nat) : Prop :=
  ∀ j, s.tasks[j]? = some (.deleting cid) ↔ j = i

/-- The last deletion leaves the block away; a task that will store it stays. -/
theorem LastDeletion.apply (hB : B.Tells Valid) (hsound : Sound cr Valid s) {i : Nat}
    (h : LastDeletion cid s i) : NoDeletion cid ((PinEvent.step i).apply cr s) ∧
      B.held ((PinEvent.step i).apply cr s).store cid = false ∧
      ((∃ task ∈ ((PinEvent.step i).apply cr s).tasks, task.WillStore cr cid) ↔
        ∃ task ∈ s.tasks, task.WillStore cr cid) := by
  have hi : s.tasks[i]? = some (.deleting cid) := (h i).2 rfl
  have hlt := (List.getElem?_eq_some_iff.1 hi).1
  have hstore : ((PinEvent.step i).apply cr s).store = (B.answer (.delete cid) s.store).2 := by
    simp [PinEvent.apply, hi, PinState.stepTask]
  have htasks : ((PinEvent.step i).apply cr s).tasks = s.tasks.set i .finished := by
    simp [PinEvent.apply, hi, PinState.stepTask]
  have hother : ∀ j task, j ≠ i → s.tasks[j]? = some task → task ∈ s.tasks.set i .finished :=
    fun j task hne hj => List.mem_of_getElem? (by rw [List.getElem?_set_ne hne.symm, hj])
  refine ⟨fun task hmem => ?_, ?_, ?_⟩
  · rw [htasks] at hmem
    obtain ⟨j, hj⟩ := List.mem_iff_getElem?.1 hmem
    rintro rfl
    by_cases hij : i = j
    · subst hij
      rw [List.getElem?_set_self hlt] at hj
      cases hj
    · rw [List.getElem?_set_ne hij] at hj
      exact hij ((h j).1 hj).symm
  · rw [hstore, hB.held_delete cid cid hsound.valid]
    simp
  · rw [htasks]
    constructor
    · rintro ⟨task, hmem, hwill⟩
      obtain hmem | rfl := List.mem_or_eq_of_mem_set hmem
      · exact ⟨task, hmem, hwill⟩
      · exact hwill.elim
    · rintro ⟨task, hmem, hwill⟩
      obtain ⟨j, hj⟩ := List.mem_iff_getElem?.1 hmem
      refine ⟨task, hother j task ?_ hj, hwill⟩
      rintro rfl
      rw [hi] at hj
      cases hj
      exact hwill

/-- A run that starts with a pending deletion and ends without one makes a last one. -/
theorem exists_lastDeletion (hspare : ∀ e ∈ events, e.Spares cr cid)
    (hpending : ∃ task ∈ s.tasks, task = .deleting cid)
    (hend : NoDeletion cid (s.run cr events)) :
    ∃ mid i rest, events = mid ++ .step i :: rest ∧ LastDeletion cid (s.run cr mid) i := by
  induction events generalizing s with
  | nil =>
    obtain ⟨task, hmem, rfl⟩ := hpending
    exact absurd rfl (hend _ hmem)
  | cons e events ih =>
    by_cases hstill : ∃ task ∈ (e.apply cr s).tasks, task = .deleting cid
    · obtain ⟨mid, i, rest, rfl, hlast⟩ :=
        ih (fun e' he' => hspare e' (List.mem_cons_of_mem _ he')) hstill hend
      exact ⟨e :: mid, i, rest, rfl, hlast⟩
    · obtain ⟨task, hmem, rfl⟩ := hpending
      obtain ⟨j, hj⟩ := List.mem_iff_getElem?.1 hmem
      obtain ⟨c, -, heq⟩ | ⟨i, task, rfl, htask, -, -, htasks⟩ | heq := apply_cases cr s e
      · obtain ⟨-, ⟨new, htasks, -⟩, -⟩ := call_apply cr s c
        refine absurd ⟨_, ?_, rfl⟩ hstill
        rw [heq, htasks]
        exact List.mem_append_left _ hmem
      · refine ⟨[], i, events, rfl, fun k => ⟨fun hk => ?_, ?_⟩⟩
        · by_contra hne
          refine hstill ⟨_, ?_, rfl⟩
          rw [htasks]
          exact List.mem_of_getElem? (by rw [List.getElem?_set_ne (Ne.symm hne)]; exact hk)
        · rintro rfl
          by_contra hnot
          have hne : j ≠ k := by
            rintro rfl
            exact hnot hj
          refine hstill ⟨_, ?_, rfl⟩
          rw [htasks]
          exact List.mem_of_getElem? (by rw [List.getElem?_set_ne (Ne.symm hne)]; exact hj)
      · refine absurd ⟨_, ?_, rfl⟩ hstill
        rw [heq]
        exact hmem

theorem unpin_apply (s : PinState B) {cidStr : String} (hcid : cr.cidOfString cidStr = some cid) :
    (PinEvent.call (.unpin cidStr)).apply cr s =
      { s with pins := Function.update s.pins cidStr none,
               tasks := s.tasks ++ [.deleting cid] } := by
  simp [PinEvent.apply, PinCall.apply, PinState.unpinCid, hcid, PinState.spawn]

/-- Where all tasks have finished, no task will store a block after an unpin either. -/
theorem not_willStore_of_finished {s : PinState B} {cidStr : String}
    (hcid : cr.cidOfString cidStr = some cid) (h : ∀ task ∈ s.tasks, task.isFinished = true) :
    ∀ task ∈ (s.run cr [.call (.unpin cidStr)]).tasks, ¬ task.WillStore cr cid := by
  intro task hmem
  rw [run_cons, unpin_apply s hcid] at hmem
  obtain hmem | hmem := List.mem_append.1 hmem
  · rw [PinTask.isFinished_iff.1 (h task hmem)]
    exact id
  · rw [List.mem_singleton.1 hmem]
    exact id

/-- There is no record for the CID and no block. -/
def Unpinned (cr : Crates) (cid : Cid) (s : PinState B) : Prop :=
  (∀ t, cr.cidOfString t = some cid → s.pins t = none) ∧ B.held s.store cid = false

/-- **When an unpin wins over the earlier pins**: if the CID has no record under another text, and
no task is left that will store the block when the last deletion runs. -/
theorem unpin_wins_iff (hB : B.Tells Valid) (hvalid : Valid s.store) (htasks : s.tasks = [])
    (pre post : List PinEvent) {cidStr : String} (hcid : cr.cidOfString cidStr = some cid)
    (hlast : ∀ e ∈ post, e.Spares cr cid)
    (hdone : ∀ task ∈ (s.run cr (pre ++ .call (.unpin cidStr) :: post)).tasks,
      task.isFinished = true) :
    Unpinned cr cid (s.run cr (pre ++ .call (.unpin cidStr) :: post)) ↔
      (∀ t, t ≠ cidStr → cr.cidOfString t = some cid → (s.run cr pre).pins t = none) ∧
      ∀ mid i rest, post = mid ++ .step i :: rest →
        LastDeletion cid (s.run cr (pre ++ .call (.unpin cidStr) :: mid)) i →
        ∀ task ∈ (s.run cr (pre ++ .call (.unpin cidStr) :: mid)).tasks,
          ¬ task.WillStore cr cid := by
  have hstart : Sound cr Valid s := ⟨hvalid, by simp [htasks]⟩
  simp only [run_append, run_cons] at hdone ⊢
  have hsound := (hstart.run hB pre).apply hB (.call (.unpin cidStr))
  generalize hs₁ : s.run cr pre = s₁ at *
  have hunpin := unpin_apply s₁ hcid
  have hpending : ∃ task ∈ ((PinEvent.call (.unpin cidStr)).apply cr s₁).tasks,
      task = .deleting cid := ⟨_, by simp [hunpin], rfl⟩
  have hpins : ∀ t, ((PinEvent.call (.unpin cidStr)).apply cr s₁).pins t =
      if t = cidStr then none else s₁.pins t := by
    intro t
    rw [hunpin]
    by_cases ht : t = cidStr <;> simp [ht]
  generalize (PinEvent.call (.unpin cidStr)).apply cr s₁ = s₂ at *
  have hnone : ∀ {t}, cr.cidOfString t = some cid →
      ((s₂.run cr post).pins t = none ↔ s₂.pins t = none) := fun ht => pins_run hlast ht
  have hend : NoDeletion cid (s₂.run cr post) := fun task hmem heq => by
    rw [PinTask.isFinished_iff.1 (hdone task hmem)] at heq
    cases heq
  refine and_congr ⟨fun h t hne ht => ?_, fun h t ht => ?_⟩ ⟨?_, fun h => ?_⟩
  · have := (hnone ht).1 (h t ht)
    rwa [hpins, if_neg hne] at this
  · rw [hnone ht, hpins]
    split
    · rfl
    · rename_i hne
      exact h t hne ht
  · -- a task that will store the block brings it back
    rintro hheld mid i rest rfl hdel task hmem hwill
    obtain ⟨hnodel, -, hwills⟩ := hdel.apply hB (hsound.run hB mid)
    have hlost : Lost cr cid ((PinEvent.step i).apply cr (s₂.run cr mid)) :=
      .inr (hwills.2 ⟨task, hmem, hwill⟩)
    have hrest : ∀ e ∈ rest, e.Spares cr cid := fun e he => hlast e (by simp [he])
    rw [run_append, run_cons] at hheld hdone
    obtain hback | ⟨task', hmem', hwill'⟩ :=
      hlost.run hB ((hsound.run hB mid).apply hB _) hnodel hrest
    · rw [hback] at hheld
      cases hheld
    · rw [PinTask.isFinished_iff.1 (hdone task' hmem')] at hwill'
      exact hwill'
  · obtain ⟨mid, i, rest, rfl, hdel⟩ := exists_lastDeletion hlast hpending hend
    obtain ⟨-, hheld, hwills⟩ := hdel.apply hB (hsound.run hB mid)
    have hgone : Gone cr cid ((PinEvent.step i).apply cr (s₂.run cr mid)) :=
      ⟨hheld, fun task hmem hwill => by
        obtain ⟨task', hmem', hwill'⟩ := hwills.1 ⟨task, hmem, hwill⟩
        exact h mid i rest rfl hdel task' hmem' hwill'⟩
    have hrest : ∀ e ∈ rest, e.Spares cr cid := fun e he => hlast e (by simp [he])
    rw [run_append, run_cons]
    exact (hgone.run hB ((hsound.run hB mid).apply hB _) hrest).1

end

/-! ## Two runs -/

/-- A block that a peer has. -/
def lostBlock : Block := { cid := blockCid CidBlake3.blake3Code (Blake3.hash [1]), data := [1] }

/-- A pin whose task has found the block missing, an unpin, and the rest of the task. -/
def lostEvents : List PinEvent :=
  [.call (.pin (Cid.toText lostBlock.cid) none [.body lostBlock.data]), .step 0, .step 0,
    .call (.unpin (Cid.toText lostBlock.cid)), .step 1, .step 0, .step 0, .step 0]

/-- The state of a new server with the default backend. -/
def newPinState : PinState (RedbStore.backend .standard false) :=
  { pins := fun _ => none, store := RedbStore.empty, tasks := [] }

theorem unpin_loses :
    (∀ task ∈ (newPinState.run .standard lostEvents).tasks, task.isFinished = true) ∧
      ¬ Unpinned .standard lostBlock.cid (newPinState.run .standard lostEvents) := by
  refine ⟨by decide +kernel, fun h => ?_⟩
  have hheld : (RedbStore.backend .standard false).held
      (newPinState.run .standard lostEvents).store lostBlock.cid = true := by decide +kernel
  rw [h.2] at hheld
  cases hheld

theorem standard_cidOfString (c : Cid) : Crates.standard.cidOfString (Cid.toText c) = some c :=
  Cid.ofText_toText c

/-- A pin whose task has ended without content. -/
def failedPin : List PinEvent :=
  [.call (.pin (Cid.toText lostBlock.cid) none []), .step 0, .step 0, .step 0]

theorem unpin_wins_iff_failed_pin : Unpinned .standard lostBlock.cid
    (newPinState.run .standard
      (failedPin ++ .call (.unpin (Cid.toText lostBlock.cid)) :: [.step 1])) := by
  have hcid : Crates.standard.cidOfString (Cid.toText lostBlock.cid) = some lostBlock.cid :=
    standard_cidOfString _
  have hdone : ∀ task ∈ (newPinState.run .standard
      (failedPin ++ .call (.unpin (Cid.toText lostBlock.cid)) :: [.step 1])).tasks,
      task.isFinished = true := by decide +kernel
  refine (unpin_wins_iff (RedbStore.tells .standard) rfl rfl failedPin [.step 1] hcid
    (by simp [PinEvent.Spares]) hdone).2 ⟨?_, ?_⟩
  · intro t hne ht
    have hsteps := @pins_run .standard _
      ((PinEvent.call (.pin (Cid.toText lostBlock.cid) none [])).apply .standard newPinState) _
      [.step 0, .step 0, .step 0] (by simp [PinEvent.Spares]) t ht
    rw [failedPin, run_cons, hsteps, PinEvent.apply,
      (call_apply .standard newPinState (.pin (Cid.toText lostBlock.cid) none [])).2.2 t hne,
      newPinState]
  · intro mid i rest hsplit _ task hmem
    obtain rfl : mid = [] := by
      cases mid with
      | nil => rfl
      | cons e mid => simp at hsplit
    have hfinished : ∀ task ∈ (newPinState.run .standard failedPin).tasks,
        task.isFinished = true := by decide +kernel
    rw [run_append] at hmem
    exact not_willStore_of_finished hcid hfinished task hmem

end Api
