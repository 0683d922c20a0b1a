import Neverust.Api.Proof.Puts
import Neverust.Api.Schedule

/-!
# What a run keeps, by its calls

A property of the store that every call in `P` keeps holds after a run that makes calls in `P` only,
whatever the schedule (`Within.run`).
-/

namespace Api

open Rust Storage Request

/-- The property holds of the store, and the tasks make calls in `P` only. -/
structure Within {B : Backend} (P : StoreReq → Prop) (I : B.State → Prop) (w : Sys B) : Prop where
  store : I w.store
  tasks : ∀ f ∈ w.inflight, Makes P f.task

namespace Within

variable {B : Backend} {P : StoreReq → Prop} {I : B.State → Prop} {w : Sys B}

theorem start {s : B.State} (hs : I s) : Within P I (Sys.start s) :=
  ⟨hs, fun _ hf => absurd hf List.not_mem_nil⟩

section
variable (hI : ∀ r, P r → ∀ s, I s → I (B.answer r s).2)
include hI

theorem task {task : Task} (ht : Makes P task) {s : B.State} (hs : I s) :
    I (task.run B.answer s).2 := by
  induction task generalizing s with
  | done r => exact hs
  | ask r k ih => exact ih _ (ht.2 _) (hI r ht.1 s hs)

theorem advance (h : Within P I w) (j : Nat) : Within P I (w.advance j) := by
  unfold Sys.advance
  split
  · exact h
  · rename_i f hf
    split
    · exact h
    · rename_i r k ht
      have hmakes := h.tasks f (List.mem_of_getElem? hf)
      rw [ht] at hmakes
      refine ⟨hI r hmakes.1 _ h.store, fun g hg => ?_⟩
      rcases List.mem_or_eq_of_mem_set hg with hg | rfl
      · exact h.tasks g hg
      · exact hmakes.2 _

theorem advances : ∀ (js : List Nat) {w : Sys B}, Within P I w →
    Within P I (js.foldl Sys.advance w)
  | [], _, h => h
  | j :: js, _, h => advances js (advance hI h j)

theorem idle (sched : Schedule) (h : Within P I w) : Within P I (w.idle sched) :=
  have h' := advances hI (sched.advance w.clock) h
  ⟨h'.store, h'.tasks⟩

theorem takeNext (sched : Schedule) (h : Within P I w) : Within P I (w.takeNext sched).2 := by
  unfold Sys.takeNext
  dsimp only
  split
  · exact h
  · rename_i f hf
    refine ⟨task hI (h.tasks f (List.mem_of_getElem? hf)) h.store, fun g hg => ?_⟩
    exact h.tasks g (List.mem_of_mem_eraseIdx hg)

theorem answer (sched : Schedule) (h : Within P I w) {r : ApiReq} (hr : ApiReq.Calls P r) :
    Within P I (Sys.answer sched r w).2 := by
  cases r with
  | store r =>
    have hi := idle hI sched h
    exact ⟨hI r hr _ hi.store, hi.tasks⟩
  | spawn startIdx expectedLen task =>
    refine ⟨h.store, fun f hf => ?_⟩
    rcases List.mem_append.1 hf with hf | hf
    · exact h.tasks f hf
    · rw [List.mem_singleton.1 hf]
      exact hr
  | next => exact takeNext hI sched (idle hI sched h)

/-- **A run keeps what its calls keep.** -/
theorem run {α : Type} (sched : Schedule) {p : Handler α} (hp : Makes (ApiReq.Calls P) p)
    (h : Within P I w) : Within P I (Prog.run (Sys.answer sched) p w).2 := by
  induction p generalizing w with
  | done r => exact h
  | ask r k ih => exact ih _ (hp.2 _) (answer hI sched h hp.1)

theorem ends {α : Type} (sched : Schedule) {p : Handler α} (hp : Makes (ApiReq.Calls P) p)
    (h : Within P I w) :
    Ends (Sys.answer sched) p w (fun _ w' => Within P I w') (fun _ w' => Within P I w') :=
  Ends.of_state (run hI sched hp h)

end

end Within

end Api
