import Neverust.Api.Types

/-!
# Handlers under a schedule

A handler runs against a block store while its tasks run too. Each time it waits, its tasks may go
on, in an order that the schedule tells; a wait for a task ends with a task the schedule picks.
-/

namespace Api

open Rust Storage Request

/-- A task of the handler that it has not waited for. -/
structure Flight where
  startIdx : Nat
  expectedLen : Nat
  task : Task

/-- The store, the handler's tasks and the number of waits so far. -/
structure Sys (B : Backend) where
  store : B.State
  inflight : List Flight
  clock : Nat

/-- For each wait the tasks that go on during it, and the task it ends with. -/
structure Schedule where
  advance : Nat → List Nat
  pick : Nat → Nat

namespace Sys

variable {B : Backend}

def start (s : B.State) : Sys B := { store := s, inflight := [], clock := 0 }

/-- The `j`-th task makes its next request. -/
def advance (w : Sys B) (j : Nat) : Sys B :=
  match w.inflight[j]? with
  | none => w
  | some f =>
    match f.task with
    | .done _ => w
    | .ask r k =>
      { w with store := (B.answer r w.store).2,
               inflight := w.inflight.set j { f with task := k (B.answer r w.store).1 } }

variable (sched : Schedule)

/-- What happens while the handler waits. -/
def idle (w : Sys B) : Sys B :=
  { (sched.advance w.clock).foldl advance w with clock := w.clock + 1 }

/-- While a handler without tasks waits, nothing happens. -/
theorem idle_of_inflight {w : Sys B} (h : w.inflight = []) :
    w.idle sched = { w with clock := w.clock + 1 } := by
  have hadvance : ∀ j, w.advance j = w := fun j => by
    unfold advance
    rw [h]
    rfl
  have hfold : ∀ l : List Nat, l.foldl advance w = w := by
    intro l
    induction l with
    | nil => rfl
    | cons j l ih => rw [List.foldl_cons, hadvance, ih]
  rw [idle, hfold]

/-- The task the schedule picks, run to its end. -/
def takeNext (w : Sys B) : Option (Nat × Nat × Except (Stop ApiError) (List Cid)) × Sys B :=
  let j := sched.pick w.clock % w.inflight.length
  match w.inflight[j]? with
  | none => (none, w)
  | some f =>
    let (r, store) := f.task.run B.answer w.store
    (some (f.startIdx, f.expectedLen, r), { w with store, inflight := w.inflight.eraseIdx j })

def answer : (r : ApiReq) → Sys B → ApiAns r × Sys B
  | .store r, w =>
    let w := w.idle sched
    ((B.answer r w.store).1, { w with store := (B.answer r w.store).2 })
  | .spawn startIdx expectedLen task, w =>
    ((), { w with inflight := w.inflight ++ [{ startIdx, expectedLen, task }] })
  | .next, w => (w.idle sched).takeNext sched

end Sys

/-- The end of a handler that is alone with its tasks. -/
def Handler.run {B : Backend} {α : Type} (p : Handler α) (sched : Schedule) (s : B.State) :
    Except (Stop ApiError) α × Sys B :=
  Prog.run (Sys.answer sched) p (Sys.start s)

end Api
