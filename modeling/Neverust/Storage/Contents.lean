import Neverust.Lib.Io
import Neverust.Storage.Backend

/-!
# What a block store keeps

A block store keeps data under CIDs: the first put of a CID counts until the CID is deleted.

* `Contents.after`: the contents after a call. `Contents.Answered`: an answer tells the contents.
* `Alike`: answers that a caller cannot tell apart.
* `Backend.Keeps`: a backend whose states go with contents, and with a book of what else decides
  whether it can take a call. `Backend.Keeps.run`: so it is in a run of calls that fit.
* `DiskCalls.keeps`: what that means for calls that are programs on a disk.
-/

namespace Storage

open Io

/-- The data that are kept under CIDs. -/
abbrev Contents := Cid → Option Bytes

namespace Contents

def empty : Contents := fun _ => none

/-- A put: data that are there stay. -/
def put (m : Contents) (b : Block) : Contents :=
  fun cid => if cid = b.cid then some ((m cid).getD b.data) else m cid

def delete (m : Contents) (cid : Cid) : Contents := fun c => if c = cid then none else m c

/-- The contents after a call. -/
def after (m : Contents) : StoreReq → Contents
  | .putMany blocks => blocks.foldl put m
  | .delete cid => m.delete cid
  | .get _ | .has _ | .listCids => m

/-- The contents after calls. -/
def afterAll (m : Contents) (calls : List StoreReq) : Contents := calls.foldl after m

/-- The answer of a store with these contents. -/
def Answered (m : Contents) : (r : StoreReq) → StoreAns r → Prop
  | .putMany _, a => a = .ok ()
  | .get cid, a => a.toOption = (m cid).map fun data => { cid, data }
  | .has cid, a => a = (m cid).isSome
  | .delete cid, a => a.toOption = (m cid).map fun _ => ()
  | .listCids, a => ∀ cid, cid ∈ a ↔ (m cid).isSome

variable {m : Contents} {b : Block} {cid : Cid} {data : Bytes}

@[simp] theorem put_self : m.put b b.cid = some ((m b.cid).getD b.data) := if_pos rfl

theorem put_of_ne (h : cid ≠ b.cid) : m.put b cid = m cid := if_neg h

/-- A put of a CID that is there changes nothing. -/
theorem put_of_some (h : m b.cid = some data) : m.put b = m := by
  funext cid
  by_cases hc : cid = b.cid
  · rw [hc, put_self, h, Option.getD_some]
  · exact put_of_ne hc

theorem put_of_none (h : m b.cid = none) :
    m.put b = fun cid => if cid = b.cid then some b.data else m cid := by
  funext cid
  by_cases hc : cid = b.cid
  · rw [hc, put_self, h, Option.getD_none, if_pos rfl]
  · rw [put_of_ne hc, if_neg hc]

@[simp] theorem delete_self : m.delete cid cid = none := if_pos rfl

theorem delete_of_ne {c : Cid} (h : c ≠ cid) : m.delete cid c = m c := if_neg h

theorem delete_of_none (h : m cid = none) : m.delete cid = m := by
  funext c
  by_cases hc : c = cid
  · rw [hc, delete_self, h]
  · exact delete_of_ne hc

end Contents

/-- Answers that a caller cannot tell apart: both are `Ok` or both are `Err`, with the same data,
the same `has` and the same set of CIDs. -/
def Alike : (r : StoreReq) → StoreAns r → StoreAns r → Prop
  | .putMany _, a, a' => a.toOption = a'.toOption
  | .get _, a, a' => a.toOption = a'.toOption
  | .has _, a, a' => a = a'
  | .delete _, a, a' => a.toOption = a'.toOption
  | .listCids, a, a' => ∀ cid, cid ∈ a ↔ cid ∈ a'

/-- Stores with the same contents answer alike. -/
theorem Contents.Answered.alike {m : Contents} {r : StoreReq} {a a' : StoreAns r}
    (h : m.Answered r a) (h' : m.Answered r a') : Alike r a a' := by
  cases r with
  | putMany blocks =>
    obtain rfl : a = .ok () := h
    obtain rfl : a' = .ok () := h'
    rfl
  | get cid => exact Eq.trans h (Eq.symm h')
  | has cid => exact Eq.trans h (Eq.symm h')
  | delete cid => exact Eq.trans h (Eq.symm h')
  | listCids => exact fun cid => Iff.trans (h cid) (h' cid).symm

/-! ## Backends that keep contents -/

/-- The calls fit one after the other. -/
def FitsAll {Book : Type} (Fits : Contents → Book → StoreReq → Prop)
    (next : Contents → Book → StoreReq → Book) : Contents → Book → List StoreReq → Prop
  | _, _, [] => True
  | m, k, r :: calls => Fits m k r ∧ FitsAll Fits next (m.after r) (next m k r) calls

namespace Backend

/-- The state after calls. -/
def run (B : Backend) (s : B.State) (calls : List StoreReq) : B.State :=
  calls.foldl (fun s r => (B.answer r s).2) s

/-- A backend that keeps contents. `Is m k s`: the state `s` has the contents `m` and the book `k`.
A call that fits is answered as the contents say, and the state goes with the contents and the book
after it. -/
def Keeps (B : Backend) {Book : Type} (Fits : Contents → Book → StoreReq → Prop)
    (next : Contents → Book → StoreReq → Book) (Is : Contents → Book → B.State → Prop) : Prop :=
  ∀ ⦃m k s⦄ (r : StoreReq), Is m k s → Fits m k r →
    m.Answered r (B.answer r s).1 ∧ Is (m.after r) (next m k r) (B.answer r s).2

/-- **A run** of calls that fit: each of them is answered as the contents say. -/
theorem Keeps.run {B : Backend} {Book : Type} {Fits : Contents → Book → StoreReq → Prop}
    {next : Contents → Book → StoreReq → Book} {Is : Contents → Book → B.State → Prop}
    (h : B.Keeps Fits next Is) {calls : List StoreReq} {r : StoreReq} {later : List StoreReq} :
    ∀ {m k s}, Is m k s → FitsAll Fits next m k (calls ++ r :: later) →
      (m.afterAll calls).Answered r (B.answer r (B.run s calls)).1 := by
  induction calls with
  | nil => exact fun hs hfit => (h r hs hfit.1).1
  | cons r' calls ih => exact fun hs hfit => ih (h r' hs hfit.1).2 hfit.2

end Backend

/-! ## Backends on a disk -/

/-- The calls of a backend whose state is the disk. -/
structure DiskCalls (ρ : Type) where
  putMany : List Block → Prog ρ StorageError Unit
  get : Cid → Prog ρ StorageError Block
  has : Cid → Prog ρ StorageError Bool
  delete : Cid → Prog ρ StorageError Unit
  listCids : Prog ρ StorageError (List Cid)

section
variable {ρ α : Type}

/-- The result of a program and the disk after it. -/
def outcome (x : Prog ρ StorageError α) (w : World ρ) : Except StorageError α × World ρ :=
  match x w with
  | .ok a w' => (.ok a, w')
  | .error e w' => (.error e, w')

theorem outcome_spec {x : Prog ρ StorageError α} {w : World ρ}
    {P : Except StorageError α × World ρ → Prop}
    (h : wp x (fun a w' => P (.ok a, w')) (fun e w' => P (.error e, w')) w) :
    P (outcome x w) := by
  unfold wp at h
  unfold outcome
  cases hx : x w with
  | ok a w' =>
    rw [hx] at h
    exact h
  | error e w' =>
    rw [hx] at h
    exact h

namespace DiskCalls

/-- The answer of `has` and `list_cids`, which return no error, is that of the program. -/
def backend (c : DiskCalls ρ) : Backend where
  State := World ρ
  answer
    | .putMany blocks, w => outcome (c.putMany blocks) w
    | .get cid, w => outcome (c.get cid) w
    | .has cid, w => ((outcome (c.has cid) w).1.toOption.getD false, (outcome (c.has cid) w).2)
    | .delete cid, w => outcome (c.delete cid) w
    | .listCids, w => ((outcome c.listCids w).1.toOption.getD [], (outcome c.listCids w).2)

/-- What the calls of a backend do if it keeps contents, as conditions on their programs. -/
theorem keeps {c : DiskCalls ρ} {Book : Type} {Fits : Contents → Book → StoreReq → Prop}
    {next : Contents → Book → StoreReq → Book} {Is : Contents → Book → World ρ → Prop}
    (hput : ∀ {m k w} blocks, Is m k w → Fits m k (.putMany blocks) →
      wp (c.putMany blocks)
        (fun _ w' => Is (blocks.foldl Contents.put m) (next m k (.putMany blocks)) w')
        (fun _ _ => False) w)
    (hget : ∀ {m k w} cid, Is m k w → Fits m k (.get cid) →
      wp (c.get cid) (fun b w' => m cid = some b.data ∧ b.cid = cid ∧ Is m (next m k (.get cid)) w')
        (fun _ w' => m cid = none ∧ Is m (next m k (.get cid)) w') w)
    (hhas : ∀ {m k w} cid, Is m k w → Fits m k (.has cid) →
      wp (c.has cid) (fun b w' => b = (m cid).isSome ∧ Is m (next m k (.has cid)) w')
        (fun _ _ => False) w)
    (hdelete : ∀ {m k w} cid, Is m k w → Fits m k (.delete cid) →
      wp (c.delete cid)
        (fun _ w' => (m cid).isSome ∧ Is (m.delete cid) (next m k (.delete cid)) w')
        (fun _ w' => m cid = none ∧ Is m (next m k (.delete cid)) w') w)
    (hlist : ∀ {m k w}, Is m k w → Fits m k .listCids →
      wp c.listCids
        (fun cids w' => (∀ cid, cid ∈ cids ↔ (m cid).isSome) ∧ Is m (next m k .listCids) w')
        (fun _ _ => False) w) :
    c.backend.Keeps Fits next Is := by
  intro m k w r hw hfit
  cases r with
  | putMany blocks =>
    exact outcome_spec (P := fun p => p.1 = .ok () ∧ Is _ _ p.2)
      (wp_mono (hput blocks hw hfit) (fun _ _ h => ⟨rfl, h⟩) fun _ _ h => h.elim)
  | get cid =>
    refine outcome_spec (P := fun p => p.1.toOption = _ ∧ Is _ _ p.2)
      (wp_mono (hget cid hw hfit) (fun b w' h => ⟨?_, h.2.2⟩) fun _ w' h => ⟨?_, h.2⟩)
    · rw [h.1, ← h.2.1]
      rfl
    · rw [h.1]
      rfl
  | has cid =>
    exact outcome_spec (P := fun p => p.1.toOption.getD false = _ ∧ Is _ _ p.2)
      (wp_mono (hhas cid hw hfit) (fun _ _ h => h) fun _ _ h => h.elim)
  | delete cid =>
    refine outcome_spec (P := fun p => p.1.toOption = _ ∧ Is _ _ p.2)
      (wp_mono (hdelete cid hw hfit) (fun b w' h => ⟨?_, h.2⟩) fun _ w' h => ⟨?_, ?_⟩)
    · obtain ⟨data, hm⟩ := Option.isSome_iff_exists.1 h.1
      rw [hm]
      rfl
    · rw [h.1]
      rfl
    · show Is (m.delete cid) _ w'
      rw [Contents.delete_of_none h.1]
      exact h.2
  | listCids =>
    exact outcome_spec (P := fun p => (∀ cid, cid ∈ p.1.toOption.getD [] ↔ (m cid).isSome) ∧
      Is m (next m k .listCids) p.2) (wp_mono (hlist hw hfit) (fun _ _ h => h) fun _ _ h => h.elim)

end DiskCalls

end

end Storage
