import Neverust.CidForms
import Neverust.Storage.DeltaFlat.Proof.Filed
import Neverust.Storage.DeltaStore.Proof.Contents
import Neverust.Storage.GeomTree.Proof.Contents

/-!
# Whether the backends agree

`StoreBackend` has the four backends of a `BlockStore`. Each of them keeps contents, so they agree
as long as each can take the calls.

* `Fit`: DeltaStore has places for the blocks of the calls, DeltaFlat has room for them, and a CID
  is put again with data of its size class only.
* `backends_agree`: in a run of such calls all answers are alike, and tell the contents.
* `put_again_differs`: DeltaFlat stores a CID a second time if the new data have another size class.
-/

namespace Storage

open Io

inductive StoreBackend
  | redb
  | deltaStore
  | deltaFlat
  | geomTree
  deriving Repr, DecidableEq

/-- The settings of the backends. -/
structure Settings where
  delta : DeltaStore.Store
  flat : DeltaFlat.Store
  geom : GeomTree.Store

/-- The exists checks are on, no blocks are verified, and there is a lane. -/
structure Settings.Usual (s : Settings) : Prop where
  deltaCheck : s.delta.skipExistsCheck = false
  deltaVerify : s.delta.verifyBlocksOnWrite = false
  flatCheck : s.flat.skipExistsCheck = false
  flatVerify : s.flat.verifyBlocksOnWrite = false
  geomVerify : s.geom.verifyBlocksOnWrite = false
  lanes : 0 < s.flat.laneCount

/-- The settings if no variable is set. -/
def Settings.default : Settings where
  delta := .open false none false false
  flat := .open {}
  geom := { fsyncWrites := false, shardLevels := 3, bytesPerLevel := 2, verifyBlocksOnWrite := false }

theorem Settings.usual_default : Settings.default.Usual := ⟨rfl, rfl, rfl, rfl, rfl, by decide⟩

section
variable (cr : Crates) (s : Settings)

namespace StoreBackend

def backend : StoreBackend → Backend
  | redb => RedbStore.backend cr false
  | deltaStore => DeltaStore.backend cr s.delta
  | deltaFlat => (DeltaFlat.calls cr s.flat).backend
  | geomTree => (GeomTree.calls cr s.geom).backend

/-- The backend in an empty directory, where no IO fails. -/
def start : (b : StoreBackend) → (b.backend cr s).State
  | redb => RedbStore.empty
  | deltaStore => DeltaStore.State.start fun _ => none
  | deltaFlat => (World.empty : World DeltaFlat.Path)
  | geomTree => (World.empty : World GeomTree.FilePath)

/-- The answer to a call after others. -/
def answerAfter (b : StoreBackend) (before : List StoreReq) (r : StoreReq) : StoreAns r :=
  ((b.backend cr s).answer r ((b.backend cr s).run (b.start cr s) before)).1

end StoreBackend

/-- CIDs of at most 96 bytes, and data of at most 512 MiB. -/
def Sized (calls : List StoreReq) : Prop :=
  ∀ blocks, .putMany blocks ∈ calls → ∀ b ∈ blocks,
    (cr.cidToBytes b.cid).length ≤ DeltaFlat.maxCidBytes ∧ b.data.length ≤ 512 * 1024 * 1024

/-- DeltaStore and DeltaFlat can take the calls, one after the other. -/
structure Fit (calls : List StoreReq) : Prop where
  delta : FitsAll (DeltaStore.Takes s.delta) (DeltaStore.placesAfter s.delta) .empty
    (fun _ => { fileId := 0, nextOffset := 0 }) calls
  flat : FitsAll (DeltaFlat.Takes cr s.flat) (fun _ => DeltaFlat.lanesAfter cr s.flat) .empty
    (fun _ => .new s.flat) calls

end

section
variable {cr : Crates} {s : Settings}

theorem fitsAll_of_forall {Book : Type} {Fits : Contents → Book → StoreReq → Prop}
    {next : Contents → Book → StoreReq → Book} :
    ∀ {calls : List StoreReq} {m : Contents} {k : Book}, (∀ m k, ∀ r ∈ calls, Fits m k r) →
      FitsAll Fits next m k calls
  | [], _, _, _ => trivial
  | r :: _, m, k, h => ⟨h m k r (.head _), fitsAll_of_forall fun m k r' hr => h m k r' (.tail _ hr)⟩

/-- Every call fits redb. -/
theorem redb_answered (cr : Crates) (s : Settings) (before : List StoreReq) (r : StoreReq) :
    (Contents.empty.afterAll before).Answered r (StoreBackend.redb.answerAfter cr s before r) := by
  have hall : FitsAll (fun _ (_ : Unit) _ => True) (fun _ _ _ => ()) .empty () (before ++ [r]) :=
    fitsAll_of_forall fun _ _ _ _ => trivial
  exact (RedbStore.keeps cr).run (RedbStore.shelved_empty cr) hall

/-- **Each backend answers as its contents say.** -/
theorem answered (hs : s.Usual) {before : List StoreReq} {r : StoreReq} {later : List StoreReq}
    (hsize : Sized cr (before ++ r :: later)) (hfit : Fit cr s (before ++ r :: later))
    (b : StoreBackend) :
    (Contents.empty.afterAll before).Answered r (b.answerAfter cr s before r) := by
  cases b with
  | redb => exact redb_answered cr s before r
  | deltaStore =>
    exact (DeltaStore.keeps cr hs.deltaCheck hs.deltaVerify).run
      (DeltaStore.shelved_start fun _ => rfl) hfit.delta
  | deltaFlat =>
    exact (DeltaFlat.keeps hs.flatCheck hs.flatVerify hs.lanes).run
      (DeltaFlat.shelved_empty cr s.flat World.noFaults_empty fun _ => rfl) hfit.flat
  | geomTree =>
    have hall : FitsAll GeomTree.Takes (fun _ _ _ => ()) .empty () (before ++ r :: later) := by
      refine fitsAll_of_forall fun _ _ r' hr => ?_
      cases r' with
      | putMany blocks =>
        intro b hb
        have hle := (hsize blocks hr b hb).2
        unfold maxFileLen
        omega
      | _ => trivial
    exact (GeomTree.keeps hs.geomVerify).run (GeomTree.shelved_empty cr s.geom) hall

/-- **The backends agree** in every run of calls that fit: at each step the four give answers that
are alike, and that tell the contents after the calls before. -/
theorem backends_agree (cr : Crates) {s : Settings} (hs : s.Usual) {calls : List StoreReq}
    (hsize : Sized cr calls) (hfit : Fit cr s calls) :
    ∀ before r later, calls = before ++ r :: later → ∀ b b' : StoreBackend,
      (Contents.empty.afterAll before).Answered r (b.answerAfter cr s before r) ∧
        Alike r (b.answerAfter cr s before r) (b'.answerAfter cr s before r) := by
  rintro before r later rfl b b'
  have h := answered hs hsize hfit
  exact ⟨h b, (h b).alike (h b')⟩

end

/-! ## A sample run -/

/-- Zeros under a CID. -/
def zeros (n : Nat) : Block := { cid := Cid.newV1 0x55 ⟨0, []⟩, data := List.replicate n 0 }

theorem length_zeros (n : Nat) : (zeros n).data.length = n := List.length_replicate

theorem length_cid_zeros (n : Nat) :
    (Crates.standard.cidToBytes (zeros n).cid).length ≤ DeltaFlat.maxCidBytes := by
  show (Crates.standard.cidToBytes (Cid.newV1 0x55 ⟨0, []⟩)).length ≤ _
  decide

theorem fitsNew_zeros {n : Nat} (h : n ≤ 1024 * 1024) :
    DeltaFlat.FitsNew .standard Settings.default.flat (zeros n) := by
  have hmax : Settings.default.flat.maxFileBytes.toNat = 1024 * 1024 * 1024 := by decide
  refine ⟨length_cid_zeros n, ?_, ?_⟩ <;> rw [length_zeros] <;> omega

/-- The calls of a first block. -/
def firstCalls : List StoreReq :=
  [.put (zeros 3), .get (zeros 3).cid, .delete (zeros 3).cid, .has (zeros 3).cid]

theorem sized_firstCalls : Sized .standard firstCalls := by
  intro blocks hb b hmem
  simp only [firstCalls, StoreReq.put, List.mem_cons, StoreReq.putMany.injEq, reduceCtorEq,
    List.not_mem_nil, or_false] at hb
  rw [hb] at hmem
  obtain rfl := List.mem_singleton.1 hmem
  exact ⟨length_cid_zeros 3, by decide⟩

theorem fit_firstCalls : Fit .standard .default firstCalls where
  delta := by
    refine ⟨DeltaStore.placesFor_one rfl (DeltaStore.placeFor_of_le ?_ ?_ ?_), trivial, trivial,
      trivial, trivial⟩
    · decide
    · decide
    · decide
  flat := by
    have hins := (fitsNew_zeros (n := 3) (by decide)).insert (by decide)
    obtain ⟨hroom, hlanes⟩ := DeltaFlat.lanesAfter_one (fun _ => .new Settings.default.flat) hins
    have hreach : DeltaFlat.Reached .standard Settings.default.flat
        (DeltaFlat.lanesAfter .standard Settings.default.flat (fun _ => .new Settings.default.flat)
          (.putMany [zeros 3])) (zeros 3).cid := by
      refine DeltaFlat.reached_of_addressable fun d => ?_
      rw [hlanes]
      by_cases hd : d = DeltaFlat.homeOf .standard Settings.default.flat (zeros 3)
      · rw [hd, Function.update_self]
        exact DeltaFlat.addressable_one _ _ _
      · rw [Function.update_of_ne hd]
        exact DeltaFlat.addressable_new _ _
    exact ⟨⟨DeltaFlat.sameClasses_new rfl, hroom⟩, fun _ => hreach, fun _ => hreach,
      fun h => absurd h (by decide), trivial⟩

theorem backends_agree_firstCalls :
    Alike (.has (zeros 3).cid)
      (StoreBackend.redb.answerAfter .standard .default
        [.put (zeros 3), .get (zeros 3).cid, .delete (zeros 3).cid] (.has (zeros 3).cid))
      (StoreBackend.deltaFlat.answerAfter .standard .default
        [.put (zeros 3), .get (zeros 3).cid, .delete (zeros 3).cid] (.has (zeros 3).cid)) :=
  (backends_agree .standard Settings.usual_default sized_firstCalls fit_firstCalls
    [.put (zeros 3), .get (zeros 3).cid, .delete (zeros 3).cid] _ [] rfl .redb .deltaFlat).2

/-! ## A CID with data of two classes -/

/-- DeltaFlat returns the later data, if they have the smaller class. -/
theorem deltaFlat_put_twice {cr : Crates} {s : Settings} (hs : s.Usual)
    (hprobe : 0 < s.flat.maxProbeSteps.toNat) {a b : Block} (ha : DeltaFlat.FitsNew cr s.flat a)
    (hb : DeltaFlat.FitsNew cr s.flat b) (hcid : a.cid = b.cid)
    (hlt : (classForLen b.data.length).1 < (classForLen a.data.length).1) :
    StoreBackend.deltaFlat.answerAfter cr s [.put a, .put b] (.get b.cid) = .ok b := by
  have htwice := DeltaFlat.put_twice hs.flatCheck hs.flatVerify hprobe World.noFaults_empty
    (fun _ => rfl) ha hb hcid hlt
  have h1 := outcome_spec (P := fun p => wp (DeltaFlat.putMany cr s.flat [b])
    (fun _ w2 => wp (DeltaFlat.get cr s.flat b.cid) (fun b' _ => b' = b) (fun _ _ => False) w2)
    (fun _ _ => False) p.2) (wp_mono htwice (fun _ _ h => h) fun _ _ hf => hf.elim)
  have h2 := outcome_spec (P := fun p => wp (DeltaFlat.get cr s.flat b.cid) (fun b' _ => b' = b)
    (fun _ _ => False) p.2) (wp_mono h1 (fun _ _ h => h) fun _ _ hf => hf.elim)
  exact outcome_spec (P := fun p => p.1 = .ok b)
    (wp_mono h2 (fun _ _ h => congrArg Except.ok h) fun _ _ hf => hf.elim)

/-- The calls of a CID with more than 512 KiB first, and then with one byte. -/
def putAgain : List StoreReq := [.put (zeros (512 * 1024 + 1)), .put (zeros 1)]

/-- **The backends differ** when a CID is put again with data of a smaller class: redb returns the
first data, DeltaFlat the later. -/
theorem put_again_differs :
    ¬ ∀ calls, Sized .standard calls → ∀ before r later, calls = before ++ r :: later →
      ∀ b b' : StoreBackend, Alike r (b.answerAfter .standard .default before r)
        (b'.answerAfter .standard .default before r) := by
  intro h
  have halike := h (putAgain ++ [.get (zeros 1).cid]) (fun blocks hb b hmem => ?_) putAgain
    (.get (zeros 1).cid) [] rfl .redb .deltaFlat
  · have hflat : StoreBackend.deltaFlat.answerAfter .standard .default putAgain
        (.get (zeros 1).cid) = .ok (zeros 1) := by
      refine deltaFlat_put_twice Settings.usual_default (by decide) (fitsNew_zeros (by decide))
        (fitsNew_zeros (by decide)) rfl ?_
      rw [length_zeros, length_zeros]
      decide
    have hredb := redb_answered .standard .default putAgain (.get (zeros 1).cid)
    rw [hflat] at halike
    have heq : some ({ cid := (zeros 1).cid, data := (zeros (512 * 1024 + 1)).data } : Block) =
      some (zeros 1) := Eq.trans (Eq.symm hredb) halike
    have hlen := congrArg (fun b : Block => b.data.length) (Option.some.inj heq)
    dsimp only at hlen
    rw [length_zeros, length_zeros] at hlen
    exact absurd hlen (by decide)
  · simp only [putAgain, StoreReq.put, List.cons_append, List.nil_append, List.mem_cons,
      StoreReq.putMany.injEq, reduceCtorEq, List.not_mem_nil, or_false] at hb
    rcases hb with rfl | rfl
    · obtain rfl := List.mem_singleton.1 hmem
      exact ⟨length_cid_zeros _, by rw [length_zeros]; decide⟩
    · obtain rfl := List.mem_singleton.1 hmem
      exact ⟨length_cid_zeros _, by rw [length_zeros]; decide⟩

end Storage
