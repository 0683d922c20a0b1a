import Neverust.Api.Peers
import Neverust.Api.Proof.Roundtrip
import Neverust.Storage.Redb

/-!
# Which peer decides a fetch

`fetch_cid_from_peers` goes on to the next peer after an error, a status that is no success, and a
body that cannot be read. It does not go on after a body: the first one that it reads decides
(`tryPeers_eq`), and if it does not verify, the function fails.
-/

namespace Api

open Rust Storage Request

/-- The body that a peer sent. -/
def PeerAnswer.body? : PeerAnswer → Option Bytes
  | .body data => some data
  | _ => none

/-- The first body that the loop reads. -/
def firstBody (peers : List PeerAnswer) : Option Bytes := (peers.take 25).findSome? PeerAnswer.body?

/-- The bytes verify against the CID. -/
def Verifies (cr : Crates) (cid : Cid) (data : Bytes) : Prop :=
  CidBlake3.verifyBlake3 cr data cid = .ok ()

section
variable {cr : Crates} {σ : Type} {h : (r : ApiReq) → σ → ApiAns r × σ} {s : σ} {cid : Cid}
  {cidStr : String}

/-- The store takes the bytes under the CID. -/
def Accepts (h : (r : ApiReq) → σ → ApiAns r × σ) (s : σ) (cid : Cid) (data : Bytes) : Prop :=
  (h (.store (.putMany [{ cid, data }])) s).1 = .ok ()

theorem tryPeers_eq (peers : List PeerAnswer) : tryPeers cr cid cidStr peers =
    match peers.findSome? PeerAnswer.body? with
    | some data => acceptBody cr cid data
    | none => liftM (.error (.err (.notFound cidStr)) : Result ApiError _) := by
  induction peers with
  | nil => rfl
  | cons a peers ih =>
    cases a with
    | body data => rfl
    | failed | status _ | unreadable => exact ih

/-- The bytes are returned if they verify and the store takes them. -/
theorem acceptBody_ok_iff (hm : cid.codec ≠ Manifest.manifestCodec) {data d : Bytes} :
    (Prog.run h (acceptBody cr cid data) s).1 = .ok d ↔
      data = d ∧ Verifies cr cid data ∧ Accepts h s cid data := by
  rw [acceptBody, if_pos hm]
  by_cases hv : Verifies cr cid data
  · rw [Block.fromCidAndData_eq_ok_iff.2 ⟨hv, rfl⟩]
    change (Prog.run h (liftM (wrap _ (h (.store (.putMany [{ cid, data }])) s).1) >>= fun _ =>
      pure data : Handler Bytes) _).1 = _ ↔ _
    unfold Accepts
    cases (h (.store (.putMany [{ cid, data }])) s).1 with
    | ok u => exact ⟨fun hd => ⟨Except.ok.inj hd, hv, rfl⟩, fun hd => congrArg _ hd.1⟩
    | error e => exact ⟨fun hd => (nomatch hd), fun hd => (nomatch hd.2.2)⟩
  · have hblock : ∃ e, Block.fromCidAndData cr cid data = .error e := by
      cases hb : Block.fromCidAndData cr cid data with
      | ok b => exact absurd (Block.fromCidAndData_eq_ok_iff.1 hb).1 hv
      | error e => exact ⟨e, rfl⟩
    obtain ⟨e, he⟩ := hblock
    rw [he]
    exact ⟨fun hd => (nomatch hd), fun hd => absurd hd.2.1 hv⟩

/-- **The first body that is read decides**: it is returned if it verifies and the store takes it. -/
theorem fetchCidFromPeers_ok_iff (hm : cid.codec ≠ Manifest.manifestCodec)
    {peers : List PeerAnswer} {d : Bytes} :
    (Prog.run h (fetchCidFromPeers cr cid cidStr peers) s).1 = .ok d ↔
      firstBody peers = some d ∧ Verifies cr cid d ∧ Accepts h s cid d := by
  rw [fetchCidFromPeers, tryPeers_eq, firstBody]
  cases (peers.take 25).findSome? PeerAnswer.body? with
  | none => exact ⟨fun hd => (nomatch hd), fun hd => (nomatch hd.1)⟩
  | some data =>
    dsimp only
    rw [acceptBody_ok_iff hm, Option.some.injEq]
    constructor
    · rintro ⟨rfl, hd⟩
      exact ⟨rfl, hd⟩
    · rintro ⟨rfl, hd⟩
      exact ⟨rfl, hd⟩

/-- One of the peers that are asked sends bytes that verify and that the store takes. -/
def SomePeerHas (cr : Crates) (h : (r : ApiReq) → σ → ApiAns r × σ) (s : σ) (cid : Cid)
    (peers : List PeerAnswer) : Prop :=
  ∃ data, PeerAnswer.body data ∈ peers.take 25 ∧ Verifies cr cid data ∧ Accepts h s cid data

/-- **A fetch against bad peers**: it returns nothing that does not verify, and if some peer has the
content it returns that exactly if no other body is read before. -/
theorem fetch_despite_bad_iff (cr : Crates) (h : (r : ApiReq) → σ → ApiAns r × σ) (s : σ)
    (cid : Cid) (hm : cid.codec ≠ Manifest.manifestCodec) (cidStr : String)
    (peers : List PeerAnswer) :
    ((SomePeerHas cr h s cid peers → ∃ data,
        (Prog.run h (fetchCidFromPeers cr cid cidStr peers) s).1 = .ok data ∧
          Verifies cr cid data) ∧
      ∀ data, (Prog.run h (fetchCidFromPeers cr cid cidStr peers) s).1 = .ok data →
        Verifies cr cid data) ↔
    (SomePeerHas cr h s cid peers →
      ∀ data, firstBody peers = some data → Verifies cr cid data ∧ Accepts h s cid data) := by
  constructor
  · rintro ⟨hfetch, -⟩ hsome data hfirst
    obtain ⟨d, hd, -⟩ := hfetch hsome
    obtain ⟨hfirst', hgood⟩ := (fetchCidFromPeers_ok_iff hm).1 hd
    rw [hfirst] at hfirst'
    obtain rfl := Option.some.inj hfirst'
    exact hgood
  · intro hfirst
    refine ⟨fun hsome => ?_, fun data hd => ((fetchCidFromPeers_ok_iff hm).1 hd).2.1⟩
    have hread : (firstBody peers).isSome := by
      obtain ⟨data, hmem, -⟩ := hsome
      exact List.findSome?_isSome_iff.2 ⟨.body data, hmem, rfl⟩
    obtain ⟨d, hd⟩ := Option.isSome_iff_exists.1 hread
    have hgood := hfirst hsome d hd
    exact ⟨d, (fetchCidFromPeers_ok_iff hm).2 ⟨hd, hgood⟩, hgood.1⟩

end

/-! ## A bad peer before a good one -/

def goodBytes : Bytes := [1]

/-- The first peer sends wrong bytes, the second the right ones. -/
def badThenGood : List PeerAnswer := [.body [2], .body goodBytes]

def goodCid : Cid :=
  Cid.newV1 CidBlake3.archivistBlockCodec ⟨CidBlake3.blake3Code, Crates.standard.blake3 goodBytes⟩

theorem verifies_goodCid (data : Bytes) : Verifies .standard goodCid data ↔
    Crates.standard.blake3 data = Crates.standard.blake3 goodBytes := by
  rw [Verifies, verifyBlake3_eq_ok_iff Crates.standard_standard]
  simp [goodCid, Cid.newV1, Crates.digestOf]

/-- A fetch with an empty redb store. -/
abbrev emptySys : Sys (RedbStore.backend .standard false) := Sys.start RedbStore.empty

theorem accepts_empty (data : Bytes) :
    Accepts (Sys.answer sampleSchedule) emptySys goodCid data :=
  congrArg Prod.fst (RedbStore.putMany_of_nil rfl)

theorem fetch_despite_bad_iff_sample :
    ((SomePeerHas .standard (Sys.answer sampleSchedule) emptySys goodCid badThenGood → ∃ data,
        (Prog.run (Sys.answer sampleSchedule) (fetchCidFromPeers .standard goodCid "good" badThenGood)
          emptySys).1 = .ok data ∧ Verifies .standard goodCid data) ∧
      ∀ data, (Prog.run (Sys.answer sampleSchedule)
          (fetchCidFromPeers .standard goodCid "good" badThenGood) emptySys).1 = .ok data →
        Verifies .standard goodCid data) ↔
    (SomePeerHas .standard (Sys.answer sampleSchedule) emptySys goodCid badThenGood →
      ∀ data, firstBody badThenGood = some data → Verifies .standard goodCid data ∧
        Accepts (Sys.answer sampleSchedule) emptySys goodCid data) :=
  fetch_despite_bad_iff .standard (Sys.answer sampleSchedule) emptySys goodCid (by decide)
    "good" badThenGood

/-- The second peer has the content, and the fetch fails on what the first one sent. -/
theorem bad_peer_blocks :
    ¬ ∀ (cid : Cid) (peers : List PeerAnswer), cid.codec ≠ Manifest.manifestCodec →
      SomePeerHas .standard (Sys.answer sampleSchedule) emptySys cid peers →
      ∃ data, (Prog.run (Sys.answer sampleSchedule) (fetchCidFromPeers .standard cid "cid" peers)
        emptySys).1 = .ok data ∧ Verifies .standard cid data := by
  intro h
  have hm : goodCid.codec ≠ Manifest.manifestCodec := by decide
  obtain ⟨data, hd, -⟩ := h goodCid badThenGood hm ⟨goodBytes,
    List.mem_cons_of_mem _ List.mem_cons_self, (verifies_goodCid _).2 rfl, accepts_empty _⟩
  obtain ⟨hfirst, hv, -⟩ := (fetchCidFromPeers_ok_iff hm).1 hd
  obtain rfl : [2] = data := Option.some.inj hfirst
  exact absurd ((verifies_goodCid _).1 hv) (by decide +kernel)

end Api
