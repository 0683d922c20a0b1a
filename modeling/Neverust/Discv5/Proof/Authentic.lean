import Neverust.Discv5.Proof.Hostile
import Neverust.Spr.Proof.Parse

/-!
# Whether signed peer records are authentic

The three readers of signed peer records against a signature scheme: `verify` says of a public key,
a payload type, a payload and a signature whether the signature is one of the key. None of the
readers looks at the signature.

* `ArchivistSpr.Authentic`, `AuthenticBytes`: the envelope has a signature that verifies.
* `spr_authentic_iff`: the records that are returned come from authentic envelopes exactly if all
  envelopes in the text are authentic, and a record of a node does exactly if its bytes are authentic
  or some check that is made refuses them.
-/

namespace Spr

open Rust Discv5

variable {K P A E : Type}

/-- A public key, a payload type, a payload and a signature. -/
abbrev Verify := Bytes → Bytes → Bytes → Bytes → Bool

/-- The one payload has the one signature of the key. -/
def ArchivistSpr.Authentic (verify : Verify) (s : ArchivistSpr) : Prop :=
  ∃ key payload signature, s.peerId = some key ∧ s.peerRecord = [payload] ∧
    s.signature = [signature] ∧ verify key (s.seqBytes.getD []) payload signature = true

/-! ## Records in a text -/

/-- The records come, one after the other, from authentic envelopes among `es`. -/
def Genuine {α : Type} (verify : Verify) (es : List (ArchivistSpr × K))
    (record : ArchivistSpr × K → α) (records : List α) : Prop :=
  ∃ es' : List (ArchivistSpr × K), es'.Sublist es ∧ (∀ e ∈ es', e.1.Authentic verify) ∧
    records = es'.map record

theorem genuine_iff {α : Type} {verify : Verify} {es : List (ArchivistSpr × K)}
    {record : ArchivistSpr × K → α} :
    Genuine verify es record (es.map record) ↔ ∀ e ∈ es, e.1.Authentic verify := by
  constructor
  · rintro ⟨es', hsub, hall, heq⟩
    have hlen : es'.length = es.length := by
      have hmap := congrArg List.length heq
      rw [List.length_map, List.length_map] at hmap
      exact hmap.symm
    rwa [hsub.eq_of_length hlen] at hall
  · exact fun hall => ⟨es, List.Sublist.refl es, hall, rfl⟩

/-- All records that `parse_spr_records` returns come from authentic envelopes. -/
def AuthenticRecords (c : Crates K P A) (verify : Verify) (sprText : List Char) : Prop :=
  ∃ records, parseSprRecords c sprText = .ok records ∧
    Genuine verify (envelopes c sprText) (toRecord c) records

/-- All records that `parse_spr_records_full` returns do. -/
def AuthenticFullRecords (c : Crates K P A) (verify : Verify) (sprText : List Char) : Prop :=
  ∃ records, parseSprRecordsFull c sprText = .ok records ∧
    Genuine verify (envelopes c sprText) (toFullRecord c) records

/-! ## Records of nodes -/

/-- The payload of the envelope has a signature of the key. -/
def AuthenticBytes (verify : Verify) (sprBytes : Bytes) : Prop :=
  ∃ fs key payload payloadType signature, decodeAllFields sprBytes = .ok fs ∧
    lastTwo 1 3 fs = (some key, some payload) ∧ lastTwo 2 5 fs = (payloadType, some signature) ∧
    verify key (payloadType.getD []) payload signature = true

/-- The checks that are made: the envelope, its secp256k1 key and its payload decode, and a record
can be made of them. -/
def Readable (enr : EnrCodec E) (sprBytes : Bytes) : Prop :=
  ∃ fs pkProto payload pkFields key prFields r e, decodeAllFields sprBytes = .ok fs ∧
    lastTwo 1 3 fs = (some pkProto, some payload) ∧ decodeAllFields pkProto = .ok pkFields ∧
    pkFields.foldlM keyStep (0, none) = .ok (2, some key) ∧
    decodeAllFields payload = .ok prFields ∧
    prFields.foldlM PeerRecord.step ⟨0, none, none, none⟩ = .ok r ∧
    enr.fromVerifiedSpr key r.seq r.ipv4 r.udpPort r.tcpPort = some e

theorem toOption_eq_some {α : Type} {x : Result DecoderError α} {a : α}
    (h : toOption x = .ok (some a)) : x = .ok a := by
  rcases x with (e | p | _) | b
  · cases h
  · cases h
  · cases h
  · cases h
    rfl

/-- A record is made exactly of the bytes that pass the checks. -/
theorem enrFromSprBytes_some_iff (enr : EnrCodec E) (sprBytes : Bytes) :
    (∃ e, enrFromSprBytes enr sprBytes = .ok (some e)) ↔ Readable enr sprBytes := by
  constructor
  · rintro ⟨e, h⟩
    rw [enrFromSprBytes] at h
    obtain ⟨o, ho, h⟩ := bind_eq_ok h
    cases o with
    | none => cases h
    | some fs =>
      simp only at h
      rcases htwo : lastTwo 1 3 fs with ⟨_ | pkProto, _ | payload⟩
      · rw [htwo] at h
        cases h
      · rw [htwo] at h
        cases h
      · rw [htwo] at h
        cases h
      · rw [htwo] at h
        obtain ⟨o, hpk, h⟩ := bind_eq_ok h
        cases o with
        | none => cases h
        | some pkFields =>
          obtain ⟨⟨keyType, keyData⟩, hkey, h⟩ := bind_eq_ok h
          simp only at h
          split at h
          · cases h
          · rename_i htype
            cases keyData with
            | none => cases h
            | some key =>
              obtain ⟨o, hpr, h⟩ := bind_eq_ok h
              cases o with
              | none => cases h
              | some prFields =>
                obtain ⟨r, hr, h⟩ := bind_eq_ok h
                rw [not_not.1 htype] at hkey
                exact ⟨fs, pkProto, payload, pkFields, key, prFields, r, e, toOption_eq_some ho,
                  htwo, toOption_eq_some hpk, hkey, toOption_eq_some hpr, hr, Except.ok.inj h⟩
  · rintro ⟨fs, pkProto, payload, pkFields, key, prFields, r, e, hfs, htwo, hpk, hkey, hpr, hr, he⟩
    refine ⟨e, ?_⟩
    rw [enrFromSprBytes, hfs]
    simp only [toOption, ok_bind, htwo, hpk, hkey, hpr, hr, he]
    rfl

/-! ## All readers -/

/-- **Authenticity is left to the input.** Since no reader checks a signature, the records are
authentic exactly if the envelopes are. -/
theorem spr_authentic_iff (c : Crates K P A) (enr : EnrCodec E) (verify : Verify) :
    (∀ sprText, AuthenticRecords c verify sprText ↔
      ∀ e ∈ envelopes c sprText, e.1.Authentic verify) ∧
    (∀ sprText, AuthenticFullRecords c verify sprText ↔
      ∀ e ∈ envelopes c sprText, e.1.Authentic verify) ∧
    ∀ sprBytes, (∀ e, enrFromSprBytes enr sprBytes = .ok (some e) →
      AuthenticBytes verify sprBytes) ↔
        (Readable enr sprBytes → AuthenticBytes verify sprBytes) := by
  refine ⟨fun sprText => ?_, fun sprText => ?_, fun sprBytes => ?_⟩
  · have hiff : Genuine verify (envelopes c sprText) (toRecord c) _ ↔ _ := genuine_iff
    rw [AuthenticRecords, parseSprRecords_eq, ← hiff]
    exact ⟨fun ⟨_, h, hg⟩ => Except.ok.inj h ▸ hg, fun hg => ⟨_, rfl, hg⟩⟩
  · have hiff : Genuine verify (envelopes c sprText) (toFullRecord c) _ ↔ _ := genuine_iff
    rw [AuthenticFullRecords, parseSprRecordsFull_eq, ← hiff]
    exact ⟨fun ⟨_, h, hg⟩ => Except.ok.inj h ▸ hg, fun hg => ⟨_, rfl, hg⟩⟩
  · rw [← enrFromSprBytes_some_iff enr sprBytes]
    exact ⟨fun h ⟨e, he⟩ => h e he, fun h e he => h ⟨e, he⟩⟩

/-- An envelope with a secp256k1 key and an empty peer record, and no signature. -/
def unsignedSpr : Bytes :=
  [0x0A, 0x25, 0x08, 0x02, 0x12, 0x21, 0x03, 0x99, 0xa0, 0xd7, 0x52, 0xd9, 0x80, 0x54, 0x38, 0x5f,
    0x32, 0x11, 0x6f, 0x54, 0xf9, 0xc7, 0x0f, 0x66, 0xb8, 0x55, 0xb5, 0x00, 0xb3, 0x4a, 0x4e, 0x28,
    0xf2, 0x2a, 0x14, 0x26, 0xbc, 0xa6, 0x17, 0x12, 0x02, 0x03, 0x01, 0x1A, 0x00]

/-- Records of keys of 33 bytes. -/
def keyCodec : EnrCodec Bytes where
  encode := id
  decode := fun _ => none
  fromVerifiedSpr := fun key _ _ _ _ => if key.length = 33 then some key else none

/-- Even if every signature verified. -/
theorem unsignedSpr_accepted :
    ¬ ∀ e, enrFromSprBytes keyCodec unsignedSpr = .ok (some e) →
      AuthenticBytes (fun _ _ _ _ => true) unsignedSpr := by
  intro h
  obtain ⟨e, he⟩ : ∃ e, enrFromSprBytes keyCodec unsignedSpr = .ok (some e) := ⟨_, rfl⟩
  obtain ⟨fs, key, payload, payloadType, signature, hfs, -, htwo, -⟩ := h e he
  have hfields : decodeAllFields unsignedSpr = .ok [⟨1, 2, unsignedSpr.drop 2 |>.take 37⟩,
      ⟨2, 2, [0x03, 0x01]⟩, ⟨3, 2, []⟩] := by rfl
  rw [hfields] at hfs
  cases hfs
  cases htwo

end Spr
