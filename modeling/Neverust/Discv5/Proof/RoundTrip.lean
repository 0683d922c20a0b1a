import Neverust.Discv5.Proof.Wire

/-!
# Messages read back

* `Message.Valid`: a request id of at most eight bytes, distances of at most 256, and in a `Pong` an
  address that does not turn into another one.
* `message_read_back`: such a message reads back, for each of the nine shapes.
-/

namespace Discv5

open Multiformats Rust

variable {E : Type}

/-! ## What a message has to satisfy -/

/-- An IPv6 address that stands for no other address. -/
def IpAddr.Valid : IpAddr → Prop
  | .v4 _ => True
  | .v6 addr => addr.isLoopback = true ∨ addr.toIpv4 = none

def RequestBody.Valid : RequestBody → Prop
  | .findNode distances => ∀ d ∈ distances, d ≤ 256
  | .ping _ => True
  | .talk _ _ => True
  | .addProvider _ _ => True
  | .getProviders _ => True

def ResponseBody.Valid : ResponseBody E → Prop
  | .pong _ ip _ => ip.Valid
  | .nodes _ _ => True
  | .talk _ => True
  | .providers _ _ => True

def Message.Valid : Message E → Prop
  | .request r => r.id.bytes.length ≤ 8 ∧ r.body.Valid
  | .response r => r.id.bytes.length ≤ 8 ∧ r.body.Valid

/-! ## Fields -/

theorem varintValue_encodeVarint {n : Nat} (h : n < 2 ^ 64) :
    varintValue (encodeVarint n) = .ok (UInt64.ofNat n) := by
  have hread := decodeVarint_encodeVarint h []
  rw [List.append_nil] at hread
  rw [varintValue, hread]
  rfl

theorem parses_fieldVarint {num n : Nat} {rest : Bytes} {fs : List Field} (hnum : num < 16)
    (hn : n < 2 ^ 64) (hlen : (encodeFieldVarint num n ++ rest).length < 2 ^ 63)
    (h : Parses rest fs) :
    Parses (encodeFieldVarint num n ++ rest) (⟨num, 0, encodeVarint n⟩ :: fs) := by
  have hkey := length_varint_le (show 8 * num < 2 ^ 64 by omega)
  have hval := length_varint_le hn
  refine .cons (c := (encodeFieldVarint num n).length) ?_ (by rwa [List.drop_left])
  refine (decodeField_ok_iff hlen).2 ⟨8 * num, encodeVarint n ++ rest, n, rest, ?_, ?_,
    readVarint_varint n rest, ?_, .inl ⟨by omega, ?_, by simp⟩⟩
  · rw [encodeFieldVarint, List.append_assoc]
    exact readVarint_varint (8 * num) _
  · simp only [encodeFieldVarint, encodeVarint, List.length_append]
    omega
  · simp only [encodeVarint, List.length_append]
    omega
  · rw [show 8 * num / 8 % 2 ^ 32 = num by omega, Nat.mod_eq_of_lt hn]

theorem parses_fieldBytes {num : Nat} {data rest : Bytes} {fs : List Field} (hnum : num < 16)
    (hlen : (encodeFieldBytes num data ++ rest).length < 2 ^ 63) (h : Parses rest fs) :
    Parses (encodeFieldBytes num data ++ rest) (⟨num, 2, data⟩ :: fs) := by
  have hdata : data.length < 2 ^ 64 := by
    simp only [encodeFieldBytes, List.length_append] at hlen
    omega
  have hkey := length_varint_le (show 8 * num + 2 < 2 ^ 64 by omega)
  have hval := length_varint_le hdata
  refine .cons (c := (encodeFieldBytes num data).length) ?_ (by rwa [List.drop_left])
  refine (decodeField_ok_iff hlen).2 ⟨8 * num + 2, encodeVarint data.length ++ (data ++ rest),
    data.length, data ++ rest, ?_, ?_, readVarint_varint data.length _, ?_,
    .inr ⟨by omega, ?_, ?_, ?_⟩⟩
  · rw [encodeFieldBytes, List.append_assoc, List.append_assoc]
    exact readVarint_varint (8 * num + 2) _
  · simp only [encodeFieldBytes, encodeVarint, List.length_append]
    omega
  · simp only [encodeVarint, List.length_append]
    omega
  · rw [Nat.mod_eq_of_lt hdata, List.length_append]
    omega
  · rw [Nat.mod_eq_of_lt hdata, List.take_left, show (8 * num + 2) / 8 % 2 ^ 32 = num by omega]
  · rw [Nat.mod_eq_of_lt hdata]
    simp only [encodeFieldBytes, List.length_append]
    omega

/-- Repeated fields. -/
theorem parses_flatMap {α : Type} {num : Nat} (g : α → Bytes) (hnum : num < 16) :
    ∀ l : List α, (l.flatMap fun a => encodeFieldBytes num (g a)).length < 2 ^ 63 →
      Parses (l.flatMap fun a => encodeFieldBytes num (g a)) (l.map fun a => ⟨num, 2, g a⟩)
  | [], _ => .nil
  | a :: l, hlen => by
    rw [List.flatMap_cons] at hlen ⊢
    have hrest : (l.flatMap fun a => encodeFieldBytes num (g a)).length < 2 ^ 63 := by
      rw [List.length_append] at hlen
      omega
    exact parses_fieldBytes hnum hlen (parses_flatMap g hnum l hrest)

theorem parses_one {num : Nat} {data : Bytes} (hnum : num < 16)
    (hlen : (encodeFieldBytes num data).length < 2 ^ 63) :
    Parses (encodeFieldBytes num data) [⟨num, 2, data⟩] := by
  have h := parses_fieldBytes hnum (by rwa [List.append_nil]) Parses.nil
  rwa [List.append_nil] at h

/-! ## IP addresses -/

theorem decodeIpProto_encodeIpProto (ip : IpAddr) (h : ip.Valid) :
    decodeIpProto (encodeIpProto ip) = .ok ip := by
  have hparse : ∀ (family : UInt8) (octets : Bytes), octets.length ≤ 16 →
      decodeAllFields (encodeFieldBytes 1 [family] ++ encodeFieldBytes 2 octets) =
        .ok [⟨1, 2, [family]⟩, ⟨2, 2, octets⟩] := by
    intro family octets ho
    have hlen : (encodeFieldBytes 1 [family] ++ encodeFieldBytes 2 octets).length < 2 ^ 63 := by
      have h1 := length_varint_le (show 8 * 1 + 2 < 2 ^ 64 by decide)
      have h2 := length_varint_le (show 8 * 2 + 2 < 2 ^ 64 by decide)
      have h3 := length_varint_le (show [family].length < 2 ^ 64 by simp)
      have h4 := length_varint_le (show octets.length < 2 ^ 64 by omega)
      simp only [encodeFieldBytes, encodeVarint, List.length_append, List.length_singleton] at *
      omega
    refine (decodeAllFields_ok_iff hlen).2 (parses_fieldBytes (by decide) hlen
      (parses_one (by decide) ?_))
    rw [List.length_append] at hlen
    omega
  have hfold : ∀ (family : UInt8) (octets : Bytes),
      [⟨1, 2, [family]⟩, ⟨2, 2, octets⟩].foldlM ipStep (none, none) =
        .ok (some family, some octets) := fun _ _ => rfl
  cases ip with
  | v4 addr =>
    rw [encodeIpProto, encodeProtoMessage, decodeIpProto,
      hparse 4 addr.octets (by rw [addr.length_octets]; decide), ok_bind, hfold]
    simp [okOr, addr.length_octets]
  | v6 addr =>
    rw [encodeIpProto, encodeProtoMessage, decodeIpProto,
      hparse 6 addr.octets (Nat.le_of_eq addr.length_octets), ok_bind, hfold]
    by_cases hloop : addr.isLoopback = true
    · simp [okOr, hloop, addr.length_octets]
    · have hnone : addr.toIpv4 = none := h.resolve_left hloop
      simp [okOr, hloop, hnone, addr.length_octets]

/-! ## Bodies -/

theorem fromBeBytes_toBeBytes (n : UInt16) :
    fromBeBytes (UInt8.ofNat (n.toNat / 256)) (UInt8.ofNat n.toNat) = n := by
  have hn := n.toNat_lt
  apply UInt16.toNat_inj.1
  rw [fromBeBytes, UInt16.toNat_ofNat', UInt8.toNat_ofNat', UInt8.toNat_ofNat']
  omega

theorem toUInt64_toUInt16 {d : UInt64} (h : d ≤ 256) : d.toUInt16.toUInt64 = d := by
  have hd : d.toNat ≤ 256 := UInt64.le_iff_toNat_le.1 h
  apply UInt64.toNat_inj.1
  rw [UInt16.toNat_toUInt64, UInt64.toNat_toUInt16]
  omega

/-- The number in field 1, where no other field has this number. -/
theorem lastVarint_cons {n : UInt64} {fs : List Field} (h : ∀ f ∈ fs, f.fieldNum ≠ 1) :
    lastVarint (⟨1, 0, encodeVarint n.toNat⟩ :: fs) = .ok n := by
  have hfirst : varintStep 0 ⟨1, 0, encodeVarint n.toNat⟩ = .ok n := by
    rw [varintStep, if_pos ⟨rfl, rfl⟩, varintValue_encodeVarint n.toNat_lt, UInt64.ofNat_toNat]
  have hrest : fs.foldlM varintStep n = .ok (fs.foldl (fun v _ => v) n) :=
    foldlM_ok n fun v f hf => if_neg fun hf' => h f hf hf'.1
  rw [lastVarint, List.foldlM_cons, hfirst]
  simpa using hrest

theorem decodePong_fields {enrSeq : UInt64} {ip : IpAddr} {port : NonZeroU16} (h : ip.Valid) :
    decodePong [⟨1, 0, encodeVarint enrSeq.toNat⟩, ⟨2, 2, encodeIpProto ip⟩,
      ⟨3, 2, toBeBytes port.get⟩] = .ok (.pong enrSeq ip port : ResponseBody E) := by
  have htwo : lastTwo 2 3 (delimited [⟨1, 0, encodeVarint enrSeq.toNat⟩,
      ⟨2, 2, encodeIpProto ip⟩, ⟨3, 2, toBeBytes port.get⟩]) =
      (some (encodeIpProto ip), some (toBeBytes port.get)) := rfl
  rw [decodePong, lastVarint_cons (by simp), htwo]
  simp only [okOr, decodeIpProto_encodeIpProto ip h, toBeBytes, ok_bind, pure_eq_ok,
    fromBeBytes_toBeBytes port.get, dif_pos port.get_ne_zero]

theorem foldl_push {α : Type} : ∀ l acc : List α, l.foldl (fun acc a => acc ++ [a]) acc = acc ++ l
  | [], acc => (List.append_nil acc).symm
  | a :: l, acc => by
    rw [List.foldl_cons, foldl_push l, List.append_assoc, List.singleton_append]

theorem decodeFindNode_fields {distances : List UInt64} (h : ∀ d ∈ distances, d ≤ 256) :
    decodeFindNode (distances.map fun d => ⟨1, 2, toBeBytes d.toUInt16⟩) =
      .ok (.findNode distances) := by
  have hstep : ∀ acc, ∀ d ∈ distances,
      distanceStep acc ⟨1, 2, toBeBytes d.toUInt16⟩ = .ok (acc ++ [d]) := by
    intro acc d hd
    have hle : ¬ 256 < d := by
      intro hlt
      exact absurd (UInt64.lt_iff_toNat_lt.1 hlt) (Nat.not_lt.2 (UInt64.le_iff_toNat_le.1 (h d hd)))
    simp only [distanceStep, toBeBytes, and_self, reduceIte, fromBeBytes_toBeBytes,
      toUInt64_toUInt16 (h d hd), if_neg hle]
  rw [decodeFindNode, List.foldlM_map, foldlM_ok [] hstep, foldl_push]
  rfl

/-- The total and the records of a response. -/
theorem foldl_push_snd {α β : Type} (l : List α) (b : β) (acc : List α) :
    l.foldl (fun (s : β × List α) a => (s.1, s.2 ++ [a])) (b, acc) = (b, acc ++ l) := by
  induction l generalizing acc with
  | nil => simp
  | cons a l ih => rw [List.foldl_cons, ih, List.append_assoc, List.singleton_append]

theorem decodeNodes_fields (enr : EnrCodec E) (henr : ∀ e, enr.decode (enr.encode e) = some e)
    (total : UInt64) (nodes : List E) :
    decodeNodes enr (⟨1, 0, encodeVarint total.toNat⟩ ::
      nodes.map fun node => ⟨2, 2, enr.encode node⟩) = .ok (.nodes total nodes) := by
  have hfirst : nodesStep enr (0, []) ⟨1, 0, encodeVarint total.toNat⟩ = .ok (total, []) := by
    simp only [nodesStep, and_self, reduceIte, varintValue_encodeVarint total.toNat_lt,
      UInt64.ofNat_toNat, ok_bind, pure_eq_ok]
  have hstep : ∀ s, ∀ node ∈ nodes,
      nodesStep enr s ⟨2, 2, enr.encode node⟩ = .ok (s.1, s.2 ++ [node]) := by
    intro s node _
    simp only [nodesStep, decodeNode, henr, ok_bind, pure_eq_ok, and_self, reduceIte,
      show ¬ (2 = 1 ∧ 2 = 0) by decide, Option.toList]
  rw [decodeNodes, List.foldlM_cons, hfirst, ok_bind, List.foldlM_map, foldlM_ok _ hstep,
    foldl_push_snd]
  rfl

theorem decodeProviders_fields (total : UInt32) (providers : List Bytes) :
    decodeProviders (⟨1, 0, encodeVarint total.toNat⟩ ::
      providers.map fun prov => ⟨2, 2, prov⟩) =
        .ok (.providers total providers : ResponseBody E) := by
  have htotal : (UInt64.ofNat total.toNat).toUInt32 = total := by
    have ht := total.toNat_lt
    apply UInt32.toNat_inj.1
    rw [UInt64.toNat_toUInt32, UInt64.toNat_ofNat']
    omega
  have hlt : total.toNat < 2 ^ 64 := Nat.lt_trans total.toNat_lt (by decide)
  have hfirst : providersStep (0, []) ⟨1, 0, encodeVarint total.toNat⟩ = .ok (total, []) := by
    simp only [providersStep, and_self, reduceIte, varintValue_encodeVarint hlt, htotal, ok_bind,
      pure_eq_ok]
  have hstep : ∀ s, ∀ prov ∈ providers,
      providersStep s ⟨2, 2, prov⟩ = .ok (s.1, s.2 ++ [prov]) := by
    intro s prov _
    simp only [providersStep, pure_eq_ok, and_self, reduceIte, show ¬ (2 = 1 ∧ 2 = 0) by decide]
  rw [decodeProviders, List.foldlM_cons, hfirst, ok_bind, List.foldlM_map, foldlM_ok _ hstep,
    foldl_push_snd]
  rfl

theorem parses_pingBody {enrSeq : UInt64} (hlen : (encodePingBody enrSeq).length < 2 ^ 63) :
    Parses (encodePingBody enrSeq) [⟨1, 0, encodeVarint enrSeq.toNat⟩] := by
  rw [encodePingBody, encodeProtoMessage] at hlen ⊢
  have h := parses_fieldVarint (show 1 < 16 by decide) enrSeq.toNat_lt
    (by rwa [List.append_nil]) Parses.nil
  rwa [List.append_nil] at h

theorem parses_pongBody {enrSeq : UInt64} {ip : IpAddr} {port : NonZeroU16}
    (hlen : (encodePongBody enrSeq ip port).length < 2 ^ 63) :
    Parses (encodePongBody enrSeq ip port) [⟨1, 0, encodeVarint enrSeq.toNat⟩,
      ⟨2, 2, encodeIpProto ip⟩, ⟨3, 2, toBeBytes port.get⟩] := by
  rw [encodePongBody, encodeProtoMessage, List.append_assoc] at hlen ⊢
  have hrest := hlen
  rw [List.length_append] at hrest
  have hlast : (encodeFieldBytes 3 (toBeBytes port.get)).length < 2 ^ 63 := by
    rw [List.length_append] at hrest
    omega
  exact parses_fieldVarint (by decide) enrSeq.toNat_lt hlen
    (parses_fieldBytes (by decide) (by omega) (parses_one (by decide) hlast))

/-- Two fields of bytes. -/
theorem parses_two {a b : Bytes}
    (hlen : (encodeFieldBytes 1 a ++ encodeFieldBytes 2 b).length < 2 ^ 63) :
    Parses (encodeFieldBytes 1 a ++ encodeFieldBytes 2 b) [⟨1, 2, a⟩, ⟨2, 2, b⟩] := by
  have hlast := hlen
  rw [List.length_append] at hlast
  exact parses_fieldBytes (by decide) hlen (parses_one (by decide) (by omega))

/-- A number and repeated fields of bytes. -/
theorem parses_total {α : Type} {total : Nat} {l : List α} (g : α → Bytes) (ht : total < 2 ^ 64)
    (hlen : (encodeFieldVarint 1 total ++
      l.flatMap fun a => encodeFieldBytes 2 (g a)).length < 2 ^ 63) :
    Parses (encodeFieldVarint 1 total ++ l.flatMap fun a => encodeFieldBytes 2 (g a))
      (⟨1, 0, encodeVarint total⟩ :: l.map fun a => ⟨2, 2, g a⟩) := by
  have hrest := hlen
  rw [List.length_append] at hrest
  exact parses_fieldVarint (by decide) ht hlen (parses_flatMap g (by decide) l (by omega))

/-! ## Messages -/

/-- The envelope reads back, and leaves the fields of the body. -/
theorem decode_encodeEnvelope (enr : EnrCodec E) {msgType : UInt8} {id body : Bytes}
    {fs : List Field} (hid : id.length ≤ 8)
    (hlen : (encodeEnvelope msgType id body).length < 2 ^ 63)
    (h : body.length < 2 ^ 63 → Parses body fs) :
    Message.decode enr (encodeEnvelope msgType id body) = decodeBody enr msgType ⟨id⟩ fs := by
  rw [encodeEnvelope, encodeProtoMessage] at hlen ⊢
  have henv : (encodeFieldBytes 1 id ++ encodeFieldBytes 2 body).length < 2 ^ 63 := by
    rw [List.length_cons] at hlen
    omega
  have hbody : body.length < 2 ^ 63 := by
    simp only [encodeFieldBytes, List.length_append] at henv
    omega
  have hshort : ¬ (msgType :: (encodeFieldBytes 1 id ++ encodeFieldBytes 2 body)).length < 3 := by
    have h1 := List.length_pos_iff.2 (varint_ne_nil (8 * 1 + 2))
    have h2 := List.length_pos_iff.2 (varint_ne_nil (8 * 2 + 2))
    simp only [encodeFieldBytes, encodeVarint, List.length_cons, List.length_append]
    omega
  have hdecode : decodeEnvelope (encodeFieldBytes 1 id ++ encodeFieldBytes 2 body) =
      .ok (id, body) := by
    rw [decodeEnvelope, (decodeAllFields_ok_iff henv).2 (parses_two henv)]
    rfl
  rw [Message.decode, if_neg hshort, range_drop (by simp), index_of_lt (by simp)]
  simp only [ok_bind, List.getElem_cons_zero, List.drop_succ_cons, List.drop_zero, hdecode]
  rw [RequestId.decode, if_neg (by omega), ok_bind, decodeBodyFields,
    (decodeAllFields_ok_iff hbody).2 (h hbody), ok_bind]

/-- **Messages read back**: with an exact encoding of the records of nodes, every valid message
whose bytes fit a `Vec` decodes to itself. -/
theorem message_read_back (enr : EnrCodec E) (henr : ∀ e, enr.decode (enr.encode e) = some e)
    (m : Message E) (hm : m.Valid) (hlen : (m.encode enr).length < 2 ^ 63) :
    Message.decode enr (m.encode enr) = .ok m := by
  cases m with
  | request r =>
    obtain ⟨id, body⟩ := r
    obtain ⟨hid, hbody⟩ := hm
    cases body with
    | ping enrSeq =>
      rw [Message.encode, Request.encode, decode_encodeEnvelope enr hid hlen parses_pingBody]
      show (do return Message.request ⟨id, .ping (← lastVarint _)⟩) = _
      rw [lastVarint_cons (by simp)]
      rfl
    | findNode distances =>
      rw [Message.encode, Request.encode, decode_encodeEnvelope enr hid hlen
        (parses_flatMap (fun d : UInt64 => toBeBytes d.toUInt16) (by decide) distances)]
      show (do return Message.request ⟨id, ← decodeFindNode _⟩) = _
      rw [decodeFindNode_fields hbody]
      rfl
    | talk protocol request =>
      rw [Message.encode, Request.encode, decode_encodeEnvelope enr hid hlen parses_two]
      rfl
    | addProvider contentId providerRecord =>
      rw [Message.encode, Request.encode, decode_encodeEnvelope enr hid hlen parses_two]
      rfl
    | getProviders contentId =>
      rw [Message.encode, Request.encode,
        decode_encodeEnvelope enr hid hlen (parses_one (by decide))]
      rfl
  | response r =>
    obtain ⟨id, body⟩ := r
    obtain ⟨hid, hbody⟩ := hm
    cases body with
    | pong enrSeq ip port =>
      rw [Message.encode, Response.encode, decode_encodeEnvelope enr hid hlen parses_pongBody]
      show (do return Message.response ⟨id, ← decodePong _⟩) = _
      rw [decodePong_fields hbody]
      rfl
    | nodes total nodes =>
      rw [Message.encode, Response.encode, decode_encodeEnvelope enr hid hlen
        (parses_total enr.encode total.toNat_lt)]
      show (do return Message.response ⟨id, ← decodeNodes enr _⟩) = _
      rw [decodeNodes_fields enr henr]
      rfl
    | talk response =>
      rw [Message.encode, Response.encode,
        decode_encodeEnvelope enr hid hlen (parses_one (by decide))]
      rfl
    | providers total providers =>
      rw [Message.encode, Response.encode, decode_encodeEnvelope enr hid hlen
        (parses_total (fun prov : Bytes => prov) (Nat.lt_trans total.toNat_lt (by decide)))]
      show (do return Message.response ⟨id, ← decodeProviders _⟩) = _
      rw [decodeProviders_fields]
      rfl

/-- The sample record of the ENR specification, in RLP. -/
def sampleEnr : Bytes :=
  [0xf8, 0x84, 0xb8, 0x40, 0x70, 0x98, 0xad, 0x86, 0x5b, 0x00, 0xa5, 0x82, 0x05, 0x19, 0x40,
    0xcb, 0x9c, 0xf3, 0x68, 0x36, 0x57, 0x24, 0x11, 0xa4, 0x72, 0x78, 0x78, 0x30, 0x77, 0x01,
    0x15, 0x99, 0xed, 0x5c, 0xd1, 0x6b, 0x76, 0xf2, 0x63, 0x5f, 0x4e, 0x23, 0x47, 0x38, 0xf3,
    0x08, 0x13, 0xa8, 0x9e, 0xb9, 0x13, 0x7e, 0x3e, 0x3d, 0xf5, 0x26, 0x6e, 0x3a, 0x1f, 0x11,
    0xdf, 0x72, 0xec, 0xf1, 0x14, 0x5c, 0xcb, 0x9c, 0x01, 0x82, 0x69, 0x64, 0x82, 0x76, 0x34,
    0x82, 0x69, 0x70, 0x84, 0x7f, 0x00, 0x00, 0x01, 0x89, 0x73, 0x65, 0x63, 0x70, 0x32, 0x35,
    0x36, 0x6b, 0x31, 0xa1, 0x03, 0xca, 0x63, 0x4c, 0xae, 0x0d, 0x49, 0xac, 0xb4, 0x01, 0xd8,
    0xa4, 0xc6, 0xb6, 0xfe, 0x8c, 0x55, 0xb7, 0x0d, 0x11, 0x5b, 0xf4, 0x00, 0x76, 0x9c, 0xc1,
    0x40, 0x0f, 0x32, 0x58, 0xcd, 0x31, 0x38, 0x83, 0x75, 0x64, 0x70, 0x82, 0x76, 0x5f]

/-- One record, written as these bytes. -/
def sampleCodec : EnrCodec Unit where
  encode := fun _ => sampleEnr
  decode := fun b => if b = sampleEnr then some () else none
  fromVerifiedSpr := fun _ _ _ _ _ => none

theorem message_read_back_nodes :
    Message.decode sampleCodec
      (Message.encode sampleCodec (.response ⟨⟨[7]⟩, .nodes 1 [()]⟩)) =
        .ok (.response ⟨⟨[7]⟩, .nodes 1 [()]⟩) :=
  message_read_back sampleCodec
    (fun () => show (if sampleEnr = sampleEnr then some () else none) = some () from if_pos rfl) _
    ⟨by decide, trivial⟩ (by decide +kernel)

end Discv5
