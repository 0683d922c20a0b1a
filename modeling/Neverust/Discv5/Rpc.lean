import Neverust.Lib.Multiformats
import Neverust.Lib.Rust

/-!
# The RPC codec of the discv5 fork

Archivist's messages are protocol buffers: a byte for the type of the message, then an envelope with
the request id and the body. Records of nodes in RLP (`Enr`) are the crate `enr`'s: `EnrCodec`.

A `u64` that is only written or compared is a natural number; lengths are those of slices.
-/

namespace Discv5

open Multiformats Rust

/-- The errors of `alloy_rlp` the codec uses. -/
inductive DecoderError
  | inputTooShort
  | custom (msg : String)
  deriving Repr, DecidableEq

/-- `DecoderError::Custom`. -/
def custom {α : Type} (msg : String) : Result DecoderError α := .error (.err (.custom msg))

/-- `Option::ok_or`. -/
def okOr {α : Type} (o : Option α) (msg : String) : Result DecoderError α :=
  match o with
  | some a => .ok a
  | none => custom msg

/-- `Result::ok`. -/
def toOption {α : Type} : Result DecoderError α → Result DecoderError (Option α)
  | .ok a => .ok (some a)
  | .error (.err _) => .ok none
  | .error (.panic p) => .error (.panic p)
  | .error .fuel => .error .fuel

/-- `Result::unwrap_or`. -/
def unwrapOr {α : Type} (x : Result DecoderError α) (a : α) : Result DecoderError α := do
  match ← toOption x with
  | some b => return b
  | none => return a

/-! ## Encoding -/

def encodeVarint (value : Nat) : Bytes := varint value

def encodeFieldVarint (fieldNum value : Nat) : Bytes :=
  encodeVarint (8 * fieldNum) ++ encodeVarint value

def encodeFieldBytes (fieldNum : Nat) (data : Bytes) : Bytes :=
  encodeVarint (8 * fieldNum + 2) ++ encodeVarint data.length ++ data

/-- No length prefix: the fields as they are. -/
def encodeProtoMessage (fields : Bytes) : Bytes := fields

/-! ## Decoding -/

/-- `x << n` on `u64`. -/
def shl64 (x : UInt64) (n : Nat) : Result DecoderError UInt64 :=
  if n < 64 then .ok (x <<< UInt64.ofNat n) else .error (.panic .overflow)

/-- The loop of `decode_varint` from byte `i` on; `shift` is `7 * i`. -/
def decodeVarintFrom : Nat → UInt64 → Bytes → Result DecoderError (UInt64 × Nat)
  | _, _, [] => custom "Unexpected end of varint"
  | i, value, byte :: data =>
    if 70 ≤ 7 * i then custom "Varint too long"
    else do
      let value := value ||| (← shl64 (byte &&& 0x7F).toUInt64 (7 * i))
      if byte &&& 0x80 = 0 then return (value, i + 1)
      else decodeVarintFrom (i + 1) value data

/-- The value, and how many bytes it takes. -/
def decodeVarint (data : Bytes) : Result DecoderError (UInt64 × Nat) := decodeVarintFrom 0 0 data

/-- A decoded field: for the wire type 0 `data` is the number, written again; for the wire type 2
it is the payload. -/
structure Field where
  fieldNum : Nat
  wireType : Nat
  data : Bytes
  deriving Repr, DecidableEq

/-- The field at the start of `data`, and how many bytes it takes. -/
def decodeField (data : Bytes) : Result DecoderError (Field × Nat) := do
  let (key, keyLen) ← decodeVarint data
  let wireType := key.toNat % 8
  let fieldNum := key.toNat / 8 % 2 ^ 32
  let rest ← range data keyLen data.length
  if wireType = 0 then
    let (val, valLen) ← decodeVarint rest
    let raw := encodeVarint val.toNat
    return ({ fieldNum, wireType, data := raw }, ← usizeAdd keyLen valLen)
  else if wireType = 2 then
    let (length, lenLen) ← decodeVarint rest
    let start := lenLen
    let stop ← usizeAdd start length.toNat
    if rest.length < stop then custom "Length-delimited field extends beyond data"
    else
      return ({ fieldNum, wireType, data := ← range rest start stop }, ← usizeAdd keyLen stop)
  else custom "Unsupported protobuf wire type"

/-- The loop of `decode_all_fields`, at most `fuel` rounds. -/
def decodeAllFieldsFrom (data : Bytes) : Nat → Nat → Result DecoderError (List Field)
  | 0, offset => if offset < data.length then .error .fuel else .ok []
  | fuel + 1, offset =>
    if offset < data.length then do
      let (field, consumed) ← decodeField (← range data offset data.length)
      let fields ← decodeAllFieldsFrom data fuel (← usizeAdd offset consumed)
      return field :: fields
    else .ok []

def decodeAllFields (data : Bytes) : Result DecoderError (List Field) :=
  decodeAllFieldsFrom data data.length 0

def varintValue (data : Bytes) : Result DecoderError UInt64 := do
  let (val, _) ← decodeVarint data
  return val

/-! ## IP addresses -/

structure Ipv4Addr where
  octets : Bytes
  length_octets : octets.length = 4
  deriving DecidableEq

structure Ipv6Addr where
  octets : Bytes
  length_octets : octets.length = 16
  deriving DecidableEq

inductive IpAddr
  | v4 (addr : Ipv4Addr)
  | v6 (addr : Ipv6Addr)
  deriving DecidableEq

def Ipv6Addr.isLoopback (v6 : Ipv6Addr) : Bool :=
  v6.octets = List.replicate 15 0 ++ [1]

/-- The last four octets after ten zeros and two zeros or two times 255. -/
def Ipv6Addr.toIpv4 (v6 : Ipv6Addr) : Option Ipv4Addr :=
  if v6.octets.take 10 = List.replicate 10 0 ∧
      ((v6.octets.drop 10).take 2 = [0, 0] ∨ (v6.octets.drop 10).take 2 = [0xff, 0xff]) then
    some { octets := v6.octets.drop 12, length_octets := by simp [v6.length_octets] }
  else none

def encodeIpProto : IpAddr → Bytes
  | .v4 v4 => encodeProtoMessage (encodeFieldBytes 1 [4] ++ encodeFieldBytes 2 v4.octets)
  | .v6 v6 => encodeProtoMessage (encodeFieldBytes 1 [6] ++ encodeFieldBytes 2 v6.octets)

/-- A field of an address: the family or the octets. -/
def ipStep (s : Option UInt8 × Option Bytes) (f : Field) :
    Result DecoderError (Option UInt8 × Option Bytes) :=
  if f.fieldNum = 1 then
    match f.data with
    | [b] => .ok (some b, s.2)
    | _ => custom "Invalid IP family byte"
  else if f.fieldNum = 2 then .ok (s.1, some f.data)
  else .ok s

def decodeIpProto (data : Bytes) : Result DecoderError IpAddr := do
  let fields ← decodeAllFields data
  let (family, ipBytes) ← fields.foldlM ipStep (none, none)
  let family ← okOr family "Missing IP family field"
  let ipBytes ← okOr ipBytes "Missing IP bytes field"
  if family = 4 then
    if h : ipBytes.length = 4 then return .v4 ⟨ipBytes, h⟩
    else custom "Invalid IPv4 address length"
  else if family = 6 then
    if h : ipBytes.length = 16 then
      let v6 : Ipv6Addr := ⟨ipBytes, h⟩
      if v6.isLoopback then return .v6 v6
      else
        match v6.toIpv4 with
        | some v4 => return .v4 v4
        | none => return .v6 v6
    else custom "Invalid IPv6 address length"
  else custom "Unknown IP family"

/-! ## Messages -/

structure RequestId where
  bytes : Bytes
  deriving Repr, DecidableEq

def RequestId.decode (data : Bytes) : Result DecoderError RequestId :=
  if 8 < data.length then custom "Invalid ID length" else .ok ⟨data⟩

inductive RequestBody
  | ping (enrSeq : UInt64)
  | findNode (distances : List UInt64)
  | talk (protocol request : Bytes)
  | addProvider (contentId providerRecord : Bytes)
  | getProviders (contentId : Bytes)
  deriving Repr, DecidableEq

/-- `NonZeroU16`. -/
structure NonZeroU16 where
  get : UInt16
  get_ne_zero : get ≠ 0
  deriving DecidableEq

inductive ResponseBody (E : Type)
  | pong (enrSeq : UInt64) (ip : IpAddr) (port : NonZeroU16)
  | nodes (total : UInt64) (nodes : List E)
  | talk (response : Bytes)
  | providers (total : UInt32) (providers : List Bytes)

structure Request where
  id : RequestId
  body : RequestBody

structure Response (E : Type) where
  id : RequestId
  body : ResponseBody E

inductive Message (E : Type)
  | request (r : Request)
  | response (r : Response E)

/-- What the codec uses of the crate `enr`: records in RLP, and the record made of the key, the
sequence number and the address of a signed peer record. -/
structure EnrCodec (E : Type) where
  encode : E → Bytes
  decode : Bytes → Option E
  fromVerifiedSpr : Bytes → UInt64 → Option Ipv4Addr → Option UInt16 → Option UInt16 → Option E

/-! ## Encoding a message -/

/-- `u16::to_be_bytes`. -/
def toBeBytes (n : UInt16) : Bytes := [UInt8.ofNat (n.toNat / 256), UInt8.ofNat n.toNat]

/-- `u16::from_be_bytes`. -/
def fromBeBytes (a b : UInt8) : UInt16 := UInt16.ofNat (256 * a.toNat + b.toNat)

def encodePingBody (enrSeq : UInt64) : Bytes :=
  encodeProtoMessage (encodeFieldVarint 1 enrSeq.toNat)

def encodePongBody (enrSeq : UInt64) (ip : IpAddr) (port : NonZeroU16) : Bytes :=
  encodeProtoMessage (encodeFieldVarint 1 enrSeq.toNat ++ encodeFieldBytes 2 (encodeIpProto ip) ++
    encodeFieldBytes 3 (toBeBytes port.get))

def encodeFindnodeBody (distances : List UInt64) : Bytes :=
  encodeProtoMessage (distances.flatMap fun d => encodeFieldBytes 1 (toBeBytes d.toUInt16))

def encodeNodesBody {E : Type} (enr : EnrCodec E) (total : UInt64) (nodes : List E) : Bytes :=
  encodeProtoMessage (encodeFieldVarint 1 total.toNat ++
    nodes.flatMap fun node => encodeFieldBytes 2 (enr.encode node))

def encodeTalkreqBody (protocol request : Bytes) : Bytes :=
  encodeProtoMessage (encodeFieldBytes 1 protocol ++ encodeFieldBytes 2 request)

/-- Field 2, not field 1. -/
def encodeTalkrespBody (response : Bytes) : Bytes :=
  encodeProtoMessage (encodeFieldBytes 2 response)

def encodeAddproviderBody (contentId providerRecord : Bytes) : Bytes :=
  encodeProtoMessage (encodeFieldBytes 1 contentId ++ encodeFieldBytes 2 providerRecord)

def encodeGetprovidersBody (contentId : Bytes) : Bytes :=
  encodeProtoMessage (encodeFieldBytes 1 contentId)

def encodeProvidersBody (total : UInt32) (providers : List Bytes) : Bytes :=
  encodeProtoMessage (encodeFieldVarint 1 total.toNat ++
    providers.flatMap fun prov => encodeFieldBytes 2 prov)

def encodeEnvelope (msgType : UInt8) (requestId innerBody : Bytes) : Bytes :=
  msgType :: encodeProtoMessage (encodeFieldBytes 1 requestId ++ encodeFieldBytes 2 innerBody)

def Request.msgType (r : Request) : UInt8 :=
  match r.body with
  | .ping .. => 0x01
  | .findNode .. => 0x03
  | .talk .. => 0x05
  | .addProvider .. => 0x0B
  | .getProviders .. => 0x0C

def Request.encode (r : Request) : Bytes :=
  encodeEnvelope r.msgType r.id.bytes <|
    match r.body with
    | .ping enrSeq => encodePingBody enrSeq
    | .findNode distances => encodeFindnodeBody distances
    | .talk protocol request => encodeTalkreqBody protocol request
    | .addProvider contentId providerRecord => encodeAddproviderBody contentId providerRecord
    | .getProviders contentId => encodeGetprovidersBody contentId

variable {E : Type}

def Response.msgType (r : Response E) : UInt8 :=
  match r.body with
  | .pong .. => 0x02
  | .nodes .. => 0x04
  | .talk .. => 0x06
  | .providers .. => 0x0D

def Response.encode (enr : EnrCodec E) (r : Response E) : Bytes :=
  encodeEnvelope r.msgType r.id.bytes <|
    match r.body with
    | .pong enrSeq ip port => encodePongBody enrSeq ip port
    | .nodes total nodes => encodeNodesBody enr total nodes
    | .talk response => encodeTalkrespBody response
    | .providers total providers => encodeProvidersBody total providers

def Message.encode (enr : EnrCodec E) : Message E → Bytes
  | .request r => r.encode
  | .response r => r.encode enr

/-! ## Signed peer records -/

inductive Transport
  | udp
  | tcp
  deriving Repr, DecidableEq

/-- The address, port and transport of a raw multiaddress. -/
def parseMultiaddr (data : Bytes) :
    Result DecoderError (Option (Ipv4Addr × UInt16 × Transport)) := do
  if data.length < 7 then return none
  else if (← index data 0) ≠ 0x04 then return none
  else
    let ip : Ipv4Addr :=
      { octets := [← index data 1, ← index data 2, ← index data 3, ← index data 4],
        length_octets := rfl }
    let code ← index data 5
    let next ← index data 6
    if 9 ≤ data.length ∧ code = 0x91 ∧ next = 0x02 then
      return some (ip, fromBeBytes (← index data 7) (← index data 8), .udp)
    else if 8 ≤ data.length ∧ code = 0x06 then
      return some (ip, fromBeBytes next (← index data 7), .tcp)
    else return none

/-- What the loop over a peer record has found. -/
structure PeerRecord where
  seq : UInt64
  ipv4 : Option Ipv4Addr
  udpPort : Option UInt16
  tcpPort : Option UInt16
  deriving DecidableEq

def PeerRecord.setAddr (r : PeerRecord) : Ipv4Addr × UInt16 × Transport → PeerRecord
  | (ip, port, .udp) => { r with ipv4 := some ip, udpPort := some port }
  | (ip, port, .tcp) => { r with ipv4 := some ip, tcpPort := some port }

/-- A field of an `AddressInfo`. -/
def PeerRecord.addrStep (r : PeerRecord) (f : Field) : Result DecoderError PeerRecord := do
  if f.fieldNum = 1 then
    match ← parseMultiaddr f.data with
    | some addr => return r.setAddr addr
    | none => return r
  else return r

/-- A field of the peer record. -/
def PeerRecord.step (r : PeerRecord) (f : Field) : Result DecoderError PeerRecord := do
  if f.fieldNum = 2 ∧ f.wireType = 0 then
    return { r with seq := ← unwrapOr (varintValue f.data) 0 }
  else if f.fieldNum = 3 ∧ f.wireType = 2 then
    match ← toOption (decodeAllFields f.data) with
    | some addrFields => addrFields.foldlM PeerRecord.addrStep r
    | none => return r
  else return r

def lastTwoStep (m n : Nat) (s : Option Bytes × Option Bytes) (f : Field) :
    Option Bytes × Option Bytes :=
  if f.fieldNum = m then (some f.data, s.2)
  else if f.fieldNum = n then (s.1, some f.data)
  else s

/-- The data of the last fields with the numbers `m` and `n`. -/
def lastTwo (m n : Nat) (fields : List Field) : Option Bytes × Option Bytes :=
  fields.foldl (lastTwoStep m n) (none, none)

/-- The data of the last field with the number `n`. -/
def lastData (n : Nat) (fields : List Field) : Option Bytes :=
  fields.foldl (fun s f => if f.fieldNum = n then some f.data else s) none

/-- A field of a public key: the key type or the key. -/
def keyStep (s : UInt64 × Option Bytes) (f : Field) :
    Result DecoderError (UInt64 × Option Bytes) := do
  if f.fieldNum = 1 then return (← unwrapOr (varintValue f.data) 0, s.2)
  else if f.fieldNum = 2 then return (s.1, some f.data)
  else return s

def enrFromSprBytes (enr : EnrCodec E) (sprBytes : Bytes) : Result DecoderError (Option E) := do
  let some envelopeFields ← toOption (decodeAllFields sprBytes) | return none
  let (some pkProto, some payloadBytes) := lastTwo 1 3 envelopeFields | return none
  let some pkFields ← toOption (decodeAllFields pkProto) | return none
  let (keyType, keyData) ← pkFields.foldlM keyStep (0, none)
  if keyType ≠ 2 then return none
  let some secpKeyBytes := keyData | return none
  let some prFields ← toOption (decodeAllFields payloadBytes) | return none
  let r ← prFields.foldlM PeerRecord.step ⟨0, none, none, none⟩
  return enr.fromVerifiedSpr secpKeyBytes r.seq r.ipv4 r.udpPort r.tcpPort

/-! ## Decoding a message -/

/-- The request id and the body. -/
def decodeEnvelope (data : Bytes) : Result DecoderError (Bytes × Bytes) := do
  let fields ← decodeAllFields data
  let (requestId, body) := lastTwo 1 2 fields
  let requestId ← okOr requestId "Missing request ID in envelope"
  return (requestId, body.getD [])

def decodeBodyFields (data : Bytes) : Result DecoderError (List Field) := decodeAllFields data

def varintStep (v : UInt64) (f : Field) : Result DecoderError UInt64 :=
  if f.fieldNum = 1 ∧ f.wireType = 0 then varintValue f.data else .ok v

/-- The last varint of field 1. -/
def lastVarint (fields : List Field) : Result DecoderError UInt64 := fields.foldlM varintStep 0

/-- The fields of wire type 2. -/
def delimited (fields : List Field) : List Field := fields.filter fun f => f.wireType = 2

def decodePong (fields : List Field) : Result DecoderError (ResponseBody E) := do
  let enrSeq ← lastVarint fields
  let (ipData, portData) := lastTwo 2 3 (delimited fields)
  let ipData ← okOr ipData "Missing IP field in Pong"
  let ip ← decodeIpProto ipData
  let portData ← okOr portData "Missing port field in Pong"
  match portData with
  | [a, b] =>
    let rawPort := fromBeBytes a b
    if h : rawPort ≠ 0 then return .pong enrSeq ip ⟨rawPort, h⟩
    else custom "PONG response port number invalid"
  | _ => custom "Invalid port length in Pong"

def distanceStep (distances : List UInt64) (f : Field) : Result DecoderError (List UInt64) :=
  if f.fieldNum = 1 ∧ f.wireType = 2 then
    match f.data with
    | [a, b] =>
      let d := (fromBeBytes a b).toUInt64
      if 256 < d then custom "FINDNODE request distance invalid" else .ok (distances ++ [d])
    | _ => custom "Invalid distance length in FindNode"
  else .ok distances

def decodeFindNode (fields : List Field) : Result DecoderError RequestBody := do
  let distances ← fields.foldlM distanceStep []
  return .findNode distances

/-- A record of a `Nodes` response: an ENR, else a signed peer record, else it is skipped. -/
def decodeNode (enr : EnrCodec E) (data : Bytes) : Result DecoderError (Option E) :=
  match enr.decode data with
  | some node => .ok (some node)
  | none => enrFromSprBytes enr data

/-- A field of a `Nodes` response: the total or a record. -/
def nodesStep (enr : EnrCodec E) (s : UInt64 × List E) (f : Field) :
    Result DecoderError (UInt64 × List E) := do
  if f.fieldNum = 1 ∧ f.wireType = 0 then return (← varintValue f.data, s.2)
  else if f.fieldNum = 2 ∧ f.wireType = 2 then
    return (s.1, s.2 ++ (← decodeNode enr f.data).toList)
  else return s

def decodeNodes (enr : EnrCodec E) (fields : List Field) : Result DecoderError (ResponseBody E) := do
  let (total, nodes) ← fields.foldlM (nodesStep enr) (0, [])
  return .nodes total nodes

def decodeTalkReq (fields : List Field) : Result DecoderError RequestBody := do
  let (protocol, request) := lastTwo 1 2 (delimited fields)
  let protocol ← okOr protocol "Missing protocol field in TalkReq"
  let request ← okOr request "Missing request field in TalkReq"
  return .talk protocol request

def decodeTalkResp (fields : List Field) : ResponseBody E :=
  .talk ((lastData 2 (delimited fields)).getD [])

def decodeAddProvider (fields : List Field) : Result DecoderError RequestBody := do
  let (contentId, providerRecord) := lastTwo 1 2 (delimited fields)
  let contentId ← okOr contentId "Missing content_id in AddProvider"
  let providerRecord ← okOr providerRecord "Missing provider_record in AddProvider"
  return .addProvider contentId providerRecord

def decodeGetProviders (fields : List Field) : Result DecoderError RequestBody := do
  let contentId ← okOr (lastData 1 (delimited fields)) "Missing content_id in GetProviders"
  return .getProviders contentId

/-- A field of a `Providers` response: the total or a record. -/
def providersStep (s : UInt32 × List Bytes) (f : Field) :
    Result DecoderError (UInt32 × List Bytes) := do
  if f.fieldNum = 1 ∧ f.wireType = 0 then return ((← varintValue f.data).toUInt32, s.2)
  else if f.fieldNum = 2 ∧ f.wireType = 2 then return (s.1, s.2 ++ [f.data])
  else return s

def decodeProviders (fields : List Field) : Result DecoderError (ResponseBody E) := do
  let (total, providers) ← fields.foldlM providersStep (0, [])
  return .providers total providers

/-- The message of a type, from the fields of its body. -/
def decodeBody (enr : EnrCodec E) (msgType : UInt8) (id : RequestId) (fields : List Field) :
    Result DecoderError (Message E) := do
  if msgType = 0x01 then return .request ⟨id, .ping (← lastVarint fields)⟩
  else if msgType = 0x02 then return .response ⟨id, ← decodePong fields⟩
  else if msgType = 0x03 then return .request ⟨id, ← decodeFindNode fields⟩
  else if msgType = 0x04 then return .response ⟨id, ← decodeNodes enr fields⟩
  else if msgType = 0x05 then return .request ⟨id, ← decodeTalkReq fields⟩
  else if msgType = 0x06 then return .response ⟨id, decodeTalkResp fields⟩
  else if msgType = 0x0B then return .request ⟨id, ← decodeAddProvider fields⟩
  else if msgType = 0x0C then return .request ⟨id, ← decodeGetProviders fields⟩
  else if msgType = 0x0D then return .response ⟨id, ← decodeProviders fields⟩
  else custom "Unknown RPC message type"

def Message.decode (enr : EnrCodec E) (data : Bytes) : Result DecoderError (Message E) := do
  if data.length < 3 then .error (.err .inputTooShort)
  else
    let msgType ← index data 0
    let (requestIdBytes, bodyBytes) ← decodeEnvelope (← range data 1 data.length)
    let id ← RequestId.decode requestIdBytes
    let bodyFields ← decodeBodyFields bodyBytes
    decodeBody enr msgType id bodyFields

end Discv5
