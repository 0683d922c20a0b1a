import Neverust.Lib.Base64
import Neverust.Spr

/-!
# Records parse back

* `parseSprRecords_eq`, `parseSprRecordsFull_eq`: both parsers give the records of the same
  envelopes.
* `lines_cons`: the first line of a text, whatever follows it.
* `openSpr_generated`: with exact codecs the envelope in a generated record has the key and the
  addresses it was made of.
* `records_parse_back`: the records of a text are those of its generated lines, in order; the other
  lines do not disturb them.
-/

namespace Spr

open Protobuf

variable {K P A : Type}

/-! ## The two parsers -/

/-- The envelopes of a text, with their public keys. -/
def envelopes (c : Crates K P A) (sprText : List Char) : List (ArchivistSpr × K) :=
  parseLines (openSpr c) sprText

theorem parseLines_map {α β : Type} {parse : List Char → Except SprError α}
    {parse' : List Char → Except SprError β} {f : α → β}
    (h : ∀ s, parse' s = (parse s).map f) (sprText : List Char) :
    parseLines parse' sprText = (parseLines parse sprText).map f := by
  rw [parseLines, parseLines, List.map_filterMap]
  refine List.filterMap_congr fun line _ => ?_
  cases stripSpr line with
  | none => rfl
  | some sprData =>
    simp only [h]
    cases parse sprData with
    | error e => rfl
    | ok a => rfl

/-- The record of an envelope. -/
def toRecord (c : Crates K P A) (e : ArchivistSpr × K) : P × List A :=
  (c.toPeerId e.2, recordAddrs c e.1)

def toFullRecord (c : Crates K P A) (e : ArchivistSpr × K) : SprRecord P A :=
  { peerId := c.toPeerId e.2, addrs := recordAddrs c e.1, secp256k1Pubkey := c.secp256k1 e.2 }

/-- Every envelope with a key gives its record. -/
theorem parseSprRecords_eq (c : Crates K P A) (sprText : List Char) :
    parseSprRecords c sprText = .ok ((envelopes c sprText).map (toRecord c)) := by
  refine congrArg Except.ok (parseLines_map (fun s => ?_) sprText)
  rw [parseSingleSpr]
  cases openSpr c s with
  | error e => rfl
  | ok a => rfl

theorem parseSprRecordsFull_eq (c : Crates K P A) (sprText : List Char) :
    parseSprRecordsFull c sprText = .ok ((envelopes c sprText).map (toFullRecord c)) := by
  refine congrArg Except.ok (parseLines_map (fun s => ?_) sprText)
  rw [parseSingleSprFull]
  cases openSpr c s with
  | error e => rfl
  | ok a => rfl

/-! ## Lines -/

/-- A line that is split off a text as it is: there is no newline in it, and no carriage return at
its end. -/
def IsLine (line : List Char) : Prop := '\n' ∉ line ∧ line.getLast? ≠ some '\r'

theorem linesFrom_append {chars : List Char} (h : '\n' ∉ chars) (line text : List Char) :
    linesFrom line (chars ++ text) = linesFrom (chars.reverse ++ line) text := by
  induction chars generalizing line with
  | nil => rfl
  | cons x chars ih =>
    simp only [List.mem_cons, not_or] at h
    rw [List.cons_append, linesFrom, ih h.2, List.reverse_cons, List.append_assoc]
    · rfl
    · exact fun hx => h.1 hx.symm
    · exact fun _ _ hx => h.1 hx.symm

theorem linesFrom_newline {line : List Char} (h : line.head? ≠ some '\r') (text : List Char) :
    linesFrom line ('\n' :: text) = line.reverse :: lines text := by
  cases line with
  | nil => rfl
  | cons x line =>
    rw [linesFrom]
    · rfl
    · intro line' hx
      rw [hx] at h
      exact h rfl

/-- **The first line** of a text does not depend on what follows it. -/
theorem lines_cons {line : List Char} (h : IsLine line) (text : List Char) :
    lines (line ++ '\n' :: text) = line :: lines text := by
  rw [lines, linesFrom_append h.1, List.append_nil, linesFrom_newline, List.reverse_reverse]
  rw [List.head?_reverse]
  exact h.2

theorem lines_last {line : List Char} (h : '\n' ∉ line) (hne : line ≠ []) :
    lines line = [line] := by
  have hlast := linesFrom_append h [] []
  rw [List.append_nil, List.append_nil] at hlast
  rw [lines, hlast, linesFrom, List.reverse_reverse]
  simpa using hne

/-- A text of joined lines is read line by line, if an empty line gives nothing. -/
theorem filterMap_lines {α : Type} {f : List Char → Option α} (hf : f [] = none)
    {texts : List (List Char)} (h : ∀ line ∈ texts, IsLine line) :
    (lines (['\n'].intercalate texts)).filterMap f = texts.filterMap f := by
  induction texts with
  | nil => rfl
  | cons line texts ih =>
    have hline := h line List.mem_cons_self
    have hrest := ih fun l hl => h l (List.mem_cons_of_mem line hl)
    cases texts with
    | nil =>
      rw [List.intercalate_singleton]
      by_cases hne : line = []
      · subst hne
        simp [lines, linesFrom, hf]
      · rw [lines_last hline.1 hne]
    | cons next texts =>
      rw [List.intercalate_cons_cons, List.append_assoc, List.singleton_append, lines_cons hline,
        List.filterMap_cons, List.filterMap_cons, hrest]

/-! ## A generated record -/

/-- What the crates write: base64, the protobuf encoding of a public key and the bytes of an
address. -/
structure Writers (K A : Type) where
  encode64 : Bytes → String
  keyBytes : K → Bytes
  addrBytes : A → Bytes

/-- The crates read back what they write, and base64 has no line ends in it. -/
structure Exact (c : Crates K P A) (w : Writers K A) : Prop where
  decode64 : ∀ b, c.decode64 (w.encode64 b).toList = .ok b
  alphabet : ∀ b, ∀ x ∈ (w.encode64 b).toList, x ≠ '\n' ∧ x ≠ '\r'
  decodeSpr : ∀ s : ArchivistSpr, c.decodeSpr s.encode = .ok s
  decodePeerInfo : ∀ p : PeerInfo, c.decodePeerInfo p.encode = .ok p
  decodeAddrWrapper : ∀ a : AddrWrapper, c.decodeAddrWrapper a.encode = .ok a
  decodeKey : ∀ k, c.decodeKey (w.keyBytes k) = .ok k
  multiaddr : ∀ a, c.multiaddr (w.addrBytes a) = .ok a

def Writers.keypair (w : Writers K A) (key : K) (sign : Bytes → Except String Bytes) : Keypair where
  publicKey := w.keyBytes key
  sign

/-- `generate_spr` for a key with the signatures `sign`, and for addresses. -/
def Writers.generate (w : Writers K A) (key : K) (sign : Bytes → Except String Bytes)
    (addrs : List A) (seq : UInt64) : Except SprError String :=
  generateSpr w.encode64 (w.keypair key sign) (addrs.map w.addrBytes) seq

/-- The envelope in a generated record. -/
def Writers.envelope (w : Writers K A) (key : K) (sign : Bytes → Except String Bytes)
    (addrs : List A) (seq : UInt64) (signature : Bytes) : ArchivistSpr where
  peerId := some (w.keyBytes key)
  seqBytes := some (seqBytes seq)
  peerRecord := [peerInfoBytes (w.keypair key sign) (addrs.map w.addrBytes) seq]
  signature := [signature]

section
variable {c : Crates K P A} {w : Writers K A} {key : K} {sign : Bytes → Except String Bytes}
  {addrs : List A} {seq : UInt64} {text : String}

theorem generate_eq_ok (h : w.generate key sign addrs seq = .ok text) :
    ∃ signature,
      text = "spr:" ++ w.encode64 (w.envelope key sign addrs seq signature).encode := by
  unfold Writers.generate generateSpr sprEnvelope at h
  dsimp only at h
  cases hsign : (w.keypair key sign).sign
      (peerInfoBytes (w.keypair key sign) (addrs.map w.addrBytes) seq) with
  | error e =>
    rw [hsign] at h
    cases h
  | ok signature =>
    rw [hsign] at h
    cases h
    exact ⟨signature, rfl⟩

/-- The address in the bytes of a wrapper. -/
def wrappedAddr (c : Crates K P A) (addrBytes : Bytes) : Option A :=
  match c.decodeAddrWrapper addrBytes with
  | .error _ => none
  | .ok wrapper =>
    match wrapper.addr with
    | none => none
    | some rawAddr => (c.multiaddr rawAddr).toOption

/-- The three wrappers of an address come off again. -/
theorem recordAddrs_generated (h : Exact c w) (signature : Bytes) :
    recordAddrs c (w.envelope key sign addrs seq signature) = addrs := by
  have haddr : ∀ a : A, wrappedAddr c (AddrWrapper.encode ⟨some (w.addrBytes a)⟩) = some a := by
    intro a
    rw [wrappedAddr, h.decodeAddrWrapper]
    exact congrArg Except.toOption (h.multiaddr a)
  rw [recordAddrs, Writers.envelope, List.flatMap_singleton, peerInfoBytes, h.decodePeerInfo]
  simp only [List.filterMap_map]
  exact (List.filterMap_congr fun a _ => haddr a).trans List.filterMap_some

/-- **The envelope** in a generated record opens. -/
theorem openSpr_generated (h : Exact c w) (signature : Bytes) :
    openSpr c (w.encode64 (w.envelope key sign addrs seq signature).encode).toList =
      .ok (w.envelope key sign addrs seq signature, key) := by
  have hkey : c.decodeKey (w.keyBytes key) = .ok key := h.decodeKey key
  simp only [openSpr, h.decode64, h.decodeSpr, Except.mapError, bind, Except.bind]
  simp only [Writers.envelope, pure, Except.pure, hkey]

theorem parse_generated (h : Exact c w) (hgen : w.generate key sign addrs seq = .ok text) :
    ∃ sprData, stripSpr text.toList = some sprData ∧
      parseSingleSpr c sprData = .ok (c.toPeerId key, addrs) := by
  obtain ⟨signature, rfl⟩ := generate_eq_ok hgen
  refine ⟨(w.encode64 (w.envelope key sign addrs seq signature).encode).toList, ?_, ?_⟩
  · rw [String.toList_append]
    rfl
  · rw [parseSingleSpr, openSpr_generated h]
    exact congrArg Except.ok (Prod.ext rfl (recordAddrs_generated h signature))

theorem isLine_generated (h : Exact c w) (hgen : w.generate key sign addrs seq = .ok text) :
    IsLine text.toList := by
  obtain ⟨signature, rfl⟩ := generate_eq_ok hgen
  have hn : '\n' ∉ "spr:".toList := by decide
  have hr : '\r' ∉ "spr:".toList := by decide
  have hspr : ∀ x ∈ "spr:".toList, x ≠ '\n' ∧ x ≠ '\r' := fun x hx =>
    ⟨fun h => hn (h ▸ hx), fun h => hr (h ▸ hx)⟩
  have hall : ∀ x ∈ ("spr:" ++ w.encode64 (w.envelope key sign addrs seq signature).encode).toList,
      x ≠ '\n' ∧ x ≠ '\r' := by
    intro x hx
    rw [String.toList_append, List.mem_append] at hx
    exact hx.elim (hspr x) (h.alphabet _ x)
  exact ⟨fun hx => (hall _ hx).1 rfl, fun hx => (hall _ (List.mem_of_getLast? hx)).2 rfl⟩

end

/-! ## A text of records -/

/-- A line of a text: a generated record, or anything else. -/
inductive Row (K A : Type)
  | generated (key : K) (sign : Bytes → Except String Bytes) (addrs : List A) (seq : UInt64)
  | other (line : List Char)

/-- The line does not start with `spr:`, or what follows does not decode. -/
def Ignored (c : Crates K P A) (line : List Char) : Prop :=
  ∀ sprData, stripSpr line = some sprData → ∃ e, openSpr c sprData = .error e

/-- The text of a row. -/
def Row.Writes (c : Crates K P A) (w : Writers K A) : Row K A → List Char → Prop
  | .generated key sign addrs seq, line =>
    ∃ text, w.generate key sign addrs seq = .ok text ∧ line = text.toList
  | .other line', line => line = line' ∧ Ignored c line

/-- The record a row stands for. -/
def Row.record (c : Crates K P A) : Row K A → Option (P × List A)
  | .generated key _ addrs _ => some (c.toPeerId key, addrs)
  | .other _ => none

/-- What a line gives. -/
def parseLine {α : Type} (parse : List Char → Except SprError α) (line : List Char) : Option α :=
  match stripSpr line with
  | some sprData => (parse sprData).toOption
  | none => none

theorem parseLine_row {c : Crates K P A} {w : Writers K A} (h : Exact c w) {row : Row K A}
    {line : List Char} (hrow : row.Writes c w line) :
    parseLine (parseSingleSpr c) line = row.record c := by
  cases row with
  | generated key sign addrs seq =>
    obtain ⟨text, hgen, rfl⟩ := hrow
    obtain ⟨sprData, hstrip, hparse⟩ := parse_generated h hgen
    rw [parseLine, hstrip]
    exact congrArg Except.toOption hparse
  | other line' =>
    obtain ⟨-, hign⟩ := hrow
    rw [parseLine]
    cases hstrip : stripSpr line with
    | none => rfl
    | some sprData =>
      obtain ⟨e, he⟩ := hign sprData hstrip
      simp only [parseSingleSpr, he]
      rfl

theorem exists_row {c : Crates K P A} {w : Writers K A} {rows : List (Row K A)}
    {texts : List (List Char)} (hrows : List.Forall₂ (Row.Writes c w) rows texts)
    {line : List Char} (hline : line ∈ texts) : ∃ row ∈ rows, row.Writes c w line := by
  induction hrows with
  | nil => cases hline
  | cons hrow _ ih =>
    obtain rfl | hline := List.mem_cons.1 hline
    · exact ⟨_, List.mem_cons_self, hrow⟩
    · obtain ⟨row, hmem, hwrites⟩ := ih hline
      exact ⟨row, List.mem_cons_of_mem _ hmem, hwrites⟩

theorem filterMap_rows {c : Crates K P A} {w : Writers K A} (h : Exact c w)
    {rows : List (Row K A)} {texts : List (List Char)}
    (hrows : List.Forall₂ (Row.Writes c w) rows texts) :
    texts.filterMap (parseLine (parseSingleSpr c)) = rows.filterMap (Row.record c) := by
  induction hrows with
  | nil => rfl
  | cons hrow _ ih => rw [List.filterMap_cons, List.filterMap_cons, parseLine_row h hrow, ih]

/-- **Generated records parse back**: with exact codecs a text whose lines are generated records
and lines that are ignored gives the peer ids and addresses of the generated ones, in order, and so
does a text joined of such lines. On every text both parsers agree. -/
theorem records_parse_back (c : Crates K P A) (w : Writers K A) (h : Exact c w) :
    (∀ (rows : List (Row K A)) (sprText : List Char),
      List.Forall₂ (Row.Writes c w) rows (lines sprText) →
      parseSprRecords c sprText = .ok (rows.filterMap (Row.record c))) ∧
    (∀ (rows : List (Row K A)) (texts : List (List Char)),
      List.Forall₂ (Row.Writes c w) rows texts → (∀ line, .other line ∈ rows → IsLine line) →
      parseSprRecords c (['\n'].intercalate texts) = .ok (rows.filterMap (Row.record c))) ∧
    ∀ sprText : List Char,
      (parseSprRecordsFull c sprText).map (List.map fun r => (r.peerId, r.addrs)) =
        parseSprRecords c sprText := by
  refine ⟨fun rows sprText hrows => ?_, fun rows texts hrows hlines => ?_, fun sprText => ?_⟩
  · exact congrArg Except.ok (filterMap_rows h hrows)
  · have hall : ∀ line ∈ texts, IsLine line := by
      intro line hline
      obtain ⟨row, hrow, hwrites⟩ := exists_row hrows hline
      cases row with
      | generated key sign addrs seq =>
        obtain ⟨text, hgen, rfl⟩ := hwrites
        exact isLine_generated h hgen
      | other line' =>
        obtain ⟨rfl, -⟩ := hwrites
        exact hlines _ hrow
    refine congrArg Except.ok ?_
    rw [← filterMap_rows h hrows]
    exact filterMap_lines rfl hall
  · rw [parseSprRecords_eq, parseSprRecordsFull_eq]
    refine congrArg Except.ok ?_
    rw [List.map_map]
    rfl

/-- The address `/ip4/a.b.c.d/tcp/port`, the port in two bytes. -/
structure Ip4Tcp where
  (a b c d high low : UInt8)
  deriving DecidableEq

def orError {α : Type} (msg : String) : Option α → Except String α
  | some a => .ok a
  | none => .error msg

/-- The last run of bytes under a tag. -/
def lastPart (tag : Nat) (fs : List Field) : Option (Option Bytes) :=
  (parts tag fs).map List.getLast?

/-- secp256k1 keys by their 33 bytes, and addresses of one form. -/
def sampleWriters : Writers Bytes Ip4Tcp where
  encode64 b := String.ofList (Base64.base64 b)
  keyBytes k := writeFields [⟨1, .varint 2⟩, ⟨2, .bytes k⟩]
  addrBytes x := [4, x.a, x.b, x.c, x.d, 6, x.high, x.low]

def sampleCrates : Crates Bytes Bytes Ip4Tcp where
  decode64 text := orError "Invalid symbol" (Base64.ofBase64 text)
  decodeSpr b := orError "failed to decode Protobuf message" do
    let fs ← readFields b
    return { peerId := ← lastPart 1 fs, seqBytes := ← lastPart 2 fs, peerRecord := ← parts 3 fs,
             signature := ← parts 5 fs }
  decodePeerInfo b := orError "failed to decode Protobuf message" do
    let fs ← readFields b
    return { peerId := ← lastPart 1 fs, seq := .ofNat (← uint 2 fs), addrs := ← parts 3 fs }
  decodeAddrWrapper b := orError "failed to decode Protobuf message" do
    let fs ← readFields b
    return { addr := ← lastPart 1 fs }
  decodeKey b :=
    match readFields b with
    | some [⟨1, .varint 2⟩, ⟨2, .bytes k⟩] => .ok k
    | _ => .error "unsupported key type"
  secp256k1 := some
  toPeerId k := [0, 37] ++ sampleWriters.keyBytes k
  multiaddr
    | [4, a, b, c, d, 6, high, low] => .ok { a, b, c, d, high, low }
    | _ => .error "invalid multiaddr"

theorem lastPart_values {tag : Nat} {b : Option Bytes} {fs : List Field}
    (h : values tag fs = b.toList.map .bytes) : lastPart tag fs = some b := by
  rw [lastPart, parts_values h]
  cases b <;> rfl

def ArchivistSpr.fields (s : ArchivistSpr) : List Field :=
  optFields 1 s.peerId ++ optFields 2 s.seqBytes ++ partFields 3 s.peerRecord ++
    partFields 5 s.signature

def PeerInfo.fields (p : PeerInfo) : List Field :=
  optFields 1 p.peerId ++ uintField 2 p.seq.toNat ++ partFields 3 p.addrs

theorem exact_sample : Exact sampleCrates sampleWriters where
  decode64 b := by
    show orError _ (Base64.ofBase64 (String.ofList (Base64.base64 b)).toList) = _
    rw [String.toList_ofList, Base64.ofBase64_base64]
    rfl
  alphabet b x hx := by
    have hx : x ∈ (String.ofList (Base64.base64 b)).toList := hx
    rw [String.toList_ofList] at hx
    have hn : '\n' ∉ Base64.alphabet := by decide
    have hr : '\r' ∉ Base64.alphabet := by decide
    have hmem := Base64.base64_ascii b x hx
    exact ⟨fun h => hn (h ▸ hmem), fun h => hr (h ▸ hmem)⟩
  decodeSpr s := by
    have h1 : lastPart 1 s.fields = some s.peerId := lastPart_values (by simp [ArchivistSpr.fields])
    have h2 : lastPart 2 s.fields = some s.seqBytes :=
      lastPart_values (by simp [ArchivistSpr.fields])
    have h3 : parts 3 s.fields = some s.peerRecord := parts_values (by simp [ArchivistSpr.fields])
    have h5 : parts 5 s.fields = some s.signature := parts_values (by simp [ArchivistSpr.fields])
    show orError _ (do let fs ← readFields (writeFields s.fields); _) = _
    simp only [readFields_writeFields, Option.bind_eq_bind, Option.bind_some, h1, h2, h3, h5]
    rfl
  decodePeerInfo p := by
    have h1 : lastPart 1 p.fields = some p.peerId := lastPart_values (by simp [PeerInfo.fields])
    have h2 : uint 2 p.fields = some p.seq.toNat := uint_values (by simp [PeerInfo.fields])
    have h3 : parts 3 p.fields = some p.addrs := parts_values (by simp [PeerInfo.fields])
    show orError _ (do let fs ← readFields (writeFields p.fields); _) = _
    simp only [readFields_writeFields, Option.bind_eq_bind, Option.bind_some, h1, h2, h3,
      UInt64.ofNat_toNat]
    rfl
  decodeAddrWrapper a := by
    have h1 : lastPart 1 (optFields 1 a.addr) = some a.addr := lastPart_values (by simp)
    show orError _ (do let fs ← readFields (writeFields _); _) = _
    simp only [readFields_writeFields, Option.bind_eq_bind, Option.bind_some, h1]
    rfl
  decodeKey k := by
    have hread : readFields (sampleWriters.keyBytes k) = some [⟨1, .varint 2⟩, ⟨2, .bytes k⟩] :=
      readFields_writeFields _
    simp only [sampleCrates, hread]
  multiaddr a := rfl

/-- A record between a comment and a line that is no base64. -/
theorem records_parse_back_sample :
    ∃ text, sampleWriters.generate [2, 1] .ok [⟨127, 0, 0, 1, 31, 144⟩] 7 = .ok text ∧
      parseSprRecords sampleCrates
        (['\n'].intercalate ["# seeds".toList, text.toList, "spr:?".toList]) =
          .ok [(sampleCrates.toPeerId [2, 1], [⟨127, 0, 0, 1, 31, 144⟩])] := by
  refine ⟨_, rfl, (records_parse_back sampleCrates sampleWriters exact_sample).2.1
    [.other "# seeds".toList, .generated [2, 1] .ok [⟨127, 0, 0, 1, 31, 144⟩] 7,
      .other "spr:?".toList] _ (.cons ⟨rfl, ?_⟩ (.cons ⟨_, rfl, rfl⟩ (.cons ⟨rfl, ?_⟩ .nil))) ?_⟩
  · intro sprData hstrip
    cases hstrip
  · intro sprData hstrip
    cases hstrip
    exact ⟨.base64 "Invalid symbol", rfl⟩
  · simp only [List.mem_cons, reduceCtorEq, Row.other.injEq, List.not_mem_nil, or_false, false_or]
    rintro line (rfl | rfl)
    · exact ⟨by decide, by decide⟩
    · exact ⟨by decide, by decide⟩

end Spr
