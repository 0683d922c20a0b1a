import Mathlib.Data.List.Forall2
import Neverust.BlockExc.Proof.Leaf

/-!
# Answers to a wantlist

A response is put together from the responses to the single entries (`altruistic_eval`,
`paid_eval`, `quote_eval`).

* `wants_answered_iff`: when every want is answered in altruistic mode.
* `same_wants_iff`: when marketplace mode serves the wants that altruistic mode does.
-/

namespace BlockExc

open Rust Storage Request Messages

/-! ## Responses put together -/

/-- Two responses in one. -/
def joinTwo (a b : Messages.Message) : Messages.Message :=
  { payload := a.payload ++ b.payload, blockPresences := a.blockPresences ++ b.blockPresences }

/-- Responses in one. -/
def joined (parts : List Messages.Message) : Messages.Message := parts.foldr joinTwo noAnswers

@[simp] theorem joinTwo_noAnswers (a : Messages.Message) : joinTwo a noAnswers = a := by
  simp [joinTwo, noAnswers]

@[simp] theorem noAnswers_joinTwo (a : Messages.Message) : joinTwo noAnswers a = a := rfl

theorem joinTwo_assoc (a b c : Messages.Message) : joinTwo (joinTwo a b) c = joinTwo a (joinTwo b c) := by
  simp [joinTwo]

theorem pushBlock_eq (r : Messages.Message) (d : BlockDelivery) :
    pushBlock r d = joinTwo r (pushBlock noAnswers d) := by
  simp [pushBlock, joinTwo, noAnswers]

theorem pushPresence_eq (r : Messages.Message) (a : BlockAddress) (t : BlockPresenceType) :
    pushPresence r a t = joinTwo r (pushPresence noAnswers a t) := by
  simp [pushPresence, joinTwo, noAnswers]

theorem answerHave_eq (r : Messages.Message) (entry : WantlistEntry) (a : BlockAddress) (have_ : Bool) :
    answerHave r entry a have_ = joinTwo r (answerHave noAnswers entry a have_) := by
  unfold answerHave
  split
  · exact pushPresence_eq ..
  · split
    · exact pushPresence_eq ..
    · exact (joinTwo_noAnswers r).symm

theorem foldl_joinTwo (part : WantlistEntry → Messages.Message) :
    ∀ (entries : List WantlistEntry) (r : Messages.Message),
      entries.foldl (fun r entry => joinTwo r (part entry)) r =
        joinTwo r (joined (entries.map part))
  | [], r => (joinTwo_noAnswers r).symm
  | entry :: entries, r => by
    rw [List.foldl_cons, foldl_joinTwo part entries, joinTwo_assoc]
    rfl

/-- A loop over the entries that adds a response for each joins them. -/
theorem foldlM_joined {ans : (r : StoreReq) → StoreAns r}
    {f : Messages.Message → WantlistEntry → Server Messages.Message} {part : WantlistEntry → Messages.Message}
    {entries : List WantlistEntry}
    (hstep : ∀ entry ∈ entries, ∀ r, (f r entry).eval ans = .ok (joinTwo r (part entry))) :
    (entries.foldlM f noAnswers).eval ans = .ok (joined (entries.map part)) := by
  rw [Prog.eval_foldlM (g := fun r entry => joinTwo r (part entry)) entries hstep,
    foldl_joinTwo part, noAnswers_joinTwo]

theorem payload_joined (parts : List Messages.Message) :
    (joined parts).payload = parts.flatMap Messages.Message.payload := by
  induction parts with
  | nil => rfl
  | cons m parts ih =>
    rw [List.flatMap_cons, ← ih]
    rfl

theorem presences_joined (parts : List Messages.Message) :
    (joined parts).blockPresences = parts.flatMap Messages.Message.blockPresences := by
  induction parts with
  | nil => rfl
  | cons m parts ih =>
    rw [List.flatMap_cons, ← ih]
    rfl

section
variable (cr : Crates) (px : Prost) (get : Cid → Except StorageError Block) (cids : List Cid)

/-! ## Altruistic mode -/

/-- What the store can deliver for an address. -/
def delivered (address : BlockAddress) : Option BlockDelivery :=
  match cr.cidOfBytes address.cidBytes with
  | none => none
  | some cid =>
    if address.leaf then
      match (resolveLeafDelivery cr px cid address.index).eval (contents get cids) with
      | .ok delivery => delivery
      | .error _ => none
    else (get cid).toOption.map fun block => .fromCidAndData (cr.cidToBytes cid) block.data

/-- The bytes of the address are those of a CID. -/
def WellFormed (address : BlockAddress) : Prop := (cr.cidOfBytes address.cidBytes).isSome

instance : DecidablePred (WellFormed cr) :=
  fun _ => inferInstanceAs (Decidable (Option.isSome _ = true))

/-- The answer to an entry, by what the store delivers for its address. -/
def answerOf (entry : WantlistEntry) (address : BlockAddress) (delivery : Option BlockDelivery) :
    Messages.Message :=
  match (WantType.fromI32 entry.wantType).getD .wantHave with
  | .wantHave => answerHave noAnswers entry address delivery.isSome
  | .wantBlock => (delivery.map (pushBlock noAnswers)).getD noAnswers

/-- The response to one entry. -/
def altruisticPart (entry : WantlistEntry) : Messages.Message :=
  match entry.address with
  | none => noAnswers
  | some address =>
    if entry.cancel ∨ ¬ WellFormed cr address then noAnswers
    else answerOf entry address (delivered cr px get cids address)

end

section
variable {cr : Crates} {px : Prost} {get : Cid → Except StorageError Block} {cids : List Cid}

/-- A leaf is delivered or not: no call in between panics. -/
theorem resolveLeafDelivery_eval (treeCid : Cid) (index : UInt64) :
    ∃ o, (resolveLeafDelivery cr px treeCid index).eval (contents get cids) = .ok o := by
  have heval : (resolveLeafDelivery cr px treeCid index).eval (contents get cids) = _ :=
    resolveFrom_eval cids
  rw [heval]
  cases cids.findSome? (namedManifest cr px get treeCid) with
  | none => exact ⟨none, rfl⟩
  | some m =>
    by_cases h : IsComplete cr get index m
    · obtain ⟨blockCids, leafBlock, h⟩ := h
      exact ⟨_, leafDelivery_complete h⟩
    · exact ⟨none, leafDelivery_incomplete fun blockCids leafBlock hc => h ⟨blockCids, leafBlock, hc⟩⟩

theorem delivered_leaf {address : BlockAddress} {treeCid : Cid} (hleaf : address.leaf = true)
    (hcid : cr.cidOfBytes address.treeCid = some treeCid) :
    (resolveLeafDelivery cr px treeCid address.index).eval (contents get cids) =
      .ok (delivered cr px get cids address) := by
  obtain ⟨o, ho⟩ := @resolveLeafDelivery_eval cr px get cids treeCid address.index
  rw [delivered, BlockAddress.cidBytes, if_pos hleaf, hcid]
  dsimp only
  rw [if_pos hleaf, ho]

theorem delivered_plain {address : BlockAddress} {cid : Cid} (hleaf : ¬ address.leaf = true)
    (hcid : cr.cidOfBytes address.cid = some cid) :
    delivered cr px get cids address =
      (get cid).toOption.map fun block => .fromCidAndData (cr.cidToBytes cid) block.data := by
  rw [delivered, BlockAddress.cidBytes, if_neg hleaf, hcid]
  exact if_neg hleaf

/-- What an entry adds to the response. -/
theorem altruisticEntry_eval (r : Messages.Message) (entry : WantlistEntry) :
    (altruisticEntry cr px r entry).eval (contents get cids) =
      .ok (joinTwo r (altruisticPart cr px get cids entry)) := by
  unfold altruisticEntry altruisticPart
  by_cases hcancel : entry.cancel = true
  · rw [if_pos hcancel]
    cases entry.address with
    | none => exact congrArg Except.ok (joinTwo_noAnswers r).symm
    | some address =>
      dsimp only
      rw [if_pos (Or.inl hcancel), joinTwo_noAnswers]
      rfl
  rw [if_neg hcancel]
  cases entry.address with
  | none => exact congrArg Except.ok (joinTwo_noAnswers r).symm
  | some address =>
    dsimp only
    by_cases hleaf : address.leaf = true
    · rw [if_pos hleaf]
      cases hcid : cr.cidOfBytes address.treeCid with
      | none =>
        have hform : ¬ WellFormed cr address := by
          rw [WellFormed, BlockAddress.cidBytes, if_pos hleaf, hcid]
          nofun
        rw [if_pos (Or.inr hform), joinTwo_noAnswers]
        rfl
      | some treeCid =>
        have hform : WellFormed cr address := by
          rw [WellFormed, BlockAddress.cidBytes, if_pos hleaf, hcid]
          rfl
        have heval := @delivered_leaf cr px get cids address treeCid hleaf hcid
        rw [if_neg (not_or.2 ⟨hcancel, not_not.2 hform⟩), answerOf]
        cases (WantType.fromI32 entry.wantType).getD .wantHave with
        | wantHave =>
          dsimp only
          rw [hasLeafBlock, Prog.bind_assoc, Prog.eval_bind heval, ← answerHave_eq]
          rfl
        | wantBlock =>
          dsimp only
          rw [Prog.eval_bind heval]
          cases delivered cr px get cids address with
          | none => exact congrArg Except.ok (joinTwo_noAnswers r).symm
          | some d => exact congrArg Except.ok (pushBlock_eq r d)
    · rw [if_neg hleaf]
      cases hcid : cr.cidOfBytes address.cid with
      | none =>
        have hform : ¬ WellFormed cr address := by
          rw [WellFormed, BlockAddress.cidBytes, if_neg hleaf, hcid]
          nofun
        rw [if_pos (Or.inr hform), joinTwo_noAnswers]
        rfl
      | some cid =>
        have hform : WellFormed cr address := by
          rw [WellFormed, BlockAddress.cidBytes, if_neg hleaf, hcid]
          rfl
        rw [if_neg (not_or.2 ⟨hcancel, not_not.2 hform⟩), answerOf, delivered_plain hleaf hcid]
        dsimp only
        rw [storeGet_eval]
        cases (WantType.fromI32 entry.wantType).getD .wantHave with
        | wantHave =>
          dsimp only
          rw [Option.isSome_map, ← answerHave_eq]
          rfl
        | wantBlock =>
          cases (get cid).toOption with
          | none => exact congrArg Except.ok (joinTwo_noAnswers r).symm
          | some block => exact congrArg Except.ok (pushBlock_eq r _)

/-- The response in altruistic mode is made of the responses to the entries. -/
theorem altruistic_eval (entries : List WantlistEntry) :
    (altruistic cr px entries).eval (contents get cids) =
      .ok (joined (entries.map (altruisticPart cr px get cids))) :=
  foldlM_joined fun entry _ r => altruisticEntry_eval r entry

theorem altruistic_single (entry : WantlistEntry) :
    (altruistic cr px [entry]).eval (contents get cids) =
      .ok (altruisticPart cr px get cids entry) := by
  rw [altruistic_eval]
  exact congrArg Except.ok (joinTwo_noAnswers _)

end

/-- No message is sent without an answer in it. -/
def sent (response : Messages.Message) : Option Messages.Message :=
  if response = noAnswers then none else some response

/-- What is sent in altruistic mode. -/
theorem answerWantlist_altruistic (cr : Crates) (px : Prost) (get : Cid → Except StorageError Block)
    (cids : List Cid) (pricePerByte : UInt64) (hasPayment : Bool) (entries : List WantlistEntry) :
    (answerWantlist cr px "altruistic" pricePerByte hasPayment entries).eval (contents get cids) =
      .ok (sent (joined (entries.map (altruisticPart cr px get cids)))) := by
  rw [answerWantlist, if_pos rfl, Prog.eval_bind (altruistic_eval entries), sent]
  by_cases h : joined (entries.map (altruisticPart cr px get cids)) = noAnswers
  · rw [if_pos h, h]
    rfl
  · have hne : (joined (entries.map (altruisticPart cr px get cids))).payload ≠ [] ∨
        (joined (entries.map (altruisticPart cr px get cids))).blockPresences ≠ [] := by
      by_contra hc
      rw [not_or, not_not, not_not] at hc
      exact h (Messages.Message.mk.injEq .. ▸ hc)
    rw [if_neg h, if_pos hne]
    rfl

/-- The entry asks for an answer in any case. -/
structure Asks (cr : Crates) (entry : WantlistEntry) (address : BlockAddress) : Prop where
  wanted : entry.cancel = false
  named : entry.address = some address
  wellFormed : WellFormed cr address
  sendDontHave : entry.sendDontHave = true

/-- The entry has its one answer, and none if it is cancelled. -/
structure Answered (cr : Crates) (px : Prost) (get : Cid → Except StorageError Block)
    (cids : List Cid) (entry : WantlistEntry) (part : Messages.Message) : Prop where
  cancelled : entry.cancel = true → part = noAnswers
  served : ∀ address d, Asks cr entry address → delivered cr px get cids address = some d →
    part = if WantType.fromI32 entry.wantType = some .wantBlock then pushBlock noAnswers d
      else pushPresence noAnswers address .presenceHave
  missing : ∀ address, Asks cr entry address → delivered cr px get cids address = none →
    part = pushPresence noAnswers address .presenceDontHave

section
variable {cr : Crates} {px : Prost} {get : Cid → Except StorageError Block} {cids : List Cid}
  {entry : WantlistEntry} {address : BlockAddress}

theorem altruisticPart_asks (h : Asks cr entry address) :
    altruisticPart cr px get cids entry =
      answerOf entry address (delivered cr px get cids address) := by
  rw [altruisticPart, h.named]
  dsimp only
  rw [if_neg (not_or.2 ⟨by rw [h.wanted]; nofun, not_not.2 h.wellFormed⟩)]

/-- Only the number of `WantBlock` asks for a block. -/
theorem wantsBlock_iff {n : Int} :
    (WantType.fromI32 n).getD .wantHave = .wantBlock ↔ WantType.fromI32 n = some .wantBlock := by
  cases WantType.fromI32 n with
  | none => exact iff_of_false nofun nofun
  | some w => exact (Option.some.injEq w _).symm ▸ Iff.rfl

/-- An entry is answered, except for the want of a block that the store does not have. -/
theorem entry_answered_iff :
    Answered cr px get cids entry (altruisticPart cr px get cids entry) ↔
      ∀ address, Asks cr entry address → WantType.fromI32 entry.wantType = some .wantBlock →
        (delivered cr px get cids address).isSome := by
  constructor
  · intro h address hasks hblock
    cases hd : delivered cr px get cids address with
    | some d => rfl
    | none =>
      have hpart := h.missing address hasks hd
      rw [altruisticPart_asks hasks, answerOf, hblock, hd] at hpart
      cases congrArg Messages.Message.blockPresences hpart
  · intro h
    refine ⟨fun hcancel => ?_, fun address d hasks hd => ?_, fun address hasks hd => ?_⟩
    · unfold altruisticPart
      cases entry.address with
      | none => rfl
      | some address => exact if_pos (Or.inl hcancel)
    · rw [altruisticPart_asks hasks, answerOf, hd]
      split
      · rename_i hhave
        rw [if_neg fun hblock => nomatch hhave.symm.trans (wantsBlock_iff.2 hblock)]
        rfl
      · rename_i hblock
        rw [if_pos (wantsBlock_iff.1 hblock)]
        rfl
    · rw [altruisticPart_asks hasks, answerOf, hd]
      split
      · exact if_pos hasks.sendDontHave
      · rename_i hblock
        have hsome := h address hasks (wantsBlock_iff.1 hblock)
        rw [hd] at hsome
        cases hsome

end

/-- **When every want is answered**: what is sent holds one answer for each entry that asks for
one, if the store has each block that is wanted itself. -/
theorem wants_answered_iff (cr : Crates) (px : Prost) (get : Cid → Except StorageError Block)
    (cids : List Cid) (pricePerByte : UInt64) (hasPayment : Bool) (entries : List WantlistEntry) :
    (∃ parts : List Messages.Message,
        List.Forall₂ (fun entry part =>
          (altruistic cr px [entry]).eval (contents get cids) = .ok part ∧
          Answered cr px get cids entry part) entries parts ∧
        (answerWantlist cr px "altruistic" pricePerByte hasPayment entries).eval
          (contents get cids) = .ok (sent (joined parts))) ↔
      ∀ entry ∈ entries, ∀ address, Asks cr entry address →
        WantType.fromI32 entry.wantType = some .wantBlock →
        (delivered cr px get cids address).isSome := by
  constructor
  · rintro ⟨parts, hparts, -⟩ entry hentry
    obtain ⟨i, hi, rfl⟩ := List.mem_iff_getElem.1 hentry
    obtain ⟨heval, hans⟩ := (List.forall₂_iff_get.1 hparts).2 i hi
      (by rw [← hparts.length_eq]; exact hi)
    rw [altruistic_single, List.get_eq_getElem] at heval
    rw [← Except.ok.inj heval] at hans
    exact entry_answered_iff.1 hans
  · intro h
    refine ⟨entries.map (altruisticPart cr px get cids), ?_,
      answerWantlist_altruistic cr px get cids pricePerByte hasPayment entries⟩
    rw [List.forall₂_map_right_iff, List.forall₂_same]
    exact fun entry hentry => ⟨altruistic_single entry, entry_answered_iff.2 (h entry hentry)⟩

/-- A want of one block, with `send_dont_have`. -/
def plainWant : WantlistEntry :=
  { address := some (.fromCid (Crates.standard.cidToBytes (Api.shaBlock .standard [7]).cid)),
    cancel := false, wantType := 0, sendDontHave := true }

/-- Nothing is sent for a missing block. -/
theorem want_unanswered :
    ¬ ∀ (get : Cid → Except StorageError Block) (entries : List WantlistEntry),
      ∃ parts : List Messages.Message,
        List.Forall₂ (fun entry part =>
          (altruistic .standard .standard [entry]).eval (contents get []) = .ok part ∧
          Answered .standard .standard get [] entry part) entries parts ∧
        (answerWantlist .standard .standard "altruistic" 0 false entries).eval
          (contents get []) = .ok (sent (joined parts)) := by
  intro h
  obtain ⟨parts, hparts, -⟩ := h (fun _ => .error (.blockNotFound "")) [plainWant]
  obtain ⟨part, _, ⟨heval, hans⟩, -, -⟩ := List.forall₂_cons_left_iff.1 hparts
  have hcid := Crates.standard.cidOfBytes_toBytes (Api.shaBlock .standard [7]).cid
  have hasks : Asks .standard plainWant
      (.fromCid (Crates.standard.cidToBytes (Api.shaBlock .standard [7]).cid)) :=
    { wanted := rfl
      named := rfl
      wellFormed := congrArg Option.isSome hcid
      sendDontHave := rfl }
  have hnone : delivered .standard .standard (fun _ => .error (.blockNotFound "")) []
      (.fromCid (Crates.standard.cidToBytes (Api.shaBlock .standard [7]).cid)) = none :=
    delivered_plain nofun hcid
  have hpart := hans.missing _ hasks hnone
  rw [altruistic_single, altruisticPart_asks hasks, hnone] at heval
  cases congrArg Messages.Message.blockPresences ((Except.ok.inj heval).trans hpart)

/-! ## Marketplace mode -/

section
variable (cr : Crates) (px : Prost) (get : Cid → Except StorageError Block) (cids : List Cid)

/-- The block an entry names in marketplace mode, if the store has it. -/
def namedIn (entry : WantlistEntry) : Option (Cid × Block) :=
  (entry.cidBytes.bind cr.cidOfBytes).bind fun cid => (get cid).toOption.map fun block => (cid, block)

/-- The delivery of a block by its CID. -/
def plainDelivery (named : Cid × Block) : BlockDelivery :=
  .fromCidAndData (cr.cidToBytes named.1) named.2.data

/-- The price of a block by its CID. -/
def quoteOf (pricePerByte : UInt64) (named : Cid × Block) : BlockPresence :=
  .fromCid (cr.cidToBytes named.1) .presenceHave
    (Bytes.leBytes 8 (named.2.data.length * pricePerByte.toNat))

/-- The response to one entry after a payment. -/
def paidPart (entry : WantlistEntry) : Messages.Message :=
  { payload := ((namedIn cr get entry).map (plainDelivery cr)).toList, blockPresences := [] }

/-- The response to one entry without a payment. -/
def quotePart (pricePerByte : UInt64) (entry : WantlistEntry) : Messages.Message :=
  { payload := [], blockPresences := ((namedIn cr get entry).map (quoteOf cr pricePerByte)).toList }

/-- What altruistic mode delivers for an entry that wants a block. -/
def deliveredTo (entry : WantlistEntry) : Option BlockDelivery :=
  if entry.cancel then none else entry.address.bind (delivered cr px get cids)

end

section
variable {cr : Crates} {px : Prost} {get : Cid → Except StorageError Block} {cids : List Cid}
  {entry : WantlistEntry} {pricePerByte : UInt64}

theorem namedBlock_eval (entry : WantlistEntry) :
    (namedBlock cr entry).eval (contents get cids) = .ok (namedIn cr get entry) := by
  unfold namedBlock namedIn
  cases entry.cidBytes.bind cr.cidOfBytes with
  | none => rfl
  | some cid =>
    rw [Option.bind_some]
    dsimp only
    rw [storeGet_eval]
    cases get cid with
    | error e => rfl
    | ok block => rfl

theorem paidEntry_eval (r : Messages.Message) (entry : WantlistEntry) :
    (paidEntry cr r entry).eval (contents get cids) =
      .ok (joinTwo r (paidPart cr get entry)) := by
  rw [paidEntry, Prog.eval_bind (namedBlock_eval entry), paidPart]
  cases namedIn cr get entry with
  | none => exact congrArg Except.ok (joinTwo_noAnswers r).symm
  | some named => exact congrArg Except.ok (pushBlock_eq r _)

theorem paid_eval (pricePerByte : UInt64) (entries : List WantlistEntry) :
    (marketplace cr true pricePerByte entries).eval (contents get cids) =
      .ok (joined (entries.map (paidPart cr get))) :=
  foldlM_joined fun entry _ r => paidEntry_eval r entry

/-- The price of the block fits in a `u64`. -/
def Fits (cr : Crates) (get : Cid → Except StorageError Block) (pricePerByte : UInt64)
    (entry : WantlistEntry) : Prop :=
  ∀ named ∈ namedIn cr get entry, named.2.data.length * pricePerByte.toNat < 2 ^ 64

theorem quoteEntry_eval (h : Fits cr get pricePerByte entry) (r : Messages.Message) :
    (quoteEntry cr pricePerByte r entry).eval (contents get cids) =
      .ok (joinTwo r (quotePart cr get pricePerByte entry)) := by
  unfold Fits at h
  rw [quoteEntry, Prog.eval_bind (namedBlock_eval entry), quotePart]
  cases hnamed : namedIn cr get entry with
  | none => exact congrArg Except.ok (joinTwo_noAnswers r).symm
  | some named =>
    dsimp only
    rw [lift_eval (usizeMul_of_lt (h named hnamed))]
    exact congrArg Except.ok (by simp [joinTwo, quoteOf])

/-- A price that does not fit ends the task. -/
theorem quoteEntry_fails (h : ¬ Fits cr get pricePerByte entry) (r : Messages.Message) :
    ∃ e, (quoteEntry cr pricePerByte r entry).eval (contents get cids) = .error e := by
  unfold Fits at h
  rw [quoteEntry, Prog.eval_bind (namedBlock_eval entry)]
  cases hnamed : namedIn cr get entry with
  | none =>
    rw [hnamed] at h
    exact absurd nofun h
  | some named =>
    dsimp only
    have hbig : ¬ named.2.data.length * pricePerByte.toNat < usizeSize := fun hlt =>
      h fun named' hnamed' => by
        rw [hnamed] at hnamed'
        cases hnamed'
        exact hlt
    rw [usizeMul, if_neg hbig]
    exact ⟨_, rfl⟩

theorem quote_eval {entries : List WantlistEntry}
    (h : ∀ entry ∈ entries, Fits cr get pricePerByte entry) :
    (marketplace cr false pricePerByte entries).eval (contents get cids) =
      .ok (joined (entries.map (quotePart cr get pricePerByte))) :=
  foldlM_joined fun entry hentry r => quoteEntry_eval (h entry hentry) r

theorem altruisticPart_wantBlock
    (hblock : WantType.fromI32 entry.wantType = some .wantBlock) :
    altruisticPart cr px get cids entry =
      { payload := (deliveredTo cr px get cids entry).toList, blockPresences := [] } := by
  unfold altruisticPart deliveredTo
  cases entry.address with
  | none => simp [noAnswers]
  | some address =>
    dsimp only
    by_cases hcancel : entry.cancel = true
    · rw [if_pos (Or.inl hcancel), if_pos hcancel]
      rfl
    · rw [if_neg hcancel, Option.bind_some]
      by_cases hform : WellFormed cr address
      · rw [if_neg (not_or.2 ⟨hcancel, not_not.2 hform⟩), answerOf, hblock]
        cases delivered cr px get cids address with
        | none => rfl
        | some d => rfl
      · rw [if_pos (Or.inr hform), delivered, Option.not_isSome_iff_eq_none.1 hform]
        rfl

/-- A leaf is delivered with its proof. -/
theorem delivered_leaf_proof {address : BlockAddress} {d : BlockDelivery}
    (hleaf : address.leaf = true) (h : delivered cr px get cids address = some d) :
    d.proof.isSome := by
  rw [delivered, BlockAddress.cidBytes, if_pos hleaf] at h
  cases hcid : cr.cidOfBytes address.treeCid with
  | none =>
    rw [hcid] at h
    cases h
  | some treeCid =>
    have heval : (resolveLeafDelivery cr px treeCid address.index).eval (contents get cids) = _ :=
      resolveFrom_eval cids
    rw [hcid] at h
    dsimp only at h
    rw [if_pos hleaf, heval] at h
    cases hfind : cids.findSome? (namedManifest cr px get treeCid) with
    | none =>
      rw [hfind] at h
      cases h
    | some m =>
      rw [hfind] at h
      dsimp only at h
      by_cases hm : IsComplete cr get address.index m
      · obtain ⟨blockCids, leafBlock, hm⟩ := hm
        rw [leafDelivery_complete hm] at h
        cases h
        rfl
      · rw [leafDelivery_incomplete fun blockCids leafBlock hc =>
          hm ⟨blockCids, leafBlock, hc⟩] at h
        cases h

/-- When the two modes deliver the same for an entry. -/
theorem sameDelivery_iff :
    (namedIn cr get entry).map (plainDelivery cr) = deliveredTo cr px get cids entry ↔
      ((entry.cancel = true ∨ ∃ address, entry.address = some address ∧ address.leaf = true) →
        namedIn cr get entry = none) ∧
      (entry.cancel = false → ∀ address, entry.address = some address → address.leaf = true →
        delivered cr px get cids address = none) := by
  unfold deliveredTo
  by_cases hcancel : entry.cancel = true
  · rw [if_pos hcancel, Option.map_eq_none_iff]
    exact ⟨fun h => ⟨fun _ => h, fun hwanted => absurd hcancel (by rw [hwanted]; nofun)⟩,
      fun h => h.1 (Or.inl hcancel)⟩
  rw [if_neg hcancel]
  cases haddr : entry.address with
  | none =>
    have hnone : namedIn cr get entry = none := by
      rw [namedIn, WantlistEntry.cidBytes, haddr]
      rfl
    exact iff_of_true (by rw [hnone]; rfl) ⟨fun _ => hnone, nofun⟩
  | some address =>
    rw [Option.bind_some]
    by_cases hleaf : address.leaf = true
    · constructor
      · intro h
        cases hnamed : namedIn cr get entry with
        | none =>
          rw [hnamed] at h
          refine ⟨fun _ => rfl, fun _ address' haddr' _ => ?_⟩
          cases haddr'
          exact h.symm
        | some named =>
          rw [hnamed] at h
          cases delivered_leaf_proof hleaf h.symm
      · rintro ⟨hnone, hdelivered⟩
        rw [hnone (Or.inr ⟨address, rfl, hleaf⟩),
          hdelivered (Bool.not_eq_true _ ▸ hcancel) address rfl hleaf]
        rfl
    · have hnot : ¬ ∃ address', some address = some address' ∧ address'.leaf = true := by
        rintro ⟨address', haddr', hleaf'⟩
        cases haddr'
        exact hleaf hleaf'
      refine iff_of_true ?_ ⟨fun h => (not_or.2 ⟨hcancel, hnot⟩ h).elim,
        fun _ address' haddr' hleaf' => (hnot ⟨address', haddr', hleaf'⟩).elim⟩
      have hbytes : entry.cidBytes = some address.cid := by
        rw [WantlistEntry.cidBytes, haddr, Option.map_some, BlockAddress.cidBytes, if_neg hleaf]
      rw [namedIn, hbytes, Option.bind_some]
      cases hcid : cr.cidOfBytes address.cid with
      | none =>
        rw [delivered, BlockAddress.cidBytes, if_neg hleaf, hcid]
        rfl
      | some cid =>
        rw [delivered_plain hleaf hcid, Option.bind_some, Option.map_map]
        rfl

end

/-! ## The two modes -/

/-- The presence quotes the price of the delivery. -/
structure Quotes (pricePerByte : UInt64) (d : BlockDelivery) (p : BlockPresence) : Prop where
  address : p.address = d.address
  type : p.type = .presenceHave
  length : p.price.length = 8
  price : Bytes.ofLe p.price = d.data.length * pricePerByte.toNat

section
variable (cr : Crates) (px : Prost) (get : Cid → Except StorageError Block) (cids : List Cid)
  (pricePerByte : UInt64)

/-- Marketplace mode delivers what altruistic mode does, and quotes its price. -/
def SameWants (entries : List WantlistEntry) : Prop :=
  ∃ free paid quoted : Messages.Message,
    (altruistic cr px entries).eval (contents get cids) = .ok free ∧
    (marketplace cr true pricePerByte entries).eval (contents get cids) = .ok paid ∧
    (marketplace cr false pricePerByte entries).eval (contents get cids) = .ok quoted ∧
    paid.payload = free.payload ∧
    List.Forall₂ (Quotes pricePerByte) free.payload quoted.blockPresences

/-- The two modes agree on an entry. -/
structure Agrees (entry : WantlistEntry) : Prop where
  unserved : (entry.cancel = true ∨ ∃ address, entry.address = some address ∧ address.leaf = true) →
    namedIn cr get entry = none
  leaf : entry.cancel = false → ∀ address, entry.address = some address → address.leaf = true →
    delivered cr px get cids address = none
  price : Fits cr get pricePerByte entry

variable {cr px get cids pricePerByte}

theorem quotes_quoteOf {named : Cid × Block}
    (h : named.2.data.length * pricePerByte.toNat < 2 ^ 64) :
    Quotes pricePerByte (plainDelivery cr named) (quoteOf cr pricePerByte named) where
  address := rfl
  type := rfl
  length := Bytes.length_leBytes 8 _
  price := Bytes.ofLe_leBytes h

theorem sameWants_of_agrees {entries : List WantlistEntry}
    (hblock : ∀ entry ∈ entries, WantType.fromI32 entry.wantType = some .wantBlock)
    (h : ∀ entry ∈ entries, Agrees cr px get cids pricePerByte entry) :
    SameWants cr px get cids pricePerByte entries := by
  have hfree : entries.map (altruisticPart cr px get cids) = entries.map (paidPart cr get) := by
    refine List.map_congr_left fun entry hentry => ?_
    rw [altruisticPart_wantBlock (hblock entry hentry), paidPart,
      sameDelivery_iff.2 ⟨(h entry hentry).unserved, (h entry hentry).leaf⟩]
  refine ⟨_, _, _, altruistic_eval entries, paid_eval pricePerByte entries,
    quote_eval fun entry hentry => (h entry hentry).price, by rw [hfree], ?_⟩
  rw [hfree, payload_joined, presences_joined, List.flatMap_map, List.flatMap_map]
  clear hfree
  induction entries with
  | nil => exact .nil
  | cons entry entries ih =>
    rw [List.flatMap_cons, List.flatMap_cons]
    refine List.rel_append ?_ (ih (fun e he => hblock e (List.mem_cons_of_mem _ he))
      fun e he => h e (List.mem_cons_of_mem _ he))
    have hfits := (h entry List.mem_cons_self).price
    unfold Fits at hfits
    rw [paidPart, quotePart]
    cases hnamed : namedIn cr get entry with
    | none => exact .nil
    | some named => exact .cons (quotes_quoteOf (hfits named hnamed)) .nil

theorem agrees_of_sameWants {entry : WantlistEntry}
    (hblock : WantType.fromI32 entry.wantType = some .wantBlock)
    (h : SameWants cr px get cids pricePerByte [entry]) :
    Agrees cr px get cids pricePerByte entry := by
  obtain ⟨free, paid, quoted, hfree, hpaid, hquoted, hsame, -⟩ := h
  rw [altruistic_single, altruisticPart_wantBlock hblock] at hfree
  rw [paid_eval] at hpaid
  cases hfree
  cases hpaid
  have hsingle : (joined ([entry].map (paidPart cr get))).payload =
      ((namedIn cr get entry).map (plainDelivery cr)).toList := by
    rw [payload_joined]
    exact List.append_nil _
  rw [hsingle] at hsame
  have hsame' := congrArg List.head? hsame
  rw [Option.head?_toList, Option.head?_toList] at hsame'
  obtain ⟨hunserved, hleaf⟩ := sameDelivery_iff.1 hsame'
  refine ⟨hunserved, hleaf, ?_⟩
  by_contra hprice
  obtain ⟨e, he⟩ := @quoteEntry_fails cr get cids entry pricePerByte hprice noAnswers
  obtain ⟨r, hr, -⟩ := Prog.eval_bind_ok hquoted
  rw [he] at hr
  cases hr

end

/-- **When the two modes serve the same wants.** -/
theorem same_wants_iff (cr : Crates) (px : Prost) (get : Cid → Except StorageError Block)
    (cids : List Cid) (pricePerByte : UInt64) {entries : List WantlistEntry}
    (hblock : ∀ entry ∈ entries, WantType.fromI32 entry.wantType = some .wantBlock) :
    (SameWants cr px get cids pricePerByte entries ∧
        ∀ entry ∈ entries, SameWants cr px get cids pricePerByte [entry]) ↔
      ∀ entry ∈ entries, Agrees cr px get cids pricePerByte entry := by
  constructor
  · rintro ⟨-, h⟩ entry hentry
    exact agrees_of_sameWants (hblock entry hentry) (h entry hentry)
  · intro h
    refine ⟨sameWants_of_agrees hblock h, fun entry hentry => sameWants_of_agrees ?_ ?_⟩
    · exact List.forall_mem_singleton.2 (hblock entry hentry)
    · exact List.forall_mem_singleton.2 (h entry hentry)

/-- A want of a block that was cancelled. -/
def cancelledWant : WantlistEntry := { plainWant with cancel := true, sendDontHave := false }

theorem cancelledWant_unserved :
    ¬ Agrees .standard .standard (fun _ => .ok (Api.shaBlock .standard [7])) [] 1 cancelledWant := by
  intro h
  have hcid := Crates.standard.cidOfBytes_toBytes (Api.shaBlock .standard [7]).cid
  have hnamed : namedIn .standard (fun _ => .ok (Api.shaBlock .standard [7])) cancelledWant =
      some ((Api.shaBlock .standard [7]).cid, Api.shaBlock .standard [7]) :=
    (congrArg (fun o : Option Cid => o.bind fun cid =>
      (Except.ok (Api.shaBlock .standard [7]) : Except StorageError Block).toOption.map
        fun block => (cid, block)) hcid)
  cases hnamed.symm.trans (h.unserved (Or.inl rfl))

/-- A want of a block that is there. -/
theorem plainWant_agrees :
    Agrees .standard .standard (fun _ => .ok (Api.shaBlock .standard [7])) [] 3 plainWant where
  unserved := by
    rintro (h | ⟨address, h, hleaf⟩)
    · cases h
    · cases h
      cases hleaf
  leaf _ address h hleaf := by
    cases h
    cases hleaf
  price named hnamed := by
    obtain ⟨cid, -, h⟩ := Option.bind_eq_some_iff.1 hnamed
    obtain ⟨block, hblock, rfl⟩ := Option.map_eq_some_iff.1 h
    cases hblock
    change 1 * 3 < 2 ^ 64
    decide

theorem same_wants_iff_sample :
    (∀ entry ∈ [plainWant, plainWant],
        WantType.fromI32 entry.wantType = some .wantBlock) ∧
      SameWants .standard .standard (fun _ => .ok (Api.shaBlock .standard [7])) [] 3
        [plainWant, plainWant] ∧
      ¬ (SameWants .standard .standard (fun _ => .ok (Api.shaBlock .standard [7])) [] 1
          [cancelledWant] ∧
        ∀ entry ∈ [cancelledWant], SameWants .standard .standard
          (fun _ => .ok (Api.shaBlock .standard [7])) [] 1 [entry]) := by
  have htwice : ∀ entry ∈ [plainWant, plainWant],
      WantType.fromI32 entry.wantType = some .wantBlock := by simp [plainWant]; rfl
  have hcancelled : ∀ entry ∈ [cancelledWant],
      WantType.fromI32 entry.wantType = some .wantBlock := List.forall_mem_singleton.2 rfl
  refine ⟨htwice, ?_, fun h => cancelledWant_unserved ?_⟩
  · exact ((same_wants_iff .standard .standard _ [] 3 htwice).2
      (by simp [plainWant_agrees])).1
  · exact (same_wants_iff .standard .standard _ [] 1 hcancelled).1 h _ List.mem_cons_self

/-- The block of a cancelled want is delivered after a payment. -/
theorem cancelled_served :
    ¬ ∀ (get : Cid → Except StorageError Block) (pricePerByte : UInt64)
        (entries : List WantlistEntry),
      (∀ entry ∈ entries, WantType.fromI32 entry.wantType = some .wantBlock) →
      SameWants .standard .standard get [] pricePerByte entries ∧
        ∀ entry ∈ entries, SameWants .standard .standard get [] pricePerByte [entry] := by
  intro h
  have hsame := (h (fun _ => .ok (Api.shaBlock .standard [7])) 1 [cancelledWant]
    (List.forall_mem_singleton.2 rfl)).1
  exact cancelledWant_unserved (agrees_of_sameWants rfl hsame)

end BlockExc
