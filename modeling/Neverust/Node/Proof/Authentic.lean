import Neverust.Api.Proof.Puts
import Neverust.Node

/-!
# Stored content is authentic, except for what BoTG stores

Every part of a node but the receive loop of BoTG puts only blocks that it made or checked. The
receive loop puts the block of a `Response` as it came.

* `step_spec`: a step keeps the store authentic exactly if it is harmless (`Harmless`).
* `authentic_iff`: the store is authentic in all states of a run exactly if all steps of the run
  are harmless.
-/

namespace Node

open Rust Storage Request Api BlockExc Botg

/-- Hash functions by multihash code; those of the node are among them. -/
structure Hashes (cr : Crates) where
  digest : UInt64 → Bytes → Option Bytes
  digest_eq : ∀ code data d, cr.digestOf code data = some d → digest code data = some d

variable {cr : Crates} (H : Hashes cr)

/-- The data has the digest of the CID, under the CID's hash function. -/
def Genuine (b : Block) : Prop := H.digest b.cid.hash.code b.data = some b.cid.hash.digest

instance (b : Block) : Decidable (Genuine H b) := inferInstanceAs (Decidable (_ = _))

theorem genuine_of_authentic (b : Block) (hb : b.Authentic cr) : Genuine H b :=
  H.digest_eq _ _ _ hb

/-- **Stored content is authentic**: the data that the store returns for a CID has its digest. -/
def Authentic (n : State) : Prop :=
  ∀ cid b, (RedbStore.get cr cid { table := n.table, failures := [] }).1 = .ok b →
    Genuine H { cid, data := b.data }

/-- The block that the receive loop is about to put. -/
def nextPut : BotgProg Unit → Option Block
  | .ask (.store (.putMany [block])) _ => some block
  | _ => none

/-- A step that does not store a wrong block: the receive loop puts no block, or its block is
genuine, or the store has the CID already, or the database refuses the transaction. -/
def Harmless (n : State) : Event → Prop
  | .botg false _ => ∀ block, nextPut n.botg = some block →
      Genuine H block ∨ n.table[cr.cidToString block.cid]? ≠ none
  | _ => True

/-! ## Calls of the store -/

def GenuineTable (t : Std.ExtTreeMap String Bytes) : Prop :=
  ∀ cid data, t[cr.cidToString cid]? = some data → Genuine H { cid, data }

variable {H} {t : Std.ExtTreeMap String Bytes}

theorem authentic_iff_table {n : State} : Authentic H n ↔ GenuineTable H n.table := by
  constructor
  · intro h cid data hd
    refine h cid { cid, data } ?_
    rw [@RedbStore.get_of_nil cr cid { table := n.table, failures := [] } rfl]
    exact RedbStore.lookup_eq_ok_iff.2 ⟨rfl, hd⟩
  · intro h cid b hb
    exact h cid b.data (RedbStore.get_eq_ok hb).2

/-- A call that puts only genuine blocks keeps the table genuine. -/
theorem storeStep_genuine {fails : Bool} {r : StoreReq} (hr : r.PutsOnly (Genuine H))
    (ht : GenuineTable H t) : GenuineTable H (storeStep cr fails r t).2 := by
  intro cid data hd
  rcases RedbStore.answer_only hd with hd | ⟨blocks, rfl, b, hb, hk, rfl⟩
  · exact ht cid data hd
  · rw [← cr.cidToString_inj hk]
    exact hr b hb

theorem storeStep_put_false (b : Block) :
    (storeStep cr false (.put b) t).2 = t.insertIfNew (cr.cidToString b.cid) b.data := by
  rfl

/-- A put keeps the table genuine exactly if the block is genuine or its CID has an entry. -/
theorem storeStep_put_iff {b : Block} (ht : GenuineTable H t) :
    GenuineTable H (storeStep cr false (.put b) t).2 ↔
      Genuine H b ∨ t[cr.cidToString b.cid]? ≠ none := by
  rw [storeStep_put_false]
  constructor
  · intro h
    by_cases hn : t[cr.cidToString b.cid]? = none
    · exact .inl (h b.cid b.data (by rw [RedbStore.getElem?_insertIfNew, if_pos ⟨rfl, hn⟩]))
    · exact .inr hn
  · intro h cid data hd
    rw [RedbStore.getElem?_insertIfNew] at hd
    split at hd
    · rename_i hk
      obtain rfl := cr.cidToString_inj hk.1
      obtain rfl := Option.some.inj hd
      exact h.resolve_right (not_not.2 hk.2)
    · exact ht cid data hd

/-! ## The parts of a node -/

/-- A handler and its tasks put only blocks in `A`. -/
def Running.Sound (A : Block → Prop) (h : Running) : Prop :=
  Makes (ApiReq.PutsOnly A) h.handler ∧ ∀ f ∈ h.tasks, Makes (StoreReq.PutsOnly A) f.task

/-- Every part but the receive loop puts only blocks in `A`; the receive loop puts one block at a
time. -/
structure Sound (A : Block → Prop) (n : State) : Prop where
  handlers : ∀ h ∈ n.handlers, h.Sound A
  streams : ∀ s ∈ n.streams, Makes (StoreReq.PutsOnly A) s
  botg : Makes (fun r => ∀ blocks, r = .store (.putMany blocks) → ∃ b, blocks = [b]) n.botg

theorem sound_start (A : Block → Prop) (t : Std.ExtTreeMap String Bytes) : Sound A (start t) :=
  ⟨nofun, nofun, trivial⟩

section
variable (hcr : cr.Standard) {A : Block → Prop} (hA : ∀ b, b.Authentic cr → A b)
include hcr hA

theorem makes_handler (px : Prost) (c : ApiCall) :
    Makes (ApiReq.PutsOnly A) (c.handler cr px) := by
  cases c with
  | upload cfg body => exact Makes.bind (makes_archivistUpload hcr hA cfg px body) fun _ => trivial
  | uploadRawBlock body =>
    exact Makes.bind (makes_archivistUploadRawBlock hcr hA body) fun _ => trivial
  | storeBlock body => exact Makes.bind (makes_storeBlock hA body) fun _ => trivial
  | createDirectory req =>
    exact Makes.bind (makes_archivistCreateDirectory hcr hA px req) fun _ => trivial
  | download cid cidStr peers =>
    exact Makes.bind (makes_archivistDownload hcr hA px cid cidStr peers) fun _ => trivial
  | pin cidStr peers =>
    exact Makes.bind (makes_ensurePinLocally hcr hA cidStr peers) fun _ => trivial
  | delete cid => exact makes_archivistDelete px cid
  | unpin cid => exact makes_deleteQuietly cid

theorem makes_storeReceived (cid : Cid) (b : MsgBlock) :
    Makes (StoreReq.PutsOnly A) (storeReceived cr cid b) := by
  unfold storeReceived
  split
  · exact Makes.pure ()
  · split
    · exact Makes.pure ()
    · rename_i block hblock
      have hb := hA block (Block.fromCidAndData_authentic hcr hblock)
      exact Makes.request_bind (fun b hmem => List.mem_singleton.1 hmem ▸ hb) fun _ => Makes.pure ()

theorem makes_outboundStream (cid : Cid) (sent : Bool) (frames : List (Option Message)) :
    Makes (StoreReq.PutsOnly A) (outboundStream cr cid sent frames) := by
  unfold outboundStream
  split
  · refine Makes.foldlM frames () fun _ frame _ => ?_
    cases frame with
    | none => exact Makes.pure ()
    | some m => exact Makes.foldlM m.payload () fun _ b _ => makes_storeReceived hcr hA cid b
  · exact Makes.pure ()

end

theorem makes_receive (p : BoTgProtocol) (addr : SocketAddr) (msg : Except String BoTgMessage) :
    Makes (fun r => ∀ blocks, r = .store (.putMany blocks) → ∃ b, blocks = [b])
      (receive cr p addr msg) := by
  cases msg with
  | error e => exact Makes.pure ()
  | ok msg =>
    cases msg with
    | announce cids => exact Makes.request nofun
    | request cids =>
      show Makes _ (handleBlockRequest cr p addr cids)
      unfold handleBlockRequest
      split
      · refine Makes.foldlM cids () fun _ cidBytes _ => ?_
        unfold answerCid
        split
        · exact Makes.pure ()
        · refine Makes.request_bind nofun fun r => ?_
          split
          · exact Makes.pure ()
          · unfold sendMessage
            split
            · exact Makes.request_bind nofun fun _ => Makes.lift _
            · exact Makes.lift _
      · exact Makes.pure ()
    | response cid data =>
      show Makes _ (handleBlockResponse cr p cid data)
      unfold handleBlockResponse
      split
      · split
        · exact Makes.lift _
        · refine Makes.request_bind ?_ fun r => ?_
          · intro blocks h
            cases h
            exact ⟨_, rfl⟩
          · split
            · exact Makes.pure ()
            · exact Makes.lift _
      · exact Makes.lift _

/-! ## Steps of the parts -/

section
variable {t' : Std.ExtTreeMap String Bytes} {fails : Bool}

theorem handlerStep_spec {h h' : Running} (hs : h.Sound (Genuine H))
    (hstep : handlerStep cr fails h t = some (h', t')) :
    h'.Sound (Genuine H) ∧ (GenuineTable H t → GenuineTable H t') := by
  obtain ⟨handler, tasks⟩ := h
  unfold handlerStep at hstep
  split at hstep
  · cases hstep
  · rename_i r k heq
    cases heq
    cases hstep
    exact ⟨⟨hs.1.2 _, hs.2⟩, storeStep_genuine hs.1.1⟩
  · rename_i startIdx expectedLen task k heq
    cases heq
    cases hstep
    refine ⟨⟨hs.1.2 _, fun f hf => ?_⟩, id⟩
    rcases List.mem_append.1 hf with hf | hf
    · exact hs.2 f hf
    · rw [List.mem_singleton.1 hf]
      exact hs.1.1
  · rename_i k heq
    cases heq
    split at hstep
    · cases hstep
      exact ⟨⟨hs.1.2 _, hs.2⟩, id⟩
    · cases hstep

theorem joinStep_spec {A : Block → Prop} {j : Nat} {h h' : Running} (hs : h.Sound A)
    (hstep : joinStep j h = some h') : h'.Sound A := by
  obtain ⟨handler, tasks⟩ := h
  unfold joinStep at hstep
  split at hstep
  · rename_i k f heq _
    cases heq
    split at hstep
    · cases hstep
      exact ⟨hs.1.2 _, fun g hg => hs.2 g (List.mem_of_mem_eraseIdx hg)⟩
    · cases hstep
  · cases hstep

theorem taskStep_spec {j : Nat} {h h' : Running} (hs : h.Sound (Genuine H))
    (hstep : taskStep cr fails j h t = some (h', t')) :
    h'.Sound (Genuine H) ∧ (GenuineTable H t → GenuineTable H t') := by
  unfold taskStep at hstep
  split at hstep
  · cases hstep
  · rename_i f hf
    have htask := hs.2 f (List.mem_of_getElem? hf)
    split at hstep
    · cases hstep
    · rename_i r k heq
      rw [heq] at htask
      cases hstep
      refine ⟨⟨hs.1, fun g hg => ?_⟩, storeStep_genuine htask.1⟩
      rcases List.mem_or_eq_of_mem_set hg with hg | rfl
      · exact hs.2 g hg
      · exact htask.2 _

theorem streamStep_spec {s s' : Stream} (hs : Makes (StoreReq.PutsOnly (Genuine H)) s)
    (hstep : streamStep cr fails s t = some (s', t')) :
    Makes (StoreReq.PutsOnly (Genuine H)) s' ∧ (GenuineTable H t → GenuineTable H t') := by
  cases s with
  | done r => cases hstep
  | ask r k =>
    cases hstep
    exact ⟨hs.2 _, storeStep_genuine hs.1⟩

theorem harmless_of_nextPut {sent : Except BoTgError Unit} {n : State} (h : nextPut n.botg = none) :
    Harmless H n (.botg fails sent) := by
  cases fails with
  | true => trivial
  | false =>
    intro block hblock
    rw [h] at hblock
    cases hblock

theorem botgStep_spec {sent : Except BoTgError Unit} {n n' : State} (hs : Sound (Genuine H) n)
    (hstep : botgStep cr fails sent n = some n') :
    Sound (Genuine H) n' ∧
      (GenuineTable H n.table → (GenuineTable H n'.table ↔ Harmless H n (.botg fails sent))) := by
  obtain ⟨table, handlers, connections, opening, streams, peerAddrs, botg⟩ := n
  have hb := hs.botg
  unfold botgStep at hstep
  split at hstep
  · cases hstep
  · rename_i r k heq
    cases heq
    cases hstep
    refine ⟨⟨hs.handlers, hs.streams, hb.2 _⟩, fun ht => ?_⟩
    cases r with
    | putMany blocks =>
      obtain ⟨b, rfl⟩ := hb.1 blocks rfl
      cases fails with
      | true => exact iff_of_true ht trivial
      | false =>
        refine (storeStep_put_iff ht).trans ⟨fun h block hblock => ?_, fun h => h b rfl⟩
        cases hblock
        exact h
    | get cid =>
      have hput : StoreReq.PutsOnly (Genuine H) (.get cid) := trivial
      exact iff_of_true (storeStep_genuine hput ht) (harmless_of_nextPut rfl)
    | has cid =>
      have hput : StoreReq.PutsOnly (Genuine H) (.has cid) := trivial
      exact iff_of_true (storeStep_genuine hput ht) (harmless_of_nextPut rfl)
    | delete cid =>
      have hput : StoreReq.PutsOnly (Genuine H) (.delete cid) := trivial
      exact iff_of_true (storeStep_genuine hput ht) (harmless_of_nextPut rfl)
    | listCids =>
      have hput : StoreReq.PutsOnly (Genuine H) (.listCids) := trivial
      exact iff_of_true (storeStep_genuine hput ht) (harmless_of_nextPut rfl)
  · rename_i addr k heq
    cases heq
    cases hstep
    exact ⟨⟨hs.handlers, hs.streams, hb.2 _⟩, fun ht => iff_of_true ht (harmless_of_nextPut rfl)⟩
  · rename_i addr msg k heq
    cases heq
    cases hstep
    exact ⟨⟨hs.handlers, hs.streams, hb.2 _⟩, fun ht => iff_of_true ht (harmless_of_nextPut rfl)⟩

end

/-! ## Steps of the node -/

section
variable (hcr : cr.Standard) {px : Prost} {p : BoTgProtocol}

theorem forall_mem_set {α : Type} {P : α → Prop} {l : List α} {i : Nat} {a : α}
    (hl : ∀ x ∈ l, P x) (ha : P a) : ∀ x ∈ l.set i a, P x := by
  intro x hx
  rcases List.mem_or_eq_of_mem_set hx with hx | rfl
  · exact hl x hx
  · exact ha

theorem forall_mem_append_one {α : Type} {P : α → Prop} {l : List α} {a : α}
    (hl : ∀ x ∈ l, P x) (ha : P a) : ∀ x ∈ l ++ [a], P x := by
  intro x hx
  rcases List.mem_append.1 hx with hx | hx
  · exact hl x hx
  · rw [List.mem_singleton.1 hx]
    exact ha

include hcr in
/-- **What a step does to the store**: the parts stay sound, and a store that is authentic stays so
exactly if the step is harmless. -/
theorem step_spec {n n' : State} {e : Event} (hs : Sound (Genuine H) n)
    (hstep : step cr px p n e = some n') :
    Sound (Genuine H) n' ∧
      (GenuineTable H n.table → (GenuineTable H n'.table ↔ Harmless H n e)) := by
  cases e with
  | call c =>
    cases hstep
    have hc := makes_handler hcr (genuine_of_authentic H) px c
    exact ⟨⟨forall_mem_append_one hs.handlers ⟨hc, nofun⟩, hs.streams, hs.botg⟩,
      fun ht => iff_of_true ht trivial⟩
  | handler i fails =>
    simp only [step, Option.bind_eq_bind, Option.bind_eq_some_iff] at hstep
    obtain ⟨h, hi, ⟨h', t'⟩, hh, hn⟩ := hstep
    cases hn
    obtain ⟨hs', ht'⟩ := handlerStep_spec (hs.handlers h (List.mem_of_getElem? hi)) hh
    exact ⟨⟨forall_mem_set hs.handlers hs', hs.streams, hs.botg⟩,
      fun ht => iff_of_true (ht' ht) trivial⟩
  | join i j =>
    simp only [step, Option.bind_eq_bind, Option.bind_eq_some_iff] at hstep
    obtain ⟨h, hi, h', hh, hn⟩ := hstep
    cases hn
    have hs' := joinStep_spec (hs.handlers h (List.mem_of_getElem? hi)) hh
    exact ⟨⟨forall_mem_set hs.handlers hs', hs.streams, hs.botg⟩, fun ht => iff_of_true ht trivial⟩
  | task i j fails =>
    simp only [step, Option.bind_eq_bind, Option.bind_eq_some_iff] at hstep
    obtain ⟨h, hi, ⟨h', t'⟩, hh, hn⟩ := hstep
    cases hn
    obtain ⟨hs', ht'⟩ := taskStep_spec (hs.handlers h (List.mem_of_getElem? hi)) hh
    exact ⟨⟨forall_mem_set hs.handlers hs', hs.streams, hs.botg⟩,
      fun ht => iff_of_true (ht' ht) trivial⟩
  | connect =>
    cases hstep
    exact ⟨⟨hs.handlers, hs.streams, hs.botg⟩, fun ht => iff_of_true ht trivial⟩
  | requestBlock i cid =>
    simp only [step, Option.bind_eq_bind, Option.bind_eq_some_iff] at hstep
    obtain ⟨c, -, hn⟩ := hstep
    cases hn
    exact ⟨⟨hs.handlers, hs.streams, hs.botg⟩, fun ht => iff_of_true ht trivial⟩
  | poll i =>
    simp only [step, Option.bind_eq_bind, Option.bind_eq_some_iff] at hstep
    obtain ⟨c, -, hn⟩ := hstep
    cases hn
    cases hp : c.poll.1 with
    | none => exact ⟨⟨hs.handlers, hs.streams, hs.botg⟩, fun ht => iff_of_true ht trivial⟩
    | some event =>
      cases event with
      | outboundSubstreamRequest cid =>
        exact ⟨⟨hs.handlers, hs.streams, hs.botg⟩, fun ht => iff_of_true ht trivial⟩
      | notifyBehaviour event => exact absurd hp (c.poll_ne_notify event)
  | negotiated k sent frames =>
    simp only [step, Option.bind_eq_bind, Option.bind_eq_some_iff] at hstep
    obtain ⟨cid, -, hn⟩ := hstep
    cases hn
    have hc := makes_outboundStream hcr (genuine_of_authentic H) cid sent frames
    exact ⟨⟨hs.handlers, forall_mem_append_one hs.streams hc, hs.botg⟩,
      fun ht => iff_of_true ht trivial⟩
  | stream k fails =>
    simp only [step, Option.bind_eq_bind, Option.bind_eq_some_iff] at hstep
    obtain ⟨s, hi, ⟨s', t'⟩, hh, hn⟩ := hstep
    cases hn
    obtain ⟨hs', ht'⟩ := streamStep_spec (hs.streams s (List.mem_of_getElem? hi)) hh
    exact ⟨⟨hs.handlers, forall_mem_set hs.streams hs', hs.botg⟩,
      fun ht => iff_of_true (ht' ht) trivial⟩
  | datagram addr msg =>
    simp only [step] at hstep
    split at hstep
    · cases hstep
      exact ⟨⟨hs.handlers, hs.streams, makes_receive p addr msg⟩,
        fun ht => iff_of_true ht trivial⟩
    · cases hstep
  | botg fails sent => exact botgStep_spec hs hstep

/-! ## Runs -/

include hcr in
/-- The states of a run from a sound node with an authentic store. -/
theorem states_iff : ∀ (es : List Event) {n : State}, Sound (Genuine H) n → Authentic H n →
    ((∀ m ∈ states cr px p n es, Authentic H m) ↔
      ∀ s ∈ taken cr px p n es, Harmless H s.1 s.2)
  | [], n, _, hn => by
    refine iff_of_true (fun m hm => ?_) nofun
    rw [List.mem_singleton.1 hm]
    exact hn
  | e :: es, n, hs, hn => by
    cases hstep : step cr px p n e with
    | none =>
      simp only [states, taken, hstep]
      refine iff_of_true (fun m hm => ?_) nofun
      rw [List.mem_singleton.1 hm]
      exact hn
    | some n' =>
      obtain ⟨hs', hiff⟩ := step_spec hcr hs hstep
      have hiff := hiff (authentic_iff_table.1 hn)
      simp only [states, taken, hstep, List.forall_mem_cons]
      rw [← authentic_iff_table] at hiff
      constructor
      · rintro ⟨-, h⟩
        have hn' : Authentic H n' := by
          cases es with
          | nil => exact h n' List.mem_cons_self
          | cons e' es =>
            apply h
            rw [states]
            cases step cr px p n' e' with
            | none => exact List.mem_cons_self
            | some n'' => exact List.mem_cons_self
        exact ⟨hiff.1 hn', (states_iff es hs' hn').1 h⟩
      · rintro ⟨he, h⟩
        exact ⟨hn, (states_iff es hs' (hiff.2 he)).2 h⟩

include hcr in
/-- **Stored content is authentic exactly in the runs whose steps are all harmless**: under every
interleaving of uploads, block exchange streams, BoTG messages and fetches from peers, from every
authentic store. -/
theorem authentic_iff (px : Prost) (p : BoTgProtocol) {table : Std.ExtTreeMap String Bytes}
    (htable : Authentic H (start table)) (es : List Event) :
    (∀ m ∈ states cr px p (start table) es, Authentic H m) ↔
      ∀ s ∈ taken cr px p (start table) es, Harmless H s.1 s.2 :=
  states_iff hcr es (sound_start _ table) htable

end

/-! ## A response that nobody asked for -/

/-- The protocol as the runtime sets it up. -/
def runtimeBotg : BoTgProtocol := { blockStore := true, udpSocket := true }

/-- A datagram with a block. -/
def responseDatagram (cr : Crates) (block : Block) : Event :=
  .datagram { ip := 0, port := 4000 } (.ok (.response (cr.cidToBytes block.cid) block.data))

/-- The datagram arrives, and the receive loop goes on. -/
def responseRun (cr : Crates) (block : Block) : List Event :=
  [responseDatagram cr block, .botg false (.ok ())]

/-- The node that has taken the datagram. -/
def received (cr : Crates) (t : Std.ExtTreeMap String Bytes) (block : Block) : State :=
  { start t with
    botg := handleBlockResponse cr runtimeBotg (cr.cidToBytes block.cid) block.data }

theorem receive_response (t : Std.ExtTreeMap String Bytes) (block : Block) :
    ∃ k, (received cr t block).botg = .ask (.store (.put block)) k := by
  simp only [received, handleBlockResponse, runtimeBotg, if_true, cr.cidOfBytes_toBytes]
  exact ⟨_, rfl⟩

theorem taken_responseRun (px : Prost) (t : Std.ExtTreeMap String Bytes) (block : Block) :
    taken cr px runtimeBotg (start t) (responseRun cr block) =
      [(start t, responseDatagram cr block), (received cr t block, .botg false (.ok ()))] := by
  obtain ⟨k, hk⟩ := @receive_response cr t block
  have hfirst : step cr px runtimeBotg (start t) (responseDatagram cr block) =
      some (received cr t block) := rfl
  have hsecond : ∃ n, step cr px runtimeBotg (received cr t block) (.botg false (.ok ())) =
      some n := by
    simp only [step, botgStep, hk]
    exact ⟨_, rfl⟩
  obtain ⟨n, hsecond⟩ := hsecond
  simp only [responseRun, taken, hfirst, hsecond]

theorem nextPut_received (t : Std.ExtTreeMap String Bytes) (block : Block) :
    nextPut (received cr t block).botg = some block := by
  obtain ⟨k, hk⟩ := @receive_response cr t block
  rw [hk]
  rfl

theorem authentic_empty : Authentic H (start ∅) :=
  authentic_iff_table.2 fun cid data h => by
    rw [show (start ∅).table = (∅ : Std.ExtTreeMap String Bytes) from rfl,
      Std.ExtTreeMap.getElem?_empty] at h
    cases h

/-- The hash functions of the node itself. -/
def Hashes.own (cr : Crates) : Hashes cr := ⟨cr.digestOf, fun _ _ _ h => h⟩

theorem authentic_iff_sample :
    Crates.standard.Standard ∧ Authentic (Hashes.own .standard) (start ∅) ∧
      ∀ m ∈ states .standard .standard runtimeBotg (start ∅)
        (responseRun .standard (shaBlock .standard [1])), Authentic (Hashes.own .standard) m := by
  refine ⟨Crates.standard_standard, authentic_empty, ?_⟩
  refine (authentic_iff Crates.standard_standard .standard runtimeBotg authentic_empty _).2 ?_
  intro s hs
  rw [taken_responseRun] at hs
  rcases List.mem_cons.1 hs with rfl | hs
  · trivial
  · rw [List.mem_singleton.1 hs]
    intro block hblock
    rw [nextPut_received] at hblock
    cases hblock
    exact .inl (digestOf_sha256 [1])

/-- The CID of one block with the data of another. -/
def forgedBlock : Block := { cid := (shaBlock .standard [1]).cid, data := [2] }

theorem forgedBlock_not_genuine : ¬ Genuine (Hashes.own .standard) forgedBlock := by
  decide +kernel

/-- One datagram from any sender makes the store return wrong data for a CID. -/
theorem forged_response_stored :
    ∃ m ∈ states .standard .standard runtimeBotg (start ∅) (responseRun .standard forgedBlock),
      ¬ Authentic (Hashes.own .standard) m := by
  by_contra hall
  have hall : ∀ m ∈ states .standard .standard runtimeBotg (start ∅)
      (responseRun .standard forgedBlock), Authentic (Hashes.own .standard) m := by
    intro m hm
    by_contra h
    exact hall ⟨m, hm, h⟩
  have hharmless := (states_iff Crates.standard_standard _ (sound_start _ ∅) authentic_empty).1 hall
  rw [taken_responseRun] at hharmless
  have hlast := hharmless (received .standard ∅ forgedBlock, .botg false (.ok ()))
    (List.mem_cons_of_mem _ List.mem_cons_self)
  rcases hlast forgedBlock (nextPut_received ∅ forgedBlock) with h | h
  · exact forgedBlock_not_genuine h
  · exact h (Std.ExtTreeMap.getElem?_empty)

end Node
