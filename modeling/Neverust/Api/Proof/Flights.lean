import Neverust.Api.Proof.Hash
import Neverust.Api.Schedule

/-!
# The tasks of an upload

What holds of the store and of the tasks in every order in which they run. `good` stands for a
store that returns what was put; without it, tasks may fail.

* `SysOk`: every task is that of a batch of blocks, not started or ended.
* `idle_ok`, `takeNext_ok`: a wait keeps it, and the task it ends with gives the CIDs of its batch.
* `putMany_ends`: a call of `put_many` while tasks run.
-/

namespace Api

open Rust Storage Request CidBlake3

/-- The store returns what was put if `good`, and then a CID tells the data among the blocks in
`K`. -/
structure Context (cr : Crates) (B : Backend) (K : Block → Prop) (Valid : B.State → Prop)
    (good : Prop) : Prop where
  standard : cr.Standard
  faithful : good → B.Faithful K Valid
  consistent : good → Consistent K

/-- A change of the store that keeps what a good one holds. -/
structure Keeps (B : Backend) (Valid : B.State → Prop) (good : Prop) (s s' : B.State) : Prop where
  valid : good → Valid s'
  held : good → ∀ b, B.Holds s b → B.Holds s' b

variable {cr : Crates} {B : Backend} {K : Block → Prop} {Valid : B.State → Prop} {good : Prop}

namespace Keeps

theorem refl {s : B.State} (h : good → Valid s) : Keeps B Valid good s s := ⟨h, fun _ _ hb => hb⟩

theorem trans {s s' s'' : B.State} (h : Keeps B Valid good s s') (h' : Keeps B Valid good s' s'') :
    Keeps B Valid good s s'' :=
  ⟨h'.valid, fun hg b hb => h'.held hg b (h.held hg b hb)⟩

end Keeps

section
variable (ctx : Context cr B K Valid good)
include ctx

theorem putMany_keeps {s : B.State} {blocks : List Block} (hs : good → Valid s)
    (hK : good → ∀ b ∈ blocks, K b) : Keeps B Valid good s (B.answer (.putMany blocks) s).2 :=
  ⟨fun hg => (ctx.faithful hg).put_valid (hs hg) (hK hg),
    fun hg => (ctx.faithful hg).put_keeps (hs hg) (hK hg)⟩

theorem putMany_cases {s : B.State} {blocks : List Block} (hs : good → Valid s)
    (hK : good → ∀ b ∈ blocks, K b) :
    ((B.answer (.putMany blocks) s).1 = .ok () ∧
        (good → ∀ b ∈ blocks, B.Holds (B.answer (.putMany blocks) s).2 b)) ∨
      (¬ good ∧ ∃ e, (B.answer (.putMany blocks) s).1 = .error e) := by
  cases h : (B.answer (.putMany blocks) s).1 with
  | ok u => exact .inl ⟨rfl, fun hg => (ctx.faithful hg).put_holds (hs hg) (hK hg)⟩
  | error e =>
    refine .inr ⟨fun hg => ?_, e, rfl⟩
    have hok := (ctx.faithful hg).put_ok (hs hg) (hK hg)
    rw [h] at hok
    cases hok

end

/-! ## One task -/

/-- The CID of raw data. -/
def shaCid (cr : Crates) (data : Bytes) : Cid := (shaBlock cr data).cid

theorem process_eq (hcr : cr.Standard) (workers : Nat) (raw : List Bytes) :
    processUploadRawBatchNoDedupe cr workers raw =
      if raw = [] then .done (.ok [])
      else .ask (.putMany (raw.map (shaBlock cr))) fun
        | .ok () => .done (.ok (raw.map (shaCid cr)))
        | .error e => .done (.error (.err (.internal (.storeBatch e)))) := by
  unfold processUploadRawBatchNoDedupe
  split
  · rfl
  · rw [hashRawBlocksParallel_eq hcr]
    show Prog.ask (StoreReq.putMany (raw.map (shaBlock cr))) _ = _
    congr 1
    funext r
    cases r with
    | ok u =>
      show Prog.done (.ok ((raw.map (shaBlock cr)).map Block.cid)) = _
      rw [List.map_map]
      rfl
    | error e => rfl

/-- The task of a batch, not started or ended; if it failed, the store is not good. -/
def TaskOk (cr : Crates) (B : Backend) (good : Prop) (raw : List Bytes) (s : B.State) (t : Task) :
    Prop :=
  (∃ workers, t = processUploadRawBatchNoDedupe cr workers raw) ∨
    (t = .done (.ok (raw.map (shaCid cr))) ∧ (good → ∀ b ∈ raw, B.Holds s (shaBlock cr b))) ∨
    (¬ good ∧ ∃ e, t = .done (.error e))

theorem TaskOk.mono {raw : List Bytes} {s s' : B.State} {t : Task} (h : TaskOk cr B good raw s t)
    (hs : Keeps B Valid good s s') : TaskOk cr B good raw s' t := by
  rcases h with h | ⟨h, hh⟩ | h
  · exact .inl h
  · exact .inr (.inl ⟨h, fun hg b hb => hs.held hg _ (hh hg b hb)⟩)
  · exact .inr (.inr h)

section
variable (ctx : Context cr B K Valid good) {raw : List Bytes}
include ctx

/-- A step of the task. -/
theorem TaskOk.step {s : B.State} (hs : good → Valid s)
    (hK : good → ∀ b ∈ raw, K (shaBlock cr b)) {r : StoreReq}
    {k : StoreAns r → Task} (h : TaskOk cr B good raw s (.ask r k)) :
    TaskOk cr B good raw (B.answer r s).2 (k (B.answer r s).1) ∧
      Keeps B Valid good s (B.answer r s).2 := by
  rcases h with ⟨workers, h⟩ | ⟨h, -⟩ | ⟨-, e, h⟩
  · rw [process_eq ctx.standard] at h
    split at h
    · cases h
    · injection h with hr hk
      subst hr
      have hk := eq_of_heq hk
      subst hk
      have hKb : good → ∀ b ∈ raw.map (shaBlock cr), K b := by
        intro hg b hb
        obtain ⟨d, hd, rfl⟩ := List.mem_map.1 hb
        exact hK hg d hd
      refine ⟨?_, putMany_keeps ctx hs hKb⟩
      rcases putMany_cases ctx hs hKb with ⟨hok, hheld⟩ | ⟨hng, e, he⟩
      · refine .inr (.inl ⟨by rw [hok], fun hg b hb => hheld hg _ (List.mem_map_of_mem hb)⟩)
      · exact .inr (.inr ⟨hng, _, by rw [he]⟩)
  · cases h
  · cases h

/-- The whole task. -/
theorem TaskOk.run {s : B.State} (hs : good → Valid s)
    (hK : good → ∀ b ∈ raw, K (shaBlock cr b)) {t : Task} (h : TaskOk cr B good raw s t) :
    (((t.run B.answer s).1 = .ok (raw.map (shaCid cr)) ∧
        (good → ∀ b ∈ raw, B.Holds (t.run B.answer s).2 (shaBlock cr b))) ∨
      (¬ good ∧ ∃ e, (t.run B.answer s).1 = .error e)) ∧
      Keeps B Valid good s (t.run B.answer s).2 := by
  induction t generalizing s with
  | done r =>
    refine ⟨?_, Keeps.refl hs⟩
    rcases h with ⟨workers, h⟩ | ⟨h, hh⟩ | ⟨hng, e, h⟩
    · rw [process_eq ctx.standard] at h
      split at h
      · rename_i hnil
        injection h with h
        rw [hnil]
        exact .inl ⟨h, fun _ b hb => absurd hb List.not_mem_nil⟩
      · cases h
    · injection h with h
      exact .inl ⟨h, hh⟩
    · injection h with h
      exact .inr ⟨hng, e, h⟩
  | ask r k ih =>
    obtain ⟨hstep, hkeep⟩ := TaskOk.step ctx hs hK h
    obtain ⟨hrun, hkeep'⟩ := ih (B.answer r s).1 hkeep.valid hstep
    exact ⟨hrun, hkeep.trans hkeep'⟩

end

/-! ## All tasks -/

/-- A task of a batch that is at its place among the blocks `flushed`. -/
def FlightOk (cr : Crates) (B : Backend) (good : Prop) (flushed : List Bytes) (s : B.State)
    (f : Flight) : Prop :=
  ∃ raw, f.expectedLen = raw.length ∧ f.startIdx + raw.length ≤ flushed.length ∧
    (∀ i b, raw[i]? = some b → flushed[f.startIdx + i]? = some b) ∧ TaskOk cr B good raw s f.task

structure SysOk (cr : Crates) (B : Backend) (Valid : B.State → Prop) (good : Prop)
    (flushed : List Bytes) (w : Sys B) : Prop where
  valid : good → Valid w.store
  flights : ∀ f ∈ w.inflight, FlightOk cr B good flushed w.store f

theorem SysOk.start {s : B.State} (hs : good → Valid s) :
    SysOk cr B Valid good [] (Sys.start s) :=
  ⟨hs, fun _ hf => absurd hf List.not_mem_nil⟩

/-- The part of a task that stays as it is. -/
def Flight.key (f : Flight) : Nat × Nat := (f.startIdx, f.expectedLen)

/-- A later system with the same tasks. -/
structure Later (B : Backend) (Valid : B.State → Prop) (good : Prop) (w w' : Sys B) : Prop where
  keeps : Keeps B Valid good w.store w'.store
  keys : w'.inflight.map Flight.key = w.inflight.map Flight.key

theorem Later.refl {w : Sys B} (h : good → Valid w.store) : Later B Valid good w w :=
  ⟨Keeps.refl h, rfl⟩

theorem Later.trans {w w' w'' : Sys B} (h : Later B Valid good w w')
    (h' : Later B Valid good w' w'') : Later B Valid good w w'' :=
  ⟨h.keeps.trans h'.keeps, h'.keys.trans h.keys⟩

theorem Later.length_inflight {w w' : Sys B} (h : Later B Valid good w w') :
    w'.inflight.length = w.inflight.length := by
  have := congrArg List.length h.keys
  simpa using this

theorem FlightOk.mono {flushed : List Bytes} {s s' : B.State} {f : Flight}
    (h : FlightOk cr B good flushed s f) (hs : Keeps B Valid good s s') :
    FlightOk cr B good flushed s' f := by
  obtain ⟨raw, hlen, hle, hat, ht⟩ := h
  exact ⟨raw, hlen, hle, hat, ht.mono hs⟩

theorem FlightOk.append {flushed : List Bytes} {s : B.State} {f : Flight}
    (h : FlightOk cr B good flushed s f) (more : List Bytes) :
    FlightOk cr B good (flushed ++ more) s f := by
  obtain ⟨raw, hlen, hle, hat, ht⟩ := h
  refine ⟨raw, hlen, by rw [List.length_append]; omega, fun i b hb => ?_, ht⟩
  have hb' := hat i b hb
  rw [List.getElem?_append_left (List.getElem?_eq_some_iff.1 hb').1]
  exact hb'

/-- The blocks of a task are among those flushed. -/
theorem mem_of_segment {flushed raw : List Bytes} {start : Nat}
    (h : ∀ i b, raw[i]? = some b → flushed[start + i]? = some b) {b : Bytes} (hb : b ∈ raw) :
    b ∈ flushed := by
  obtain ⟨i, hi⟩ := List.mem_iff_getElem?.1 hb
  exact List.mem_of_getElem? (h i b hi)

theorem set_eq_self {α : Type} {l : List α} {j : Nat} {x : α} (h : l[j]? = some x) :
    l.set j x = l := by
  obtain ⟨hj, rfl⟩ := List.getElem?_eq_some_iff.1 h
  exact List.set_getElem_self hj

section
variable (ctx : Context cr B K Valid good) {flushed : List Bytes}
  (hK : good → ∀ b ∈ flushed, K (shaBlock cr b))
include ctx hK

theorem advance_ok {w : Sys B} (h : SysOk cr B Valid good flushed w) (j : Nat) :
    SysOk cr B Valid good flushed (w.advance j) ∧ Later B Valid good w (w.advance j) := by
  unfold Sys.advance
  split
  · exact ⟨h, Later.refl h.valid⟩
  · rename_i f hf
    split
    · exact ⟨h, Later.refl h.valid⟩
    · rename_i r k ht
      obtain ⟨raw, hlen, hle, hat, hok⟩ := h.flights f (List.mem_of_getElem? hf)
      rw [ht] at hok
      obtain ⟨hstep, hkeep⟩ :=
        TaskOk.step ctx h.valid (fun hg b hb => hK hg b (mem_of_segment hat hb)) hok
      refine ⟨⟨hkeep.valid, fun g hg => ?_⟩, hkeep, ?_⟩
      · rcases List.mem_or_eq_of_mem_set hg with hg | rfl
        · exact (h.flights g hg).mono hkeep
        · exact ⟨raw, hlen, hle, hat, hstep⟩
      · show (w.inflight.set j _).map Flight.key = _
        rw [List.map_set]
        exact set_eq_self (by rw [List.getElem?_map, hf]; rfl)

theorem advances_ok : ∀ (js : List Nat) {w : Sys B}, SysOk cr B Valid good flushed w →
    SysOk cr B Valid good flushed (js.foldl Sys.advance w) ∧
      Later B Valid good w (js.foldl Sys.advance w)
  | [], _, h => ⟨h, Later.refl h.valid⟩
  | j :: js, w, h => by
    obtain ⟨h1, l1⟩ := advance_ok ctx hK h j
    obtain ⟨h2, l2⟩ := advances_ok js h1
    exact ⟨h2, l1.trans l2⟩

theorem idle_ok (sched : Schedule) {w : Sys B} (h : SysOk cr B Valid good flushed w) :
    SysOk cr B Valid good flushed (w.idle sched) ∧ Later B Valid good w (w.idle sched) := by
  obtain ⟨h1, l1⟩ := advances_ok ctx hK (sched.advance w.clock) h
  exact ⟨⟨h1.valid, h1.flights⟩, l1.keeps, l1.keys⟩

/-- The end of a wait for a task: there is none, or the `j`-th task gives the CIDs of its batch. -/
theorem takeNext_ok (sched : Schedule) {w : Sys B} (h : SysOk cr B Valid good flushed w) :
    (w.inflight = [] ∧ w.takeNext sched = (none, w)) ∨
      ∃ (j : Nat) (f : Flight) (raw : List Bytes) (r : Except (Stop ApiError) (List Cid))
        (s' : B.State), w.inflight[j]? = some f ∧ f.expectedLen = raw.length ∧
        f.startIdx + raw.length ≤ flushed.length ∧
        (∀ i b, raw[i]? = some b → flushed[f.startIdx + i]? = some b) ∧
        w.takeNext sched = (some (f.startIdx, f.expectedLen, r),
          { w with store := s', inflight := w.inflight.eraseIdx j }) ∧
        ((r = .ok (raw.map (shaCid cr)) ∧ (good → ∀ b ∈ raw, B.Holds s' (shaBlock cr b))) ∨
          (¬ good ∧ ∃ e, r = .error e)) ∧
        Keeps B Valid good w.store s' := by
  unfold Sys.takeNext
  dsimp only
  cases hf : w.inflight[sched.pick w.clock % w.inflight.length]? with
  | none =>
    refine .inl ⟨?_, rfl⟩
    rw [List.getElem?_eq_none_iff] at hf
    apply List.length_eq_zero_iff.1
    apply Classical.byContradiction
    intro h0
    have := Nat.mod_lt (sched.pick w.clock) (Nat.pos_of_ne_zero h0)
    omega
  | some f =>
    obtain ⟨raw, hlen, hle, hat, hok⟩ := h.flights f (List.mem_of_getElem? hf)
    obtain ⟨hrun, hkeep⟩ :=
      TaskOk.run ctx h.valid (fun hg b hb => hK hg b (mem_of_segment hat hb)) hok
    exact .inr ⟨_, f, raw, _, _, hf, hlen, hle, hat, rfl, hrun, hkeep⟩

omit ctx hK in
/-- A call of the store, after what the tasks do while the handler waits for it. -/
theorem storeCall_ends {sched : Schedule} {r : StoreReq} {α : Type} {f : StoreAns r → Handler α}
    {w : Sys B} {Q : α → Sys B → Prop} {E : Stop ApiError → Sys B → Prop}
    (hf : Ends (Sys.answer sched) (f (B.answer r (w.idle sched).store).1)
      { w.idle sched with store := (B.answer r (w.idle sched).store).2 } Q E) :
    Ends (Sys.answer sched) (storeCall r >>= f) w Q E :=
  Ends.request_bind hf

/-- **A call of `put_many` while tasks run.** -/
theorem putMany_ends (sched : Schedule) {fail : StorageError → Internal} {blocks : List Block}
    (hb : good → ∀ b ∈ blocks, K b) {w : Sys B} (h : SysOk cr B Valid good flushed w) :
    Ends (Sys.answer sched) (putMany fail blocks) w
      (fun _ w' => SysOk cr B Valid good flushed w' ∧ Later B Valid good w w' ∧
        (good → ∀ b ∈ blocks, B.Holds w'.store b))
      (fun _ _ => ¬ good) := by
  obtain ⟨hi, hl⟩ := idle_ok ctx hK sched h
  have hkeep := putMany_keeps ctx hi.valid hb
  have hcases := putMany_cases ctx hi.valid hb
  apply storeCall_ends
  refine Ends.lift (fun _ hr => ?_) (fun e hr => ?_)
  · rcases hcases with ⟨hok, hheld⟩ | ⟨hng, e, he⟩
    · exact ⟨⟨hkeep.valid, fun f hf => (hi.flights f hf).mono hkeep⟩,
        hl.trans ⟨hkeep, rfl⟩, hheld⟩
    · rw [he] at hr
      cases hr
  · rcases hcases with ⟨hok, hheld⟩ | ⟨hng, -⟩
    · rw [hok] at hr
      cases hr
    · exact hng

end

end Api
