import Neverust.Lib.Bytes

/-!
# Programs on files that may fail

`World ρ`: the contents of the files named by `ρ`, the operations made so far (`log`) and a fault
plan: `faults n = some k` makes the `n`-th operation fail, a write after its first `k` bytes.
`Prog ρ ε α`: a program on such a world with errors `ε`; what it wrote before an error stays.

`Frame S w w'`: from `w` to `w'` only files in `S` changed or were written to. `writes r`: the
attempted writes to `r`. `pending r r'`: there was one after the last successful write to `r'`.

`wp x Q E w`: from `w`, the program `x` ends with a value and a world in `Q` or with an error and a
world in `E`. The rules for sequences, loops and the file operations are stated for it. An
operation without a fault in the plan fails only for the reason its rule names, so one rule serves
the runs that fail, those that do not and those that cannot.
-/

namespace Io

/-- The kinds of `std::io::Error` that are told apart. -/
inductive IoError
  | notFound
  | alreadyExists
  | unexpectedEof
  | other
  deriving Repr, DecidableEq

/-- `From<std::io::Error>`. -/
class FromIo (ε : Type) where
  fromIo : IoError → ε

export FromIo (fromIo)

/-- An operation of the environment. -/
inductive IoOp (ρ : Type)
  | createDir
  | openFile (r : ρ)
  | metadata (r : ρ)
  | setLen (r : ρ)
  | read (r : ρ)
  | write (r : ρ)
  | lock (r : ρ)
  | unlock (r : ρ)
  | sync (r : ρ)
  | seek (r : ρ)
  | remove (r : ρ)
  | rename (r : ρ)
  | database
  deriving Repr, DecidableEq

/-- The longest file (`off_t`). -/
def maxFileLen : Nat := 2 ^ 63 - 1

/-- `maxOffset` is the last position that a seek takes: it depends on the file system, on some it
lies far below the last `off_t`. -/
structure World (ρ : Type) where
  files : ρ → Option Bytes
  faults : Nat → Option Nat
  log : List (IoOp ρ)
  maxOffset : Nat
  maxOffset_le : maxOffset ≤ maxFileLen

abbrev Prog (ρ ε α : Type) := EStateM ε (World ρ) α

section
variable {ρ ε α β : Type} [DecidableEq ρ] [FromIo ε]

namespace World

/-- A file's contents, empty if there is no file. -/
def content (w : World ρ) (r : ρ) : Bytes := (w.files r).getD []

/-- The file at `r` with contents `c`. -/
def setFile (w : World ρ) (r : ρ) (c : Bytes) : World ρ :=
  { w with files := fun r' => if r' = r then some c else w.files r' }

/-- `op` added to the log. -/
def logged (w : World ρ) (op : IoOp ρ) : World ρ := { w with log := w.log ++ [op] }

/-- The fault planned for the next operation. -/
def fault (w : World ρ) : Option Nat := w.faults w.log.length

/-- No files, no log, no faults. -/
def empty : World ρ := ⟨fun _ => none, fun _ => none, [], maxFileLen, Nat.le_refl _⟩

/-- The same files, with no fault to come. -/
def healed (w : World ρ) : World ρ := { w with faults := fun _ => none }

/-- No operation fails. -/
def NoFaults (w : World ρ) : Prop := ∀ n, w.faults n = none

omit [DecidableEq ρ] in
theorem noFaults_empty : (empty : World ρ).NoFaults := fun _ => rfl

omit [DecidableEq ρ] in
theorem noFaults_healed (w : World ρ) : w.healed.NoFaults := fun _ => rfl

omit [DecidableEq ρ] in
@[simp] theorem healed_files (w : World ρ) : w.healed.files = w.files := rfl

omit [DecidableEq ρ] in
theorem NoFaults.healed {w : World ρ} (h : w.NoFaults) : w.healed = w := by
  have hfaults : w.faults = fun _ => none := funext h
  rw [World.healed, ← hfaults]

omit [DecidableEq ρ] in
theorem not_noFaults {w : World ρ} {k : Nat} (h : w.fault = some k) : ¬ w.NoFaults := by
  intro hnf
  rw [fault, hnf] at h
  cases h

omit [DecidableEq ρ] in
theorem NoFaults.fault {w : World ρ} (h : w.NoFaults) : w.fault = none := h _

omit [DecidableEq ρ] in
@[simp] theorem logged_files (w : World ρ) (op : IoOp ρ) : (w.logged op).files = w.files := rfl
omit [DecidableEq ρ] in
@[simp] theorem logged_faults (w : World ρ) (op : IoOp ρ) : (w.logged op).faults = w.faults := rfl
omit [DecidableEq ρ] in
@[simp] theorem logged_log (w : World ρ) (op : IoOp ρ) : (w.logged op).log = w.log ++ [op] := rfl
@[simp] theorem setFile_faults (w : World ρ) (r : ρ) (c : Bytes) :
    (w.setFile r c).faults = w.faults := rfl
@[simp] theorem setFile_log (w : World ρ) (r : ρ) (c : Bytes) : (w.setFile r c).log = w.log := rfl

theorem setFile_files (w : World ρ) (r r' : ρ) (c : Bytes) :
    (w.setFile r c).files r' = if r' = r then some c else w.files r' := rfl

@[simp] theorem setFile_files_self (w : World ρ) (r : ρ) (c : Bytes) :
    (w.setFile r c).files r = some c := by simp [setFile]

theorem setFile_files_ne (w : World ρ) {r r' : ρ} (c : Bytes) (h : r' ≠ r) :
    (w.setFile r c).files r' = w.files r' := by simp [setFile, h]

end World

/-- How often a write to `r` was attempted. -/
def World.writes (w : World ρ) (r : ρ) : Nat := w.log.count (.write r)

@[simp] theorem World.writes_logged_write (w : World ρ) (r : ρ) :
    (w.logged (.write r)).writes r = w.writes r + 1 := by
  simp [writes]

theorem World.writes_logged_ne (w : World ρ) {r : ρ} {op : IoOp ρ} (h : op ≠ .write r) :
    (w.logged op).writes r = w.writes r := by
  simp [writes, h]

@[simp] theorem World.writes_setFile (w : World ρ) (r r' : ρ) (c : Bytes) :
    (w.setFile r c).writes r' = w.writes r' := rfl

omit [DecidableEq ρ] in
@[simp] theorem World.content_logged (w : World ρ) (r : ρ) (op : IoOp ρ) :
    (w.logged op).content r = w.content r := rfl

@[simp] theorem World.content_setFile_self (w : World ρ) (r : ρ) (c : Bytes) :
    (w.setFile r c).content r = c := by
  simp [content]

theorem World.content_setFile_ne (w : World ρ) {r r' : ρ} (c : Bytes) (h : r' ≠ r) :
    (w.setFile r c).content r' = w.content r' := by
  simp [content, World.setFile_files_ne w c h]

/-- From `w` to `w'` only files in `S` changed or were written to, and no file went away. -/
structure Frame (S : ρ → Prop) (w w' : World ρ) : Prop where
  faults : w'.faults = w.faults
  log : w.log <+: w'.log
  files : ∀ r, ¬ S r → w'.files r = w.files r
  writes : ∀ r, ¬ S r → w'.writes r = w.writes r
  kept : ∀ r, (w.files r).isSome → (w'.files r).isSome

namespace Frame

variable {S T : ρ → Prop} {w w' w'' : World ρ}

theorem refl (S : ρ → Prop) (w : World ρ) : Frame S w w :=
  ⟨rfl, List.prefix_refl _, fun _ _ => rfl, fun _ _ => rfl, fun _ h => h⟩

theorem trans (h : Frame S w w') (h' : Frame S w' w'') : Frame S w w'' where
  faults := h'.faults.trans h.faults
  log := h.log.trans h'.log
  files r hr := (h'.files r hr).trans (h.files r hr)
  writes r hr := (h'.writes r hr).trans (h.writes r hr)
  kept r hr := h'.kept r (h.kept r hr)

theorem mono (h : Frame S w w') (hst : ∀ r, S r → T r) : Frame T w w' where
  faults := h.faults
  log := h.log
  files r hr := h.files r fun hs => hr (hst r hs)
  writes r hr := h.writes r fun hs => hr (hst r hs)
  kept := h.kept

theorem logged (S : ρ → Prop) (w : World ρ) {op : IoOp ρ} (hop : ∀ r, op = .write r → S r) :
    Frame S w (w.logged op) where
  faults := rfl
  log := List.prefix_append _ _
  files _ _ := rfl
  writes r hr := w.writes_logged_ne fun h => hr (hop r h)
  kept _ h := h

theorem setFile (S : ρ → Prop) {r : ρ} (hr : S r) (w : World ρ) (c : Bytes) :
    Frame S w (w.setFile r c) where
  faults := rfl
  log := List.prefix_refl _
  files r' hr' := World.setFile_files_ne w c fun h => hr' (h ▸ hr)
  writes _ _ := rfl
  kept r' hr' := by
    rw [World.setFile_files]
    split
    · rfl
    · exact hr'

theorem noFaults (h : Frame S w w') : w'.NoFaults ↔ w.NoFaults := by
  unfold World.NoFaults
  rw [h.faults]

theorem content (h : Frame S w w') {r : ρ} (hr : ¬ S r) : w'.content r = w.content r := by
  rw [World.content, World.content, h.files r hr]

theorem writes_le (h : Frame S w w') (r : ρ) : w.writes r ≤ w'.writes r :=
  h.log.sublist.count_le _

end Frame

/-- From `w` to `w'` no file changed or was written to. -/
def Untouched (w w' : World ρ) : Prop := Frame (fun _ => False) w w'

namespace Untouched

variable {w w' w'' : World ρ}

theorem refl (w : World ρ) : Untouched w w := Frame.refl _ w

theorem trans (h : Untouched w w') (h' : Untouched w' w'') : Untouched w w'' := Frame.trans h h'

theorem logged (w : World ρ) {op : IoOp ρ} (hop : ∀ r, op ≠ .write r) : Untouched w (w.logged op) :=
  Frame.logged _ w fun r hr => hop r hr

theorem frame (h : Untouched w w') (S : ρ → Prop) : Frame S w w' := h.mono fun _ hf => hf.elim

theorem noFaults (h : Untouched w w') : w'.NoFaults ↔ w.NoFaults := Frame.noFaults h

theorem files (h : Untouched w w') : w'.files = w.files :=
  funext fun r => Frame.files h r fun hf => hf

theorem content (h : Untouched w w') (r : ρ) : w'.content r = w.content r :=
  Frame.content h fun hf => hf

theorem writes (h : Untouched w w') (r : ρ) : w'.writes r = w.writes r :=
  Frame.writes h r fun hf => hf

end Untouched

/-! ## Pending writes -/

/-- Whether a write to `r` is pending after the operations, the first of them the `n`-th. -/
def pendingFrom (faults : Nat → Option Nat) (r r' : ρ) : Nat → Bool → List (IoOp ρ) → Bool
  | _, p, [] => p
  | n, p, op :: ops =>
    pendingFrom faults r r' (n + 1)
      (if op = .write r then true
        else if op = .write r' ∧ faults n = none then false else p) ops

/-- A write to `r` was attempted after the last write to `r'` that did not fail. -/
def World.pending (w : World ρ) (r r' : ρ) : Bool := pendingFrom w.faults r r' 0 false w.log

theorem pendingFrom_append (faults : Nat → Option Nat) (r r' : ρ) :
    ∀ (l l' : List (IoOp ρ)) (n : Nat) (p : Bool),
      pendingFrom faults r r' n p (l ++ l') =
        pendingFrom faults r r' (n + l.length) (pendingFrom faults r r' n p l) l'
  | [], _, _, _ => rfl
  | _ :: l, l', n, p => by
    rw [List.cons_append, pendingFrom, pendingFrom_append faults r r' l l', pendingFrom,
      List.length_cons]
    congr 1
    omega

/-- Operations that write to neither file. -/
theorem pendingFrom_of_count {faults : Nat → Option Nat} {r r' : ρ} :
    ∀ {l : List (IoOp ρ)} (n : Nat) (p : Bool), l.count (.write r) = 0 →
      l.count (.write r') = 0 → pendingFrom faults r r' n p l = p
  | [], _, _, _, _ => rfl
  | op :: l, n, p, h, h' => by
    rw [List.count_eq_zero, List.mem_cons, not_or] at h h'
    rw [pendingFrom, if_neg (Ne.symm h.1), if_neg fun hop => h'.1 hop.1.symm]
    exact pendingFrom_of_count (n + 1) p (List.count_eq_zero.2 h.2) (List.count_eq_zero.2 h'.2)

/-- Operations that write to `r` and not to `r'`. -/
theorem pendingFrom_of_write {faults : Nat → Option Nat} {r r' : ρ} :
    ∀ {l : List (IoOp ρ)} (n : Nat) (p : Bool), p = true ∨ l.count (.write r) ≠ 0 →
      l.count (.write r') = 0 → pendingFrom faults r r' n p l = true
  | [], _, _, h, _ => h.elim id fun h => absurd rfl h
  | op :: l, n, p, h, h' => by
    rw [List.count_eq_zero, List.mem_cons, not_or] at h'
    rw [pendingFrom, if_neg (c := op = .write r' ∧ _) fun hop => h'.1 hop.1.symm]
    refine pendingFrom_of_write (n + 1) _ ?_ (List.count_eq_zero.2 h'.2)
    by_cases hop : op = .write r
    · exact .inl (if_pos hop)
    · rw [if_neg hop]
      rwa [List.count_cons_of_ne hop] at h

/-- Without a write to `r` none becomes pending. -/
theorem of_pendingFrom {faults : Nat → Option Nat} {r r' : ρ} :
    ∀ {l : List (IoOp ρ)} (n : Nat) (p : Bool), l.count (.write r) = 0 →
      pendingFrom faults r r' n p l = true → p = true
  | [], _, _, _, h => h
  | op :: l, n, p, hl, h => by
    rw [List.count_eq_zero, List.mem_cons, not_or] at hl
    rw [pendingFrom, if_neg (Ne.symm hl.1)] at h
    have hp := of_pendingFrom (n + 1) _ (List.count_eq_zero.2 hl.2) h
    split at hp
    · cases hp
    · exact hp

theorem World.pending_logged (w : World ρ) (r r' : ρ) (op : IoOp ρ) :
    (w.logged op).pending r r' =
      if op = .write r then true
      else if op = .write r' ∧ w.fault = none then false else w.pending r r' := by
  rw [pending, logged_log, pendingFrom_append, pendingFrom, pendingFrom, Nat.zero_add]
  rfl

namespace Frame

variable {S : ρ → Prop} {w w' : World ρ} {r r' : ρ}

theorem pending_eq (h : Frame S w w') (hr : w'.writes r = w.writes r)
    (hr' : w'.writes r' = w.writes r') : w'.pending r r' = w.pending r r' := by
  obtain ⟨l, hl⟩ := h.log
  unfold World.writes at hr hr'
  rw [← hl, List.count_append] at hr hr'
  rw [World.pending, World.pending, h.faults, ← hl, pendingFrom_append]
  exact pendingFrom_of_count _ _ (by omega) (by omega)

theorem pending_of_write (h : Frame S w w') (hr : w'.writes r ≠ w.writes r)
    (hr' : w'.writes r' = w.writes r') : w'.pending r r' = true := by
  obtain ⟨l, hl⟩ := h.log
  unfold World.writes at hr hr'
  rw [← hl, List.count_append] at hr hr'
  rw [World.pending, ← hl, pendingFrom_append]
  exact pendingFrom_of_write _ _ (.inr (by omega)) (by omega)

theorem pending_of_quiet (h : Frame S w w') (hr : w'.writes r = w.writes r)
    (hp : w'.pending r r' = true) : w.pending r r' = true := by
  obtain ⟨l, hl⟩ := h.log
  unfold World.writes at hr
  rw [← hl, List.count_append] at hr
  rw [World.pending, h.faults, ← hl, pendingFrom_append] at hp
  exact of_pendingFrom _ _ (by omega) hp

end Frame

/-! ## Operations -/

/-- An operation that does nothing but possibly fail. -/
def attempt (op : IoOp ρ) : Prog ρ ε Unit := fun w =>
  match w.fault with
  | none => .ok () (w.logged op)
  | some _ => .error (fromIo .other) (w.logged op)

/-- Opening a file for writing, created empty if it does not exist. -/
def openCreate (r : ρ) : Prog ρ ε Unit := do
  attempt (.openFile r)
  modify fun w => w.setFile r (w.content r)

/-- Opening an existing file; `notFound` is the error for a missing one. -/
def openFile (r : ρ) (notFound : ε) : Prog ρ ε Unit := do
  attempt (.openFile r)
  if ((← get).files r).isNone then throw notFound

/-- Whether a file exists. -/
def fileExists (r : ρ) : Prog ρ ε Bool := return ((← get).files r).isSome

/-- A file's length. -/
def fileLen (r : ρ) : Prog ρ ε Nat := do
  attempt (.metadata r)
  return ((← get).content r).length

/-- Extending a file to `n` bytes. -/
def setLen (r : ρ) (n : Nat) : Prog ρ ε Unit := do
  attempt (.setLen r)
  modify fun w => w.setFile r ((w.content r).extendTo n)

/-- Reading exactly `n` bytes at `off`; `none` at an unexpected end of file. -/
def readExactAt (r : ρ) (off n : Nat) : Prog ρ ε (Option Bytes) := do
  if n = 0 then return some []
  attempt (.read r)
  return ((← get).content r).readAt off n

/-- Writing all of `data` at `off`. -/
def writeAllAt (r : ρ) (off : Nat) (data : Bytes) : Prog ρ ε Unit := fun w =>
  if data = [] then .ok () w
  else if maxFileLen < off + data.length then .error (fromIo .other) (w.logged (.write r))
  else
    match w.fault with
    | none => .ok () ((w.setFile r ((w.content r).writeAt off data)).logged (.write r))
    | some k =>
      .error (fromIo .other)
        ((w.setFile r ((w.content r).writeAt off (data.take k))).logged (.write r))

/-- Opening a file for writing, emptied if it exists. -/
def createFile (r : ρ) : Prog ρ ε Unit := do
  attempt (.openFile r)
  modify fun w => w.setFile r []

/-- Writing a whole file anew. -/
def writeFile (r : ρ) (data : Bytes) : Prog ρ ε Unit := do
  createFile r
  writeAllAt r 0 data

/-- A file takes the place of another. -/
def rename (r r' : ρ) : Prog ρ ε Unit := do
  attempt (.rename r)
  modify fun w =>
    { w with files := fun x => if x = r' then w.files r else if x = r then none else w.files x }

/-- Reading a whole file; `notFound` is the error for a missing one. -/
def readFile (r : ρ) (notFound : ε) : Prog ρ ε Bytes := do
  openFile r notFound
  attempt (.read r)
  return (← get).content r

/-- A computation that touches no file. -/
def lift (x : Except ε α) : Prog ρ ε α := fun w =>
  match x with
  | .ok a => .ok a w
  | .error e => .error e w

/-- The outcome of a program as a value (a closure whose `Result` is looked at later). -/
def captured (x : Prog ρ ε α) : Prog ρ ε (Except ε α) := fun w =>
  match x w with
  | .ok a w' => .ok (.ok a) w'
  | .error e w' => .ok (.error e) w'

/-! ## Weakest preconditions -/

/-- From `w`, `x` ends with a value in `Q` or with an error in `E`. -/
def wp (x : Prog ρ ε α) (Q : α → World ρ → Prop) (E : ε → World ρ → Prop) (w : World ρ) : Prop :=
  match x w with
  | .ok a w' => Q a w'
  | .error e w' => E e w'

variable {Q : α → World ρ → Prop} {E : ε → World ρ → Prop} {w w' : World ρ}

omit [DecidableEq ρ] [FromIo ε]

theorem wp_ok {x : Prog ρ ε α} {a : α} (h : wp x Q E w) (hx : x w = .ok a w') : Q a w' := by
  rw [wp, hx] at h
  exact h

theorem wp_error {x : Prog ρ ε α} {e : ε} (h : wp x Q E w) (hx : x w = .error e w') : E e w' := by
  rw [wp, hx] at h
  exact h

theorem wp_of_ok {x : Prog ρ ε α} {a : α} (hx : x w = .ok a w') (h : Q a w') : wp x Q E w := by
  rw [wp, hx]
  exact h

theorem wp_run (x : Prog ρ ε α) :
    wp x (fun a w' => x w = .ok a w') (fun e w' => x w = .error e w') w := by
  unfold wp
  cases x w with
  | ok a w' => rfl
  | error e w' => rfl

/-- A program that cannot end with an error ends with a value. -/
theorem wp_total {x : Prog ρ ε α} (h : wp x Q E w) (he : ∀ e w', ¬ E e w') :
    ∃ a w', x w = .ok a w' ∧ Q a w' := by
  unfold wp at h
  cases hx : x w with
  | ok a w' => rw [hx] at h; exact ⟨a, w', rfl, h⟩
  | error e w' => rw [hx] at h; exact absurd h (he e w')

theorem wp_mono {x : Prog ρ ε α} {Q' : α → World ρ → Prop} {E' : ε → World ρ → Prop}
    (h : wp x Q E w) (hq : ∀ a w', Q a w' → Q' a w') (he : ∀ e w', E e w' → E' e w') :
    wp x Q' E' w := by
  unfold wp at h ⊢
  split
  · rename_i hx; rw [hx] at h; exact hq _ _ h
  · rename_i hx; rw [hx] at h; exact he _ _ h

/-- Two descriptions of one run hold together. -/
theorem wp_and {x : Prog ρ ε α} {Q' : α → World ρ → Prop} {E' : ε → World ρ → Prop}
    (h : wp x Q E w) (h' : wp x Q' E' w) :
    wp x (fun a w' => Q a w' ∧ Q' a w') (fun e w' => E e w' ∧ E' e w') w := by
  unfold wp at h h' ⊢
  split
  · rename_i hx; rw [hx] at h h'; exact ⟨h, h'⟩
  · rename_i hx; rw [hx] at h h'; exact ⟨h, h'⟩

theorem wp_pure {a : α} (h : Q a w) : wp (pure a) Q E w := h

theorem wp_throw {e : ε} (h : E e w) : wp (throw e) Q E w := h

theorem wp_bind {x : Prog ρ ε β} {f : β → Prog ρ ε α}
    (h : wp x (fun b w' => wp (f b) Q E w') E w) : wp (x >>= f) Q E w := by
  unfold wp at h ⊢
  change match EStateM.bind x f w with
    | .ok a w' => Q a w'
    | .error e w' => E e w'
  unfold EStateM.bind
  cases hx : x w with
  | ok b w' => rw [hx] at h; exact h
  | error e w' => rw [hx] at h; exact h

theorem wp_get {P : World ρ → World ρ → Prop} {E : ε → World ρ → Prop} (h : P w w) :
    wp (get : Prog ρ ε (World ρ)) P E w := h

theorem wp_modify {f : World ρ → World ρ} {Q : Unit → World ρ → Prop} {E : ε → World ρ → Prop}
    (h : Q () (f w)) : wp (modify f : Prog ρ ε Unit) Q E w := h

theorem wp_lift {x : Except ε α} (hok : ∀ a, x = .ok a → Q a w)
    (herr : ∀ e, x = .error e → E e w) : wp (lift x) Q E w := by
  unfold wp lift
  cases x with
  | ok a => exact hok a rfl
  | error e => exact herr e rfl

theorem wp_captured {x : Prog ρ ε α} {Q : Except ε α → World ρ → Prop} {E : ε → World ρ → Prop}
    (h : wp x (fun a => Q (.ok a)) (fun e => Q (.error e)) w) : wp (captured x) Q E w := by
  unfold wp captured at *
  cases hx : x w with
  | ok a w' => rw [hx] at h; exact h
  | error e w' => rw [hx] at h; exact h

/-- Loop rule: `I rest b` holds before each round, `rest` the rounds to come. -/
theorem wp_foldlM {γ : Type} {f : β → γ → Prog ρ ε β} (I : List γ → β → World ρ → Prop)
    {E : ε → World ρ → Prop}
    (hstep : ∀ c rest b w, I (c :: rest) b w → wp (f b c) (I rest) E w) :
    ∀ (l : List γ) (b : β) (w : World ρ), I l b w → wp (l.foldlM f b) (I []) E w
  | [], _, _, h => h
  | c :: l, b, w, h => by
    rw [List.foldlM_cons]
    refine wp_bind (wp_mono (hstep c l b w h) (fun b' w' hb => ?_) fun _ _ he => he)
    exact wp_foldlM I hstep l b' w' hb

end

section
variable {ρ ε : Type} [DecidableEq ρ] [FromIo ε] {w : World ρ}

omit [DecidableEq ρ] in
/-- An operation fails exactly by its own fault. -/
theorem wp_attempt_fault {op : IoOp ρ} {Q : Unit → World ρ → Prop} {E : ε → World ρ → Prop}
    (hok : w.fault = none → Q () (w.logged op))
    (herr : w.fault ≠ none → E (fromIo .other) (w.logged op)) : wp (attempt op) Q E w := by
  unfold wp attempt
  cases hf : w.fault with
  | none => exact hok hf
  | some k => exact herr (by simp [hf])

omit [DecidableEq ρ] in
theorem wp_attempt {op : IoOp ρ} {Q : Unit → World ρ → Prop} {E : ε → World ρ → Prop}
    (hok : Q () (w.logged op)) (herr : ¬ w.NoFaults → E (fromIo .other) (w.logged op)) :
    wp (attempt op) Q E w :=
  wp_attempt_fault (fun _ => hok) fun hf => herr fun h => hf h.fault

theorem wp_openCreate {r : ρ} {Q : Unit → World ρ → Prop} {E : ε → World ρ → Prop}
    (hok : Q () ((w.logged (.openFile r)).setFile r (w.content r)))
    (herr : ¬ w.NoFaults → E (fromIo .other) (w.logged (.openFile r))) :
    wp (openCreate r) Q E w :=
  wp_bind (wp_attempt (wp_modify hok) herr)

omit [DecidableEq ρ] in
theorem wp_openFile {r : ρ} {nf : ε} {Q : Unit → World ρ → Prop} {E : ε → World ρ → Prop}
    (hok : (w.files r).isSome → Q () (w.logged (.openFile r)))
    (hnone : w.files r = none → E nf (w.logged (.openFile r)))
    (herr : ¬ w.NoFaults → E (fromIo .other) (w.logged (.openFile r))) :
    wp (openFile r nf) Q E w := by
  refine wp_bind (wp_attempt (wp_bind (wp_get ?_)) herr)
  cases hr : w.files r with
  | none => simpa [hr] using wp_throw (hnone hr)
  | some c => simpa [hr] using wp_pure (hok (by simp [hr]))

omit [DecidableEq ρ] [FromIo ε] in
theorem wp_fileExists {r : ρ} {Q : Bool → World ρ → Prop} {E : ε → World ρ → Prop}
    (h : Q (w.files r).isSome w) : wp (fileExists r) Q E w :=
  wp_bind (wp_get (wp_pure h))

omit [DecidableEq ρ] in
theorem wp_fileLen {r : ρ} {Q : Nat → World ρ → Prop} {E : ε → World ρ → Prop}
    (hok : Q (w.content r).length (w.logged (.metadata r)))
    (herr : ¬ w.NoFaults → E (fromIo .other) (w.logged (.metadata r))) :
    wp (fileLen r) Q E w :=
  wp_bind (wp_attempt (wp_bind (wp_get (wp_pure hok))) herr)

theorem wp_setLen {r : ρ} {n : Nat} {Q : Unit → World ρ → Prop} {E : ε → World ρ → Prop}
    (hok : Q () ((w.logged (.setLen r)).setFile r ((w.content r).extendTo n)))
    (herr : ¬ w.NoFaults → E (fromIo .other) (w.logged (.setLen r))) :
    wp (setLen r n) Q E w :=
  wp_bind (wp_attempt (wp_modify hok) herr)

omit [DecidableEq ρ] in
theorem wp_readExactAt {r : ρ} {off n : Nat} {Q : Option Bytes → World ρ → Prop}
    {E : ε → World ρ → Prop} (hzero : n = 0 → Q (some []) w)
    (hok : 0 < n → Q ((w.content r).readAt off n) (w.logged (.read r)))
    (herr : ¬ w.NoFaults → E (fromIo .other) (w.logged (.read r))) :
    wp (readExactAt r off n) Q E w := by
  unfold readExactAt
  by_cases hn : n = 0
  · simpa [hn] using wp_pure (hzero hn)
  · simp only [hn, if_false]
    exact wp_bind (wp_attempt (wp_bind (wp_get (wp_pure (hok (by omega))))) herr)

/-- A write: nothing for no data, the whole data, or (out of room or by a fault) a part of it. -/
theorem wp_writeAllAt {r : ρ} {off : Nat} {data : Bytes} {Q : Unit → World ρ → Prop}
    {E : ε → World ρ → Prop} (hnil : data = [] → Q () w)
    (hok : data ≠ [] → off + data.length ≤ maxFileLen → w.fault = none →
      Q () ((w.setFile r ((w.content r).writeAt off data)).logged (.write r)))
    (hbig : maxFileLen < off + data.length → E (fromIo .other) (w.logged (.write r)))
    (herr : ∀ k, w.fault = some k → off + data.length ≤ maxFileLen → E (fromIo .other)
      ((w.setFile r ((w.content r).writeAt off (data.take k))).logged (.write r))) :
    wp (writeAllAt r off data) Q E w := by
  unfold wp writeAllAt
  by_cases hd : data = []
  · simpa [hd] using hnil hd
  · by_cases hb : maxFileLen < off + data.length
    · simpa [hd, hb] using hbig hb
    · simp only [hd, hb, if_false]
      cases hf : w.fault with
      | none => exact hok hd (by omega) hf
      | some k => exact herr k hf (by omega)

theorem wp_createFile {r : ρ} {Q : Unit → World ρ → Prop} {E : ε → World ρ → Prop}
    (hok : w.fault = none → Q () ((w.logged (.openFile r)).setFile r []))
    (herr : w.fault ≠ none → E (fromIo .other) (w.logged (.openFile r))) :
    wp (createFile r) Q E w :=
  wp_bind (wp_attempt_fault (fun hf => wp_modify (hok hf)) herr)

theorem wp_rename {r r' : ρ} {Q : Unit → World ρ → Prop} {E : ε → World ρ → Prop}
    (hok : w.fault = none →
      Q () { w.logged (.rename r) with
        files := fun x => if x = r' then w.files r else if x = r then none else w.files x })
    (herr : w.fault ≠ none → E (fromIo .other) (w.logged (.rename r))) :
    wp (rename r r') Q E w :=
  wp_bind (wp_attempt_fault (fun hf => wp_modify (hok hf)) herr)

omit [DecidableEq ρ] in
/-- Reading a file opens it first: a missing file is found out before anything is read. -/
theorem wp_readFile {r : ρ} {nf : ε} {Q : Bytes → World ρ → Prop} {E : ε → World ρ → Prop}
    (hok : ∀ c, w.fault = none → w.files r = some c → (w.logged (.openFile r)).fault = none →
      Q c ((w.logged (.openFile r)).logged (.read r)))
    (hnone : w.fault = none → w.files r = none → E nf (w.logged (.openFile r)))
    (hopen : w.fault ≠ none → E (fromIo .other) (w.logged (.openFile r)))
    (hread : w.fault = none → w.files r ≠ none → (w.logged (.openFile r)).fault ≠ none →
      E (fromIo .other) ((w.logged (.openFile r)).logged (.read r))) :
    wp (readFile r nf) Q E w := by
  refine wp_bind (wp_bind (wp_attempt_fault (fun hf => wp_bind (wp_get ?_)) hopen))
  cases hr : w.files r with
  | none => simpa [hr] using wp_throw (hnone hf hr)
  | some c =>
    simp only [World.logged_files, hr, Option.isNone_some, Bool.false_eq_true, if_false]
    refine wp_pure (wp_bind (wp_attempt_fault (fun hf' => wp_bind (wp_get (wp_pure ?_)))
      (hread hf (by simp [hr]))))
    simpa [World.content, hr] using hok c hf hr hf'

end

end Io
