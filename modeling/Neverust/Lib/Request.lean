import Mathlib.Data.List.Basic

/-!
# Programs that make requests

`Prog Req Ans ε α`: a program that ends with a value or an error, or makes a request and goes on
with the answer. What a request does is left open; `Prog.run` gives it a meaning, a function that
answers each request and changes a state.

`Ends h p s Q E`: from `s`, answered by `h`, the program `p` ends with a value and a state in `Q` or
with an error and a state in `E`.
`Makes P p`: every request `p` can make, whatever the answers, is in `P`. Both have a rule for each
way a program is built.
`eval ans p` and `asked ans p`: the end of `p`, and the requests it makes, if each request has one
answer. Only the answers to the requests it makes matter (`eval_congr`), and a program that stops at
the first bad answer has got none if it ends with a value (`FailsOn.not_bad`).
-/

namespace Request

inductive Prog (Req : Type) (Ans : Req → Type) (ε α : Type)
  | done (r : Except ε α)
  | ask (r : Req) (k : Ans r → Prog Req Ans ε α)

variable {Req : Type} {Ans : Req → Type} {ε α β γ σ : Type}

namespace Prog

def bind (p : Prog Req Ans ε α) (f : α → Prog Req Ans ε β) : Prog Req Ans ε β :=
  match p with
  | .done (.ok a) => f a
  | .done (.error e) => .done (.error e)
  | .ask r k => .ask r fun x => (k x).bind f

instance : Monad (Prog Req Ans ε) where
  pure a := .done (.ok a)
  bind := bind

/-- A single request. -/
def request (r : Req) : Prog Req Ans ε (Ans r) := .ask r fun x => .done (.ok x)

instance : MonadLift (Except ε) (Prog Req Ans ε) where
  monadLift r := .done r

/-- The program with its error as a value. -/
def attempt : Prog Req Ans ε α → Prog Req Ans ε (Except ε α)
  | .done r => .done (.ok r)
  | .ask r k => .ask r fun x => (k x).attempt

/-- The answers of `h`, and the state they leave. -/
def run (h : (r : Req) → σ → Ans r × σ) : Prog Req Ans ε α → σ → Except ε α × σ
  | .done r, s => (r, s)
  | .ask r k, s => (k (h r s).1).run h (h r s).2

theorem run_bind (h : (r : Req) → σ → Ans r × σ) (p : Prog Req Ans ε α)
    (f : α → Prog Req Ans ε β) (s : σ) :
    (p >>= f).run h s =
      match (p.run h s).1 with
      | .ok a => (f a).run h (p.run h s).2
      | .error e => (.error e, (p.run h s).2) := by
  induction p generalizing s with
  | done r =>
    cases r with
    | ok a => rfl
    | error e => rfl
  | ask r k ih => exact ih (h r s).1 (h r s).2

theorem bind_assoc (p : Prog Req Ans ε α) (f : α → Prog Req Ans ε β) (g : β → Prog Req Ans ε γ) :
    p >>= f >>= g = p >>= fun a => f a >>= g := by
  induction p with
  | done r =>
    cases r with
    | ok a => rfl
    | error e => rfl
  | ask r k ih => exact congrArg (ask r) (funext ih)

end Prog

/-! ## How a run ends -/

section
variable {h : (r : Req) → σ → Ans r × σ} {s : σ} {E : ε → σ → Prop}

/-- The program ends with a value and a state in `Q`, or with an error and a state in `E`. -/
def Ends (h : (r : Req) → σ → Ans r × σ) (p : Prog Req Ans ε α) (s : σ) (Q : α → σ → Prop)
    (E : ε → σ → Prop) : Prop :=
  match (p.run h s).1 with
  | .ok a => Q a (p.run h s).2
  | .error e => E e (p.run h s).2

namespace Ends

theorem pure {a : α} {Q : α → σ → Prop} (hq : Q a s) :
    Ends h (pure a : Prog Req Ans ε α) s Q E :=
  hq

theorem lift {r : Except ε α} {Q : α → σ → Prop} (hok : ∀ a, r = .ok a → Q a s)
    (herr : ∀ e, r = .error e → E e s) : Ends h (liftM r : Prog Req Ans ε α) s Q E := by
  cases r with
  | ok a => exact hok a rfl
  | error e => exact herr e rfl

theorem request {r : Req} {Q : Ans r → σ → Prop} (hq : Q (h r s).1 (h r s).2) :
    Ends h (Prog.request r : Prog Req Ans ε (Ans r)) s Q E :=
  hq

theorem request_bind {r : Req} {f : Ans r → Prog Req Ans ε β} {R : β → σ → Prop}
    (hf : Ends h (f (h r s).1) (h r s).2 R E) : Ends h (Prog.request r >>= f) s R E :=
  hf

theorem bind {p : Prog Req Ans ε α} {f : α → Prog Req Ans ε β} {Q : α → σ → Prop}
    {R : β → σ → Prop} (hp : Ends h p s Q E) (hf : ∀ a s', Q a s' → Ends h (f a) s' R E) :
    Ends h (p >>= f) s R E := by
  unfold Ends at hp ⊢
  rw [Prog.run_bind]
  cases ha : (p.run h s).1 with
  | ok a =>
    rw [ha] at hp
    exact hf a _ hp
  | error e =>
    rw [ha] at hp
    exact hp

theorem lift_bind {r : Except ε α} {a : α} {f : α → Prog Req Ans ε β} {R : β → σ → Prop}
    (hr : r = .ok a) (hf : Ends h (f a) s R E) : Ends h (liftM r >>= f) s R E := by
  subst hr
  exact hf

theorem lift_bind_error {r : Except ε α} {e : ε} {f : α → Prog Req Ans ε β} {R : β → σ → Prop}
    (hr : r = .error e) (he : E e s) : Ends h (liftM r >>= f) s R E := by
  subst hr
  exact he

theorem mono {p : Prog Req Ans ε α} {Q R : α → σ → Prop} (hp : Ends h p s Q E)
    (hqr : ∀ a s', Q a s' → R a s') : Ends h p s R E := by
  unfold Ends at hp ⊢
  cases ha : (p.run h s).1 with
  | ok a =>
    rw [ha] at hp
    exact hqr a _ hp
  | error e =>
    rw [ha] at hp
    exact hp

theorem imp {p : Prog Req Ans ε α} {Q R : α → σ → Prop} {F : ε → σ → Prop} (hp : Ends h p s Q E)
    (hqr : ∀ a s', Q a s' → R a s') (hef : ∀ e s', E e s' → F e s') : Ends h p s R F := by
  unfold Ends at hp ⊢
  cases ha : (p.run h s).1 with
  | ok a =>
    rw [ha] at hp
    exact hqr a _ hp
  | error e =>
    rw [ha] at hp
    exact hef e _ hp

theorem and {p : Prog Req Ans ε α} {Q R : α → σ → Prop} {F : ε → σ → Prop} (hp : Ends h p s Q E)
    (hp' : Ends h p s R F) :
    Ends h p s (fun a s' => Q a s' ∧ R a s') (fun e s' => E e s' ∧ F e s') := by
  unfold Ends at hp hp' ⊢
  cases ha : (p.run h s).1 with
  | ok a =>
    rw [ha] at hp hp'
    exact ⟨hp, hp'⟩
  | error e =>
    rw [ha] at hp hp'
    exact ⟨hp, hp'⟩

/-- What holds of the state after every run. -/
theorem of_state {p : Prog Req Ans ε α} {P : σ → Prop} (hp : P (p.run h s).2) :
    Ends h p s (fun _ s' => P s') (fun _ s' => P s') := by
  unfold Ends
  cases (p.run h s).1 with
  | ok a => exact hp
  | error e => exact hp

/-- A loop keeps an invariant that may speak of the elements it has been through. -/
theorem foldlM {f : β → γ → Prog Req Ans ε β} {I : List γ → β → σ → Prop}
    (hstep : ∀ done x b s, I done b s → Ends h (f b x) s (fun b' s' => I (done ++ [x]) b' s') E) :
    ∀ (l done : List γ) (b : β) (s : σ), I done b s →
      Ends h (l.foldlM f b) s (fun b' s' => I (done ++ l) b' s') E
  | [], done, b, s, hi => by
    rw [List.append_nil]
    exact pure hi
  | x :: l, done, b, s, hi => by
    refine bind (hstep done x b s hi) fun b' s' hi' => ?_
    rw [show done ++ x :: l = (done ++ [x]) ++ l by simp]
    exact foldlM hstep l (done ++ [x]) b' s' hi'

/-- A run whose errors are excluded ends with a value. -/
theorem exists_ok {p : Prog Req Ans ε α} {Q : α → σ → Prop} (hp : Ends h p s Q E)
    (hE : ∀ e s', ¬ E e s') : ∃ a, (p.run h s).1 = .ok a ∧ Q a (p.run h s).2 := by
  unfold Ends at hp
  cases ha : (p.run h s).1 with
  | ok a =>
    rw [ha] at hp
    exact ⟨a, rfl, hp⟩
  | error e =>
    rw [ha] at hp
    exact absurd hp (hE e _)

theorem of_ok {p : Prog Req Ans ε α} {Q : α → σ → Prop} {a : α} (hp : Ends h p s Q E)
    (ha : (p.run h s).1 = .ok a) : Q a (p.run h s).2 := by
  unfold Ends at hp
  rw [ha] at hp
  exact hp

/-- A run that ends as `r` does, whichever way that is. -/
theorem eq_result {p : Prog Req Ans ε α} {r : Except ε α}
    (hp : Ends h p s (fun a _ => r = .ok a) (fun e _ => r = .error e)) : (p.run h s).1 = r := by
  unfold Ends at hp
  cases ha : (p.run h s).1 with
  | ok a =>
    rw [ha] at hp
    exact hp.symm
  | error e =>
    rw [ha] at hp
    exact hp.symm

end Ends

end

/-! ## The requests a program makes -/

/-- Every request is in `P`, whatever the answers to the earlier ones. -/
def Makes (P : Req → Prop) : Prog Req Ans ε α → Prop
  | .done _ => True
  | .ask r k => P r ∧ ∀ x, Makes P (k x)

namespace Makes

variable {P : Req → Prop}

theorem pure (a : α) : Makes P (pure a : Prog Req Ans ε α) := trivial

theorem lift (r : Except ε α) : Makes P (liftM r : Prog Req Ans ε α) := trivial

theorem request {r : Req} (hr : P r) : Makes P (Prog.request r : Prog Req Ans ε (Ans r)) :=
  ⟨hr, fun _ => trivial⟩

theorem bind {p : Prog Req Ans ε α} {f : α → Prog Req Ans ε β} (hp : Makes P p)
    (hf : ∀ a, Makes P (f a)) : Makes P (p >>= f) := by
  induction p with
  | done r =>
    cases r with
    | ok a => exact hf a
    | error e => trivial
  | ask r k ih => exact ⟨hp.1, fun x => ih x (hp.2 x)⟩

theorem request_bind {r : Req} {f : Ans r → Prog Req Ans ε β} (hr : P r)
    (hf : ∀ x, Makes P (f x)) : Makes P (Prog.request r >>= f) :=
  ⟨hr, hf⟩

theorem lift_bind {r : Except ε α} {f : α → Prog Req Ans ε β}
    (hf : ∀ a, r = .ok a → Makes P (f a)) : Makes P (liftM r >>= f) := by
  cases r with
  | ok a => exact hf a rfl
  | error e => trivial

theorem mono {Q : Req → Prop} (h : ∀ r, P r → Q r) {p : Prog Req Ans ε α} (hp : Makes P p) :
    Makes Q p := by
  induction p with
  | done r => trivial
  | ask r k ih => exact ⟨h r hp.1, fun x => ih x (hp.2 x)⟩

theorem attempt {p : Prog Req Ans ε α} (hp : Makes P p) : Makes P p.attempt := by
  induction p with
  | done r => trivial
  | ask r k ih => exact ⟨hp.1, fun x => ih x (hp.2 x)⟩

theorem foldlM {f : β → γ → Prog Req Ans ε β} :
    ∀ (l : List γ) (b : β), (∀ b, ∀ x ∈ l, Makes P (f b x)) → Makes P (l.foldlM f b)
  | [], b, _ => pure b
  | x :: l, b, hf =>
    bind (hf b x List.mem_cons_self) fun b' =>
      foldlM l b' fun b'' y hy => hf b'' y (List.mem_cons_of_mem x hy)

end Makes

/-! ## Fixed answers -/

section
variable {ans ans' : (r : Req) → Ans r}

namespace Prog

/-- The end of a program whose requests are answered by `ans`. -/
def eval (ans : (r : Req) → Ans r) : Prog Req Ans ε α → Except ε α
  | .done r => r
  | .ask r k => (k (ans r)).eval ans

/-- The requests it makes. -/
def asked (ans : (r : Req) → Ans r) : Prog Req Ans ε α → List Req
  | .done _ => []
  | .ask r k => r :: (k (ans r)).asked ans

theorem eval_bind {p : Prog Req Ans ε α} {f : α → Prog Req Ans ε β} {a : α}
    (h : p.eval ans = .ok a) : (p >>= f).eval ans = (f a).eval ans := by
  induction p with
  | done r =>
    rw [eval] at h
    subst h
    rfl
  | ask r k ih => exact ih (ans r) h

theorem eval_foldlM {f : β → γ → Prog Req Ans ε β} {g : β → γ → β} :
    ∀ (l : List γ), (∀ x ∈ l, ∀ b, (f b x).eval ans = .ok (g b x)) →
      ∀ b, (l.foldlM f b).eval ans = .ok (l.foldl g b)
  | [], _, _ => rfl
  | x :: l, hstep, b => by
    rw [List.foldlM_cons, eval_bind (hstep x List.mem_cons_self b), List.foldl_cons]
    exact eval_foldlM l (fun y hy => hstep y (List.mem_cons_of_mem x hy)) (g b x)

/-- A program that ends with a value, and its requests, part by part. -/
theorem eval_bind_ok {p : Prog Req Ans ε α} {f : α → Prog Req Ans ε β} {b : β}
    (h : (p >>= f).eval ans = .ok b) :
    ∃ a, p.eval ans = .ok a ∧ (f a).eval ans = .ok b ∧
      (p >>= f).asked ans = p.asked ans ++ (f a).asked ans := by
  induction p with
  | done r =>
    cases r with
    | ok a => exact ⟨a, rfl, h, rfl⟩
    | error e => cases h
  | ask r k ih =>
    obtain ⟨a, ha, hb, hasked⟩ := ih (ans r) h
    exact ⟨a, ha, hb, congrArg (r :: ·) hasked⟩

/-- Only the answers to the requests it makes matter. -/
theorem eval_congr {p : Prog Req Ans ε α} (h : ∀ r ∈ p.asked ans, ans' r = ans r) :
    p.eval ans' = p.eval ans ∧ p.asked ans' = p.asked ans := by
  induction p with
  | done r => exact ⟨rfl, rfl⟩
  | ask r k ih =>
    have hr : ans' r = ans r := h r List.mem_cons_self
    have ih := ih (ans r) fun r' hr' => h r' (List.mem_cons_of_mem r hr')
    rw [eval, eval, asked, asked, hr]
    exact ⟨ih.1, congrArg (r :: ·) ih.2⟩

theorem of_mem_asked {P : Req → Prop} {p : Prog Req Ans ε α} (hp : Makes P p) :
    ∀ r ∈ p.asked ans, P r := by
  induction p with
  | done r => exact fun r hr => absurd hr List.not_mem_nil
  | ask r k ih =>
    intro r' hr'
    rcases List.mem_cons.1 hr' with rfl | hr'
    · exact hp.1
    · exact ih (ans r) (hp.2 _) r' hr'

/-- A run whose state gives the answers of `ans` and goes on doing so. -/
theorem run_eq_eval {h : (r : Req) → σ → Ans r × σ} {P : Req → Prop} {I : σ → Prop}
    (hans : ∀ r, P r → ∀ s, I s → (h r s).1 = ans r ∧ I (h r s).2) {p : Prog Req Ans ε α}
    (hp : Makes P p) {s : σ} (hs : I s) : (p.run h s).1 = p.eval ans := by
  induction p generalizing s with
  | done r => rfl
  | ask r k ih =>
    obtain ⟨hr, hi⟩ := hans r hp.1 s hs
    rw [run, eval, ← hr]
    exact ih _ (hp.2 _) hi

end Prog

/-- After an answer in `Bad` the program ends with an error. -/
def FailsOn (Bad : (r : Req) → Ans r → Prop) : Prog Req Ans ε α → Prop
  | .done _ => True
  | .ask r k => (∀ a, Bad r a → ∃ e, k a = .done (.error e)) ∧ ∀ a, FailsOn Bad (k a)

namespace FailsOn

variable {Bad : (r : Req) → Ans r → Prop}

theorem pure (a : α) : FailsOn Bad (pure a : Prog Req Ans ε α) := trivial

theorem lift (r : Except ε α) : FailsOn Bad (liftM r : Prog Req Ans ε α) := trivial

theorem bind {p : Prog Req Ans ε α} {f : α → Prog Req Ans ε β} (hp : FailsOn Bad p)
    (hf : ∀ a, FailsOn Bad (f a)) : FailsOn Bad (p >>= f) := by
  induction p with
  | done r =>
    cases r with
    | ok a => exact hf a
    | error e => trivial
  | ask r k ih =>
    refine ⟨fun a ha => ?_, fun a => ih a (hp.2 a)⟩
    obtain ⟨e, he⟩ := hp.1 a ha
    refine ⟨e, ?_⟩
    dsimp only
    rw [he]
    rfl

theorem foldlM {f : β → γ → Prog Req Ans ε β} (hf : ∀ b x, FailsOn Bad (f b x)) :
    ∀ (l : List γ) (b : β), FailsOn Bad (l.foldlM f b)
  | [], b => pure b
  | x :: l, b => bind (hf b x) fun b' => foldlM hf l b'

/-- A program that ends with a value has got no bad answer. -/
theorem not_bad {p : Prog Req Ans ε α} (hp : FailsOn Bad p) {a : α} (h : p.eval ans = .ok a) :
    ∀ r ∈ p.asked ans, ¬ Bad r (ans r) := by
  induction p with
  | done r => exact fun r hr => absurd hr List.not_mem_nil
  | ask r k ih =>
    intro r' hr' hbad
    rcases List.mem_cons.1 hr' with rfl | hr'
    · obtain ⟨e, he⟩ := hp.1 _ hbad
      rw [Prog.eval, he] at h
      cases h
    · exact ih (ans r) (hp.2 _) h r' hr' hbad

end FailsOn

end

end Request
