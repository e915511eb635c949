import Mathlib.Data.Set.Disjoint
import Mathlib.Tactic.Common

/-!
# Programs with effects

A program is a tree : it returns, fails, or performs an operation and goes on with a
function of the answer (`Prog`). One tree has two readings. `Prog.run` executes it
alone, from a state, with a handler that answers each operation at once; a scheduler
that interleaves several programs performs one operation of one tree at a time.

`Prog.Meets` bounds the operations a program can reach and the results it can return,
and `Prog.run_invariant` is the rule it serves : what every reachable operation keeps, the
run keeps. `Prog.Guarded` bounds its failures, as long as the answers it gets are good, and
`Prog.Assuming` its operations.
`Prog.Paired` says that some of its operations come in pairs.

Where an operation may never come back, `Prog.attempt` runs the program up to it. An
attempt that ends is a run (`Prog.run_of_attempt`).

Over a store of keyed cells an operation touches at most one cell (`KeyedHandler`). A
program whose operations stay inside a set of cells changes nothing outside it
(`Prog.run_frame`) and reads nothing outside it (`Prog.run_congr`).
-/

set_option linter.unusedSectionVars false

/-- A sequence of fallible steps returns when each of them does. -/
theorem Except.bind_eq_ok_iff {ε α β : Type} {x : Except ε α} {f : α → Except ε β} {b : β} :
    (x >>= f) = .ok b ↔ ∃ a, x = .ok a ∧ f a = .ok b := by
  cases x with
  | error e => simp [bind, Except.bind]
  | ok a => simp [bind, Except.bind]

/-- It fails when one of them does. -/
theorem Except.bind_eq_error_iff {ε α β : Type} {x : Except ε α} {f : α → Except ε β} {e : ε} :
    (x >>= f) = .error e ↔ x = .error e ∨ ∃ a, x = .ok a ∧ f a = .error e := by
  cases x with
  | error e => simp [bind, Except.bind]
  | ok a => simp [bind, Except.bind]

/-- The operations of an effect signature, and the type of the answer to each. -/
structure Signature where
  /-- The operations. -/
  Op : Type
  /-- What an operation answers. -/
  Resp : Op → Type

/-- A program over the operations of `E` that fails with `ε` or returns an `α`. -/
inductive Prog (E : Signature) (ε α : Type) : Type
  | ret (a : α) : Prog E ε α
  | fail (e : ε) : Prog E ε α
  | op (o : E.Op) (k : E.Resp o → Prog E ε α) : Prog E ε α

/-- What a handler does with an operation : the answer and the next state. -/
abbrev Handler (E : Signature) (σ : Type) := (o : E.Op) → σ → E.Resp o × σ

/-- A handler that may never answer an operation. -/
abbrev PartialHandler (E : Signature) (σ : Type) := (o : E.Op) → σ → Option (E.Resp o × σ)

/-- How an attempt at a program ends : with a result, or at an operation that never comes
back. -/
inductive Outcome (E : Signature) (ε α : Type) : Type
  | done (x : Except ε α) : Outcome E ε α
  | stuck (o : E.Op) : Outcome E ε α

namespace Prog

variable {E : Signature} {ε ε' α β σ : Type}

/-- Sequencing : a failure skips the rest. -/
protected def bind : Prog E ε α → (α → Prog E ε β) → Prog E ε β
  | ret a, f => f a
  | fail e, _ => fail e
  | op o k, f => op o fun r => (k r).bind f

instance : Monad (Prog E ε) where
  pure := ret
  bind := Prog.bind

/-- The program that performs one operation and returns its answer. -/
def perform (o : E.Op) : Prog E ε (E.Resp o) :=
  op o ret

/-- Rename the failure, as `map_err` does. -/
def mapErr (g : ε → ε') : Prog E ε α → Prog E ε' α
  | ret a => ret a
  | fail e => fail (g e)
  | op o k => op o fun r => (k r).mapErr g

/-- The program with its failure as a result. -/
def caught : Prog E ε α → Prog E ε' (Except ε α)
  | ret a => ret (.ok a)
  | fail e => ret (.error e)
  | op o k => op o fun r => (k r).caught

/-- A pure result as a program. -/
def ofExcept : Except ε α → Prog E ε α
  | .ok a => ret a
  | .error e => fail e

@[simp] theorem pure_eq (a : α) : (pure a : Prog E ε α) = ret a := rfl

@[simp] theorem ret_bind (a : α) (f : α → Prog E ε β) : (ret a >>= f) = f a := rfl

@[simp] theorem fail_bind (e : ε) (f : α → Prog E ε β) : (fail e >>= f) = fail e := rfl

@[simp] theorem op_bind (o : E.Op) (k : E.Resp o → Prog E ε α) (f : α → Prog E ε β) :
    (op o k >>= f) = op o fun r => k r >>= f := rfl

theorem bind_assoc {γ : Type} (f : α → Prog E ε β) (g : β → Prog E ε γ) :
    ∀ p : Prog E ε α, (p >>= f) >>= g = p >>= fun a => f a >>= g
  | ret _ => rfl
  | fail _ => rfl
  | op o k => congrArg (op o) (funext fun r => bind_assoc f g (k r))

/-! ## Running a program alone -/

/-- Run a program alone, with `H` answering its operations. -/
def run (H : Handler E σ) : Prog E ε α → σ → Except ε α × σ
  | ret a, s => (.ok a, s)
  | fail e, s => (.error e, s)
  | op o k, s => run H (k (H o s).1) (H o s).2

@[simp] theorem run_op (H : Handler E σ) (o : E.Op) (k : E.Resp o → Prog E ε α) (s : σ) :
    run H (op o k) s = run H (k (H o s).1) (H o s).2 := rfl

@[simp] theorem run_ofExcept (H : Handler E σ) (x : Except ε α) (s : σ) :
    run H (ofExcept x : Prog E ε α) s = (x, s) := by
  cases x <;> rfl

/-- A sequence runs its first part, then the rest from the state it leaves. -/
theorem run_bind (H : Handler E σ) (f : α → Prog E ε β) :
    ∀ (p : Prog E ε α) (s : σ), run H (p >>= f) s =
      match run H p s with
      | (.ok a, s') => run H (f a) s'
      | (.error e, s') => (.error e, s')
  | ret _, _ => rfl
  | fail _, _ => rfl
  | op o k, s => run_bind H f (k (H o s).1) (H o s).2

theorem run_mapErr (H : Handler E σ) (g : ε → ε') :
    ∀ (p : Prog E ε α) (s : σ), run H (p.mapErr g) s = ((run H p s).1.mapError g, (run H p s).2)
  | ret _, _ => rfl
  | fail _, _ => rfl
  | op o k, s => run_mapErr H g (k (H o s).1) (H o s).2

theorem run_caught (H : Handler E σ) : ∀ (p : Prog E ε α) (s : σ),
    run H (p.caught : Prog E ε' (Except ε α)) s = (.ok (run H p s).1, (run H p s).2)
  | ret _, _ => rfl
  | fail _, _ => rfl
  | op o k, s => run_caught H (k (H o s).1) (H o s).2

/-- What follows a first part that was caught. -/
def caughtThen (f : α → Prog E ε β) : Except ε α → Prog E ε' (Except ε β)
  | .ok a => (f a).caught
  | .error e => ret (.error e)

theorem caught_bind (f : α → Prog E ε β) : ∀ p : Prog E ε α,
    ((p >>= f).caught : Prog E ε' (Except ε β)) = p.caught >>= caughtThen f
  | ret _ => rfl
  | fail _ => rfl
  | op o k => congrArg (op o) (funext fun r => caught_bind f (k r))

/-- A sequence whose first part is a pure result. -/
theorem run_ofExcept_bind (H : Handler E σ) (x : Except ε α) (f : α → Prog E ε β) (s : σ) :
    run H (ofExcept x >>= f) s =
      match x with
      | .ok a => run H (f a) s
      | .error e => (.error e, s) := by
  cases x <;> rfl

/-- A sequence returns when its first part returns and the rest does. -/
theorem run_bind_ok {H : Handler E σ} {p : Prog E ε α} {f : α → Prog E ε β} {s t : σ} {b : β}
    (h : run H (p >>= f) s = (.ok b, t)) :
    ∃ a s', run H p s = (.ok a, s') ∧ run H (f a) s' = (.ok b, t) := by
  rw [run_bind] at h
  rcases hp : run H p s with ⟨_ | a, s'⟩
  · simp [hp] at h
  · exact ⟨a, s', rfl, by simpa [hp] using h⟩

/-- A sequence fails in its first part, or in the rest after it. -/
theorem run_bind_error {H : Handler E σ} {p : Prog E ε α} {f : α → Prog E ε β} {s t : σ} {e : ε}
    (h : run H (p >>= f) s = (.error e, t)) :
    run H p s = (.error e, t) ∨
      ∃ a s', run H p s = (.ok a, s') ∧ run H (f a) s' = (.error e, t) := by
  rw [run_bind] at h
  rcases hp : run H p s with ⟨e' | a, s'⟩
  · simp only [hp, Prod.mk.injEq, Except.error.injEq] at h
    obtain ⟨rfl, rfl⟩ := h
    exact Or.inl rfl
  · rw [hp] at h
    exact Or.inr ⟨a, s', rfl, h⟩

theorem run_mapErr_ok {H : Handler E σ} {g : ε → ε'} {p : Prog E ε α} {s t : σ} {a : α}
    (h : run H (p.mapErr g) s = (.ok a, t)) : run H p s = (.ok a, t) := by
  rw [run_mapErr] at h
  rcases hp : run H p s with ⟨_ | a', s'⟩
  · simp [hp, Except.mapError] at h
  · simpa [hp, Except.mapError] using h

/-- From a state the program does what a pure computation does : it fails with the same error, or
both return, and `R` holds of what they return and the state that is left. -/
def Follows (H : Handler E σ) (p : Prog E ε α) (s : σ) (x : Except ε β)
    (R : α → β → σ → Prop) : Prop :=
  match x with
  | .error e => (run H p s).1 = .error e
  | .ok b => ∃ a s', run H p s = (.ok a, s') ∧ R a b s'

section Follows

variable {H : Handler E σ} {s : σ}

theorem Follows.bind {α' β' : Type} {p : Prog E ε α} {f : α → Prog E ε α'} {x : Except ε β}
    {y : β → Except ε β'} {R : α → β → σ → Prop} {R' : α' → β' → σ → Prop} (h : Follows H p s x R)
    (hf : ∀ a b s', R a b s' → Follows H (f a) s' (y b) R') :
    Follows H (p >>= f) s (x >>= y) R' := by
  cases x with
  | error e =>
    have he : (run H p s).1 = .error e := h
    rcases hrun : run H p s with ⟨x, s'⟩
    obtain rfl : x = .error e := (congrArg Prod.fst hrun).symm.trans he
    change (run H (p >>= f) s).1 = .error e
    rw [run_bind, hrun]
  | ok b =>
    obtain ⟨a, s', hrun, hR⟩ := h
    have hnext : run H (p >>= f) s = run H (f a) s' := by
      rw [run_bind, hrun]
    have hfollows := hf a b s' hR
    change Follows H (p >>= f) s (y b) R'
    unfold Follows at hfollows ⊢
    rw [hnext]
    exact hfollows

/-- What comes after the computation is over. -/
theorem Follows.andThen {α' : Type} {p : Prog E ε α} {f : α → Prog E ε α'} {x : Except ε β}
    {R : α → β → σ → Prop} {R' : α' → β → σ → Prop} (h : Follows H p s x R)
    (hf : ∀ a b s', R a b s' → Follows H (f a) s' (.ok b) R') : Follows H (p >>= f) s x R' := by
  have hbind := h.bind (y := .ok) hf
  cases x with
  | error e => exact hbind
  | ok b => exact hbind

/-- What comes before the computation starts. -/
theorem Follows.after {α' β' : Type} {p : Prog E ε α} {f : α → Prog E ε α'} {b : β}
    {x : Except ε β'} {R : α → β → σ → Prop} {R' : α' → β' → σ → Prop}
    (h : Follows H p s (.ok b) R) (hf : ∀ a s', R a b s' → Follows H (f a) s' x R') :
    Follows H (p >>= f) s x R' := by
  obtain ⟨a, s', hrun, hR⟩ := h
  have hnext : run H (p >>= f) s = run H (f a) s' := by
    rw [run_bind, hrun]
  have hfollows := hf a s' hR
  unfold Follows at hfollows ⊢
  rw [hnext]
  exact hfollows

theorem follows_ret {a : α} {b : β} {R : α → β → σ → Prop} (h : R a b s) :
    Follows H (ret a : Prog E ε α) s (.ok b) R := ⟨a, s, rfl, h⟩

theorem follows_ofExcept {x : Except ε α} :
    Follows H (ofExcept x) s x fun a b s' => a = b ∧ s' = s := by
  cases x with
  | error e => rfl
  | ok a => exact ⟨a, s, rfl, rfl, rfl⟩

/-- An operation takes no part in the pure computation. -/
theorem Follows.op {o : E.Op} {c : E.Resp o → Prog E ε α} {x : Except ε β}
    {R : α → β → σ → Prop} (h : Follows H (c (H o s).1) (H o s).2 x R) :
    Follows H (Prog.op o c) s x R := h

theorem Follows.mono {p : Prog E ε α} {x : Except ε β} {R R' : α → β → σ → Prop}
    (h : Follows H p s x R) (hR : ∀ a b s', R a b s' → R' a b s') : Follows H p s x R' := by
  cases x with
  | error e => exact h
  | ok b =>
    obtain ⟨a, s', hrun, ha⟩ := h
    exact ⟨a, s', hrun, hR a b s' ha⟩

end Follows

/-! ## What a program can do -/

/-- Every operation the program can reach satisfies `P`, and every result it can return
satisfies `Q`, whatever the answers are. -/
def Meets (P : E.Op → Prop) (Q : α → Prop) : Prog E ε α → Prop
  | ret a => Q a
  | fail _ => True
  | op o k => P o ∧ ∀ r, Meets P Q (k r)

variable {P P' : E.Op → Prop} {Q Q' : α → Prop} {R : β → Prop}

theorem meets_ret {a : α} (h : Q a) : Meets P Q (ret a : Prog E ε α) := h

theorem meets_ofExcept {x : Except ε α} (h : ∀ a, x = .ok a → Q a) :
    Meets P Q (ofExcept x : Prog E ε α) := by
  cases x with
  | error e => trivial
  | ok a => exact h a rfl

theorem Meets.mono (hP : ∀ o, P o → P' o) (hQ : ∀ a, Q a → Q' a) :
    ∀ {p : Prog E ε α}, Meets P Q p → Meets P' Q' p
  | ret _, h => hQ _ h
  | fail _, _ => trivial
  | op _ _, h => ⟨hP _ h.1, fun r => Meets.mono hP hQ (h.2 r)⟩

/-- A sequence : the rest may use what the first part returns. -/
theorem Meets.bind {f : α → Prog E ε β} (hf : ∀ a, Q a → Meets P R (f a)) :
    ∀ {p : Prog E ε α}, Meets P Q p → Meets P R (p >>= f)
  | ret _, h => hf _ h
  | fail _, _ => trivial
  | op _ _, h => ⟨h.1, fun r => Meets.bind hf (h.2 r)⟩

theorem Meets.mapErr {g : ε → ε'} :
    ∀ {p : Prog E ε α}, Meets P Q p → Meets P Q (p.mapErr g)
  | ret _, h => h
  | fail _, _ => trivial
  | op _ _, h => ⟨h.1, fun r => Meets.mapErr (h.2 r)⟩

theorem Meets.caught : ∀ {p : Prog E ε α}, Meets P Q p →
    Meets P (fun _ => True) (p.caught : Prog E ε' (Except ε α))
  | ret _, _ => trivial
  | fail _, _ => trivial
  | op _ _, h => ⟨h.1, fun r => Meets.caught (h.2 r)⟩

/-- Nothing is left to do. -/
def IsDone : Prog E ε α → Prop
  | op _ _ => False
  | _ => True

/-- An operation of `C` is the last one of its path. -/
def Last (C : E.Op → Prop) : Prog E ε α → Prop
  | ret _ => True
  | fail _ => True
  | op o k => (C o → ∀ r, (k r).IsDone) ∧ ∀ r, Last C (k r)

variable {C : E.Op → Prop}

theorem isDone_ofExcept (x : Except ε α) : (ofExcept x : Prog E ε α).IsDone := by
  cases x <;> trivial

theorem IsDone.mapErr {g : ε → ε'} : ∀ {p : Prog E ε α}, p.IsDone → (p.mapErr g).IsDone
  | ret _, _ => trivial
  | fail _, _ => trivial

theorem Last.mapErr {g : ε → ε'} : ∀ {p : Prog E ε α}, p.Last C → (p.mapErr g).Last C
  | ret _, _ => trivial
  | fail _, _ => trivial
  | op _ _, h => ⟨fun ho r => (h.1 ho r).mapErr, fun r => Last.mapErr (h.2 r)⟩

theorem Last.mono {C' : E.Op → Prop} (hC : ∀ o, P o → C' o → C o) :
    ∀ {p : Prog E ε α}, p.Meets P Q → p.Last C → p.Last C'
  | ret _, _, _ => trivial
  | fail _, _, _ => trivial
  | op o _, hp, h => ⟨fun ho r => h.1 (hC o hp.1 ho) r, fun r => Last.mono hC (hp.2 r) (h.2 r)⟩

/-- A sequence whose first part has no operation of `C`. -/
theorem Last.bind {f : α → Prog E ε β} (hf : ∀ a, (f a).Last C) :
    ∀ {p : Prog E ε α}, p.Meets (fun o => ¬C o) Q → (p >>= f).Last C
  | ret a, _ => hf a
  | fail _, _ => trivial
  | op _ _, h => ⟨fun ho => absurd ho h.1, fun r => Last.bind hf (h.2 r)⟩

theorem last_perform (o : E.Op) : (perform o : Prog E ε (E.Resp o)).Last C :=
  ⟨fun _ _ => trivial, fun _ => trivial⟩

/-- What every reachable operation keeps, the run keeps. -/
theorem run_invariant {H : Handler E σ} {I : σ → Prop}
    (hH : ∀ o s, P o → I s → I (H o s).2) :
    ∀ (p : Prog E ε α) (s : σ), Meets P Q p → I s → I (run H p s).2
  | ret _, _, _, hs => hs
  | fail _, _, _, hs => hs
  | op o k, s, hp, hs => run_invariant hH (k (H o s).1) _ (hp.2 _) (hH o s hp.1 hs)

theorem meets_true : ∀ p : Prog E ε α, Meets (fun _ => True) (fun _ => True) p
  | ret _ => trivial
  | fail _ => trivial
  | op _ k => ⟨trivial, fun r => meets_true (k r)⟩

/-- From every state of `I` the two programs run alike. -/
def Alike (H : Handler E σ) (I : σ → Prop) (p q : Prog E ε α) : Prop :=
  ∀ s, I s → run H p s = run H q s

section Alike

variable {H : Handler E σ} {I : σ → Prop} {p q : Prog E ε α}

theorem Alike.refl (p : Prog E ε α) : Alike H I p p :=
  fun _ _ => rfl

/-- Sequences of like programs run alike, where every operation keeps `I`. -/
theorem Alike.bind (hH : ∀ o s, I s → I (H o s).2) {f g : α → Prog E ε β}
    (hp : Alike H I p q) (hf : ∀ a, Alike H I (f a) (g a)) : Alike H I (p >>= f) (q >>= g) := by
  intro s hs
  rw [run_bind, run_bind, ← hp s hs]
  have hkeep : I (run H p s).2 :=
    run_invariant (fun o t _ ht => hH o t ht) p s (meets_true p) hs
  rcases hrun : run H p s with ⟨_ | a, s'⟩
  · rfl
  · rw [hrun] at hkeep
    exact hf a s' hkeep

theorem Alike.mapErr {g : ε → ε'} (hp : Alike H I p q) :
    Alike H I (p.mapErr g) (q.mapErr g) := by
  intro s hs
  rw [run_mapErr, run_mapErr, hp s hs]

end Alike

/-- As long as the answers to its operations satisfy `A`, the program fails with errors of `F`
only, and returns results of `Q`. -/
def Guarded (A : (o : E.Op) → E.Resp o → Prop) (F : ε → Prop) (Q : α → Prop) : Prog E ε α → Prop
  | ret a => Q a
  | fail e => F e
  | op o k => ∀ r, A o r → Guarded A F Q (k r)

section Guarded

variable {A : (o : E.Op) → E.Resp o → Prop} {F : ε → Prop} {F' : ε' → Prop}

theorem Guarded.mono (hQ : ∀ a, Q a → Q' a) :
    ∀ {p : Prog E ε α}, Guarded A F Q p → Guarded A F Q' p
  | ret _, h => hQ _ h
  | fail _, h => h
  | op _ _, h => fun r hr => Guarded.mono hQ (h r hr)

theorem Guarded.bind {f : α → Prog E ε β} (hf : ∀ a, Q a → Guarded A F R (f a)) :
    ∀ {p : Prog E ε α}, Guarded A F Q p → Guarded A F R (p >>= f)
  | ret _, h => hf _ h
  | fail _, h => h
  | op _ _, h => fun r hr => Guarded.bind hf (h r hr)

theorem Guarded.mapErr {g : ε → ε'} (hg : ∀ e, F e → F' (g e)) :
    ∀ {p : Prog E ε α}, Guarded A F Q p → Guarded A F' Q (p.mapErr g)
  | ret _, h => h
  | fail _, h => hg _ h
  | op _ _, h => fun r hr => Guarded.mapErr hg (h r hr)

/-- Whatever answers the operations, a run that fails does so with an error of `F`. -/
theorem Guarded.of_run_error {H : Handler E σ} {e : ε} :
    ∀ {p : Prog E ε α} {s : σ}, Guarded (fun _ _ => True) F Q p → (run H p s).1 = .error e → F e
  | ret _, _, _, he => by cases he
  | fail _, _, h, he => by
    cases he
    exact h
  | op _ _, _, h, he => Guarded.of_run_error (h _ trivial) he

end Guarded

/-- As long as the answers to its operations satisfy `A`, every operation the program can reach
satisfies `P`. -/
def Assuming (A : (o : E.Op) → E.Resp o → Prop) (P : E.Op → Prop) : Prog E ε α → Prop
  | ret _ => True
  | fail _ => True
  | op o k => P o ∧ ∀ r, A o r → Assuming A P (k r)

section Assuming

variable {A : (o : E.Op) → E.Resp o → Prop}

theorem Meets.assuming (hP : ∀ o, P o → P' o) :
    ∀ {p : Prog E ε α}, Meets P Q p → Assuming A P' p
  | ret _, _ => trivial
  | fail _, _ => trivial
  | op _ _, h => ⟨hP _ h.1, fun r _ => Meets.assuming hP (h.2 r)⟩

theorem Assuming.mapErr {g : ε → ε'} :
    ∀ {p : Prog E ε α}, Assuming A P p → Assuming A P (p.mapErr g)
  | ret _, _ => trivial
  | fail _, _ => trivial
  | op _ _, h => ⟨h.1, fun r hr => Assuming.mapErr (h.2 r hr)⟩

end Assuming

/-- An operation that has a partner is followed at once by it, and operations of `C` come only as
partners. The option is the partner that is due. -/
def Paired (partner : E.Op → Option E.Op) (C : E.Op → Prop) : Option E.Op → Prog E ε α → Prop
  | none, ret _ => True
  | none, fail _ => True
  | none, op o k => ¬C o ∧ ∀ r, Paired partner C (partner o) (k r)
  | some _, ret _ => False
  | some _, fail _ => False
  | some due, op o k => o = due ∧ ∀ r, Paired partner C none (k r)

section Paired

variable {partner : E.Op → Option E.Op}

theorem Paired.bind {f : α → Prog E ε β} (hf : ∀ a, Paired partner C none (f a)) :
    ∀ {due : Option E.Op} {p : Prog E ε α}, Paired partner C due p →
      Paired partner C due (p >>= f)
  | none, ret a, _ => hf a
  | none, fail _, _ => trivial
  | none, op _ _, h => ⟨h.1, fun r => Paired.bind hf (h.2 r)⟩
  | some _, op _ _, h => ⟨h.1, fun r => Paired.bind hf (h.2 r)⟩

/-- Operations without a partner. -/
theorem paired_of_meets : ∀ {p : Prog E ε α}, p.Meets (fun o => ¬C o ∧ partner o = none) Q →
    Paired partner C none p
  | ret _, _ => trivial
  | fail _, _ => trivial
  | op _ _, h => ⟨h.1.1, fun r => by
      rw [h.1.2]
      exact paired_of_meets (h.2 r)⟩

end Paired

/-- The operations that a run performs, in order. -/
def trace (H : Handler E σ) : Prog E ε α → σ → List E.Op
  | ret _, _ => []
  | fail _, _ => []
  | op o k, s => o :: trace H (k (H o s).1) (H o s).2

/-- A run performs no operation that the program cannot reach. -/
theorem Meets.of_mem_trace {H : Handler E σ} {o : E.Op} :
    ∀ {p : Prog E ε α} {s : σ}, Meets P Q p → o ∈ trace H p s → P o
  | op o' k, s, hp, h => by
    rcases List.mem_cons.1 h with rfl | h
    · exact hp.1
    · exact Meets.of_mem_trace (hp.2 _) h

/-! ## Operations that may not come back -/

/-- Run a program alone, with `H` answering its operations; where `H` never answers, the
run stays there. -/
def attempt (H : PartialHandler E σ) : Prog E ε α → σ → Outcome E ε α × σ
  | ret a, s => (.done (.ok a), s)
  | fail e, s => (.done (.error e), s)
  | op o k, s =>
    match H o s with
    | some (r, s') => attempt H (k r) s'
    | none => (.stuck o, s)

theorem attempt_op_some {H : PartialHandler E σ} {o : E.Op} {k : E.Resp o → Prog E ε α} {s s' : σ}
    {r : E.Resp o} (h : H o s = some (r, s')) : attempt H (op o k) s = attempt H (k r) s' := by
  simp only [attempt, h]

theorem attempt_op_none {H : PartialHandler E σ} {o : E.Op} {k : E.Resp o → Prog E ε α} {s : σ}
    (h : H o s = none) : attempt H (op o k) s = (.stuck o, s) := by
  simp only [attempt, h]

/-- A sequence attempts its first part, then the rest from the state it leaves. -/
theorem attempt_bind (H : PartialHandler E σ) (f : α → Prog E ε β) :
    ∀ (p : Prog E ε α) (s : σ), attempt H (p >>= f) s =
      match attempt H p s with
      | (.done (.ok a), s') => attempt H (f a) s'
      | (.done (.error e), s') => (.done (.error e), s')
      | (.stuck o, s') => (.stuck o, s')
  | ret _, _ => rfl
  | fail _, _ => rfl
  | op o k, s => by
    rw [op_bind]
    cases h : H o s with
    | none => rw [attempt_op_none h, attempt_op_none h]
    | some rs => rw [attempt_op_some h, attempt_op_some h, attempt_bind H f (k rs.1) rs.2]

/-- An attempt that ends is a run, with a handler that gives the same answers on a part `c`
of the state. -/
theorem run_of_attempt {τ : Type} {c : σ → τ} {H : PartialHandler E σ} {H' : Handler E τ}
    (hH : ∀ o s r s', H o s = some (r, s') → H' o (c s) = (r, c s')) :
    ∀ {p : Prog E ε α} {s s' : σ} {x : Except ε α}, attempt H p s = (.done x, s') →
      run H' p (c s) = (x, c s')
  | ret _, _, _, _, h => by
    cases h
    rfl
  | fail _, _, _, _, h => by
    cases h
    rfl
  | op o k, s, s', x, h => by
    cases ho : H o s with
    | none =>
      rw [attempt_op_none ho] at h
      cases h
    | some rs =>
      rw [attempt_op_some ho] at h
      rw [run_op, hH o s rs.1 rs.2 ho]
      exact run_of_attempt hH h

/-- A renamed failure changes how an attempt ends, and nothing else. -/
theorem attempt_mapErr_done {H : PartialHandler E σ} {g : ε → ε'} :
    ∀ {p : Prog E ε α} {s s' : σ} {x : Except ε α}, attempt H p s = (.done x, s') →
      attempt H (p.mapErr g) s = (.done (x.mapError g), s')
  | ret _, _, _, _, h => by
    cases h
    rfl
  | fail _, _, _, _, h => by
    cases h
    rfl
  | op o k, s, s', x, h => by
    cases ho : H o s with
    | none =>
      rw [attempt_op_none ho] at h
      cases h
    | some rs =>
      rw [attempt_op_some ho] at h
      rw [mapErr, attempt_op_some ho]
      exact attempt_mapErr_done h

/-- An attempt on a part `c` of the state, with a handler that does the same there. -/
theorem attempt_map {τ : Type} {c : σ → τ} {H : PartialHandler E σ} {K : PartialHandler E τ}
    (hH : ∀ o s, K o (c s) = (H o s).map fun x => (x.1, c x.2)) :
    ∀ (p : Prog E ε α) (s : σ),
      attempt K p (c s) = ((attempt H p s).1, c (attempt H p s).2)
  | ret _, _ => rfl
  | fail _, _ => rfl
  | op o k, s => by
    have ho' : K o (c s) = (H o s).map fun x => (x.1, c x.2) := hH o s
    cases ho : H o s with
    | none =>
      rw [ho, Option.map_none] at ho'
      rw [attempt_op_none ho, attempt_op_none ho']
    | some rs =>
      rw [ho, Option.map_some] at ho'
      rw [attempt_op_some ho, attempt_op_some ho']
      exact attempt_map hH (k rs.1) rs.2

/-- A program whose operations are all answered and change nothing ends where it started. -/
theorem attempt_of_reads {τ : Type} {c : σ → τ} {H : PartialHandler E σ} {H' : Handler E τ}
    (hH : ∀ o s, P o → H o s = some ((H' o (c s)).1, s) ∧ (H' o (c s)).2 = c s) :
    ∀ (p : Prog E ε α) (s : σ), Meets P Q p → attempt H p s = (.done (run H' p (c s)).1, s)
  | ret _, _, _ => rfl
  | fail _, _, _ => rfl
  | op o k, s, hp => by
    obtain ⟨ho, hstill⟩ := hH o s hp.1
    rw [attempt_op_some ho, run_op, hstill]
    exact attempt_of_reads hH _ s (hp.2 _)

end Prog

/-! ## Stores of keyed cells -/

/-- A handler on a store of cells : an operation touches at most the cell `key o`. -/
structure KeyedHandler (E : Signature) (K : Type) (V : K → Type) where
  /-- The handler on stores. -/
  handler : Handler E ((k : K) → V k)
  /-- The cell an operation touches, if any. -/
  key : E.Op → Option K
  /-- Every other cell is left as it is. -/
  frame : ∀ o m k, key o ≠ some k → (handler o m).2 k = m k
  /-- The answer and the new cell depend on the old cell only. -/
  read : ∀ o m m', (∀ k, key o = some k → m k = m' k) →
    (handler o m).1 = (handler o m').1 ∧
      ∀ k, key o = some k → (handler o m).2 k = (handler o m').2 k

namespace Prog

variable {E : Signature} {ε α : Type} {K : Type} {V : K → Type}

/-- The program touches only cells of `F`. -/
def Within (H : KeyedHandler E K V) (F : Set K) (p : Prog E ε α) : Prop :=
  p.Meets (fun o => ∀ k, H.key o = some k → k ∈ F) fun _ => True

variable {H : KeyedHandler E K V} {F : Set K}

/-- A program changes no cell outside its footprint. -/
theorem run_frame : ∀ {p : Prog E ε α} {m : (k : K) → V k} {k : K}, p.Within H F → k ∉ F →
    (run H.handler p m).2 k = m k
  | ret _, _, _, _, _ => rfl
  | fail _, _, _, _, _ => rfl
  | op o _, m, k, hp, hk => by
    have hne : H.key o ≠ some k := fun h => hk (hp.1 k h)
    rw [run_op, run_frame (hp.2 _) hk, H.frame o m k hne]

/-- A program that stays in `F` does the same from two stores that agree on `F`. -/
theorem run_congr : ∀ {p : Prog E ε α} {m m' : (k : K) → V k}, p.Within H F →
    (∀ k ∈ F, m k = m' k) →
    (run H.handler p m).1 = (run H.handler p m').1 ∧
      ∀ k ∈ F, (run H.handler p m).2 k = (run H.handler p m').2 k
  | ret _, _, _, _, h => ⟨rfl, h⟩
  | fail _, _, _, _, h => ⟨rfl, h⟩
  | op o c, m, m', hp, h => by
    obtain ⟨hr, hc⟩ := H.read o m m' fun k hk => h k (hp.1 k hk)
    simp only [run_op]
    rw [← hr]
    refine run_congr (hp.2 _) fun k hk => ?_
    by_cases hko : H.key o = some k
    · exact hc k hko
    · rw [H.frame o m k hko, H.frame o m' k hko, h k hk]

end Prog
