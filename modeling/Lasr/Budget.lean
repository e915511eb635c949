import Lasr.ActorSystem
import Mathlib.Data.ENat.Lattice
import Mathlib.Order.CompletePartialOrder
import Mathlib.Algebra.BigOperators.Group.List.Basic
import Mathlib.Tactic.Abel

/-!
# At most, and at least once

Two measures of a program over all its paths. `Prog.uses` is the largest total weight of the
operations on one path; `Prog.Eventually` says that every path whose answers are allowed
comes to an operation of some kind.

For a system of actors the first gives a budget : weigh the messages, the operations and the
state, and let each step spend no more than it consumes. The total then never exceeds a cap
that only the state sets (`ActorSystem.Affords`). So a thing that weighs one is never done
twice.

With a weight for the futures themselves nothing is made of what a run was not given
(`ActorSystem.Conserves`).

The second gives delivery : an errand is done, or a message has it, or a future comes to it
on every path (`Config.Carries`). Where each hands it on, it is done when nothing is in
flight any more (`ActorSystem.Delivers`).
-/

set_option linter.unusedSectionVars false

namespace Prog

variable {E : Signature} {ε ε' α β : Type}

/-! ## The most a path can weigh -/

/-- The largest total weight of the operations on a path. -/
noncomputable def uses (w : E.Op → ℕ∞) : Prog E ε α → ℕ∞
  | ret _ => 0
  | fail _ => 0
  | op o k => w o + ⨆ r, uses w (k r)

variable {w : E.Op → ℕ∞}

@[simp] theorem uses_ret (a : α) : uses w (ret a : Prog E ε α) = 0 := rfl

@[simp] theorem uses_fail (e : ε) : uses w (fail e : Prog E ε α) = 0 := rfl

theorem uses_op (o : E.Op) (k : E.Resp o → Prog E ε α) :
    uses w (op o k) = w o + ⨆ r, uses w (k r) := rfl

/-- What an operation weighs, and what remains after any answer. -/
theorem add_uses_le (o : E.Op) (k : E.Resp o → Prog E ε α) (r : E.Resp o) :
    w o + uses w (k r) ≤ uses w (op o k) := by
  rw [uses_op]
  exact add_le_add_right (le_iSup (fun r => uses w (k r)) r) (w o)

theorem uses_op_le {o : E.Op} {k : E.Resp o → Prog E ε α} {n : ℕ∞}
    (h : ∀ r, w o + uses w (k r) ≤ n) (ho : w o ≤ n) : uses w (op o k) ≤ n := by
  rw [uses_op]
  rcases isEmpty_or_nonempty (E.Resp o) with hempty | hne
  · simpa using ho
  · rw [ENat.add_iSup]
    exact iSup_le h

theorem uses_mapErr (g : ε → ε') :
    ∀ p : Prog E ε α, uses w (p.mapErr g) = uses w p
  | ret _ => rfl
  | fail _ => rfl
  | op o k => by
    rw [mapErr, uses_op, uses_op, iSup_congr fun r => uses_mapErr g (k r)]

/-- A program none of whose operations weighs anything. -/
theorem uses_eq_zero {Q : α → Prop} :
    ∀ {p : Prog E ε α}, p.Meets (fun o => w o = 0) Q → uses w p = 0
  | ret _, _ => rfl
  | fail _, _ => rfl
  | op o k, h => by
    rw [uses_op, h.1, zero_add, ENat.iSup_eq_zero]
    exact fun r => uses_eq_zero (h.2 r)

/-- A sequence weighs at most what its parts do. -/
theorem uses_bind_le {f : α → Prog E ε β} {Q : α → Prop} {P : E.Op → Prop} {n : ℕ∞}
    (hf : ∀ a, Q a → uses w (f a) ≤ n) :
    ∀ {p : Prog E ε α}, p.Meets P Q → uses w (p >>= f) ≤ uses w p + n
  | ret a, h => by
    rw [uses_ret, zero_add]
    exact hf a h
  | fail _, _ => by
    rw [fail_bind, uses_fail]
    exact zero_le
  | op o k, h => by
    refine uses_op_le (fun r => ?_) ?_
    · calc w o + uses w (k r >>= f)
          ≤ w o + (uses w (k r) + n) := add_le_add_right (uses_bind_le hf (h.2 r)) _
        _ = (w o + uses w (k r)) + n := (add_assoc _ _ _).symm
        _ ≤ uses w (op o k) + n := add_le_add_left (add_uses_le o k r) _
    · rw [uses_op]
      exact le_add_right le_self_add

theorem uses_of_isDone : ∀ {p : Prog E ε α}, p.IsDone → uses w p = 0
  | ret _, _ => rfl
  | fail _, _ => rfl

/-- A program whose only operations that weigh anything are the last of their paths. -/
theorem uses_le_of_last {P C : E.Op → Prop} {Q : α → Prop} {n : ℕ∞} (hle : ∀ o, P o → w o ≤ n)
    (hC : ∀ o, ¬C o → w o = 0) :
    ∀ {p : Prog E ε α}, p.Meets P Q → p.Last C → uses w p ≤ n
  | ret _, _, _ => zero_le
  | fail _, _, _ => zero_le
  | op o k, h, hlast => by
    refine uses_op_le (fun r => ?_) (hle o h.1)
    by_cases ho : C o
    · rw [uses_of_isDone (hlast.1 ho r), add_zero]
      exact hle o h.1
    · rw [hC o ho, zero_add]
      exact uses_le_of_last hle hC (h.2 r) (hlast.2 r)

/-! ## What every path comes to -/

/-- Every path whose answers satisfy `A` comes to an operation of `C`. -/
def Eventually (A : (o : E.Op) → E.Resp o → Prop) (C : E.Op → Prop) : Prog E ε α → Prop
  | ret _ => False
  | fail _ => False
  | op o k => C o ∨ ∀ r, A o r → Eventually A C (k r)

variable {A : (o : E.Op) → E.Resp o → Prop} {C : E.Op → Prop}

theorem Eventually.mapErr {g : ε → ε'} :
    ∀ {p : Prog E ε α}, p.Eventually A C → (p.mapErr g).Eventually A C
  | op _ _, h => h.imp_right fun h r hr => Eventually.mapErr (h r hr)

/-- An operation of `C` in the first part. -/
theorem Eventually.bind {f : α → Prog E ε β} :
    ∀ {p : Prog E ε α}, p.Eventually A C → (p >>= f).Eventually A C
  | op _ _, h => h.imp_right fun h r hr => Eventually.bind (h r hr)

end Prog

/-! ## Budgets of a system -/

namespace ActorSystem

variable {E : Signature} {ε A M : Type} {L O W : Type*} [DecidableEq A]
variable (wm : M → ℕ∞) (wo : L → E.Op → ℕ∞) (pot : W → ℕ∞)

/-- The weight of messages. -/
def weighMail (l : List M) : ℕ∞ := (l.map wm).sum

/-- The most the futures of a list can spend. -/
noncomputable def weighFutures (l : List (Future E ε L)) : ℕ∞ :=
  (l.map fun f => f.prog.uses (wo f.label)).sum

/-- What a reaction leaves to be spent, and the weight of its state. -/
noncomputable def Reaction.cost (r : Reaction E ε M L W) : ℕ∞ :=
  weighMail wm r.casts + weighFutures wo r.futures + pot r.world

/-- What there is to be spent, and the weight of the state. -/
noncomputable def Config.cost (c : Config E ε M L W) : ℕ∞ :=
  weighMail wm c.mail + weighFutures wo c.futures + pot c.world

variable {wm wo pot}

@[simp] theorem weighMail_append (l l' : List M) :
    weighMail wm (l ++ l') = weighMail wm l + weighMail wm l' := by
  simp [weighMail]

@[simp] theorem weighMail_cons (m : M) (l : List M) :
    weighMail wm (m :: l) = wm m + weighMail wm l := by
  simp [weighMail]

@[simp] theorem weighMail_nil : weighMail wm [] = 0 := rfl

@[simp] theorem weighFutures_append (l l' : List (Future E ε L)) :
    weighFutures wo (l ++ l') = weighFutures wo l + weighFutures wo l' := by
  simp [weighFutures]

@[simp] theorem weighFutures_cons (f : Future E ε L) (l : List (Future E ε L)) :
    weighFutures wo (f :: l) = f.prog.uses (wo f.label) + weighFutures wo l := by
  simp [weighFutures]

@[simp] theorem weighFutures_nil : weighFutures wo ([] : List (Future E ε L)) = 0 := rfl

theorem cost_react (mail : List M) (futures : List (Future E ε L)) (r : Reaction E ε M L W) :
    (react mail futures r).cost wm wo pot =
      weighMail wm mail + weighFutures wo futures + Reaction.cost wm wo pot r := by
  simp only [Config.cost, Reaction.cost, react, weighMail_append, weighFutures_append]
  abel

variable (wm wo pot) in
/-- Every handling, operation and return spends what it consumes, or raises the cap. -/
structure Affords (S : ActorSystem E ε A M L O W) (IW : W → Prop) (IM : M → Prop)
    (IT : Future E ε L → Prop) (cap : W → ℕ) : Prop where
  handle : ∀ o m w, IW w → IM m → Reaction.cost wm wo pot (S.handle o m w) + cap w ≤
    wm m + pot w + cap (S.handle o m w).world
  perform : ∀ l o k w, IW w → IT ⟨l, .op o k⟩ →
    Reaction.cost wm wo pot (S.perform l o w).2 + cap w ≤
      wo l o + pot w + cap (S.perform l o w).2.world
  finish : ∀ l x w r, IW w → IT ⟨l, .ofExcept x⟩ → S.finish l x w = some r →
    Reaction.cost wm wo pot r + cap w ≤ pot w + cap r.world

variable {S : ActorSystem E ε A M L O W} {IW : W → Prop} {IM : M → Prop}
  {IT : Future E ε L → Prop} {cap : W → ℕ} {c c' : Config E ε M L W} {ch : Choice A M O}

/-- From a reaction to the whole : `a` is what the step does not touch, `u` what it consumes
and `s` what it leaves. -/
theorem cost_le_cap {a u b s : ℕ∞} {m n : ℕ} (hc : a + u + b ≤ m) (hr : s + m ≤ u + b + n) :
    a + s ≤ n := by
  have h : a + s + m ≤ n + m :=
    calc a + s + m = a + (s + m) := add_assoc _ _ _
      _ ≤ a + (u + b + n) := add_le_add_right hr _
      _ = (a + u + b) + n := by abel
      _ ≤ m + n := add_le_add_left hc _
      _ = n + m := add_comm _ _
  exact (ENat.add_le_add_iff_right (ENat.natCast_ne_top m)).1 h

/-- A step stays within the cap. -/
theorem Affords.step (hS : Affords wm wo pot S IW IM IT cap) (hall : c.All IW IM IT)
    (hin : ∀ m, ch = .inject m → wm m = 0) (hc : c.cost wm wo pot ≤ cap c.world)
    (h : S.Step c ch c') : c'.cost wm wo pot ≤ cap c'.world := by
  cases h with
  | inject m =>
    simpa [Config.cost, hin m rfl] using hc
  | @deliver a o l₁ l₂ m hmail hfirst hdest =>
    have hm : IM m := hall.mail m (by simp [hmail])
    rw [cost_react]
    refine cost_le_cap (u := wm m) (b := pot c.world) ?_
      (hS.handle o m c.world hall.world hm)
    refine le_trans (le_of_eq ?_) hc
    simp only [Config.cost, hmail, weighMail_append, weighMail_cons]
    abel
  | @finish t₁ t₂ l x r hfut hfin =>
    have ht : IT ⟨l, .ofExcept x⟩ := hall.futures _ (by simp [hfut])
    have hr := hS.finish l x c.world r hall.world ht hfin
    rw [cost_react]
    refine cost_le_cap (u := 0) (b := pot c.world) ?_ (by rw [zero_add]; exact hr)
    refine le_trans (le_of_eq ?_) hc
    simp only [Config.cost, hfut, weighFutures_append, weighFutures_cons,
      Prog.uses_of_isDone (Prog.isDone_ofExcept x)]
    abel
  | @perform t₁ t₂ l o k hfut =>
    have ht : IT ⟨l, .op o k⟩ := hall.futures _ (by simp [hfut])
    rw [cost_react]
    refine cost_le_cap (u := wo l o) (b := pot c.world) ?_
      (hS.perform l o k c.world hall.world ht)
    refine le_trans ?_ hc
    simp only [Config.cost, hfut, weighFutures_append, weighFutures_cons]
    have hop := Prog.add_uses_le (w := wo l) o k (S.perform l o c.world).1
    calc weighMail wm c.mail + (weighFutures wo t₁ +
            (Prog.uses (wo l) (k (S.perform l o c.world).1) + weighFutures wo t₂)) + wo l o +
            pot c.world
        = (wo l o + Prog.uses (wo l) (k (S.perform l o c.world).1)) +
            (weighMail wm c.mail + weighFutures wo t₁ + weighFutures wo t₂ + pot c.world) := by abel
      _ ≤ Prog.uses (wo l) (.op o k) +
            (weighMail wm c.mail + weighFutures wo t₁ + weighFutures wo t₂ + pot c.world) :=
          add_le_add_left hop _
      _ = _ := by abel

/-- A run stays within the cap. -/
theorem Affords.run (hkeeps : S.Keeps IW IM IT) (hS : Affords wm wo pot S IW IM IT cap) :
    ∀ {chs : List (Choice A M O)} {c c' : Config E ε M L W}, c.All IW IM IT →
      (∀ m, .inject m ∈ chs → IM m ∧ wm m = 0) → c.cost wm wo pot ≤ cap c.world →
      S.run c chs = some c' → c'.cost wm wo pot ≤ cap c'.world
  | [], _, _, _, _, hc, h => by
    cases h
    exact hc
  | ch :: chs, c, c', hall, hin, hc, h => by
    obtain ⟨d, hd, hrun⟩ := run_cons h
    have hfirst : ∀ m, ch = .inject m → IM m ∧ wm m = 0 := fun m hm => hin m (by simp [hm])
    exact Affords.run hkeeps hS (hkeeps.step hall (fun m hm => (hfirst m hm).1) hd)
      (fun m hm => hin m (List.mem_cons_of_mem _ hm))
      (hS.step hall (fun m hm => (hfirst m hm).2) hc hd) hrun

/-! ## What a run was given -/

/-- What the messages of a run from outside weigh. -/
def weighInjected (wm : M → ℕ∞) (chs : List (Choice A M O)) : ℕ∞ :=
  (chs.map fun
    | .inject m => wm m
    | _ => 0).sum

variable (wm) (wf : Future E ε L → ℕ∞) (pot)

/-- What the messages, the futures and the state of a reaction are worth. -/
def Reaction.worth (r : Reaction E ε M L W) : ℕ∞ :=
  weighMail wm r.casts + (r.futures.map wf).sum + pot r.world

/-- What everything there is is worth. -/
def Config.worth (c : Config E ε M L W) : ℕ∞ :=
  weighMail wm c.mail + (c.futures.map wf).sum + pot c.world

/-- Nothing the system does makes more of what there is. -/
structure Conserves (S : ActorSystem E ε A M L O W) (IW : W → Prop) (IM : M → Prop)
    (IT : Future E ε L → Prop) : Prop where
  handle : ∀ o m w, IW w → IM m → Reaction.worth wm pot wf (S.handle o m w) ≤ wm m + pot w
  perform : ∀ l o k w, IW w → IT ⟨l, .op o k⟩ →
    wf ⟨l, k (S.perform l o w).1⟩ + Reaction.worth wm pot wf (S.perform l o w).2 ≤
      wf ⟨l, .op o k⟩ + pot w
  finish : ∀ l x w r, IW w → IT ⟨l, .ofExcept x⟩ → S.finish l x w = some r →
    Reaction.worth wm pot wf r ≤ wf ⟨l, .ofExcept x⟩ + pot w

variable {wm wf pot}

theorem worth_react (mail : List M) (futures : List (Future E ε L)) (r : Reaction E ε M L W) :
    (react mail futures r).worth wm pot wf =
      weighMail wm mail + (futures.map wf).sum + Reaction.worth wm pot wf r := by
  simp only [Config.worth, Reaction.worth, react, weighMail_append, List.map_append,
    List.sum_append]
  abel

/-- A step that takes nothing from outside makes nothing. -/
theorem Conserves.step (hS : Conserves wm pot wf S IW IM IT) (hall : c.All IW IM IT)
    (h : S.Step c ch c') :
    c'.worth wm pot wf ≤ c.worth wm pot wf + weighInjected wm [ch] := by
  cases h with
  | inject m =>
    simp only [Config.worth, weighInjected, weighMail_append, weighMail_cons, weighMail_nil,
      List.map_cons, List.map_nil, List.sum_cons, List.sum_nil]
    exact le_of_eq (by abel)
  | @deliver a o l₁ l₂ m hmail hfirst hdest =>
    have hm : IM m := hall.mail m (by simp [hmail])
    rw [worth_react]
    calc _ ≤ weighMail wm (l₁ ++ l₂) + (c.futures.map wf).sum + (wm m + pot c.world) :=
          add_le_add_right (hS.handle o m c.world hall.world hm) _
      _ = _ := by
          simp only [Config.worth, weighInjected, hmail, weighMail_append, weighMail_cons,
            List.map_cons, List.map_nil, List.sum_cons, List.sum_nil]
          abel
  | @finish t₁ t₂ l x r hfut hfin =>
    have ht : IT ⟨l, .ofExcept x⟩ := hall.futures _ (by simp [hfut])
    rw [worth_react]
    calc _ ≤ weighMail wm c.mail + ((t₁ ++ t₂).map wf).sum +
            (wf ⟨l, .ofExcept x⟩ + pot c.world) :=
          add_le_add_right (hS.finish l x c.world r hall.world ht hfin) _
      _ = _ := by
          simp only [Config.worth, weighInjected, hfut, List.map_append, List.sum_append,
            List.map_cons, List.map_nil, List.sum_cons, List.sum_nil]
          abel
  | @perform t₁ t₂ l o k hfut =>
    have ht : IT ⟨l, .op o k⟩ := hall.futures _ (by simp [hfut])
    rw [worth_react]
    calc _ = weighMail wm c.mail + ((t₁ ++ t₂).map wf).sum +
            (wf ⟨l, k (S.perform l o c.world).1⟩ +
              Reaction.worth wm pot wf (S.perform l o c.world).2) := by
          simp only [List.map_append, List.sum_append, List.map_cons, List.sum_cons]
          abel
      _ ≤ weighMail wm c.mail + ((t₁ ++ t₂).map wf).sum + (wf ⟨l, .op o k⟩ + pot c.world) :=
          add_le_add_right (hS.perform l o k c.world hall.world ht) _
      _ = _ := by
          simp only [Config.worth, weighInjected, hfut, List.map_append, List.sum_append,
            List.map_cons, List.map_nil, List.sum_cons, List.sum_nil]
          abel

theorem weighInjected_cons (chs : List (Choice A M O)) :
    weighInjected wm (ch :: chs) = weighInjected wm [ch] + weighInjected wm chs := by
  simp [weighInjected]

/-- A run makes nothing of what it was not given. -/
theorem Conserves.run (hkeeps : S.Keeps IW IM IT) (hS : Conserves wm pot wf S IW IM IT) :
    ∀ {chs : List (Choice A M O)} {c c' : Config E ε M L W}, c.All IW IM IT →
      (∀ m, .inject m ∈ chs → IM m) → S.run c chs = some c' →
      c'.worth wm pot wf ≤ c.worth wm pot wf + weighInjected wm chs
  | [], _, _, _, _, h => by
    cases h
    exact le_self_add
  | ch :: chs, c, c', hall, hin, h => by
    obtain ⟨d, hd, hrun⟩ := run_cons h
    have hdall : d.All IW IM IT := hkeeps.step hall (fun m hm => hin m (by simp [hm])) hd
    rw [weighInjected_cons, ← add_assoc]
    exact (Conserves.run hkeeps hS hdall (fun m hm => hin m (List.mem_cons_of_mem _ hm))
      hrun).trans (add_le_add_left (hS.step hall hd) _)

/-! ## Errands of a system -/

variable (done : W → Prop) (B : M → Prop) (V : L → (o : E.Op) → E.Resp o → Prop)
  (C : L → E.Op → Prop)

/-- The errand is done, a message of `B` has it, or a future comes to an operation of `C`. -/
def Reaction.Carries (r : Reaction E ε M L W) : Prop :=
  done r.world ∨ (∃ m ∈ r.casts, B m) ∨
    ∃ f ∈ r.futures, f.prog.Eventually (V f.label) (C f.label)

/-- The errand is done, or is carried by something in flight. -/
def Config.Carries (c : Config E ε M L W) : Prop :=
  done c.world ∨ (∃ m ∈ c.mail, B m) ∨
    ∃ f ∈ c.futures, f.prog.Eventually (V f.label) (C f.label)

/-- Whoever has the errand does it or hands it on, and what is done stays done. -/
structure Delivers (S : ActorSystem E ε A M L O W) (IW : W → Prop) (IM : M → Prop) : Prop where
  handle_done : ∀ o m w, done w → done (S.handle o m w).world
  perform_done : ∀ l o w, done w → done (S.perform l o w).2.world
  finish_done : ∀ l x w r, done w → S.finish l x w = some r → done r.world
  handle : ∀ o m w, IW w → IM m → B m → Reaction.Carries done B V C (S.handle o m w)
  perform : ∀ l o w, C l o → done (S.perform l o w).2.world ∨ ∃ m ∈ (S.perform l o w).2.casts, B m

variable (S) in
/-- The operation that a choice performs is answered as `V` allows. -/
def Answers (c : Config E ε M L W) (ch : Choice A M O) : Prop :=
  ∀ i l o k, ch = .poll i → c.futures[i]? = some ⟨l, .op o k⟩ → V l o (S.perform l o c.world).1

variable {done B V C}

theorem Reaction.Carries.react {r : Reaction E ε M L W} (h : Reaction.Carries done B V C r)
    (mail : List M) (futures : List (Future E ε L)) :
    (react mail futures r).Carries done B V C := by
  rcases h with h | ⟨m, hm, hB⟩ | ⟨f, hf, hC⟩
  · exact Or.inl h
  · exact Or.inr (Or.inl ⟨m, List.mem_append_right _ hm, hB⟩)
  · exact Or.inr (Or.inr ⟨f, List.mem_append_right _ hf, hC⟩)

/-- A step keeps the errand. -/
theorem Delivers.step (hS : Delivers done B V C S IW IM) (hall : c.All IW IM IT)
    (hans : S.Answers V c ch) (hc : c.Carries done B V C) (h : S.Step c ch c') :
    c'.Carries done B V C := by
  cases h with
  | inject m =>
    refine hc.imp_right (Or.imp_left ?_)
    rintro ⟨m', hm', hB⟩
    exact ⟨m', List.mem_append_left _ hm', hB⟩
  | @deliver a o l₁ l₂ m hmail hfirst hdest =>
    rcases hc with hdone | ⟨m', hm', hB⟩ | ⟨f, hf, hC⟩
    · exact Or.inl (hS.handle_done o m c.world hdone)
    · rw [hmail, List.mem_append, List.mem_cons] at hm'
      rcases hm' with hm' | rfl | hm'
      · exact Or.inr (Or.inl ⟨m', by simp [ActorSystem.react, hm'], hB⟩)
      · have hm : IM m' := hall.mail m' (by simp [hmail])
        exact (hS.handle o m' c.world hall.world hm hB).react _ _
      · exact Or.inr (Or.inl ⟨m', by simp [ActorSystem.react, hm'], hB⟩)
    · exact Or.inr (Or.inr ⟨f, List.mem_append_left _ hf, hC⟩)
  | @finish t₁ t₂ l x r hfut hfin =>
    rcases hc with hdone | ⟨m', hm', hB⟩ | ⟨f, hf, hC⟩
    · exact Or.inl (hS.finish_done l x c.world r hdone hfin)
    · exact Or.inr (Or.inl ⟨m', List.mem_append_left _ hm', hB⟩)
    · rw [hfut, List.mem_append, List.mem_cons] at hf
      rcases hf with hf | rfl | hf
      · exact Or.inr (Or.inr ⟨f, by simp [ActorSystem.react, hf], hC⟩)
      · cases x <;> exact hC.elim
      · exact Or.inr (Or.inr ⟨f, by simp [ActorSystem.react, hf], hC⟩)
  | @perform t₁ t₂ l o k hfut =>
    rcases hc with hdone | ⟨m', hm', hB⟩ | ⟨f, hf, hC⟩
    · exact Or.inl (hS.perform_done l o c.world hdone)
    · exact Or.inr (Or.inl ⟨m', List.mem_append_left _ hm', hB⟩)
    · rw [hfut, List.mem_append, List.mem_cons] at hf
      rcases hf with hf | rfl | hf
      · exact Or.inr (Or.inr ⟨f, by simp [ActorSystem.react, hf], hC⟩)
      · rcases hC with hC | hnext
        · rcases hS.perform l o c.world hC with hdone | ⟨m, hm, hB⟩
          · exact Or.inl hdone
          · exact Or.inr (Or.inl ⟨m, List.mem_append_right _ hm, hB⟩)
        · have hr := hans t₁.length l o k rfl (by simp [hfut])
          exact Or.inr (Or.inr ⟨⟨l, k (S.perform l o c.world).1⟩, by simp [ActorSystem.react],
            hnext _ hr⟩)
      · exact Or.inr (Or.inr ⟨f, by simp [ActorSystem.react, hf], hC⟩)

/-- With nothing in flight the errand is done. -/
theorem Config.Carries.done_of_quiet (h : c.Carries done B V C) (hquiet : c.Quiet) :
    done c.world := by
  rcases h with h | ⟨m, hm, -⟩ | ⟨f, hf, -⟩
  · exact h
  · rw [hquiet.1] at hm
    cases hm
  · rw [hquiet.2] at hf
    cases hf

end ActorSystem
