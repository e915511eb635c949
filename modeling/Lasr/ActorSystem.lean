import Lasr.Prog
import Mathlib.Data.List.Basic

/-!
# Actors with pools of futures

An actor takes the messages of its mailbox in the order they were cast, and its handling
of a message changes the state, casts messages and starts futures (`Reaction`). A future is
a program with a label; it is polled one operation at a time, and what it returns is handed
to its pool (`finish`). A panic is a failure that no pool takes : the future stays.

All mailboxes are one list in the order of the casts. An actor takes the first message that
is for it, so each mailbox is first in, first out. A run is a list of choices : which
message comes in from outside, which actor acts, which future is polled.

`ActorSystem.Step` says once what a choice can do. `Keeps` is the invariant rule : what
every handling, operation and return keeps of the state, the messages and the futures holds
in every state of a run.
-/

set_option linter.unusedSectionVars false

/-- A future : its label, and what is left of it. -/
structure Future (E : Signature) (ε : Type) (L : Type*) where
  /-- Whose future it is. -/
  label : L
  /-- What is left to do. -/
  prog : Prog E ε Unit

/-- What a step leads to : the state, the messages cast and the futures started. -/
structure Reaction (E : Signature) (ε M : Type) (L W : Type*) where
  world : W
  casts : List M
  futures : List (Future E ε L)

/-- A system of actors `A` with messages `M`, futures labelled by `L` and state `W`. What a
handling needs from outside is an `O`. -/
structure ActorSystem (E : Signature) (ε A M : Type) (L O W : Type*) where
  /-- The actor a message is for. -/
  dest : M → A
  /-- The handling of a message. -/
  handle : O → M → W → Reaction E ε M L W
  /-- An operation of a future, with its answer. -/
  perform : L → (o : E.Op) → W → E.Resp o × Reaction E ε M L W
  /-- What a pool does with the result of a future. -/
  finish : L → Except ε Unit → W → Option (Reaction E ε M L W)

namespace ActorSystem

variable {E : Signature} {ε A M : Type} {L O W : Type*}

/-- The state, the messages in flight and the futures. -/
@[ext] structure Config (E : Signature) (ε M : Type) (L W : Type*) where
  world : W
  mail : List M
  futures : List (Future E ε L)

/-- Nothing is in flight. -/
def Config.Quiet (c : Config E ε M L W) : Prop :=
  c.mail = [] ∧ c.futures = []

/-- A choice of the scheduler, or of the outside. -/
inductive Choice (A M : Type) (O : Type*) where
  /-- A message from outside. -/
  | inject (m : M)
  /-- An actor takes its next message. -/
  | deliver (a : A) (o : O)
  /-- A future is polled. -/
  | poll (i : ℕ)

/-- Take a reaction in, with the messages and the futures that remain. -/
def react (mail : List M) (futures : List (Future E ε L)) (r : Reaction E ε M L W) :
    Config E ε M L W :=
  ⟨r.world, mail ++ r.casts, futures ++ r.futures⟩

variable [DecidableEq A] (S : ActorSystem E ε A M L O W)

/-- One step, if the choice is possible. -/
def step (c : Config E ε M L W) : Choice A M O → Option (Config E ε M L W)
  | .inject m => some { c with mail := c.mail ++ [m] }
  | .deliver a o =>
    match c.mail.find? (S.dest · = a) with
    | some m => some (react (c.mail.eraseP (S.dest · = a)) c.futures (S.handle o m c.world))
    | none => none
  | .poll i =>
    match c.futures[i]? with
    | some ⟨l, .ret u⟩ => (S.finish l (.ok u) c.world).map (react c.mail (c.futures.eraseIdx i))
    | some ⟨l, .fail e⟩ =>
      (S.finish l (.error e) c.world).map (react c.mail (c.futures.eraseIdx i))
    | some ⟨l, .op o k⟩ =>
      let (r, reaction) := S.perform l o c.world
      some (react c.mail (c.futures.set i ⟨l, k r⟩) reaction)
    | none => none

/-- A run, if every choice of it is possible. -/
def run : Config E ε M L W → List (Choice A M O) → Option (Config E ε M L W)
  | c, [] => some c
  | c, ch :: chs => (S.step c ch).bind fun c' => run c' chs

/-- What a choice can do. -/
inductive Step (c : Config E ε M L W) : Choice A M O → Config E ε M L W → Prop
  | inject (m : M) : Step c (.inject m) { c with mail := c.mail ++ [m] }
  | deliver {a : A} {o : O} {l₁ l₂ : List M} {m : M} (hmail : c.mail = l₁ ++ m :: l₂)
      (hfirst : ∀ m' ∈ l₁, S.dest m' ≠ a) (hdest : S.dest m = a) :
      Step c (.deliver a o) (react (l₁ ++ l₂) c.futures (S.handle o m c.world))
  | finish {t₁ t₂ : List (Future E ε L)} {l : L} {x : Except ε Unit}
      {r : Reaction E ε M L W} (hfut : c.futures = t₁ ++ ⟨l, .ofExcept x⟩ :: t₂)
      (hfin : S.finish l x c.world = some r) :
      Step c (.poll t₁.length) (react c.mail (t₁ ++ t₂) r)
  | perform {t₁ t₂ : List (Future E ε L)} {l : L} {o : E.Op}
      {k : E.Resp o → Prog E ε Unit} (hfut : c.futures = t₁ ++ ⟨l, .op o k⟩ :: t₂) :
      Step c (.poll t₁.length) (react c.mail (t₁ ++ ⟨l, k (S.perform l o c.world).1⟩ :: t₂)
        (S.perform l o c.world).2)

variable {S} {c c' : Config E ε M L W} {ch : Choice A M O} {chs : List (Choice A M O)}

/-- The first element that `p` holds of, with what is around it. -/
theorem find?_split {α : Type*} {p : α → Bool} {x : α} :
    ∀ {l : List α}, l.find? p = some x →
      ∃ l₁ l₂, l = l₁ ++ x :: l₂ ∧ l.eraseP p = l₁ ++ l₂ ∧ (∀ y ∈ l₁, ¬p y = true) ∧ p x = true
  | y :: l, h => by
    by_cases hy : p y = true
    · rw [List.find?_cons_of_pos hy] at h
      cases h
      exact ⟨[], l, rfl, List.eraseP_cons_of_pos hy, (fun _ h => nomatch h), hy⟩
    · rw [List.find?_cons_of_neg hy] at h
      obtain ⟨l₁, l₂, rfl, herase, hfirst, hx⟩ := find?_split h
      refine ⟨y :: l₁, l₂, rfl, ?_, List.forall_mem_cons.2 ⟨hy, hfirst⟩, hx⟩
      rw [List.eraseP_cons_of_neg hy, herase]
      rfl

/-- A list around the element at an index. -/
theorem getElem?_split {α : Type*} {x : α} :
    ∀ {l : List α} {i : ℕ}, l[i]? = some x →
      ∃ l₁ l₂, l = l₁ ++ x :: l₂ ∧ i = l₁.length
  | y :: l, 0, h => by
    cases h
    exact ⟨[], l, rfl, rfl⟩
  | y :: l, i + 1, h => by
    obtain ⟨l₁, l₂, rfl, rfl⟩ := getElem?_split (l := l) (i := i) (by simpa using h)
    exact ⟨y :: l₁, l₂, rfl, rfl⟩

theorem eraseIdx_split {α : Type*} (l₁ l₂ : List α) (x : α) :
    (l₁ ++ x :: l₂).eraseIdx l₁.length = l₁ ++ l₂ := by
  rw [List.eraseIdx_append_of_length_le le_rfl, Nat.sub_self, List.eraseIdx_cons_zero]

/-- Every step is one of the four. -/
theorem step_sound (h : S.step c ch = some c') : S.Step c ch c' := by
  cases ch with
  | inject m =>
    cases h
    exact .inject m
  | deliver a o =>
    simp only [step] at h
    split at h
    · next m hm =>
      obtain ⟨l₁, l₂, hl, herase, hfirst, hdest⟩ := find?_split hm
      cases h
      rw [herase]
      exact .deliver hl (by simpa using hfirst) (by simpa using hdest)
    · cases h
  | poll i =>
    simp only [step] at h
    split at h
    · next l u ht =>
      obtain ⟨t₁, t₂, hl, rfl⟩ := getElem?_split ht
      obtain ⟨r, hr, rfl⟩ := Option.map_eq_some_iff.1 h
      rw [hl, eraseIdx_split]
      exact .finish (x := .ok u) hl hr
    · next l e ht =>
      obtain ⟨t₁, t₂, hl, rfl⟩ := getElem?_split ht
      obtain ⟨r, hr, rfl⟩ := Option.map_eq_some_iff.1 h
      rw [hl, eraseIdx_split]
      exact .finish (x := .error e) hl hr
    · next l o k ht =>
      obtain ⟨t₁, t₂, hl, rfl⟩ := getElem?_split ht
      cases h
      rw [hl, List.set_append_right t₁.length _ le_rfl, Nat.sub_self, List.set_cons_zero]
      exact .perform hl
    · cases h

/-! ## Runs -/

theorem run_cons (h : S.run c (ch :: chs) = some c') :
    ∃ d, S.Step c ch d ∧ S.run d chs = some c' := by
  obtain ⟨d, hd, hrun⟩ := Option.bind_eq_some_iff.1 h
  exact ⟨d, step_sound hd, hrun⟩

section Along

variable (S) (P : Config E ε M L W → Choice A M O → Prop)

/-- A run every choice of which meets a condition on the state before it. -/
def Along : Config E ε M L W → List (Choice A M O) → Prop
  | _, [] => True
  | c, ch :: chs => P c ch ∧
    match S.step c ch with
    | some c' => Along c' chs
    | none => True

instance Along.decidable [∀ c ch, Decidable (P c ch)] :
    ∀ chs c, Decidable (S.Along P c chs)
  | [], _ => .isTrue trivial
  | ch :: chs, c =>
    match h : S.step c ch with
    | some c' =>
      have := Along.decidable chs c'
      decidable_of_iff (P c ch ∧ S.Along P c' chs) (by simp [Along, h])
    | none => decidable_of_iff (P c ch) (by simp [Along, h])

end Along

variable {P P' : Config E ε M L W → Choice A M O → Prop}

theorem Along.mono (hP : ∀ c ch, P c ch → P' c ch) :
    ∀ {chs : List (Choice A M O)} {c : Config E ε M L W}, S.Along P c chs → S.Along P' c chs
  | [], _, _ => trivial
  | ch :: chs, c, h => by
    refine ⟨hP c ch h.1, ?_⟩
    have hrest := h.2
    cases hstep : S.step c ch with
    | none => trivial
    | some c' =>
      rw [hstep] at hrest
      exact Along.mono hP hrest

variable (S) in
/-- A run some choice of which meets a condition on the state before it. -/
def Sometime (P : Config E ε M L W → Choice A M O → Prop) :
    Config E ε M L W → List (Choice A M O) → Prop
  | _, [] => False
  | c, ch :: chs => P c ch ∨
    match S.step c ch with
    | some c' => Sometime P c' chs
    | none => False

/-- What holds of all that some choice of a run does holds along the run. -/
theorem along_of_sometime {α : Type*} {R : α → Config E ε M L W → Choice A M O → Prop}
    {Q : α → Prop} : ∀ {chs : List (Choice A M O)} {c : Config E ε M L W},
      (∀ x, S.Sometime (R x) c chs → Q x) → S.Along (fun c ch => ∀ x, R x c ch → Q x) c chs
  | [], _, _ => trivial
  | ch :: chs, c, h => by
    refine ⟨fun x hx => h x (Or.inl hx), ?_⟩
    cases hstep : S.step c ch with
    | none => trivial
    | some c' =>
      refine along_of_sometime fun x hx => h x (Or.inr ?_)
      rw [hstep]
      exact hx

/-- What every step keeps, a run keeps. -/
theorem run_induction {I : Config E ε M L W → Prop} :
    ∀ {chs : List (Choice A M O)} {c c' : Config E ε M L W},
      (∀ c, ∀ ch ∈ chs, ∀ c', I c → P c ch → S.Step c ch c' → I c') → I c → S.Along P c chs →
      S.run c chs = some c' → I c'
  | [], _, _, _, hI, _, h => by
    cases h
    exact hI
  | ch :: chs, c, c', hstep, hI, hP, h => by
    obtain ⟨d, hd, hrun⟩ := Option.bind_eq_some_iff.1 h
    have hrest := hP.2
    rw [hd] at hrest
    have hId : I d := hstep c ch (List.mem_cons_self ..) d hI hP.1 (step_sound hd)
    exact run_induction (fun c ch hch => hstep c ch (List.mem_cons_of_mem _ hch)) hId hrest hrun

/-! ## Invariants of the state, the messages and the futures -/

/-- A reaction whose state, messages and futures satisfy their invariants. -/
structure Reaction.Good (IW : W → Prop) (IM : M → Prop) (IT : Future E ε L → Prop)
    (r : Reaction E ε M L W) : Prop where
  world : IW r.world
  casts : ∀ m ∈ r.casts, IM m
  futures : ∀ t ∈ r.futures, IT t

/-- Every handling, operation and return keeps the invariants. -/
structure Keeps (S : ActorSystem E ε A M L O W) (IW : W → Prop) (IM : M → Prop)
    (IT : Future E ε L → Prop) : Prop where
  handle : ∀ o m w, IW w → IM m → Reaction.Good IW IM IT (S.handle o m w)
  perform : ∀ l o k w, IW w → IT ⟨l, .op o k⟩ →
    Reaction.Good IW IM IT (S.perform l o w).2 ∧ IT ⟨l, k (S.perform l o w).1⟩
  finish : ∀ l x w r, IW w → IT ⟨l, .ofExcept x⟩ → S.finish l x w = some r →
    Reaction.Good IW IM IT r

/-- They keep the invariants as long as the operations performed satisfy `C`. -/
structure KeepsWhen (S : ActorSystem E ε A M L O W) (C : E.Op → Prop) (IW : W → Prop)
    (IM : M → Prop) (IT : Future E ε L → Prop) : Prop where
  handle : ∀ o m w, IW w → IM m → Reaction.Good IW IM IT (S.handle o m w)
  perform : ∀ l o k w, C o → IW w → IT ⟨l, .op o k⟩ →
    Reaction.Good IW IM IT (S.perform l o w).2 ∧ IT ⟨l, k (S.perform l o w).1⟩
  finish : ∀ l x w r, IW w → IT ⟨l, .ofExcept x⟩ → S.finish l x w = some r →
    Reaction.Good IW IM IT r

/-- A choice performs the operation. -/
def Performs (o : E.Op) (c : Config E ε M L W) (ch : Choice A M O) : Prop :=
  ∃ i l k, ch = .poll i ∧ c.futures[i]? = some ⟨l, .op o k⟩

/-- The invariants hold of everything there is. -/
structure Config.All (IW : W → Prop) (IM : M → Prop) (IT : Future E ε L → Prop)
    (c : Config E ε M L W) : Prop where
  world : IW c.world
  mail : ∀ m ∈ c.mail, IM m
  futures : ∀ t ∈ c.futures, IT t

variable {IW : W → Prop} {IM : M → Prop} {IT : Future E ε L → Prop}

theorem Reaction.Good.all_react {r : Reaction E ε M L W} {mail : List M}
    {futures : List (Future E ε L)} (hr : Reaction.Good IW IM IT r) (hmail : ∀ m ∈ mail, IM m)
    (hfut : ∀ t ∈ futures, IT t) : (react mail futures r).All IW IM IT := by
  refine ⟨hr.world, fun m hm => ?_, fun t ht => ?_⟩
  · exact (List.mem_append.1 hm).elim (hmail m) (hr.casts m)
  · exact (List.mem_append.1 ht).elim (hfut t) (hr.futures t)

variable {C : E.Op → Prop}

/-- A step keeps the invariants when what comes in from outside satisfies them, and the
operation it performs satisfies `C`. -/
theorem KeepsWhen.step (hS : S.KeepsWhen C IW IM IT) (hc : c.All IW IM IT)
    (hin : ∀ m, ch = .inject m → IM m) (hC : ∀ o, Performs o c ch → C o) (h : S.Step c ch c') :
    c'.All IW IM IT := by
  cases h with
  | inject m =>
    refine ⟨hc.world, fun m' hm' => ?_, hc.futures⟩
    rcases List.mem_append.1 hm' with hm' | hm'
    · exact hc.mail m' hm'
    · rw [List.mem_singleton.1 hm']
      exact hin m rfl
  | @deliver a o l₁ l₂ m hmail hfirst hdest =>
    have hm : IM m := hc.mail m (by simp [hmail])
    refine (hS.handle o m _ hc.world hm).all_react (fun m' hm' => hc.mail m' ?_) hc.futures
    rw [hmail]
    simp only [List.mem_append, List.mem_cons] at hm' ⊢
    tauto
  | @finish t₁ t₂ l x r hfut hfin =>
    have ht : IT ⟨l, .ofExcept x⟩ := hc.futures _ (by simp [hfut])
    refine (hS.finish l x _ r hc.world ht hfin).all_react hc.mail fun t ht => hc.futures t ?_
    rw [hfut]
    simp only [List.mem_append, List.mem_cons] at ht ⊢
    tauto
  | @perform t₁ t₂ l o k hfut =>
    have ht : IT ⟨l, .op o k⟩ := hc.futures _ (by simp [hfut])
    have ho : C o := hC o ⟨t₁.length, l, k, rfl, by simp [hfut]⟩
    obtain ⟨hgood, hnext⟩ := hS.perform l o k _ ho hc.world ht
    refine hgood.all_react hc.mail fun t ht => ?_
    simp only [List.mem_append, List.mem_cons] at ht
    rcases ht with ht | rfl | ht
    · exact hc.futures t (by simp [hfut, ht])
    · exact hnext
    · exact hc.futures t (by simp [hfut, ht])

/-- A run keeps the invariants when what comes in from outside satisfies them, and the operations
performed satisfy `C`. -/
theorem KeepsWhen.run (hS : S.KeepsWhen C IW IM IT) (hc : c.All IW IM IT)
    (hin : ∀ m, .inject m ∈ chs → IM m) (hC : ∀ o, S.Sometime (Performs o) c chs → C o)
    (h : S.run c chs = some c') : c'.All IW IM IT :=
  run_induction (P := fun c ch => ∀ o, Performs o c ch → C o)
    (fun _ _ hch _ hall ho hstep => hS.step hall (fun m hm => hin m (hm ▸ hch)) ho hstep) hc
    (along_of_sometime hC) h

theorem Keeps.when (hS : S.Keeps IW IM IT) : S.KeepsWhen (fun _ => True) IW IM IT where
  handle := hS.handle
  perform l o k w _ := hS.perform l o k w
  finish := hS.finish

/-- A step keeps the invariants when what comes in from outside satisfies them. -/
theorem Keeps.step (hS : S.Keeps IW IM IT) (hc : c.All IW IM IT)
    (hin : ∀ m, ch = .inject m → IM m) (h : S.Step c ch c') : c'.All IW IM IT :=
  hS.when.step hc hin (fun _ _ => trivial) h

/-- A run keeps the invariants when what comes in from outside satisfies them. -/
theorem Keeps.run (hS : S.Keeps IW IM IT) :
    ∀ {chs : List (Choice A M O)} {c c' : Config E ε M L W}, c.All IW IM IT →
      (∀ m, .inject m ∈ chs → IM m) → S.run c chs = some c' → c'.All IW IM IT
  | [], _, _, hc, _, h => by
    cases h
    exact hc
  | ch :: chs, c, c', hc, hin, h => by
    obtain ⟨d, hd, hrun⟩ := run_cons h
    have hdall : d.All IW IM IT := hS.step hc (fun m hm => hin m (by simp [hm])) hd
    exact Keeps.run hS hdall (fun m hm => hin m (List.mem_cons_of_mem _ hm)) hrun

end ActorSystem
