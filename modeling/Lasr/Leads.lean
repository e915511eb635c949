import Lasr.ActorSystem

/-!
# A system left to itself

Beside a system there can be a store that the operations of the futures also act on, and that
may refuse one of them (`stepBeside`). A future at an operation that the store refuses is not
polled, and where it is all there is, nothing more happens (`halted_of_refused`). The system's
part of such a run is a run of the system alone (`run_of_runBeside`).

`ActorSystem.Leads` is what a system can get to with nothing from outside. A message at the
head of the mail can be delivered (`leads_deliver`), and the result of the future at the head of
its list can be taken by its pool (`leads_finish`). Where a handler does what the system does for
the operations of the future, it gets to where the program gets alone, with that handler and the
store (`Mirrors.leads`) : to its result, or to an operation that the store refuses.
-/

set_option linter.unusedSectionVars false

/-- What is left of a program that was attempted : its result, or the rest of it from an
operation that the store refuses. -/
def Outcome.Leaves {E : Signature} {ε α : Type} {B : Type*} (store : E.Op → B → Option B) (b : B) :
    Outcome E ε α → Prog E ε α → Prop
  | .done x, p => p = .ofExcept x
  | .stuck o, p => (∃ k, p = .op o k) ∧ store o b = none

/-- A handler with a store beside it. -/
def Handler.beside {E : Signature} {σ B : Type} (H : Handler E σ) (store : E.Op → B → Option B) :
    PartialHandler E (σ × B) :=
  fun o s => (store o s.2).map fun b => ((H o s.1).1, ((H o s.1).2, b))

section Beside

variable {E : Signature} {ε α : Type} {σ B : Type} {H : Handler E σ} {store : E.Op → B → Option B}
  {o : E.Op} {k : E.Resp o → Prog E ε α} {s : σ} {b b' : B}

theorem Prog.attempt_beside_some (h : store o b = some b') :
    (Prog.op o k).attempt (H.beside store) (s, b) =
      (k (H o s).1).attempt (H.beside store) ((H o s).2, b') := by
  have ho : H.beside store o (s, b) = some ((H o s).1, ((H o s).2, b')) := by
    simp only [Handler.beside, h, Option.map_some]
  exact attempt_op_some ho

theorem Prog.attempt_beside_none (h : store o b = none) :
    (Prog.op o k).attempt (H.beside store) (s, b) = (.stuck o, (s, b)) := by
  have ho : H.beside store o (s, b) = none := by
    simp only [Handler.beside, h, Option.map_none]
  exact attempt_op_none ho

end Beside

namespace ActorSystem

variable {E : Signature} {ε A M : Type} {O : Type*} [DecidableEq A]

/-! ## Runs beside a store -/

section Beside

variable {L W B : Type*} (S : ActorSystem E ε A M L O W) (store : E.Op → B → Option B)

/-- What a choice does to the store : the operation of the future that is polled, if there is
one. -/
def storeStep (futures : List (Future E ε L)) : Choice A M O → B → Option B
  | .poll i, b =>
    match futures[i]? with
    | some ⟨_, .op o _⟩ => store o b
    | _ => some b
  | _, b => some b

/-- One step with the store beside the system, if the choice is possible and the store does not
refuse it. -/
def stepBeside (s : Config E ε M L W × B) (ch : Choice A M O) : Option (Config E ε M L W × B) :=
  (S.step s.1 ch).bind fun c => (storeStep store s.1.futures ch s.2).map fun b => (c, b)

/-- A run with the store beside the system. -/
def runBeside : Config E ε M L W × B → List (Choice A M O) → Option (Config E ε M L W × B)
  | s, [] => some s
  | s, ch :: chs => (S.stepBeside store s ch).bind fun s' => runBeside s' chs

/-- The system gets from the one state to the other with nothing from outside. -/
def Leads (s s' : Config E ε M L W × B) : Prop :=
  ∃ chs, (∀ m, Choice.inject m ∉ chs) ∧ S.runBeside store s chs = some s'

/-- Nothing more happens without a message from outside. -/
def Halted (s : Config E ε M L W × B) : Prop :=
  ∀ ch : Choice A M O, (∀ m, ch ≠ .inject m) → S.stepBeside store s ch = none

variable {S store} {s s' s'' : Config E ε M L W × B} {c c' : Config E ε M L W} {b b' : B}
  {ch : Choice A M O}

theorem stepBeside_eq_some_iff : S.stepBeside store s ch = some s' ↔
    S.step s.1 ch = some s'.1 ∧ storeStep store s.1.futures ch s.2 = some s'.2 := by
  unfold stepBeside
  simp only [Option.bind_eq_some_iff, Option.map_eq_some_iff]
  constructor
  · rintro ⟨c, hc, b, hb, rfl⟩
    exact ⟨hc, hb⟩
  · rintro ⟨hc, hb⟩
    exact ⟨s'.1, hc, s'.2, hb, rfl⟩

/-- The system's part of a run beside a store is a run of the system. -/
theorem run_of_runBeside : ∀ {chs : List (Choice A M O)} {s : Config E ε M L W × B},
    S.runBeside store s chs = some s' → S.run s.1 chs = some s'.1
  | [], _, h => by
    cases h
    rfl
  | ch :: chs, s, h => by
    obtain ⟨t, ht, hrest⟩ := Option.bind_eq_some_iff.1 h
    exact Option.bind_eq_some_iff.2
      ⟨t.1, (stepBeside_eq_some_iff.1 ht).1, run_of_runBeside hrest⟩

theorem runBeside_append {l' : List (Choice A M O)} :
    ∀ {l : List (Choice A M O)} {s : Config E ε M L W × B},
      S.runBeside store s (l ++ l') =
        (S.runBeside store s l).bind fun s' => S.runBeside store s' l'
  | [], _ => rfl
  | ch :: l, s => by
    simp only [List.cons_append, runBeside, Option.bind_assoc]
    exact congrArg _ (funext fun s' => runBeside_append)

theorem Leads.refl (s : Config E ε M L W × B) : S.Leads store s s :=
  ⟨[], fun _ h => absurd h List.not_mem_nil, rfl⟩

theorem Leads.trans (h : S.Leads store s s') (h' : S.Leads store s' s'') :
    S.Leads store s s'' := by
  obtain ⟨l, hl, hrun⟩ := h
  obtain ⟨l', hl', hrun'⟩ := h'
  refine ⟨l ++ l', fun m hm => ?_, by rw [runBeside_append, hrun, Option.bind_some, hrun']⟩
  rcases List.mem_append.1 hm with hm | hm
  · exact hl m hm
  · exact hl' m hm

theorem leads_step (hch : ∀ m, ch ≠ .inject m) (hstep : S.step c ch = some c')
    (hstore : storeStep store c.futures ch b = some b') : S.Leads store (c, b) (c', b') := by
  have hboth : S.stepBeside store (c, b) ch = some (c', b') :=
    stepBeside_eq_some_iff.2 ⟨hstep, hstore⟩
  refine ⟨[ch], fun m hm => hch m (List.mem_singleton.1 hm).symm, ?_⟩
  rw [runBeside, hboth]
  rfl

/-- The first message is delivered. -/
theorem leads_deliver (o : O) {m : M} {w : W} {mail : List M} {futures : List (Future E ε L)} :
    S.Leads store (⟨w, m :: mail, futures⟩, b) (react mail futures (S.handle o m w), b) := by
  have hfind : (m :: mail).find? (S.dest · = S.dest m) = some m :=
    List.find?_cons_of_pos (decide_eq_true rfl)
  have herase : (m :: mail).eraseP (S.dest · = S.dest m) = mail :=
    List.eraseP_cons_of_pos (decide_eq_true rfl)
  have hstep : S.step ⟨w, m :: mail, futures⟩ (.deliver (S.dest m) o) =
      some (react mail futures (S.handle o m w)) := by
    simp only [step]
    rw [hfind, herase]
  exact leads_step (by rintro _ ⟨⟩) hstep rfl

/-- The result of the first future is taken. -/
theorem leads_finish {l : L} {x : Except ε Unit} {w : W} {mail : List M}
    {futures : List (Future E ε L)} {r : Reaction E ε M L W} (h : S.finish l x w = some r) :
    S.Leads store (⟨w, mail, ⟨l, .ofExcept x⟩ :: futures⟩, b) (react mail futures r, b) := by
  have hstep : S.step ⟨w, mail, ⟨l, .ofExcept x⟩ :: futures⟩ (.poll 0) =
      some (react mail futures r) := by
    cases x with
    | error e => exact congrArg (Option.map (react mail futures)) h
    | ok u => exact congrArg (Option.map (react mail futures)) h
  refine leads_step (by rintro _ ⟨⟩) hstep ?_
  cases x <;> rfl

/-- A system whose only future is at an operation that the store refuses. -/
theorem halted_of_refused {w : W} {l : L} {o : E.Op} {k : E.Resp o → Prog E ε Unit}
    (h : store o b = none) : S.Halted store (⟨w, [], [⟨l, .op o k⟩]⟩, b) := by
  rintro (m | ⟨a, o'⟩ | i) hch
  · exact absurd rfl (hch m)
  · rfl
  · cases i with
    | zero =>
      have hnone : storeStep (A := A) (M := M) (O := O) store [⟨l, .op o k⟩] (.poll 0) b =
          none := h
      unfold stepBeside
      rw [hnone]
      rfl
    | succ i => rfl

end Beside

section Mirrors

variable {L W : Type*} {σ B : Type} {S : ActorSystem E ε A M L O W} {store : E.Op → B → Option B}
  {l : L} {P : E.Op → Prop} {H : Handler E σ} {R : σ → W → List M → Prop}

/-- On the operations of `P` a handler does what the system does for a future of `l`, as far as
`R` sees it, and no other future is started. -/
structure Mirrors (S : ActorSystem E ε A M L O W) (l : L) (P : E.Op → Prop) (H : Handler E σ)
    (R : σ → W → List M → Prop) : Prop where
  answer : ∀ {o s w mail}, P o → R s w mail → (S.perform l o w).1 = (H o s).1
  futures : ∀ {o} w, P o → (S.perform l o w).2.futures = []
  state : ∀ {o s w mail}, P o → R s w mail →
    R (H o s).2 (S.perform l o w).2.world (mail ++ (S.perform l o w).2.casts)

/-- Where a handler does what the system does, the first future gets to where it gets alone. -/
theorem Mirrors.leads (h : S.Mirrors l P H R) {futures : List (Future E ε L)} {b' : B} {s' : σ}
    {x : Outcome E ε Unit} :
    ∀ {p : Prog E ε Unit} {s : σ} {b : B} {w : W} {mail : List M},
      p.Meets P (fun _ => True) → R s w mail →
      p.attempt (H.beside store) (s, b) = (x, (s', b')) →
      ∃ w' mail' q, R s' w' mail' ∧ x.Leaves store b' q ∧
        S.Leads store (⟨w, mail, ⟨l, p⟩ :: futures⟩, b) (⟨w', mail', ⟨l, q⟩ :: futures⟩, b')
  | .ret _, _, _, w, mail, _, hR, hx => by
    cases hx
    exact ⟨w, mail, _, hR, rfl, .refl _⟩
  | .fail _, _, _, w, mail, _, hR, hx => by
    cases hx
    exact ⟨w, mail, _, hR, rfl, .refl _⟩
  | .op o k, s, b, w, mail, hp, hR, hx => by
    cases hstore : store o b with
    | none =>
      rw [Prog.attempt_beside_none hstore] at hx
      cases hx
      exact ⟨w, mail, _, hR, ⟨⟨k, rfl⟩, hstore⟩, .refl _⟩
    | some b₁ =>
      rw [Prog.attempt_beside_some hstore] at hx
      have hstep : S.step ⟨w, mail, ⟨l, .op o k⟩ :: futures⟩ (.poll 0) =
          some ⟨(S.perform l o w).2.world, mail ++ (S.perform l o w).2.casts,
            ⟨l, k (S.perform l o w).1⟩ :: futures ++ (S.perform l o w).2.futures⟩ := rfl
      rw [h.answer hp.1 hR, h.futures w hp.1, List.append_nil] at hstep
      obtain ⟨w', mail', q, hR', hq, hrest⟩ :=
        h.leads (hp.2 (H o s).1) (h.state hp.1 hR) hx
      exact ⟨w', mail', q, hR', hq, (leads_step (by rintro _ ⟨⟩) hstep hstore).trans hrest⟩

end Mirrors

end ActorSystem
