import Lasr.Prog
import Mathlib.Logic.Function.Basic

/-!
# Edits of a keyed store

A store leads from keys to values. A change takes the value under one key, or a fresh one
where there is none, through an edit that may fail (`Change`). A move makes one change, or
two that both look at the store before either is made, the second being written last
(`Move`). `runMoves` makes a list of moves.

Each key has a history of its own : of a move at most one change decides the value under a
key (`Move.at`). So an invariant of the values follows from the edits alone
(`runMoves_keeps`), and so does a relation of the value before a run to the one after it
(`runMoves_related`).

`Prog.Computes` ties a program to such a pure description : from a given state it changes
nothing, and it returns exactly when the description has a value.
-/

set_option linter.unusedSectionVars false

/-- The change of one cell : the value there, or else `fresh`, goes through `edit`. -/
structure Change (K V E : Type) where
  /-- The cell. -/
  key : K
  /-- What stands in for a missing value. -/
  fresh : Option V
  /-- What is done to the value. -/
  edit : E

/-- One change, or two made from the same store. -/
inductive Move (K V E : Type) where
  | one (c : Change K V E)
  | pair (c d : Change K V E)

section Moves

variable {K V E : Type} [DecidableEq K] (apply : E → V → Option V)

/-- The value a change makes of what a cell holds. -/
def Change.step (c : Change K V E) (o : Option V) : Option V :=
  (o.or c.fresh).bind (apply c.edit)

/-- The changes of a move. -/
def Move.changes : Move K V E → List (Change K V E)
  | .one c => [c]
  | .pair c d => [c, d]

/-- The change that decides what a move leaves under `k`. -/
def Move.at (k : K) : Move K V E → Option (Change K V E)
  | .one c => if c.key = k then some c else none
  | .pair c d => if d.key = k then some d else if c.key = k then some c else none

/-- The store after a move. -/
def Move.run (s : K → Option V) : Move K V E → Option (K → Option V)
  | .one c => (c.step apply (s c.key)).map fun v => Function.update s c.key (some v)
  | .pair c d => (c.step apply (s c.key)).bind fun v =>
      (d.step apply (s d.key)).map fun w =>
        Function.update (Function.update s c.key (some v)) d.key (some w)

/-- The store after a list of moves. -/
def runMoves : List (Move K V E) → (K → Option V) → Option (K → Option V)
  | [], s => some s
  | m :: ms, s => (m.run apply s).bind (runMoves ms)

variable {apply} {s s' : K → Option V}

theorem Change.step_eq_some {c : Change K V E} {o : Option V} {w : V} :
    c.step apply o = some w ↔
      ∃ v, (o = some v ∨ o = none ∧ c.fresh = some v) ∧ apply c.edit v = some w := by
  rw [step, Option.bind_eq_some_iff]
  simp only [Option.or_eq_some_iff]

theorem Move.key_of_at {k : K} {m : Move K V E} {c : Change K V E} (h : m.at k = some c) :
    c.key = k ∧ c ∈ m.changes := by
  cases m with
  | one d =>
    simp only [Move.at] at h
    split_ifs at h with hd
    cases h
    exact ⟨hd, List.mem_cons_self ..⟩
  | pair d e =>
    simp only [Move.at] at h
    split_ifs at h with he hd
    · cases h
      exact ⟨he, by simp [Move.changes]⟩
    · cases h
      exact ⟨hd, by simp [Move.changes]⟩

/-- Every change of a move goes through on the store before it, and the value under a key
is decided by at most one of them. -/
theorem Move.run_eq_some {m : Move K V E} (h : m.run apply s = some s') :
    (∀ c ∈ m.changes, (c.step apply (s c.key)).isSome) ∧
      ∀ k, s' k = match m.at k with
        | none => s k
        | some c => c.step apply (s k) := by
  cases m with
  | one c =>
    obtain ⟨v, hv, rfl⟩ := Option.map_eq_some_iff.1 h
    refine ⟨fun d hd => ?_, fun k => ?_⟩
    · rw [List.mem_singleton.1 hd, hv]
      rfl
    · by_cases hk : c.key = k
      · subst hk
        simp [Move.at, hv]
      · simp [Move.at, hk, Ne.symm hk]
  | pair c d =>
    obtain ⟨v, hv, h'⟩ := Option.bind_eq_some_iff.1 h
    obtain ⟨w, hw, rfl⟩ := Option.map_eq_some_iff.1 h'
    refine ⟨fun e he => ?_, fun k => ?_⟩
    · rcases List.mem_cons.1 he with rfl | he
      · simp [hv]
      · rw [List.mem_singleton.1 he, hw]
        rfl
    · by_cases hd : d.key = k
      · subst hd
        simp [Move.at, hw]
      · by_cases hc : c.key = k
        · subst hc
          simp [Move.at, hd, Ne.symm hd, hv]
        · simp [Move.at, hd, Ne.symm hd, hc, Ne.symm hc]

theorem runMoves_append :
    ∀ (ms ms' : List (Move K V E)) (s : K → Option V),
      runMoves apply (ms ++ ms') s = (runMoves apply ms s).bind (runMoves apply ms')
  | [], _, _ => rfl
  | m :: ms, ms', s => by
    rw [List.cons_append, runMoves, runMoves, Option.bind_assoc]
    exact congrArg _ (funext fun t => runMoves_append ms ms' t)

/-- Two changes of different cells may as well be made one after the other. -/
theorem runMoves_pair_of_ne {c d : Change K V E} (h : d.key ≠ c.key) (s : K → Option V) :
    runMoves apply [.pair c d] s =
      (runMoves apply [.one c] s).bind (runMoves apply [.one d]) := by
  simp only [runMoves, Move.run]
  cases hc : c.step apply (s c.key) with
  | none => rfl
  | some v =>
    simp only [Option.bind_some, Option.map_some]
    have hsame : Function.update s c.key (some v) d.key = s d.key := by simp [h]
    rw [hsame]

/-- What one move keeps, a run keeps. -/
theorem runMoves_induction {I : (K → Option V) → Prop} :
    ∀ {ms : List (Move K V E)} {s : K → Option V},
      (∀ m ∈ ms, ∀ t t', I t → m.run apply t = some t' → I t') →
      I s → runMoves apply ms s = some s' → I s'
  | [], s, _, hs, h => by
    cases h
    exact hs
  | m :: ms, s, hm, hs, h => by
    obtain ⟨t, ht, h'⟩ := Option.bind_eq_some_iff.1 h
    exact runMoves_induction (fun n hn => hm n (List.mem_cons_of_mem m hn))
      (hm m (List.mem_cons_self ..) s t hs ht) h'

/-- What holds of every value before a move, fresh ones included, and what the edits make
of it. -/
theorem Move.run_maps {P Q : K → V → Prop} {m : Move K V E}
    (hfresh : ∀ c ∈ m.changes, ∀ v, c.fresh = some v → P c.key v)
    (hedit : ∀ c ∈ m.changes, ∀ v w, P c.key v → apply c.edit v = some w → Q c.key w)
    (hrest : ∀ k v, P k v → Q k v) (hs : ∀ k v, s k = some v → P k v)
    (h : m.run apply s = some s') (k : K) (v : V) (hv : s' k = some v) : Q k v := by
  have hk := (Move.run_eq_some h).2 k
  cases hm : m.at k with
  | none =>
    rw [hm] at hk
    exact hrest k v (hs k v (hk.symm.trans hv))
  | some c =>
    obtain ⟨rfl, hc⟩ := Move.key_of_at hm
    rw [hm, hv] at hk
    obtain ⟨u, hu, hw⟩ := Change.step_eq_some.1 hk.symm
    refine hedit c hc u v ?_ hw
    rcases hu with hu | ⟨-, hu⟩
    · exact hs _ _ hu
    · exact hfresh c hc u hu

/-- A property that fresh values have and edits keep holds of every value. -/
theorem runMoves_keeps {P : K → V → Prop} {ms : List (Move K V E)}
    (hfresh : ∀ m ∈ ms, ∀ c ∈ m.changes, ∀ v, c.fresh = some v → P c.key v)
    (hedit : ∀ m ∈ ms, ∀ c ∈ m.changes, ∀ v w, P c.key v → apply c.edit v = some w → P c.key w)
    (hs : ∀ k v, s k = some v → P k v) (h : runMoves apply ms s = some s') :
    ∀ k v, s' k = some v → P k v :=
  runMoves_induction (I := fun t => ∀ k v, t k = some v → P k v)
    (fun m hm _ _ ht hrun =>
      Move.run_maps (hfresh m hm) (hedit m hm) (fun _ _ h => h) ht hrun) hs h

/-- A value that is there stays, in a relation to its old version that the edits of its cell
respect. -/
theorem runMoves_related {R : V → V → Prop} {ms : List (Move K V E)} {k : K}
    (hrefl : ∀ v, R v v) (htrans : ∀ u v w, R u v → R v w → R u w)
    (hedit : ∀ m ∈ ms, ∀ c ∈ m.changes, c.key = k → ∀ v w, apply c.edit v = some w → R v w)
    (h : runMoves apply ms s = some s') {v : V} (hv : s k = some v) :
    ∃ w, s' k = some w ∧ R v w := by
  refine runMoves_induction (I := fun t => ∃ w, t k = some w ∧ R v w) ?_ ⟨v, hv, hrefl v⟩ h
  rintro m hm t t' ⟨u, hu, hru⟩ hrun
  obtain ⟨hall, hat⟩ := Move.run_eq_some hrun
  have hk := hat k
  cases hmk : m.at k with
  | none =>
    rw [hmk] at hk
    exact ⟨u, hk.trans hu, hru⟩
  | some c =>
    obtain ⟨rfl, hc⟩ := Move.key_of_at hmk
    obtain ⟨w, hw⟩ := Option.isSome_iff_exists.1 (hall c hc)
    rw [hmk] at hk
    refine ⟨w, hk.trans hw, htrans _ _ _ hru ?_⟩
    obtain ⟨u', hu', he⟩ := Change.step_eq_some.1 hw
    rcases hu' with hu' | ⟨hu', -⟩
    · cases hu.symm.trans hu'
      exact hedit m hm c hc rfl u w he
    · rw [hu] at hu'
      cases hu'

end Moves

/-! ## Views -/

section Views

variable {K V W E : Type} [DecidableEq K] {apply : E → V → Option V} {f : V → W}
  {s s' t t' : K → Option V}

/-- A move that decides nothing in a cell has no change of it. -/
theorem Move.key_ne_of_at {m : Move K V E} {k : K} {c : Change K V E} (h : m.at k = none)
    (hc : c ∈ m.changes) : c.key ≠ k := by
  cases m with
  | one d =>
    simp only [Move.at, ite_eq_right_iff, reduceCtorEq, imp_false] at h
    rw [List.mem_singleton.1 hc]
    exact h
  | pair d e =>
    simp only [Move.at] at h
    split_ifs at h with he hd
    rcases List.mem_cons.1 hc with rfl | hc
    · exact hd
    · rw [List.mem_singleton.1 hc]
      exact he

/-- What is there stays, and what is changed is there. -/
theorem runMoves_isSome : ∀ {ms : List (Move K V E)} {s : K → Option V} {k : K},
    runMoves apply ms s = some t →
    ((s k).isSome ∨ ∃ m ∈ ms, ∃ c ∈ m.changes, c.key = k) → (t k).isSome
  | [], s, k, h, hk => by
    cases h
    rcases hk with hk | ⟨m, hm, -⟩
    · exact hk
    · exact absurd hm List.not_mem_nil
  | m :: ms, s, k, h, hk => by
    obtain ⟨u, hu, h⟩ := Option.bind_eq_some_iff.1 h
    obtain ⟨hall, hat⟩ := Move.run_eq_some hu
    refine runMoves_isSome h ?_
    have hu := hat k
    cases hc : m.at k with
    | some c =>
      obtain ⟨rfl, hmem⟩ := Move.key_of_at hc
      rw [hc] at hu
      rw [hu]
      exact Or.inl (hall c hmem)
    | none =>
      rw [hc] at hu
      rw [hu]
      refine hk.imp_right ?_
      rintro ⟨m', hm', c, hmem, hkey⟩
      rcases List.mem_cons.1 hm' with rfl | hm'
      · exact absurd hkey (Move.key_ne_of_at hc hmem)
      · exact ⟨m', hm', c, hmem, hkey⟩

/-- What no move changes stays as it is. -/
theorem runMoves_unchanged {ms : List (Move K V E)} {k : K} (h : runMoves apply ms s = some t)
    (hk : ∀ m ∈ ms, ∀ c ∈ m.changes, c.key ≠ k) : t k = s k := by
  refine runMoves_induction (I := fun u => u k = s k) (fun m hm u u' hu hrun => ?_) rfl h
  have hat := (Move.run_eq_some hrun).2 k
  cases hc : m.at k with
  | none =>
    rw [hc] at hat
    exact hat.trans hu
  | some c =>
    obtain ⟨hkey, hmem⟩ := Move.key_of_at hc
    exact absurd hkey (hk m hm c hmem)

/-- Two changes of one cell that the view `f` of the values does not tell apart. -/
structure Change.SameView (apply : E → V → Option V) (f : V → W) (c d : Change K V E) : Prop where
  key : d.key = c.key
  step : ∀ o o', o.map f = o'.map f → (c.step apply o).map f = (d.step apply o').map f

/-- Two moves that the view does not tell apart. -/
inductive Move.SameView (apply : E → V → Option V) (f : V → W) :
    Move K V E → Move K V E → Prop where
  | one {c d : Change K V E} (h : c.SameView apply f d) : SameView apply f (.one c) (.one d)
  | pair {c d c' d' : Change K V E} (h : c.SameView apply f d) (h' : c'.SameView apply f d') :
      SameView apply f (.pair c c') (.pair d d')

/-- Of two such moves, the changes that decide a cell are not told apart either. -/
theorem Move.SameView.at {m m' : Move K V E} (h : m.SameView apply f m') (k : K) :
    Option.Rel (Change.SameView apply f) (m.at k) (m'.at k) := by
  cases h with
  | one h =>
    simp only [Move.at, h.key]
    split_ifs
    · exact .some h
    · exact .none
  | pair h h' =>
    simp only [Move.at, h.key, h'.key]
    split_ifs
    · exact .some h'
    · exact .some h
    · exact .none

/-- Moves that are not told apart, made from stores that are not told apart where the moves
reach. -/
theorem runMoves_sameView {F : Set K} :
    ∀ {ms ms' : List (Move K V E)} {s s' : K → Option V},
      List.Forall₂ (Move.SameView apply f) ms ms' →
      (∀ k ∈ F, (s k).map f = (s' k).map f) →
      runMoves apply ms s = some t → runMoves apply ms' s' = some t' →
      ∀ k ∈ F, (t k).map f = (t' k).map f
  | [], _, _, _, .nil, hs, h, h' => by
    cases h
    cases h'
    exact hs
  | m :: ms, _, s, s', .cons (b := m') hm hms, hs, h, h' => by
    obtain ⟨u, hu, h⟩ := Option.bind_eq_some_iff.1 h
    obtain ⟨u', hu', h'⟩ := Option.bind_eq_some_iff.1 h'
    refine runMoves_sameView hms (fun k hk => ?_) h h'
    have hat := (Move.run_eq_some hu).2 k
    have hat' := (Move.run_eq_some hu').2 k
    rw [hat, hat']
    cases hc : m.at k with
    | none =>
      have hrel := hm.at k
      rw [hc] at hrel
      cases hc' : m'.at k with
      | none => exact hs k hk
      | some d =>
        rw [hc'] at hrel
        cases hrel
    | some c =>
      have hrel := hm.at k
      rw [hc] at hrel
      cases hc' : m'.at k with
      | none =>
        rw [hc'] at hrel
        cases hrel
      | some d =>
        rw [hc'] at hrel
        cases hrel with
        | some hcd => exact hcd.step _ _ (hs k hk)

end Views

/-! ## Programs that compute a value -/

namespace Prog

variable {E : Signature} {σ ε ε' α β γ δ : Type}

/-- From `s` the program changes nothing, and returns, up to `r`, exactly what `o` holds. -/
def Computes (H : Handler E σ) (s : σ) (r : α → β → Prop) (p : Prog E ε α) (o : Option β) :
    Prop :=
  (run H p s).2 = s ∧
    match (run H p s).1, o with
    | .ok a, some b => r a b
    | .error _, none => True
    | _, _ => False

variable {H : Handler E σ} {s s' : σ} {r : α → β → Prop}

theorem computes_ret {a : α} {b : β} (h : r a b) : Computes H s r (ret a : Prog E ε α) (some b) :=
  ⟨rfl, h⟩

theorem computes_fail (e : ε) : Computes H s r (fail e : Prog E ε α) none :=
  ⟨rfl, trivial⟩

theorem Computes.ok {p : Prog E ε α} {o : Option β} {a : α} (hc : Computes H s r p o)
    (h : run H p s = (.ok a, s')) : s' = s ∧ ∃ b, o = some b ∧ r a b := by
  obtain ⟨hs, hr⟩ := hc
  rw [h] at hs hr
  refine ⟨hs, ?_⟩
  cases o with
  | none => exact hr.elim
  | some b => exact ⟨b, rfl, hr⟩

theorem Computes.error {p : Prog E ε α} {o : Option β} {e : ε} (hc : Computes H s r p o)
    (h : run H p s = (.error e, s')) : s' = s ∧ o = none := by
  obtain ⟨hs, hr⟩ := hc
  rw [h] at hs hr
  refine ⟨hs, ?_⟩
  cases o with
  | none => rfl
  | some b => exact hr.elim

/-- A program that computes something returns. -/
theorem Computes.returns {p : Prog E ε α} {b : β} (hc : Computes H s r p (some b)) :
    ∃ a, run H p s = (.ok a, s) ∧ r a b := by
  rcases hp : run H p s with ⟨e | a, t⟩
  · obtain ⟨-, hnone⟩ := hc.error hp
    cases hnone
  · obtain ⟨rfl, b', hb, hr⟩ := hc.ok hp
    cases hb
    exact ⟨a, rfl, hr⟩

theorem Computes.fails {p : Prog E ε α} (hc : Computes H s r p none) :
    ∃ e, run H p s = (.error e, s) := by
  rcases hp : run H p s with ⟨e | a, t⟩
  · obtain ⟨rfl, -⟩ := hc.error hp
    exact ⟨e, rfl⟩
  · obtain ⟨-, b, hb, -⟩ := hc.ok hp
    cases hb

/-- What is computed is what `o` holds. -/
theorem Computes.holding {p : Prog E ε α} {o : Option β} (hc : Computes H s r p o) :
    Computes H s (fun a b => r a b ∧ o = some b) p o := by
  cases o with
  | none =>
    obtain ⟨e, he⟩ := hc.fails
    unfold Computes
    rw [he]
    exact ⟨rfl, trivial⟩
  | some b =>
    obtain ⟨a, ha, hr⟩ := hc.returns
    unfold Computes
    rw [ha]
    exact ⟨rfl, hr, rfl⟩

/-- A sequence fails with its first part. -/
theorem Computes.bind_fails {p : Prog E ε α} {f : α → Prog E ε γ} {r' : γ → δ → Prop}
    (hp : Computes H s r p none) : Computes H s r' (p >>= f) none := by
  obtain ⟨e, he⟩ := hp.fails
  unfold Computes
  rw [run_bind, he]
  exact ⟨rfl, trivial⟩

/-- A sequence computes what its parts do. -/
theorem Computes.bind {p : Prog E ε α} {o : Option β} {f : α → Prog E ε γ} {g : β → Option δ}
    {r' : γ → δ → Prop} (hp : Computes H s r p o)
    (hf : ∀ a b, r a b → Computes H s r' (f a) (g b)) :
    Computes H s r' (p >>= f) (o.bind g) := by
  cases o with
  | none => exact hp.bind_fails
  | some b =>
    obtain ⟨a, ha, hr⟩ := hp.returns
    have hrest := hf a b hr
    unfold Computes at hrest ⊢
    rw [run_bind, ha]
    exact hrest

/-- A sequence whose first part is known to return `a`. -/
theorem Computes.bind_returns {p : Prog E ε α} {a : α} {f : α → Prog E ε γ} {o : Option δ}
    {r' : γ → δ → Prop} (hp : Computes H s Eq p (some a)) (hf : Computes H s r' (f a) o) :
    Computes H s r' (p >>= f) o := by
  obtain ⟨b, hb, rfl⟩ := hp.returns
  unfold Computes at hf ⊢
  rw [run_bind, hb]
  exact hf

/-- Repackaging the result. -/
theorem Computes.map {p : Prog E ε α} {o : Option β} {f : α → γ} {r' : γ → β → Prop}
    (hp : Computes H s r p o) (hf : ∀ a b, r a b → o = some b → r' (f a) b) :
    Computes H s r' (p >>= fun a => pure (f a)) o := by
  rw [← Option.bind_fun_some o]
  refine hp.holding.bind fun a b hab => computes_ret ?_
  exact hf a b hab.1 hab.2

theorem Computes.mapErr {p : Prog E ε α} {o : Option β} {g : ε → ε'} (hp : Computes H s r p o) :
    Computes H s r (p.mapErr g) o := by
  cases o with
  | none =>
    obtain ⟨e, he⟩ := hp.fails
    unfold Computes
    rw [run_mapErr, he]
    exact ⟨rfl, trivial⟩
  | some b =>
    obtain ⟨a, ha, hr⟩ := hp.returns
    unfold Computes
    rw [run_mapErr, ha]
    exact ⟨rfl, hr⟩

end Prog
