import Lasr.Templates

/-!
# Metadata and data over a run

The metadata and data of every entry and every account can be followed through a run without the
accounts (`Revises`) : an entry that is there is revised by the updates that come along, a missing
one starts with what its program account has (`Instruction.revises`, `revises_plan`).

So can the question which accounts are there : a run leaves those there were, and new users where
it writes (`AccountMap.opened`, `sameTypes_plan`).
-/

set_option linter.unusedSectionVars false

namespace Lasr

/-! ## What a run does to metadata and data -/

/-- The updates of a program in an edit. -/
def Edit.programUpdates : Edit → List ProgramUpdateField
  | .updateProgram u => u.updates
  | _ => []

/-- The metadata and data of the entry of `k` after an edit of its account. -/
def Edit.revise (e : Edit) (k : Address) (o : Option Template) : Option Template :=
  match e.starts with
  | some (k', T, updates) => if k = k' then some (reviseEntry updates (o.getD T)) else o
  | none => o

theorem Edit.apply_entry {e : Edit} {a a' : Account} (h : e.apply a = some a') (k : Address) :
    (a'.programs k).map Token.template = e.revise k ((a.programs k).map Token.template) := by
  unfold revise
  cases hstarts : e.starts with
  | some s =>
    obtain ⟨k', T, updates⟩ := s
    rw [apply_of_starts hstarts] at h
    obtain ⟨t', ht', rfl⟩ := Option.map_eq_some_iff.1 h
    rw [Account.programs_insertProgram]
    by_cases hk : k = k'
    · subst hk
      have hwork : t'.template = reviseEntry updates
          ((a.programs k).getD (Edit.fresh k (e.entryOwner a) T)).template := by
        have heq := work_withTemplate hstarts
          ((a.programs k).getD (Edit.fresh k (e.entryOwner a) T))
          ((a.programs k).getD (Edit.fresh k (e.entryOwner a) T)).template
        have hself : ∀ t : Token, t.withTemplate t.template = t := fun _ => rfl
        rw [hself, toOption_eq_some ht'] at heq
        exact congrArg Token.template (Except.ok.inj heq)
      dsimp only
      rw [if_pos rfl, if_pos rfl, Option.map_some, hwork]
      cases a.programs k <;> rfl
    · dsimp only
      rw [if_neg hk, if_neg hk]
  | none =>
    cases e with
    | give k' amount ids =>
      obtain ⟨t, t', ht, hgive, rfl⟩ := give_apply h
      rw [Account.programs_insertProgram]
      by_cases hk : k = k'
      · subst hk
        rw [if_pos rfl, ht, Option.map_some, Token.give_template hgive]
        rfl
      · rw [if_neg hk]
    | updateProgram u => rw [(updateProgram_apply h).2.2]
    | keep =>
      cases h
      rfl
    | _ => cases hstarts

theorem Account.template_updates : ∀ (us : List ProgramUpdateField) (a : Account),
    (us.foldl (fun a u => a.applyProgramUpdateFieldValues u.value) a).template =
      reviseProgram us a.template
  | [], _ => rfl
  | u :: us, a => by
    have hone : (a.applyProgramUpdateFieldValues u.value).template = u.value.revise a.template := by
      rcases u with ⟨v | v | v⟩ <;> cases v <;> rfl
    rw [List.foldl_cons, Account.template_updates us, hone]
    rfl

theorem Edit.apply_template {e : Edit} {a a' : Account} (h : e.apply a = some a') :
    a'.template = reviseProgram e.programUpdates a.template := by
  cases e with
  | updateProgram u =>
    simp only [apply, Account.applyProgramUpdate] at h
    cases htype : a.accountType with
    | user => simp [htype, Except.toOption] at h
    | program programAddress =>
      simp only [htype, Except.toOption, Option.some.injEq] at h
      rw [← h]
      exact Account.template_updates u.updates a
  | keep =>
    cases h
    rfl
  | _ =>
    obtain ⟨t', rfl⟩ := Edit.apply_programs h
    rfl

/-- What leads from the metadata and data of the entries and accounts of `s` to those of `t`. -/
structure Revises (entry : Address → Address → Option Template → Option Template)
    (program : Address → Template → Template) (s t : AccountMap) : Prop where
  entry : ∀ x k, t.entryAt x k = entry x k (s.entryAt x k)
  program : ∀ k, templateOf (t k) = program k (templateOf (s k))

section Revises

variable {tx : Transaction} {w s t u : AccountMap}
  {f g : Address → Address → Option Template → Option Template}
  {p q : Address → Template → Template}

theorem Revises.refl (s : AccountMap) : Revises (fun _ _ o => o) (fun _ T => T) s s :=
  ⟨fun _ _ => rfl, fun _ => rfl⟩

theorem Revises.trans (h : Revises f p s t) (h' : Revises g q t u) :
    Revises (fun x k o => g x k (f x k o)) (fun k T => q k (p k T)) s u :=
  ⟨fun x k => by rw [h'.entry, h.entry], fun k => by rw [h'.program, h.program]⟩

theorem Revises.congr (h : Revises f p s t) (hf : ∀ x k o, f x k o = g x k o)
    (hp : ∀ k T, p k T = q k T) : Revises g q s t :=
  ⟨fun x k => by rw [h.entry, hf], fun k => by rw [h.program, hp]⟩

/-- The same for a move. -/
def entryAfter (m : AccountMove) (x k : Address) (o : Option Template) : Option Template :=
  match m.at x with
  | some c => c.edit.revise k o
  | none => o

def programAfter (m : AccountMove) (k : Address) (T : Template) : Template :=
  match m.at k with
  | some c => reviseProgram c.edit.programUpdates T
  | none => T

theorem revises_move {i : Instruction} {m : AccountMove}
    (hplans : ∀ c ∈ m.changes, i.Plans tx w c) (h : m.run Edit.apply s = some t) :
    Revises (entryAfter m) (programAfter m) s t := by
  have hat := (Move.run_eq_some h).2
  have hall := (Move.run_eq_some h).1
  refine ⟨fun x k => ?_, fun k => ?_⟩
  · have hx := hat x
    unfold AccountMap.entryAt entryAfter
    cases hc : m.at x with
    | none =>
      rw [hc] at hx
      rw [hx]
    | some c =>
      obtain ⟨rfl, hmem⟩ := Move.key_of_at hc
      obtain ⟨a', ha'⟩ := Option.isSome_iff_exists.1 (hall c hmem)
      rw [hc] at hx
      dsimp only at hx ⊢
      obtain ⟨a, ha, happ⟩ := Change.step_eq_some.1 ha'
      rw [hx, ha', Option.bind_some, Edit.apply_entry happ]
      rcases ha with ha | ⟨hn, hfresh⟩
      · rw [ha, Option.bind_some]
      · rw [hn, (hplans c hmem).fresh_programs hfresh]
        rfl
  · have hk := hat k
    unfold programAfter
    cases hc : m.at k with
    | none =>
      rw [hc] at hk
      rw [hk]
    | some c =>
      obtain ⟨rfl, hmem⟩ := Move.key_of_at hc
      obtain ⟨a', ha'⟩ := Option.isSome_iff_exists.1 (hall c hmem)
      rw [hc] at hk
      dsimp only at hk ⊢
      obtain ⟨a, ha, happ⟩ := Change.step_eq_some.1 ha'
      rw [hk, ha']
      refine (Edit.apply_template happ).trans ?_
      rcases ha with ha | ⟨hn, hfresh⟩
      · rw [ha]
        rfl
      · obtain ⟨accountType, owner, rfl⟩ := (hplans c hmem).fresh_build hfresh
        rw [hn]
        rfl

/-! ### Instructions -/

/-- What an effect does to the metadata and data of its entry. A missing one starts with `T`. -/
def Effect.revise (T : Template) (o : Option Template) : Effect → Option Template
  | .take _ _ => o
  | .add _ _ updates => some (reviseEntry updates (o.getD T))
  | .takeAdd _ _ => some (o.getD T)

/-- The same for a list of effects. -/
def reviseAll (T : Template) (es : List Effect) (o : Option Template) : Option Template :=
  es.foldl (Effect.revise T) o

theorem reviseAll_append (T : Template) (es es' : List Effect) (o : Option Template) :
    reviseAll T (es ++ es') o = reviseAll T es' (reviseAll T es o) :=
  List.foldl_append

/-- The updates of the program at `k`. -/
def TokenOrProgramUpdate.programUpdates (tx : Transaction) (k : Address) :
    TokenOrProgramUpdate → List ProgramUpdateField
  | .tokenUpdate _ => []
  | .programUpdate u => if u.account.resolve tx = some k then u.updates else []

/-- The updates an instruction has for the program at `k`. -/
def Instruction.programUpdates (tx : Transaction) (k : Address) :
    Instruction → List ProgramUpdateField
  | .update i => i.updates.flatMap (TokenOrProgramUpdate.programUpdates tx k)
  | _ => []

theorem revises_changes {α : Type} (tx : Transaction) (i : Instruction)
    {change : α → Option AccountChange} {eff : α → Address → Address → List Effect}
    {upd : α → Address → List ProgramUpdateField} :
    ∀ {l : List α} {s : AccountMap},
      (∀ a ∈ l, ∀ c, change a = some c → i.Plans tx w c ∧
        (∀ x k o, entryAfter (.one c) x k o =
          reviseAll (templateOf (w k)) (eff a x k) o) ∧
        ∀ k T, programAfter (.one c) k T = reviseProgram (upd a k) T) →
      ((l.mapM change).bind fun cs => runMoves Edit.apply (cs.map .one) s) = some t →
      Revises (fun x k => reviseAll (templateOf (w k)) (l.flatMap fun a => eff a x k))
        (fun k => reviseProgram (l.flatMap fun a => upd a k)) s t
  | [], _, _, h => by
    cases h
    exact .refl _
  | a :: l, s, hone, h => by
    rw [runChanges_cons] at h
    obtain ⟨s', hs', h⟩ := Option.bind_eq_some_iff.1 h
    obtain ⟨c, hc, hrun⟩ := Option.bind_eq_some_iff.1 hs'
    obtain ⟨hplans, hentry, hprogram⟩ := hone a (List.mem_cons_self ..) c hc
    obtain ⟨s₁, hs₁, hrun⟩ := Option.bind_eq_some_iff.1 hrun
    cases hrun
    have hall : ∀ d ∈ Move.changes (.one c), i.Plans tx w d := fun d hd => by
      rw [List.mem_singleton.1 hd]
      exact hplans
    have hrest := revises_changes tx i (fun b hb => hone b (List.mem_cons_of_mem a hb)) h
    refine ((revises_move hall hs₁).trans hrest).congr (fun x k o => ?_) fun k T => ?_
    · rw [hentry, List.flatMap_cons, reviseAll_append]
    · rw [hprogram, List.flatMap_cons, reviseProgram_append]

theorem entryAfter_one (x' : Address) (fresh : Option Account) (e : Edit) (x k : Address)
    (o : Option Template) : entryAfter (.one ⟨x', fresh, e⟩) x k o =
      if x' = x then e.revise k o else o := by
  simp only [entryAfter, Move.at]
  split_ifs <;> rfl

theorem programAfter_one (x' : Address) (fresh : Option Account) (e : Edit) (k : Address)
    (T : Template) : programAfter (.one ⟨x', fresh, e⟩) k T =
      if x' = k then reviseProgram e.programUpdates T else T := by
  simp only [programAfter, Move.at]
  split_ifs <;> rfl

theorem tokenProgram_some {v : AccountMap} {k : Address} {p : Option Account}
    (h : tokenProgram v k = some p) : p = v k := by
  unfold tokenProgram at h
  split at h
  · next programAccount hv =>
    cases h
    exact hv.symm
  · next hv =>
    split_ifs at h
    cases h
    exact hv.symm

theorem revises_transfer {i : TransferInstruction}
    (h : (((Instruction.transfer i).plan tx w).bind fun ms => runMoves Edit.apply ms s) = some t) :
    Revises (fun x k => reviseAll (templateOf (w k)) (i.effects tx x k)) (fun _ T => T) s t := by
  obtain ⟨ms, hms, hrun⟩ := Option.bind_eq_some_iff.1 h
  have hplans := fun m hm c hc => Instruction.plans_of_mem hms (m := m) (c := c) hm hc
  obtain ⟨m, hm, rfl⟩ := Option.map_eq_some_iff.1 hms
  obtain ⟨s', hs', hrun⟩ := Option.bind_eq_some_iff.1 hrun
  cases hrun
  have hmove := revises_move (hplans m (List.mem_singleton_self m)) hs'
  obtain ⟨x', y, p, hx, hy, hp, rfl⟩ := TransferInstruction.plan_eq_some hm
  refine hmove.congr (fun x k o => ?_) fun k T => ?_
  · simp only [entryAfter, Move.at, TransferInstruction.effects, hx, hy, Option.some.injEq]
    by_cases hk : i.token = k
    · subst hk
      rw [tokenProgram_some hp]
      -- The receiver's side decides where the two meet.
      by_cases hyx : y = x
      · by_cases hxx : x' = x
        · simp [hyx, hxx, Edit.revise, Edit.starts, reviseAll, Effect.revise, reviseEntry]
        · simp [hyx, hxx, Edit.revise, Edit.starts, reviseAll, Effect.revise, reviseEntry]
      · by_cases hxx : x' = x
        · simp [hyx, hxx, Edit.revise, Edit.starts, reviseAll, Effect.revise]
        · simp [hyx, hxx, reviseAll]
    · by_cases hyx : y = x
      · simp [hyx, hk, Ne.symm hk, Edit.revise, Edit.starts, reviseAll]
      · by_cases hxx : x' = x
        · simp [hyx, hxx, hk, Edit.revise, Edit.starts, reviseAll]
        · simp [hyx, hxx, hk, reviseAll]
  · simp only [programAfter, Move.at]
    split_ifs <;> rfl

theorem revises_burn {i : BurnInstruction}
    (h : (((Instruction.burn i).plan tx w).bind fun ms => runMoves Edit.apply ms s) = some t) :
    Revises (fun x k => reviseAll (templateOf (w k)) (i.effects tx x k)) (fun _ T => T) s t := by
  obtain ⟨ms, hms, hrun⟩ := Option.bind_eq_some_iff.1 h
  have hplans := fun m hm c hc => Instruction.plans_of_mem hms (m := m) (c := c) hm hc
  obtain ⟨c, hc, rfl⟩ := Option.map_eq_some_iff.1 hms
  obtain ⟨s', hs', hrun⟩ := Option.bind_eq_some_iff.1 hrun
  cases hrun
  have hmove := revises_move (hplans _ (List.mem_singleton_self _)) hs'
  obtain ⟨x', -, hc⟩ := Option.bind_eq_some_iff.1 hc
  cases hc
  refine hmove.congr (fun x k o => ?_) fun k T => ?_
  · rw [entryAfter_one, BurnInstruction.effects]
    split_ifs <;> rfl
  · rw [programAfter_one]
    split_ifs <;> rfl

theorem revises_distribution {i : CreateInstruction} {d : TokenDistribution}
    (hd : d ∈ i.distribution) {c : AccountChange} (hc : d.change tx w = some c) :
    (Instruction.create i).Plans tx w c ∧
      (∀ x k o, entryAfter (.one c) x k o = reviseAll (templateOf (w k)) (d.effects tx x k) o) ∧
      ∀ k T, programAfter (.one c) k T = reviseProgram [] T := by
  refine ⟨TokenDistribution.plans hd hc, ?_⟩
  obtain ⟨k', hid, hc⟩ := Option.bind_eq_some_iff.1 hc
  obtain ⟨y, hy, hc⟩ := Option.bind_eq_some_iff.1 hc
  obtain ⟨p, hp, hc⟩ := Option.bind_eq_some_iff.1 hc
  cases hc
  refine ⟨fun x k o => ?_, fun k T => ?_⟩
  · rw [entryAfter_one]
    simp only [TokenDistribution.effects, hy, hid, Option.some.injEq]
    by_cases hyx : y = x
    · by_cases hk : k' = k
      · subst hk
        simp [hyx, Edit.revise, Edit.starts, reviseAll, Effect.revise, templateOf, hp]
      · simp [hyx, hk, Ne.symm hk, Edit.revise, Edit.starts, reviseAll]
    · simp [hyx, reviseAll]
  · rw [programAfter_one]
    split_ifs <;> rfl

theorem revises_keep (h : runMoves Edit.apply [.one (keepProgram tx)] s = some t) :
    Revises (fun _ _ o => o) (fun _ T => T) s t := by
  obtain ⟨s', hs', hrun⟩ := Option.bind_eq_some_iff.1 h
  cases hrun
  have hall : ∀ c ∈ Move.changes (.one (keepProgram tx)),
      (Instruction.create ⟨.this, .this, tx.from, 0#256, 0#256, []⟩).Plans tx s c := by
    intro c hc
    rw [List.mem_singleton.1 hc]
    exact .keep
  refine (revises_move hall hs').congr (fun x k o => ?_) fun k T => ?_
  · rw [keepProgram, entryAfter_one]
    split_ifs <;> rfl
  · rw [keepProgram, programAfter_one]
    split_ifs <;> rfl

theorem revises_update {i : UpdateInstruction} {u : TokenOrProgramUpdate} (hu : u ∈ i.updates)
    {c : AccountChange} (hc : u.change tx w = some c) :
    (Instruction.update i).Plans tx w c ∧
      (∀ x k o, entryAfter (.one c) x k o = reviseAll (templateOf (w k)) (u.effects tx x k) o) ∧
      ∀ k T, programAfter (.one c) k T = reviseProgram (u.programUpdates tx k) T := by
  refine ⟨TokenOrProgramUpdate.plans hu hc, ?_⟩
  cases u with
  | tokenUpdate u =>
    obtain ⟨k', hid, hc⟩ := Option.bind_eq_some_iff.1 hc
    obtain ⟨y, hy, hc⟩ := Option.bind_eq_some_iff.1 hc
    obtain ⟨p, hp, hc⟩ := Option.bind_eq_some_iff.1 hc
    cases hc
    refine ⟨fun x k o => ?_, fun k T => ?_⟩
    · rw [entryAfter_one]
      simp only [TokenOrProgramUpdate.effects, hy, hid, Option.some.injEq]
      by_cases hyx : y = x
      · by_cases hk : k' = k
        · subst hk
          simp [hyx, Edit.revise, Edit.starts, reviseAll, Effect.revise, templateOf, hp]
        · simp [hyx, hk, Ne.symm hk, Edit.revise, Edit.starts, reviseAll]
      · simp [hyx, reviseAll]
    · rw [programAfter_one]
      split_ifs <;> rfl
  | programUpdate u =>
    obtain ⟨y, hy, hc⟩ := Option.bind_eq_some_iff.1 hc
    cases hc
    refine ⟨fun x k o => ?_, fun k T => ?_⟩
    · rw [entryAfter_one]
      split_ifs <;> rfl
    · rw [programAfter_one]
      simp only [TokenOrProgramUpdate.programUpdates, hy, Option.some.injEq]
      split_ifs <;> rfl

/-- An instruction does to the metadata and data of an entry what its effects say, and to those
of a program what its updates say. -/
theorem Instruction.revises {i : Instruction}
    (h : ((i.plan tx w).bind fun ms => runMoves Edit.apply ms s) = some t) :
    Revises (fun x k => reviseAll (templateOf (w k)) (i.effects tx x k))
      (fun k => reviseProgram (i.programUpdates tx k)) s t := by
  cases i with
  | transfer i => exact revises_transfer h
  | burn i => exact revises_burn h
  | create i =>
    rw [runPlan_create] at h
    obtain ⟨s', hs', hkeep⟩ := Option.bind_eq_some_iff.1 h
    refine ((revises_changes tx (.create i) (fun d hd c => revises_distribution hd) hs').trans
      (revises_keep hkeep)).congr (fun x k o => rfl) fun k T => ?_
    rw [List.flatMap_eq_nil_iff.2 fun _ _ => rfl]
    rfl
  | update i =>
    simp only [Instruction.plan, Option.bind_map] at h
    exact revises_changes tx (.update i) (fun u hu c => revises_update hu) h
  | log i =>
    cases h
    exact .refl _

end Revises

/-! ### Entries -/

/-- The updates in an effect. -/
def Effect.updates : Effect → List TokenUpdateField
  | .take _ _ => []
  | .add _ _ updates => updates
  | .takeAdd _ _ => []

/-- All updates of an entry, in their order. -/
def entryUpdates (es : List Effect) : List TokenUpdateField := es.flatMap Effect.updates

theorem entryUpdates_append (es es' : List Effect) :
    entryUpdates (es ++ es') = entryUpdates es ++ entryUpdates es' :=
  List.flatMap_append

/-- The metadata and data of an entry that is there are revised as they are. -/
theorem reviseAll_some (T : Template) : ∀ (es : List Effect) (U : Template),
    reviseAll T es (some U) = some (reviseEntry (entryUpdates es) U)
  | [], _ => rfl
  | e :: es, U => by
    have hone : e.revise T (some U) = some (reviseEntry e.updates U) := by
      cases e <;> rfl
    rw [reviseAll, List.foldl_cons, hone, entryUpdates, List.flatMap_cons, reviseEntry_append]
    exact reviseAll_some T es _

/-- An entry that is not there is started with `T` by the first effect that goes. -/
theorem reviseAll_none {T : Template} {es : List Effect} (hgoes : (cellRun es none).isSome)
    (hne : es ≠ []) : reviseAll T es none = some (reviseEntry (entryUpdates es) T) := by
  cases es with
  | nil => exact absurd rfl hne
  | cons e es =>
    cases e with
    | take n ids => cases hgoes
    | takeAdd n ids => cases hgoes
    | add n ids updates =>
      rw [reviseAll, List.foldl_cons, entryUpdates, List.flatMap_cons, reviseEntry_append]
      exact reviseAll_some T es _

/-! ## Which accounts are there -/

/-- The accounts `v`, and new users at the addresses of `l`. -/
def AccountMap.opened (v : AccountMap) (l : List Address) : AccountMap :=
  fun x => (v x).or (if x ∈ l then some (Account.build .user x) else none)

/-- The same accounts are there, with the same types. -/
def SameTypes (v w : AccountMap) : Prop :=
  ∀ x, (v x).map Account.accountType = (w x).map Account.accountType

section Opened

variable {tx : Transaction} {v w s t : AccountMap} {l l' : List Address}

theorem SameTypes.symm (h : SameTypes v w) : SameTypes w v := fun x => (h x).symm

theorem SameTypes.trans (h : SameTypes v w) (h' : SameTypes w s) : SameTypes v s :=
  fun x => (h x).trans (h' x)

theorem SameTypes.isSome (h : SameTypes v w) (x : Address) : (v x).isSome = (w x).isSome := by
  simpa using congrArg Option.isSome (h x)

@[simp] theorem opened_nil (v : AccountMap) : v.opened [] = v := by
  funext x
  simp [AccountMap.opened]

theorem isSome_opened (v : AccountMap) (l : List Address) (x : Address) :
    (v.opened l x).isSome ↔ (v x).isSome ∨ x ∈ l := by
  unfold AccountMap.opened
  by_cases hx : x ∈ l <;> simp [hx]

theorem SameTypes.opened (h : SameTypes v w) (l : List Address) :
    SameTypes (v.opened l) (w.opened l) := by
  intro x
  have hx := h x
  unfold AccountMap.opened
  rcases map_eq_map_cases hx with ⟨hv, hw⟩ | ⟨a, b, hv, hw, hab⟩
  · rw [hv, hw]
  · rw [hv, hw]
    exact congrArg some hab

theorem opened_append (v : AccountMap) (l l' : List Address) :
    v.opened (l ++ l') = (v.opened l).opened l' := by
  funext x
  unfold AccountMap.opened
  by_cases hx : x ∈ l <;> by_cases hx' : x ∈ l' <;> simp [hx, hx']

/-- An instruction plans a change of every account it names. -/
theorem Instruction.exists_change {i : Instruction} {ms : List AccountMove}
    (h : i.plan tx w = some ms) {x : Address} (hx : x ∈ i.written tx) :
    ∃ m ∈ ms, ∃ c ∈ m.changes, c.key = x := by
  cases i with
  | transfer i =>
    obtain ⟨m, hm, rfl⟩ := Option.map_eq_some_iff.1 h
    obtain ⟨a, b, p, ha, hb, -, rfl⟩ := TransferInstruction.plan_eq_some hm
    refine ⟨_, List.mem_singleton_self _, ?_⟩
    rcases List.mem_append.1 hx with hx | hx
    · cases ha.symm.trans (Option.mem_toList.1 hx)
      exact ⟨_, List.mem_cons_self .., rfl⟩
    · cases hb.symm.trans (Option.mem_toList.1 hx)
      exact ⟨_, List.mem_cons_of_mem _ (List.mem_singleton_self _), rfl⟩
  | burn i =>
    obtain ⟨c, hc, rfl⟩ := Option.map_eq_some_iff.1 h
    obtain ⟨a, ha, hc⟩ := Option.bind_eq_some_iff.1 hc
    cases hc
    cases ha.symm.trans (Option.mem_toList.1 hx)
    exact ⟨_, List.mem_singleton_self _, _, List.mem_singleton_self _, rfl⟩
  | create i =>
    obtain ⟨cs, hcs, rfl⟩ := Option.map_eq_some_iff.1 h
    rcases List.mem_cons.1 hx with rfl | hx
    · exact ⟨_, List.mem_append_right _ (List.mem_singleton_self _), _,
        List.mem_singleton_self _, rfl⟩
    · obtain ⟨d, hd, hx⟩ := List.mem_flatMap.1 hx
      obtain ⟨c, hmem, hc⟩ := exists_of_mapM hcs d hd
      refine ⟨_, List.mem_append_left _ (List.mem_map_of_mem hmem), c,
        List.mem_singleton_self c, ?_⟩
      obtain ⟨k, -, hc⟩ := Option.bind_eq_some_iff.1 hc
      obtain ⟨y, hy, hc⟩ := Option.bind_eq_some_iff.1 hc
      obtain ⟨p, -, hc⟩ := Option.bind_eq_some_iff.1 hc
      cases hc
      exact Option.some.inj (hy.symm.trans (Option.mem_toList.1 hx))
  | update i =>
    obtain ⟨cs, hcs, rfl⟩ := Option.map_eq_some_iff.1 h
    obtain ⟨u, hu, hx⟩ := List.mem_flatMap.1 hx
    obtain ⟨c, hmem, hc⟩ := exists_of_mapM hcs u hu
    refine ⟨_, List.mem_map_of_mem hmem, c, List.mem_singleton_self c, ?_⟩
    cases u with
    | tokenUpdate u =>
      obtain ⟨k, -, hc⟩ := Option.bind_eq_some_iff.1 hc
      obtain ⟨y, hy, hc⟩ := Option.bind_eq_some_iff.1 hc
      obtain ⟨p, -, hc⟩ := Option.bind_eq_some_iff.1 hc
      cases hc
      exact Option.some.inj (hy.symm.trans (Option.mem_toList.1 hx))
    | programUpdate u =>
      obtain ⟨y, hy, hc⟩ := Option.bind_eq_some_iff.1 hc
      cases hc
      exact Option.some.inj (hy.symm.trans (Option.mem_toList.1 hx))
  | log i => cases hx

/-- The changes of an instruction are those of accounts it may write. -/
theorem Instruction.Plans.mem_written {i : Instruction} {c : AccountChange} (h : i.Plans tx w c) :
    c.key ∈ i.written tx := by
  cases h with
  | give hx => exact List.mem_append_left _ (Option.mem_toList.2 hx)
  | receive hy hp => exact List.mem_append_right _ (Option.mem_toList.2 hy)
  | burn hx => exact Option.mem_toList.2 hx
  | distribute hd hid hy hp =>
    exact List.mem_cons_of_mem _ (List.mem_flatMap.2 ⟨_, hd, Option.mem_toList.2 hy⟩)
  | keep => exact List.mem_cons_self ..
  | updateToken hu hid hx hp => exact List.mem_flatMap.2 ⟨_, hu, Option.mem_toList.2 hx⟩
  | updateProgram hu hx => exact List.mem_flatMap.2 ⟨_, hu, Option.mem_toList.2 hx⟩

/-- An instruction leaves the accounts there are, and new users where it writes. -/
theorem Instruction.sameTypes {i : Instruction} (hto : (s tx.to).isSome)
    (h : ((i.plan tx w).bind fun ms => runMoves Edit.apply ms s) = some t) :
    SameTypes t (s.opened (i.written tx)) := by
  obtain ⟨ms, hms, hrun⟩ := Option.bind_eq_some_iff.1 h
  intro x
  unfold AccountMap.opened
  cases hs : s x with
  | some a =>
    obtain ⟨b, hb, htype⟩ := runMoves_related
      (R := fun a b : Account => b.accountType = a.accountType) (fun _ => rfl)
      (fun _ _ _ h h' => h'.trans h)
      (fun m hm c hc hkey a b happ => (Edit.apply_sameHeader happ).accountType) hrun hs
    rw [hb]
    exact congrArg some htype
  | none =>
    by_cases hx : x ∈ i.written tx
    · obtain ⟨b, hb⟩ := Option.isSome_iff_exists.1
        (runMoves_isSome hrun (Or.inr (Instruction.exists_change hms hx)))
      -- What is new is a user's, the called account is not.
      have huser : b.accountType = .user := by
        refine runMoves_keeps (P := fun y a => s y = none → a.accountType = .user)
          (fun m hm c hc a ha hn => ?_) (fun m hm c hc a a' ha happ hn => ?_)
          (fun y a ha hn => ?_) hrun x b hb hs
        · refine (Instruction.plans_of_mem hms hm hc).fresh_user ha fun hkey => ?_
          rw [hkey] at hn
          rw [hn] at hto
          cases hto
        · exact (Edit.apply_sameHeader happ).accountType.trans (ha hn)
        · rw [hn] at ha
          cases ha
      rw [hb]
      simp [hx, huser, Account.build]
    · have hsame : t x = s x := runMoves_unchanged hrun fun m hm c hc hkey =>
        hx (hkey ▸ (Instruction.plans_of_mem hms hm hc).mem_written)
      rw [hsame, hs]
      simp [hx]

/-- What is needed is still found when accounts are added. -/
theorem Instruction.Resolved.mono {i : Instruction} (hi : i.Resolved tx v)
    (h : ∀ x a, v x = some a → w x = some a) : i.Resolved tx w := by
  have hsome : ∀ {x}, (v x).isSome → (w x).isSome := fun {x} hv => by
    obtain ⟨a, ha⟩ := Option.isSome_iff_exists.1 hv
    rw [h x a ha]
    rfl
  cases i with
  | transfer i => exact ⟨hi.1, hi.2.1, hi.2.2.imp_left hsome⟩
  | burn i => exact hi
  | create i =>
    intro d hd
    obtain ⟨hy, program, hid, hp⟩ := hi d hd
    exact ⟨hy, program, hid, hsome hp⟩
  | update i =>
    intro u hu
    have hr := hi u hu
    cases u with
    | tokenUpdate u =>
      obtain ⟨hx, program, hid, hp⟩ := hr
      exact ⟨hx, program, hid, hsome hp⟩
    | programUpdate u =>
      obtain ⟨x, a, programAddress, hx, ha, htype⟩ := hr
      exact ⟨x, a, programAddress, hx, h x a ha, htype⟩
  | log i => trivial

theorem opened_of_some {x : Address} {a : Account} (h : v x = some a) (l : List Address) :
    v.opened l x = some a := by
  unfold AccountMap.opened
  rw [h]
  rfl

theorem opened_of_not_mem {v : AccountMap} {l : List Address} {x : Address} (hx : x ∉ l) :
    v.opened l x = v x := by
  simp [AccountMap.opened, hx]

end Opened

/-! ## Plans -/

section Plans

variable {tx : Transaction} {outputs : Outputs} {v w w' t t' : AccountMap}

theorem revises_plan : ∀ {instructions : List Instruction} {s : AccountMap},
    ((planAll tx w instructions).bind fun ms => runMoves Edit.apply ms s) = some t →
      Revises (fun x k => reviseAll (templateOf (w k))
          (instructions.flatMap fun i => i.effects tx x k))
        (fun k => reviseProgram (instructions.flatMap (Instruction.programUpdates tx k))) s t
  | [], s, h => by
    cases h
    exact .refl _
  | i :: rest, s, h => by
    rw [runPlan_cons] at h
    obtain ⟨s', hs', h⟩ := Option.bind_eq_some_iff.1 h
    refine ((Instruction.revises hs').trans (revises_plan h)).congr (fun x k o => ?_)
      fun k T => ?_
    · rw [List.flatMap_cons, reviseAll_append]
    · rw [List.flatMap_cons, reviseProgram_append]

theorem sameTypes_plan : ∀ {instructions : List Instruction} {s : AccountMap},
    (s tx.to).isSome →
      ((planAll tx v instructions).bind fun ms => runMoves Edit.apply ms s) = some t →
      SameTypes t (s.opened (instructions.flatMap (Instruction.written tx)))
  | [], s, _, h => by
    cases h
    rw [List.flatMap_nil, opened_nil]
    exact fun _ => rfl
  | i :: rest, s, hto, h => by
    rw [runPlan_cons] at h
    obtain ⟨s', hs', h⟩ := Option.bind_eq_some_iff.1 h
    have hone := Instruction.sameTypes hto hs'
    have hto' : (s' tx.to).isSome := by
      rw [hone.isSome]
      exact (isSome_opened _ _ _).2 (Or.inl hto)
    rw [List.flatMap_cons, opened_append]
    exact (sameTypes_plan hto' h).trans (hone.opened _)

/-- Two plans of the same instructions, made with other program accounts, come out alike. -/
theorem plan_alike {F : Set Address} : ∀ {instructions : List Instruction} {s s' : AccountMap},
    AlikeOn F s s' →
      ((planAll tx w instructions).bind fun ms => runMoves Edit.apply ms s) = some t →
      ((planAll tx w' instructions).bind fun ms => runMoves Edit.apply ms s') = some t' →
      AlikeOn F t t'
  | [], _, _, hs, h, h' => by
    cases h
    cases h'
    exact hs
  | i :: rest, s, s', hs, h, h' => by
    rw [runPlan_cons] at h h'
    obtain ⟨u, hu, h⟩ := Option.bind_eq_some_iff.1 h
    obtain ⟨u', hu', h'⟩ := Option.bind_eq_some_iff.1 h'
    exact plan_alike (Instruction.alike hs hu hu') h h'

/-- An instruction has no effect on accounts it does not name. -/
theorem Instruction.effects_eq_nil {i : Instruction} {x : Address} (hx : x ∉ i.written tx)
    (k : Address) : i.effects tx x k = [] := by
  cases i with
  | transfer i =>
    simp only [written, List.mem_append, Option.mem_toList, not_or] at hx
    simp [effects, TransferInstruction.effects, hx.1, hx.2]
  | burn i =>
    simp only [written, Option.mem_toList] at hx
    simp [effects, BurnInstruction.effects, hx]
  | create i =>
    refine List.flatMap_eq_nil_iff.2 fun d hd => ?_
    have hne : d.to.resolve tx ≠ some x := fun h =>
      hx (List.mem_cons_of_mem _ (List.mem_flatMap.2 ⟨d, hd, Option.mem_toList.2 h⟩))
    simp [TokenDistribution.effects, hne]
  | update i =>
    refine List.flatMap_eq_nil_iff.2 fun u hu => ?_
    cases u with
    | tokenUpdate u =>
      have hne : u.account.resolve tx ≠ some x := fun h =>
        hx (List.mem_flatMap.2 ⟨_, hu, Option.mem_toList.2 h⟩)
      simp [TokenOrProgramUpdate.effects, hne]
    | programUpdate u => rfl
  | log i => rfl

/-- There is an entry of token `k` at address `x`. -/
def AccountMap.Holds (v : AccountMap) (x k : Address) : Prop :=
  ∃ a, v x = some a ∧ (a.programs k).isSome

theorem entryAt_isSome_iff {x k : Address} : (v.entryAt x k).isSome ↔ v.Holds x k := by
  unfold AccountMap.entryAt AccountMap.Holds
  cases v x with
  | none => simp
  | some a => simp

theorem holdingAt_of_not_holds {x k : Address} (h : ¬v.Holds x k) : v.holdingAt x k = none := by
  unfold AccountMap.holdingAt
  cases hx : v x with
  | none => rfl
  | some a =>
    unfold Account.holdingOf
    cases hk : a.programs k with
    | none => simp [hk]
    | some t => exact absurd ⟨a, hx, by rw [hk]; rfl⟩ h

/-- The entry is there, or there is nothing at all. -/
theorem entryAt_cases (v : AccountMap) (x k : Address) :
    (∃ U, v.entryAt x k = some U ∧ v.Holds x k) ∨
      (v.entryAt x k = none ∧ ¬v.Holds x k ∧ v.holdingAt x k = none) := by
  cases hxk : v.entryAt x k with
  | some U =>
    refine .inl ⟨U, rfl, entryAt_isSome_iff.1 ?_⟩
    rw [hxk]
    rfl
  | none =>
    have hno : ¬v.Holds x k := fun h => by
      have hsome := entryAt_isSome_iff.2 h
      rw [hxk] at hsome
      cases hsome
    exact .inr ⟨rfl, hno, holdingAt_of_not_holds hno⟩

/-- The nonce of the called account is no metadata. -/
theorem entryAt_put_incremented {caller caller' : Account}
    (hkeyed : ∀ x a, v x = some a → a.address = x) (hcaller : v tx.to = some caller)
    (hinc : caller.incrementNonce = .ok caller') :
    (∀ x k, (v.put caller').entryAt x k = v.entryAt x k) ∧
      ∀ k, templateOf (v.put caller' k) = templateOf (v k) := by
  have haddress := (Account.incrementNonce_keeps hinc).1
  rw [hkeyed _ _ hcaller] at haddress
  have hsame := (Account.incrementNonce_ok hinc).2
  unfold AccountMap.entryAt
  refine ⟨fun x k => ?_, fun k => ?_⟩
  · rw [AccountMap.put_apply, haddress]
    split_ifs with hx
    · rw [hx, hcaller, hsame]
      rfl
    · rfl
  · rw [AccountMap.put_apply, haddress]
    split_ifs with hx
    · rw [hx, hcaller, hsame]
      rfl
    · rfl

/-- A call fits, or its instructions do not go through. -/
theorem callFits_iff {v : AccountMap} {caller caller' : Account}
    (hkeyed : ∀ x a, v x = some a → a.address = x) (hcaller : v tx.to = some caller)
    (hinc : caller.incrementNonce = .ok caller') :
    CallFits v tx outputs ↔
      ((planAll tx (v.put caller') outputs.instructions).bind fun ms =>
        runMoves Edit.apply ms (v.put caller')).isSome := by
  rw [callMoves_isSome_iff hkeyed hcaller hinc]
  exact ⟨fun h => ⟨h.resolved, h.entries⟩, fun h =>
    ⟨⟨caller, hcaller, Account.incrementNonce_isOk_iff.1 ⟨_, hinc⟩⟩, h.1, h.2⟩⟩

/-- A call goes through exactly when it fits and the sender is there in the end. -/
theorem callLedger_isSome_iff_fits (hkeyed : ∀ x a, v x = some a → a.address = x)
    {outputs : Outputs} :
    (callLedger tx v outputs).isSome ↔ CallFits v tx outputs ∧
      ((v tx.from).isSome ∨ tx.from ∈ outputs.instructions.flatMap (Instruction.written tx)) := by
  constructor
  · intro h
    obtain ⟨t, h⟩ := Option.isSome_iff_exists.1 h
    obtain ⟨caller, caller', ms, hcaller, hinc, hms, hrun, hsender⟩ := callLedger_eq_some h
    have hmoves : ((planAll tx (v.put caller') outputs.instructions).bind fun ms =>
        runMoves Edit.apply ms (v.put caller')) = some t := by rw [hms]; exact hrun
    obtain ⟨hresolved, hcells⟩ :=
      (callMoves_isSome_iff hkeyed hcaller hinc).1 (by rw [hmoves]; rfl)
    obtain ⟨htypes, -⟩ := put_incremented hkeyed hcaller hinc
    have hto : (v.put caller' tx.to).isSome := by
      rw [SameTypes.isSome htypes, hcaller]
      rfl
    refine ⟨⟨⟨caller, hcaller, Account.incrementNonce_isOk_iff.1 ⟨_, hinc⟩⟩, hresolved, hcells⟩, ?_⟩
    rw [← SameTypes.isSome htypes, ← isSome_opened, ← (sameTypes_plan hto hmoves).isSome]
    exact hsender
  · rintro ⟨⟨⟨caller, hcaller, hnonce⟩, hresolved, hcells⟩, hsender⟩
    obtain ⟨caller', hinc⟩ := Account.incrementNonce_isOk_iff.2 hnonce
    obtain ⟨t, ht⟩ := Option.isSome_iff_exists.1
      ((callMoves_isSome_iff hkeyed hcaller hinc).2 ⟨hresolved, hcells⟩)
    obtain ⟨htypes, -⟩ := put_incremented hkeyed hcaller hinc
    have hto : (v.put caller' tx.to).isSome := by
      rw [SameTypes.isSome htypes, hcaller]
      rfl
    have hfrom : (t tx.from).isSome := by
      rw [(sameTypes_plan hto ht).isSome, isSome_opened, SameTypes.isSome htypes]
      exact hsender
    obtain ⟨sender, hsender'⟩ := Option.isSome_iff_exists.1 hfrom
    obtain ⟨ms, hms, hrun⟩ := Option.bind_eq_some_iff.1 ht
    simp [callLedger, hcaller, hinc, Except.toOption, hms, hrun, hsender']

end Plans

end Lasr
