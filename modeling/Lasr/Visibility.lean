import Lasr.Commutation

/-!
# What an instruction sees of the earlier ones

A call collects its changes in a buffer, and the accounts an instruction changes come from
there. The program account of a token comes from the cache : its metadata and data go into new
entries as they were before the call, and a program account that the call creates is not there
for it.

`interpretCall` is the same call with one map of accounts for everything : each instruction is
planned from what the earlier ones left. The two compute the same exactly when the call does not
go through on the single map, or no instruction needs an account that an earlier one makes and
no entry it starts would come out differently (`visible_iff`).
-/

set_option linter.unusedSectionVars false

namespace Lasr

/-! ## The call on a single map -/

section Interpret

variable (tx : Transaction)

/-- The instructions of a call, one by one on a single map of accounts. -/
def interpret : List Instruction → AccountMap → Option AccountMap
  | [], v => some v
  | i :: rest, v => ((i.plan tx v).bind fun ms => runMoves Edit.apply ms v).bind (interpret rest)

/-- A call on a single map of accounts. -/
def interpretCall (v : AccountMap) (outputs : Outputs) : Option AccountMap := do
  let caller ← v tx.to
  let caller ← caller.incrementNonce.toOption
  let v' ← interpret tx outputs.instructions (v.put caller)
  let _ ← v' tx.from
  return v'

end Interpret

/-- A call goes through with its instructions one after another : as `CallFits`, except that an
account which an instruction needs may be one that an earlier instruction makes, and that the
sender must be there in the end. -/
structure FitsInOrder (v : AccountMap) (tx : Transaction) (outputs : Outputs) : Prop where
  program : ∃ a, v tx.to = some a ∧ a.nonce.toNat + 1 < 2 ^ 256
  resolved : ∀ pre i post, outputs.instructions = pre ++ i :: post →
    i.Resolved tx (v.opened (pre.flatMap (Instruction.written tx)))
  entries : ∀ x k, (cellRun (outputs.instructions.flatMap fun i => i.effects tx x k)
    (v.holdingAt x k)).isSome
  sender : (v tx.from).isSome ∨ tx.from ∈ outputs.instructions.flatMap (Instruction.written tx)

/-- Every entry that the instructions start is the same with the metadata and data its program
account had in `v` as with those the earlier instructions leave there : what differs is
overwritten by the updates of the entry that come along. -/
def StartsAlike (v : AccountMap) (tx : Transaction) (instructions : List Instruction) : Prop :=
  ∀ x k, ¬v.Holds x k → ∀ pre i post, instructions = pre ++ i :: post →
    (∀ j ∈ pre, j.effects tx x k = []) → i.effects tx x k ≠ [] →
      reviseEntry (entryUpdates ((i :: post).flatMap fun j => j.effects tx x k))
          (templateOf (v k)) =
        reviseEntry (entryUpdates ((i :: post).flatMap fun j => j.effects tx x k))
          (reviseProgram (pre.flatMap (Instruction.programUpdates tx k)) (templateOf (v k)))

/-! ## When the single map goes through -/

section Order

variable {tx : Transaction} {v s t : AccountMap}

/-- The instructions of a call, one by one, leave the accounts there are, and new users where
they write. -/
theorem sameTypes_interpret : ∀ {instructions : List Instruction} {s : AccountMap},
    (s tx.to).isSome → interpret tx instructions s = some t →
      SameTypes t (s.opened (instructions.flatMap (Instruction.written tx)))
  | [], s, _, h => by
    cases h
    rw [List.flatMap_nil, opened_nil]
    exact fun _ => rfl
  | i :: rest, s, hto, h => by
    obtain ⟨s', hs', h⟩ := Option.bind_eq_some_iff.1 h
    have hone := Instruction.sameTypes hto hs'
    have hto' : (s' tx.to).isSome := by
      rw [hone.isSome]
      exact (isSome_opened _ _ _).2 (Or.inl hto)
    rw [List.flatMap_cons, opened_append]
    exact (sameTypes_interpret hto' h).trans (hone.opened _)

/-- Instructions one by one go through exactly when each finds what it needs among the accounts
there are and those the earlier ones make, and the effects go through in every entry. -/
theorem interpret_isSome_iff : ∀ {instructions : List Instruction} {s : AccountMap},
    (s tx.to).isSome → ((interpret tx instructions s).isSome ↔
      (∀ pre i post, instructions = pre ++ i :: post →
        i.Resolved tx (s.opened (pre.flatMap (Instruction.written tx)))) ∧
      ∀ x k, (cellRun (instructions.flatMap fun i => i.effects tx x k) (s.holdingAt x k)).isSome)
  | [], s, _ => by simp [interpret, cellRun]
  | i :: rest, s, hto => by
    have hgoes := goes_instruction hto (.refl s) i
    rw [interpret]
    cases hs' : ((i.plan tx s).bind fun ms => runMoves Edit.apply ms s) with
    | none =>
      rw [hs'] at hgoes
      refine iff_of_false (by simp) ?_
      rintro ⟨hresolved, hcells⟩
      refine hgoes ⟨by simpa using hresolved [] i rest rfl, fun x k => ?_⟩
      have hcell := hcells x k
      rw [List.flatMap_cons, cellRun_append] at hcell
      exact Option.isSome_of_isSome_bind hcell
    | some s' =>
      rw [hs'] at hgoes
      obtain ⟨hi, -, hcells⟩ := hgoes
      have htypes := Instruction.sameTypes hto hs'
      have hto' : (s' tx.to).isSome := by
        rw [htypes.isSome]
        exact (isSome_opened _ _ _).2 (Or.inl hto)
      rw [Option.bind_some, interpret_isSome_iff hto']
      refine and_congr ⟨fun h pre j post heq => ?_, fun h pre j post heq => ?_⟩
        (forall₂_congr fun x k => ?_)
      · cases pre with
        | nil =>
          obtain ⟨rfl, rfl⟩ := List.cons.inj heq
          simpa using hi
        | cons i' pre =>
          obtain ⟨rfl, hrest⟩ := List.cons.inj heq
          rw [List.flatMap_cons, opened_append]
          exact Instruction.resolved_congr (htypes.opened _) (h pre j post hrest)
      · have hj := h (i :: pre) j post (by rw [heq, List.cons_append])
        rw [List.flatMap_cons, opened_append] at hj
        exact Instruction.resolved_congr (htypes.symm.opened _) hj
      · rw [List.flatMap_cons, cellRun_append, hcells, Option.bind_some]

/-- A call on a single map goes through exactly when it fits in its order. -/
theorem interpretCall_isSome_iff (hkeyed : ∀ x a, v x = some a → a.address = x)
    {outputs : Outputs} :
    (interpretCall tx v outputs).isSome ↔ FitsInOrder v tx outputs := by
  unfold interpretCall
  constructor
  · intro h
    obtain ⟨t, h⟩ := Option.isSome_iff_exists.1 h
    obtain ⟨caller, hcaller, h⟩ := Option.bind_eq_some_iff.1 h
    obtain ⟨caller', hinc, h⟩ := Option.bind_eq_some_iff.1 h
    obtain ⟨t', ht, h⟩ := Option.bind_eq_some_iff.1 h
    obtain ⟨sender, hsender, -⟩ := Option.bind_eq_some_iff.1 h
    have hinc := toOption_eq_some hinc
    obtain ⟨htypes, hholds⟩ := put_incremented hkeyed hcaller hinc
    have hto : (v.put caller' tx.to).isSome := by
      rw [SameTypes.isSome htypes, hcaller]
      rfl
    obtain ⟨hresolved, hcells⟩ := (interpret_isSome_iff hto).1 (by rw [ht]; rfl)
    refine ⟨⟨caller, hcaller, Account.incrementNonce_isOk_iff.1 ⟨_, hinc⟩⟩,
      fun pre i post heq => ?_, fun x k => ?_, ?_⟩
    · exact Instruction.resolved_congr (SameTypes.opened htypes _) (hresolved pre i post heq)
    · rw [← hholds]
      exact hcells x k
    · rw [← SameTypes.isSome htypes, ← isSome_opened, ← (sameTypes_interpret hto ht).isSome,
        hsender]
      rfl
  · rintro ⟨⟨caller, hcaller, hnonce⟩, hresolved, hcells, hsender⟩
    obtain ⟨caller', hinc⟩ := Account.incrementNonce_isOk_iff.2 hnonce
    obtain ⟨htypes, hholds⟩ := put_incremented hkeyed hcaller hinc
    have hto : (v.put caller' tx.to).isSome := by
      rw [SameTypes.isSome htypes, hcaller]
      rfl
    have hsome : (interpret tx outputs.instructions (v.put caller')).isSome := by
      refine (interpret_isSome_iff hto).2 ⟨fun pre i post heq => ?_, fun x k => ?_⟩
      · exact Instruction.resolved_congr (SameTypes.opened (SameTypes.symm htypes) _)
          (hresolved pre i post heq)
      · rw [hholds]
        exact hcells x k
    obtain ⟨t, ht⟩ := Option.isSome_iff_exists.1 hsome
    have hfrom : (t tx.from).isSome := by
      rw [(sameTypes_interpret hto ht).isSome, isSome_opened, SameTypes.isSome htypes]
      exact hsender
    obtain ⟨sender, hsender'⟩ := Option.isSome_iff_exists.1 hfrom
    simp [hcaller, hinc, Except.toOption, ht, hsender']

/-! ## The two calls side by side -/

/-- The metadata and data of the entry of `k` at `x` after the instructions one by one, where
the account of `k` starts with `T` and the entry with `o`. -/
def entryInOrder (tx : Transaction) (x k : Address) :
    List Instruction → Template → Option Template → Option Template
  | [], _, o => o
  | i :: rest, T, o => entryInOrder tx x k rest (reviseProgram (i.programUpdates tx k) T)
      (reviseAll T (i.effects tx x k) o)

theorem revises_interpret : ∀ {instructions : List Instruction} {s : AccountMap},
    interpret tx instructions s = some t → ∀ x k,
      t.entryAt x k = entryInOrder tx x k instructions (templateOf (s k)) (s.entryAt x k)
  | [], s, h, _, _ => by
    cases h
    rfl
  | i :: rest, s, h, x, k => by
    obtain ⟨s', hs', h⟩ := Option.bind_eq_some_iff.1 h
    have hone := Instruction.revises hs'
    rw [revises_interpret h x k, hone.entry, hone.program]
    rfl

/-- The two calls come out alike. -/
theorem plan_alike_interpret {t' : AccountMap} : ∀ {instructions : List Instruction}
    {s s' : AccountMap}, AlikeOn Set.univ s s' →
      ((planAll tx v instructions).bind fun ms => runMoves Edit.apply ms s) = some t →
      interpret tx instructions s' = some t' → AlikeOn Set.univ t t'
  | [], _, _, hs, h, h' => by
    cases h
    cases h'
    exact hs
  | i :: rest, s, s', hs, h, h' => by
    rw [runPlan_cons] at h
    obtain ⟨u, hu, h⟩ := Option.bind_eq_some_iff.1 h
    obtain ⟨u', hu', h'⟩ := Option.bind_eq_some_iff.1 h'
    exact plan_alike_interpret (Instruction.alike hs hu hu') h h'

theorem entryInOrder_some (x k : Address) : ∀ (instructions : List Instruction) (T U : Template),
    entryInOrder tx x k instructions T (some U) =
      some (reviseEntry (entryUpdates (instructions.flatMap fun i => i.effects tx x k)) U)
  | [], _, _ => rfl
  | i :: rest, T, U => by
    rw [entryInOrder, reviseAll_some, entryInOrder_some x k rest, List.flatMap_cons,
      entryUpdates_append, reviseEntry_append]

/-- A missing entry comes out the same, started with `T₀` or in order, exactly when the first
instruction that starts it would leave the same from both. -/
theorem entryInOrder_none_iff (x k : Address) (T₀ : Template) :
    ∀ {instructions : List Instruction} {T : Template},
      (cellRun (instructions.flatMap fun i => i.effects tx x k) none).isSome →
      (reviseAll T₀ (instructions.flatMap fun i => i.effects tx x k) none =
          entryInOrder tx x k instructions T none ↔
        ∀ pre i post, instructions = pre ++ i :: post → (∀ j ∈ pre, j.effects tx x k = []) →
          i.effects tx x k ≠ [] →
          reviseEntry (entryUpdates ((i :: post).flatMap fun j => j.effects tx x k)) T₀ =
            reviseEntry (entryUpdates ((i :: post).flatMap fun j => j.effects tx x k))
              (reviseProgram (pre.flatMap (Instruction.programUpdates tx k)) T))
  | [], T, _ => by simp [entryInOrder, reviseAll]
  | i :: rest, T, hgoes => by
    rw [List.flatMap_cons] at hgoes ⊢
    by_cases hi : i.effects tx x k = []
    · rw [hi, List.nil_append] at hgoes ⊢
      rw [entryInOrder, hi]
      refine (entryInOrder_none_iff x k T₀ hgoes).trans ⟨fun h pre j post heq hpre hj => ?_,
        fun h pre j post heq hpre hj => ?_⟩
      · cases pre with
        | nil =>
          obtain ⟨rfl, rfl⟩ := List.cons.inj heq
          exact absurd hi hj
        | cons i' pre =>
          obtain ⟨rfl, hrest⟩ := List.cons.inj heq
          rw [List.flatMap_cons (f := Instruction.programUpdates tx k), reviseProgram_append]
          exact h pre j post hrest (fun j' hj' => hpre j' (List.mem_cons_of_mem _ hj')) hj
      · have hcons := h (i :: pre) j post (by rw [heq, List.cons_append])
          (List.forall_mem_cons.2 ⟨hi, hpre⟩) hj
        rw [List.flatMap_cons (f := Instruction.programUpdates tx k),
          reviseProgram_append] at hcons
        exact hcons
    · have hfirst : (cellRun (i.effects tx x k) none).isSome := by
        rw [cellRun_append] at hgoes
        exact Option.isSome_of_isSome_bind hgoes
      rw [reviseAll_none hgoes (by simp [hi]), entryInOrder, reviseAll_none hfirst hi,
        entryInOrder_some, Option.some.injEq, ← reviseEntry_append, ← entryUpdates_append,
        ← List.flatMap_cons (f := fun j => Instruction.effects tx j x k)]
      refine ⟨fun h pre j post heq hpre hj => ?_, fun h => ?_⟩
      · cases pre with
        | nil =>
          obtain ⟨rfl, rfl⟩ := List.cons.inj heq
          exact h
        | cons i' pre =>
          obtain ⟨rfl, -⟩ := List.cons.inj heq
          exact absurd (hpre i (List.mem_cons_self ..)) hi
      · exact h [] i rest rfl (fun j hj => absurd hj List.not_mem_nil) hi

/-- What fits on the accounts before the call fits in its order. -/
theorem CallFits.inOrder {outputs : Outputs} (h : CallFits v tx outputs)
    (hsender : (v tx.from).isSome ∨
      tx.from ∈ outputs.instructions.flatMap (Instruction.written tx)) :
    FitsInOrder v tx outputs where
  program := h.program
  resolved pre i post heq := by
    refine (h.resolved i ?_).mono fun x a ha => opened_of_some ha _
    rw [heq]
    exact List.mem_append_right _ (List.mem_cons_self ..)
  entries := h.entries
  sender := hsender

/-- Where both calls go through, they leave the same accounts exactly when the entries that are
started come out the same. -/
theorem calls_eq_iff {outputs : Outputs} {t' : AccountMap}
    (hkeyed : ∀ x a, v x = some a → a.address = x) (hfits : FitsInOrder v tx outputs)
    (h : callLedger tx v outputs = some t) (h' : interpretCall tx v outputs = some t') :
    t = t' ↔ StartsAlike v tx outputs.instructions := by
  obtain ⟨caller, caller', ms, hcaller, hinc, hms, hrun, -⟩ := callLedger_eq_some h
  have hplan : ((planAll tx (v.put caller') outputs.instructions).bind fun ms =>
      runMoves Edit.apply ms (v.put caller')) = some t := by rw [hms]; exact hrun
  have hinterpret : interpret tx outputs.instructions (v.put caller') = some t' := by
    unfold interpretCall at h'
    obtain ⟨c, hc, h'⟩ := Option.bind_eq_some_iff.1 h'
    cases hcaller.symm.trans hc
    obtain ⟨c, hc, h'⟩ := Option.bind_eq_some_iff.1 h'
    rw [hinc] at hc
    cases hc
    obtain ⟨t₁, ht₁, h'⟩ := Option.bind_eq_some_iff.1 h'
    obtain ⟨sender, -, h'⟩ := Option.bind_eq_some_iff.1 h'
    cases h'
    exact ht₁
  obtain ⟨hentry, htemplate⟩ := entryAt_put_incremented hkeyed hcaller hinc
  have halike : AlikeOn Set.univ t t' := plan_alike_interpret (fun _ _ => rfl) hplan hinterpret
  have heq : t = t' ↔ ∀ x k, t.entryAt x k = t'.entryAt x k :=
    ⟨fun h _ _ => by rw [h], fun h => funext fun x => halike.eq (Set.mem_univ x) (h x)⟩
  rw [heq]
  refine forall₂_congr fun x k => ?_
  rw [(revises_plan hplan).entry, revises_interpret hinterpret, hentry, htemplate]
  rcases entryAt_cases v x k with ⟨U, hxk, hholds⟩ | ⟨hxk, hno, hholding⟩
  · rw [hxk, reviseAll_some, entryInOrder_some]
    exact iff_of_true rfl fun hno => absurd hholds hno
  · have hcells := hfits.entries x k
    rw [hholding] at hcells
    rw [hxk, entryInOrder_none_iff x k _ hcells]
    exact ⟨fun h _ => h, fun h => h hno⟩

end Order

/-- The batcher's call and the one on a single map of accounts return the same accounts, or
both fail, exactly when the one on a single map does not go through, or the accounts that its
instructions need were there before the call and every entry it starts comes out the same with
the metadata and data the program account had before. -/
theorem visible_iff {env : Env} {storage cache : AccountStore} {tx : Transaction}
    {outputs : Outputs} :
    (runAlone storage (applyInstructionsToAccounts env tx outputs) cache).1.toOption.map
          (fun _ => accounts storage
            (runAlone storage (applyInstructionsToAccounts env tx outputs) cache).2) =
        interpretCall tx (accounts storage cache) outputs ↔
      (FitsInOrder (accounts storage cache) tx outputs →
        (∀ i ∈ outputs.instructions, i.Resolved tx (accounts storage cache)) ∧
          StartsAlike (accounts storage cache) tx outputs.instructions) := by
  have hkeyed : ∀ x a, accounts storage cache x = some a → a.address = x :=
    fun _ _ => address_of_accounts
  rw [call_refines]
  by_cases hfits : FitsInOrder (accounts storage cache) tx outputs
  · obtain ⟨t', ht'⟩ := Option.isSome_iff_exists.1 ((interpretCall_isSome_iff hkeyed).2 hfits)
    rw [ht']
    by_cases hresolved : ∀ i ∈ outputs.instructions, i.Resolved tx (accounts storage cache)
    · obtain ⟨t, ht⟩ := Option.isSome_iff_exists.1 ((callLedger_isSome_iff_fits hkeyed).2
        ⟨⟨hfits.program, hresolved, hfits.entries⟩, hfits.sender⟩)
      rw [ht, Option.some.injEq, calls_eq_iff hkeyed hfits ht ht']
      exact ⟨fun h _ => ⟨hresolved, h⟩, fun h => (h hfits).2⟩
    · refine iff_of_false (fun h => hresolved ?_) fun h => hresolved (h hfits).1
      exact ((callLedger_isSome_iff_fits hkeyed).1 (by rw [h]; rfl)).1.resolved
  · refine iff_of_true ?_ fun h => absurd h hfits
    have hleft : callLedger tx (accounts storage cache) outputs = none := by
      refine Option.not_isSome_iff_eq_none.1 fun h => hfits ?_
      obtain ⟨hcall, hsender⟩ := (callLedger_isSome_iff_fits hkeyed).1 h
      exact hcall.inOrder hsender
    have hright : interpretCall tx (accounts storage cache) outputs = none :=
      Option.not_isSome_iff_eq_none.1 fun h => hfits ((interpretCall_isSome_iff hkeyed).1 h)
    rw [hleft, hright]

/-- The program mints 5 of its token for someone new. -/
def mintForNew : Instruction :=
  .create ⟨.this, .this, 5#160, 5#256, 5#256, [⟨.this, .address 8#160, some 5#256, [], []⟩]⟩

/-- The program gets a symbol. -/
def setSymbol : Instruction :=
  .update ⟨[.programUpdate ⟨.this, [⟨.metadata (.insert "symbol" "N")⟩]⟩]⟩

/-- The symbol in the new holder's entry. -/
def newSymbol (o : Option AccountMap) : Option String :=
  o.bind fun v => (v 8#160).bind fun a => (a.programs 9#160).bind fun t => t.metadata "symbol"

/-- In the other order the new entry has no symbol, and with a single map of accounts it has. -/
theorem symbol_not_visible :
    AcceptsCall .small (fun _ => none) tokenHolder ⟨[setSymbol, mintForNew]⟩
        (callOf 5#160 9#160 1#256) ∧
      ¬(callRun tokenHolder (callOf 5#160 9#160 1#256)
            ⟨[setSymbol, mintForNew]⟩).1.toOption.map
          (fun _ => accounts (fun _ => none)
            (callRun tokenHolder (callOf 5#160 9#160 1#256) ⟨[setSymbol, mintForNew]⟩).2) =
        interpretCall (callOf 5#160 9#160 1#256) (accounts (fun _ => none) tokenHolder)
          ⟨[setSymbol, mintForNew]⟩ := by
  refine ⟨List.mem_singleton_self _, fun h => ?_⟩
  have hsymbol := congrArg newSymbol h
  revert hsymbol
  decide

end Lasr
