import Lasr.Revisions

/-!
# What a call leaves

A call does nothing, advances the nonce of the called account, or goes through its instructions
(`call_missing`, `call_fails`, `call_goes`). In the last case it has written every account that
the instructions name (`applyInstructions_reaches`), and what it leaves depends on the accounts
it touches and on the metadata and data it copies (`call_eq_iff`).
-/

set_option linter.unusedSectionVars false

namespace Lasr

/-! ## What a call writes -/

/-- The buffer `b'` has accounts where `b` has, and at the addresses of `l`. -/
def BatchBuffer.Reaches (l : List Address) (b b' : BatchBuffer) : Prop :=
  ∀ a, (b.lookup a).isSome ∨ a ∈ l → (b'.lookup a).isSome

section Reaches

variable {storage cache cache' : AccountStore} {tx : Transaction} {b b' b'' : BatchBuffer}
  {l l' : List Address}

theorem BatchBuffer.reaches_refl (b : BatchBuffer) : BatchBuffer.Reaches [] b b :=
  fun _ h => h.elim id fun h => absurd h List.not_mem_nil

theorem BatchBuffer.reaches_insert (b : BatchBuffer) (x : Address) (account : Account) :
    Reaches [x] b (b.insert x account) := by
  rintro a (h | h)
  · by_cases ha : a = x
    · rw [ha, AList.lookup_insert]
      rfl
    · rwa [AList.lookup_insert_ne ha]
  · rw [List.mem_singleton.1 h, AList.lookup_insert]
    rfl

theorem BatchBuffer.Reaches.trans (h : Reaches l b b') (h' : Reaches l' b' b'') :
    Reaches (l ++ l') b b'' := by
  rintro a (ha | ha)
  · exact h' a (Or.inl (h a (Or.inl ha)))
  · rcases List.mem_append.1 ha with ha | ha
    · exact h' a (Or.inl (h a (Or.inr ha)))
    · exact h' a (Or.inr ha)

theorem BatchBuffer.Reaches.mono (h : Reaches l b b') (hl : ∀ a ∈ l', a ∈ l) : Reaches l' b b' :=
  fun a ha => h a (ha.imp_right (hl a))

theorem applyDistributions_reaches : ∀ {dists : List TokenDistribution} {b : BatchBuffer},
    BatchBuffer.Keyed b →
    runAlone storage (applyDistributions tx dists b) cache = (.ok b', cache') →
    cache' = cache ∧ BatchBuffer.Keyed b' ∧
      BatchBuffer.Reaches (dists.flatMap fun d => (d.to.resolve tx).toList) b b'
  | [], b, hk, h => by
    cases h
    exact ⟨rfl, hk, BatchBuffer.reaches_refl _⟩
  | d :: dists, b, hk, h => by
    obtain ⟨account, c, hone, h⟩ := runAlone_bind_ok h
    obtain ⟨hc, _, hstep, rfl⟩ := applyDistribution_computes.ok (asFailed_ok hone)
    rw [hc] at h
    obtain ⟨change, hchange, hstep⟩ := Option.bind_eq_some_iff.1 hstep
    have haddress := address_of_step hk (TokenDistribution.freshKeyed hchange) hstep
    obtain ⟨hcache, hk', hrest⟩ := applyDistributions_reaches (hk.addAccountToBatchBuffer account) h
    refine ⟨hcache, hk',
      ((BatchBuffer.reaches_insert b account.address account).trans hrest).mono fun a ha => ?_⟩
    rw [List.flatMap_cons, List.mem_append] at ha
    refine List.mem_append.2 (ha.imp_left fun ha => ?_)
    obtain ⟨k, -, hchange⟩ := Option.bind_eq_some_iff.1 hchange
    obtain ⟨y, hy, hchange⟩ := Option.bind_eq_some_iff.1 hchange
    obtain ⟨p, -, hchange⟩ := Option.bind_eq_some_iff.1 hchange
    cases hchange
    cases hy.symm.trans (Option.mem_toList.1 ha)
    exact List.mem_singleton.2 haddress.symm

theorem applyUpdates_reaches : ∀ {updates : List TokenOrProgramUpdate} {b : BatchBuffer},
    BatchBuffer.Keyed b →
    runAlone storage (applyUpdates tx updates b) cache = (.ok b', cache') →
    cache' = cache ∧ BatchBuffer.Keyed b' ∧
      BatchBuffer.Reaches ((Instruction.update ⟨updates⟩).written tx) b b'
  | [], b, hk, h => by
    cases h
    exact ⟨rfl, hk, BatchBuffer.reaches_refl _⟩
  | u :: updates, b, hk, h => by
    obtain ⟨r, c, hone, h⟩ := runAlone_bind_ok h
    have hcomp : Yields storage cache (Rewrites b) (applyUpdate tx u b)
        ((u.change tx (accounts storage cache)).bind fun c =>
          c.step Edit.apply (seen storage cache b c.key)) := by
      cases u with
      | tokenUpdate u => exact applyTokenUpdate_computes hk
      | programUpdate u => exact applyProgramUpdate_computes hk
    obtain ⟨hc, account, hstep, hr⟩ := hcomp.ok (asFailed_ok hone)
    rw [hc] at h
    obtain ⟨change, hchange, hstep⟩ := Option.bind_eq_some_iff.1 hstep
    have haddress := address_of_step hk (TokenOrProgramUpdate.freshKeyed hchange) hstep
    have hshows : Shows storage cache (addAccountToBatchBuffer r.1 r.2) _ := hr.add hk rfl
    have hadd : BatchBuffer.Reaches [account.address] b (addAccountToBatchBuffer r.1 r.2) := by
      obtain ⟨h₂, h₁ | h₁⟩ := hr
      · rw [h₁, h₂]
        exact BatchBuffer.reaches_insert b _ _
      · rw [h₁, h₂, addAccountToBatchBuffer, AList.insert_insert]
        exact BatchBuffer.reaches_insert b _ _
    obtain ⟨hcache, hk', hrest⟩ := applyUpdates_reaches hshows.1 h
    refine ⟨hcache, hk', (hadd.trans hrest).mono fun a ha => ?_⟩
    simp only [Instruction.written, List.flatMap_cons, List.mem_append] at ha
    refine List.mem_append.2 (ha.imp_left fun ha => List.mem_singleton.2 ?_)
    rw [haddress]
    cases u with
    | tokenUpdate u =>
      obtain ⟨k, -, hchange⟩ := Option.bind_eq_some_iff.1 hchange
      obtain ⟨y, hy, hchange⟩ := Option.bind_eq_some_iff.1 hchange
      obtain ⟨p, -, hchange⟩ := Option.bind_eq_some_iff.1 hchange
      cases hchange
      exact (Option.some.inj (hy.symm.trans (Option.mem_toList.1 ha))).symm
    | programUpdate u =>
      obtain ⟨y, hy, hchange⟩ := Option.bind_eq_some_iff.1 hchange
      cases hchange
      exact (Option.some.inj (hy.symm.trans (Option.mem_toList.1 ha))).symm

/-- An instruction that goes through has buffered an account at every address it names. -/
theorem applyInstruction_reaches {i : Instruction} (hk : BatchBuffer.Keyed b)
    (h : runAlone storage (applyInstruction tx i b) cache = (.ok b', cache')) :
    BatchBuffer.Reaches (i.written tx) b b' := by
  cases i with
  | transfer i =>
    obtain ⟨r, c, hr, h⟩ := runAlone_bind_ok h
    obtain ⟨-, x, y, hx, hy, hd, hc⟩ := applyTransferInstruction_ok hk (asFailed_ok hr)
    cases h
    refine ((BatchBuffer.reaches_insert b r.1.address r.1).trans
      (BatchBuffer.reaches_insert _ r.2.address r.2)).mono fun a ha => ?_
    rcases List.mem_append.1 ha with ha | ha
    · cases hx.symm.trans (Option.mem_toList.1 ha)
      exact List.mem_append_left _ (List.mem_singleton.2 hd.address.symm)
    · cases hy.symm.trans (Option.mem_toList.1 ha)
      exact List.mem_append_right _ (List.mem_singleton.2 hc.address.symm)
  | burn i =>
    obtain ⟨account, c, hone, h⟩ := runAlone_bind_ok h
    obtain ⟨-, _, hstep, rfl⟩ := applyBurnInstruction_computes.ok (asFailed_ok hone)
    obtain ⟨change, hchange, hstep⟩ := Option.bind_eq_some_iff.1 hstep
    obtain ⟨x, hx, hchange⟩ := Option.bind_eq_some_iff.1 hchange
    cases hchange
    have haddress := address_of_step hk (fun _ h => by cases h) hstep
    cases h
    refine (BatchBuffer.reaches_insert b account.address account).mono fun a ha => ?_
    cases hx.symm.trans (Option.mem_toList.1 ha)
    exact List.mem_singleton.2 haddress.symm
  | create i =>
    obtain ⟨b₁, c, hdists, h⟩ := runAlone_bind_ok h
    obtain ⟨hc, hk₁, hreach⟩ := applyDistributions_reaches hk hdists
    rw [hc] at h
    obtain ⟨account, c, hone, h⟩ := runAlone_bind_ok h
    obtain ⟨-, _, hstep, rfl⟩ := tryCreateProgramAccount_computes.ok (asFailed_ok hone)
    have hkeep : (Instruction.create i).Plans tx (accounts storage cache) (keepProgram tx) := .keep
    have haddress := address_of_step hk₁ hkeep.freshKeyed hstep
    cases h
    have hinsert := BatchBuffer.reaches_insert b₁ account.address account
    refine (hreach.trans hinsert).mono fun a ha => ?_
    rcases List.mem_cons.1 ha with rfl | ha
    · exact List.mem_append_right _ (List.mem_singleton.2 haddress.symm)
    · exact List.mem_append_left _ ha
  | update i => exact (applyUpdates_reaches hk h).2.2
  | log i =>
    cases h
    exact BatchBuffer.reaches_refl _

theorem applyInstructions_reaches : ∀ {instructions : List Instruction} {b : BatchBuffer},
    BatchBuffer.Keyed b →
    runAlone storage (applyInstructions tx instructions b) cache = (.ok b', cache') →
    BatchBuffer.Reaches (instructions.flatMap (Instruction.written tx)) b b'
  | [], b, _, h => by
    cases h
    exact BatchBuffer.reaches_refl _
  | i :: rest, b, hk, h => by
    obtain ⟨b₁, c, hone, h⟩ := runAlone_bind_ok h
    obtain ⟨hc, _, -, hk₁, -⟩ := (applyInstruction_computes i hk).ok hone
    rw [hc] at h
    rw [List.flatMap_cons]
    exact (applyInstruction_reaches hk hone).trans (applyInstructions_reaches hk₁ h)

end Reaches

/-! ## The three ends of a call -/

section Call

variable {env env' : Env} {storage cache cache' : AccountStore} {tx : Transaction}
  {outputs : Outputs} {caller caller' : Account} {t : AccountMap}

/-- A call of an account that is not there, or whose nonce is full, does nothing. -/
theorem call_missing (env : Env) (outputs : Outputs)
    (h : ¬∃ a, accounts storage cache tx.to = some a ∧ a.nonce.toNat + 1 < 2 ^ 256) :
    ∃ e, runAlone storage (applyInstructionsToAccounts env tx outputs) cache =
      (.error e, cache) := by
  unfold applyInstructionsToAccounts
  rw [runAlone_getAccount_bind]
  cases hcaller : accounts storage cache tx.to with
  | none => exact ⟨_, rfl⟩
  | some caller =>
    dsimp only
    cases hinc : caller.incrementNonce with
    | error e => exact ⟨_, rfl⟩
    | ok caller' => exact absurd ⟨caller, hcaller, Account.incrementNonce_isOk_iff.1 ⟨_, hinc⟩⟩ h

/-- With the nonce of the called account advanced, a call runs its instructions. -/
theorem runAlone_call (hcaller : accounts storage cache tx.to = some caller)
    (hinc : caller.incrementNonce = .ok caller') :
    runAlone storage (applyInstructionsToAccounts env tx outputs) cache =
      runAlone storage (applyInstructions tx outputs.instructions ∅ >>= finishCall env tx outputs)
        (handleCacheWrite cache caller') := by
  unfold applyInstructionsToAccounts
  rw [runAlone_getAccount_bind, hcaller]
  dsimp only
  rw [hinc]
  rfl

/-- A call whose instructions fail advances the nonce. -/
theorem call_fails (env : Env) (hcaller : accounts storage cache tx.to = some caller)
    (hinc : caller.incrementNonce = .ok caller')
    (h : ((planAll tx ((accounts storage cache).put caller') outputs.instructions).bind fun ms =>
      runMoves Edit.apply ms ((accounts storage cache).put caller')) = none) :
    ∃ e, runAlone storage (applyInstructionsToAccounts env tx outputs) cache =
      (.error e, handleCacheWrite cache caller') := by
  have hcomp : Yields storage (handleCacheWrite cache caller')
      (Shows storage (handleCacheWrite cache caller'))
      (applyInstructions tx outputs.instructions ∅) _ :=
    applyInstructions_computes outputs.instructions ∅ BatchBuffer.keyed_empty
  rw [seen_empty, accounts_handleCacheWrite, h] at hcomp
  obtain ⟨e, he⟩ := hcomp.fails
  rw [runAlone_call hcaller hinc]
  unfold runAlone
  rw [Prog.run_bind, he]
  exact ⟨e, rfl⟩

/-- A call whose instructions go through leaves what they do, and has written every account
they name; it returns if the sender is there. -/
theorem call_goes (env : Env) (hcaller : accounts storage cache tx.to = some caller)
    (hinc : caller.incrementNonce = .ok caller')
    (h : ((planAll tx ((accounts storage cache).put caller') outputs.instructions).bind fun ms =>
      runMoves Edit.apply ms ((accounts storage cache).put caller')) = some t) :
    accounts storage (runAlone storage (applyInstructionsToAccounts env tx outputs) cache).2 = t ∧
      (runAlone storage (applyInstructionsToAccounts env tx outputs) cache).1.isOk =
        (t tx.from).isSome ∧
      ∀ x, x = tx.to ∨ x ∈ outputs.instructions.flatMap (Instruction.written tx) →
        ((runAlone storage (applyInstructionsToAccounts env tx outputs) cache).2 x).isSome := by
  have hcomp : Yields storage (handleCacheWrite cache caller')
      (Shows storage (handleCacheWrite cache caller'))
      (applyInstructions tx outputs.instructions ∅) _ :=
    applyInstructions_computes outputs.instructions ∅ BatchBuffer.keyed_empty
  rw [seen_empty, accounts_handleCacheWrite, h] at hcomp
  obtain ⟨b, hb, hk, hseen⟩ := hcomp.returns
  obtain ⟨hleft, hreturns⟩ : accounts storage (runAlone storage
      (finishCall env tx outputs b) (handleCacheWrite cache caller')).2 =
        seen storage (handleCacheWrite cache caller') b ∧ _ :=
    runAlone_finishCall env tx outputs hk
  have hrun : runAlone storage (applyInstructionsToAccounts env tx outputs) cache =
      runAlone storage (finishCall env tx outputs b) (handleCacheWrite cache caller') := by
    rw [runAlone_call hcaller hinc]
    unfold runAlone
    rw [Prog.run_bind, hb]
  rw [hrun]
  refine ⟨hleft.trans hseen, ?_, fun x hx => cell_isSome ?_⟩
  · rw [hseen] at hreturns
    have hok : ∀ y : Except (Fault BatcherError) Unit, y.isOk = y.toOption.isSome := fun y => by
      cases y <;> rfl
    rw [hok, hreturns, Option.isSome_map]
  · have hflush : (runAlone storage (finishCall env tx outputs b)
        (handleCacheWrite cache caller')).2 =
        ((env.order.iter b.entries).map Sigma.snd).foldl handleCacheWrite
          (handleCacheWrite cache caller') := by
      unfold finishCall
      simp only [runAlone_addAccountsToBatch_bind, runAlone_addTransactionToBatch_bind,
        runAlone_cast_bind, runAlone_getAccount_bind]
      split <;> rfl
    rw [hflush, accounts_flush env.order hk]
    rcases hx with rfl | hx
    · have haddr : caller'.address = tx.to :=
        (Account.incrementNonce_keeps hinc).1.trans (address_of_accounts hcaller)
      have hput : ∀ a : Account, accounts (fun _ => none) (handleCacheWrite cache a) a.address =
          some a := fun a => by rw [accounts_handleCacheWrite, AccountMap.put_self]
      unfold seen
      rw [← haddr, hput]
      cases b.lookup caller'.address <;> rfl
    · obtain ⟨account, ha⟩ := Option.isSome_iff_exists.1
        (applyInstructions_reaches BatchBuffer.keyed_empty hb x (Or.inr hx))
      unfold seen
      rw [ha]
      rfl

end Call

section Call

variable {env : Env} {tx : Transaction} {outputs : Outputs}

/-- A call that fits goes through its instructions. -/
theorem CallFits.goes {storage cache : AccountStore}
    (h : CallFits (accounts storage cache) tx outputs) :
    ∃ caller caller' t, accounts storage cache tx.to = some caller ∧
      caller.incrementNonce = .ok caller' ∧
      ((planAll tx ((accounts storage cache).put caller') outputs.instructions).bind fun ms =>
        runMoves Edit.apply ms ((accounts storage cache).put caller')) = some t := by
  obtain ⟨caller, hcaller, hnonce⟩ := h.program
  obtain ⟨caller', hinc⟩ := Account.incrementNonce_isOk_iff.2 hnonce
  obtain ⟨t, ht⟩ := Option.isSome_iff_exists.1
    ((callFits_iff (fun _ _ => address_of_accounts) hcaller hinc).1 h)
  exact ⟨caller, caller', t, hcaller, hinc, ht⟩

/-- A call that does not fit advances the nonce of the called account at most. -/
theorem call_of_not_fits (env : Env) {storage cache : AccountStore}
    (h : ¬CallFits (accounts storage cache) tx outputs) :
    (∃ e, runAlone storage (applyInstructionsToAccounts env tx outputs) cache = (.error e, cache) ∧
        ¬∃ a, accounts storage cache tx.to = some a ∧ a.nonce.toNat + 1 < 2 ^ 256) ∨
      ∃ caller caller' e, accounts storage cache tx.to = some caller ∧
        caller.incrementNonce = .ok caller' ∧
        runAlone storage (applyInstructionsToAccounts env tx outputs) cache =
          (.error e, handleCacheWrite cache caller') := by
  by_cases hprogram : ∃ a, accounts storage cache tx.to = some a ∧ a.nonce.toNat + 1 < 2 ^ 256
  · obtain ⟨caller, hcaller, hnonce⟩ := hprogram
    obtain ⟨caller', hinc⟩ := Account.incrementNonce_isOk_iff.2 hnonce
    rw [callFits_iff (fun _ _ => address_of_accounts) hcaller hinc,
      Option.not_isSome_iff_eq_none] at h
    obtain ⟨e, he⟩ := call_fails env hcaller hinc h
    exact Or.inr ⟨caller, caller', e, hcaller, hinc, he⟩
  · obtain ⟨e, he⟩ := call_missing env outputs hprogram
    exact Or.inl ⟨e, he, hprogram⟩

end Call

section Call

variable {tx : Transaction} {outputs : Outputs} {v v' w w' s s' t t' : AccountMap}
  {caller caller' : Account}

/-- What is left of the accounts after a call, and of their metadata and data. -/
theorem call_leaves (hkeyed : ∀ x a, v x = some a → a.address = x)
    (hcaller : v tx.to = some caller) (hinc : caller.incrementNonce = .ok caller')
    (h : ((planAll tx (v.put caller') outputs.instructions).bind fun ms =>
      runMoves Edit.apply ms (v.put caller')) = some t) :
    SameTypes t (v.opened (tx.to :: outputs.instructions.flatMap (Instruction.written tx))) ∧
      ∀ k, templateOf (t k) = reviseProgram
        (outputs.instructions.flatMap (Instruction.programUpdates tx k)) (templateOf (v k)) := by
  obtain ⟨htypes, -⟩ := put_incremented hkeyed hcaller hinc
  obtain ⟨-, htemplate⟩ := entryAt_put_incremented hkeyed hcaller hinc
  have hto : (v.put caller' tx.to).isSome := by
    rw [SameTypes.isSome htypes, hcaller]
    rfl
  have hopened : v.opened (tx.to :: outputs.instructions.flatMap (Instruction.written tx)) =
      v.opened (outputs.instructions.flatMap (Instruction.written tx)) := by
    funext x
    unfold AccountMap.opened
    by_cases hx : x = tx.to
    · rw [hx, hcaller]
      rfl
    · simp [hx]
  rw [hopened]
  refine ⟨(sameTypes_plan hto h).trans (SameTypes.opened htypes _), fun k => ?_⟩
  rw [(revises_plan h).program, htemplate]

/-- Two calls on accounts that are the same in `F` leave the same there, exactly when every entry
they start gets the same metadata and data. -/
theorem call_eq_iff {F : Set Address} (hkeyed : ∀ x a, v x = some a → a.address = x)
    (hkeyed' : ∀ x a, v' x = some a → a.address = x) (hF : ∀ x ∈ F, v' x = v x)
    (hto : tx.to ∈ F)
    (hwritten : ∀ x ∈ outputs.instructions.flatMap (Instruction.written tx), x ∈ F)
    (hcaller : v tx.to = some caller) (hinc : caller.incrementNonce = .ok caller')
    (h : ((planAll tx (v.put caller') outputs.instructions).bind fun ms =>
      runMoves Edit.apply ms (v.put caller')) = some t)
    (h' : ((planAll tx (v'.put caller') outputs.instructions).bind fun ms =>
      runMoves Edit.apply ms (v'.put caller')) = some t') :
    (∀ x ∈ F, t' x = t x) ↔ ∀ x k, ¬v.Holds x k →
      (outputs.instructions.flatMap fun i => i.effects tx x k) ≠ [] →
        reviseEntry (entryUpdates (outputs.instructions.flatMap fun i => i.effects tx x k))
            (templateOf (v k)) =
          reviseEntry (entryUpdates (outputs.instructions.flatMap fun i => i.effects tx x k))
            (templateOf (v' k)) := by
  have hcaller' : v' tx.to = some caller := (hF _ hto).trans hcaller
  obtain ⟨hentry, htemplate⟩ := entryAt_put_incremented hkeyed hcaller hinc
  obtain ⟨hentry', htemplate'⟩ := entryAt_put_incremented hkeyed' hcaller' hinc
  have hstart : ∀ x ∈ F, v'.put caller' x = v.put caller' x := fun x hx => by
    rw [AccountMap.put_apply, AccountMap.put_apply, hF x hx]
  have halike : AlikeOn F t' t :=
    plan_alike (fun x hx => congrArg _ (hstart x hx)) h' h
  have hcells := ((callMoves_isSome_iff hkeyed hcaller hinc).1 (by rw [h]; rfl)).2
  have hat : ∀ x ∈ F, (t' x = t x ↔ ∀ k, t'.entryAt x k = t.entryAt x k) := fun x hx =>
    ⟨fun h k => by rw [AccountMap.entryAt, h]; rfl, fun h => halike.eq hx h⟩
  have hone : ∀ x ∈ F, ∀ k, (t'.entryAt x k = t.entryAt x k ↔ (¬v.Holds x k →
      (outputs.instructions.flatMap fun i => i.effects tx x k) ≠ [] →
        reviseEntry (entryUpdates (outputs.instructions.flatMap fun i => i.effects tx x k))
            (templateOf (v k)) =
          reviseEntry (entryUpdates (outputs.instructions.flatMap fun i => i.effects tx x k))
            (templateOf (v' k)))) := by
    intro x hx k
    have hsame : v'.entryAt x k = v.entryAt x k := by
      unfold AccountMap.entryAt
      rw [hF x hx]
    rw [(revises_plan h).entry, (revises_plan h').entry, hentry, hentry', hsame, htemplate,
      htemplate']
    rcases entryAt_cases v x k with ⟨U, hxk, hholds⟩ | ⟨hxk, hno, hholding⟩
    · rw [hxk, reviseAll_some, reviseAll_some]
      exact iff_of_true rfl fun hno => absurd hholds hno
    · have hcell := hcells x k
      rw [hholding] at hcell
      rw [hxk, imp_iff_right hno]
      by_cases hes : (outputs.instructions.flatMap fun i => i.effects tx x k) = []
      · rw [hes]
        exact iff_of_true rfl fun h => absurd rfl h
      · rw [imp_iff_right hes, reviseAll_none hcell hes, reviseAll_none hcell hes,
          Option.some.injEq, eq_comm]
  constructor
  · intro hall x k hno hes
    have hx : x ∈ F := by
      by_contra hx
      refine hes (List.flatMap_eq_nil_iff.2 fun i hi =>
        Instruction.effects_eq_nil (fun hmem => ?_) k)
      exact hx (hwritten x (List.mem_flatMap.2 ⟨i, hi, hmem⟩))
    exact (hone x hx k).1 ((hat x hx).1 (hall x hx) k) hno hes
  · exact fun hcopies x hx => (hat x hx).2 fun k => (hone x hx k).2 (hcopies x k)

end Call

end Lasr
