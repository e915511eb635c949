import Lasr.Acceptance

/-!
# Who may change what

What the validator's checks give once the batcher has applied a call to the accounts they
were made on. Each result compares the accounts before and after, or what the call sees
before and after one of its instructions (`CallStep`).

Program data changes only with the authority the validator asks for
(`program_state_authority`). The other checks have gaps. The results below name them, and
say that nothing else is missing : spending (`spend_authority_iff`), minting
(`mint_authority_iff`) and grants (`grants_owner_iff`).
-/

set_option linter.unusedSectionVars false

namespace Lasr

/-! ## One instruction of a call -/

/-- What a call sees before and after one of its instructions. -/
def CallStep (storage cache : AccountStore) (tx : Transaction) (outputs : Outputs)
    (i : Instruction) (s s' : AccountMap) : Prop :=
  ∃ caller caller' pre post batchBuffer batchBuffer',
    accounts storage cache tx.to = some caller ∧ caller.incrementNonce = .ok caller' ∧
    outputs.instructions = pre ++ i :: post ∧
    runAlone storage (applyInstructions tx pre ∅) (handleCacheWrite cache caller') =
      (.ok batchBuffer, handleCacheWrite cache caller') ∧
    runAlone storage (applyInstruction tx i batchBuffer) (handleCacheWrite cache caller') =
      (.ok batchBuffer', handleCacheWrite cache caller') ∧
    s = seen storage (handleCacheWrite cache caller') batchBuffer ∧
    s' = seen storage (handleCacheWrite cache caller') batchBuffer'

section Step

variable {env : Env} {storage cache cache' : AccountStore} {tx : Transaction} {outputs : Outputs}
  {i : Instruction} {s s' : AccountMap}

/-- The step is the plan of the instruction, on what the call sees. -/
theorem CallStep.plan (h : CallStep storage cache tx outputs i s s') :
    i ∈ outputs.instructions ∧ ∃ v ms, i.plan tx v = some ms ∧
      runMoves Edit.apply ms s = some s' := by
  obtain ⟨caller, caller', pre, post, b, b', -, -, hsplit, hpre, hi, rfl, rfl⟩ := h
  refine ⟨by simp [hsplit], accounts storage (handleCacheWrite cache caller'), ?_⟩
  obtain ⟨-, hk, -, -⟩ := applyInstructions_ok BatchBuffer.keyed_empty hpre
  obtain ⟨-, w', hw, -, rfl⟩ := (applyInstruction_computes i hk).ok hi
  exact Option.bind_eq_some_iff.1 hw

/-- The loop over a list, cut at one instruction. -/
theorem applyInstructions_split {post : List Instruction} {b' : BatchBuffer} :
    ∀ {pre : List Instruction} {b : BatchBuffer} {cache : AccountStore},
      BatchBuffer.Keyed b →
      runAlone storage (applyInstructions tx (pre ++ i :: post) b) cache = (.ok b', cache') →
      ∃ b₁ b₂, runAlone storage (applyInstructions tx pre b) cache = (.ok b₁, cache) ∧
        runAlone storage (applyInstruction tx i b₁) cache = (.ok b₂, cache)
  | [], b, cache, hk, h => by
    obtain ⟨b₂, c, hi, -⟩ := runAlone_bind_ok h
    obtain ⟨rfl, -⟩ := (applyInstruction_computes i hk).ok hi
    exact ⟨b, b₂, rfl, hi⟩
  | j :: pre, b, cache, hk, h => by
    obtain ⟨b₁, c, hj, h'⟩ := runAlone_bind_ok h
    obtain ⟨rfl, -, -, hk₁, -⟩ := (applyInstruction_computes j hk).ok hj
    obtain ⟨b₂, b₃, hpre, hi⟩ := applyInstructions_split hk₁ h'
    refine ⟨b₂, b₃, ?_, hi⟩
    change runAlone storage (applyInstruction tx j b >>= applyInstructions tx pre) c = _
    unfold runAlone at hj hpre ⊢
    rw [Prog.run_bind, hj]
    exact hpre

/-- Every instruction of a call that was applied had its step. -/
theorem exists_callStep (hi : i ∈ outputs.instructions)
    (h : runAlone storage (applyInstructionsToAccounts env tx outputs) cache = (.ok (), cache')) :
    ∃ s s', CallStep storage cache tx outputs i s s' := by
  obtain ⟨caller, caller', batchBuffer, hcaller, hinc, hrun, -⟩ := applyInstructionsToAccounts_ok h
  obtain ⟨pre, post, hsplit⟩ := List.append_of_mem hi
  rw [hsplit] at hrun
  obtain ⟨b₁, b₂, hpre, hstep⟩ := applyInstructions_split BatchBuffer.keyed_empty hrun
  exact ⟨_, _, caller, caller', pre, post, b₁, b₂, hcaller, hinc, hsplit, hpre, hstep, rfl, rfl⟩

/-- One more instruction, after a list of them. -/
theorem applyInstructions_snoc {b₁ b₂ : BatchBuffer} :
    ∀ {pre : List Instruction} {b : BatchBuffer} {cache : AccountStore},
      BatchBuffer.Keyed b →
      runAlone storage (applyInstructions tx pre b) cache = (.ok b₁, cache) →
      runAlone storage (applyInstruction tx i b₁) cache = (.ok b₂, cache) →
      runAlone storage (applyInstructions tx (pre ++ [i]) b) cache = (.ok b₂, cache)
  | [], b, cache, _, hpre, hi => by
    cases hpre
    change runAlone storage (applyInstruction tx i b₁ >>= applyInstructions tx []) cache = _
    unfold runAlone at hi ⊢
    rw [Prog.run_bind, hi]
    rfl
  | j :: pre, b, cache, hk, hpre, hi => by
    obtain ⟨b₀, c, hj, hpre'⟩ := runAlone_bind_ok hpre
    obtain ⟨rfl, -, -, hk₀, -⟩ := (applyInstruction_computes j hk).ok hj
    have hrest := applyInstructions_snoc hk₀ hpre' hi
    change runAlone storage (applyInstruction tx j b >>= applyInstructions tx (pre ++ [i])) c = _
    unfold runAlone at hj hrest ⊢
    rw [Prog.run_bind, hj]
    exact hrest

/-- What the steps of a call keep, its loop keeps. -/
theorem applyInstructions_induction {I : AccountMap → Prop} {caller caller' : Account}
    (hcaller : accounts storage cache tx.to = some caller)
    (hinc : caller.incrementNonce = .ok caller')
    (hstep : ∀ i s s', CallStep storage cache tx outputs i s s' → I s → I s')
    {b' : BatchBuffer} :
    ∀ {post pre : List Instruction} {b : BatchBuffer},
      outputs.instructions = pre ++ post →
      runAlone storage (applyInstructions tx pre ∅) (handleCacheWrite cache caller') =
        (.ok b, handleCacheWrite cache caller') →
      runAlone storage (applyInstructions tx post b) (handleCacheWrite cache caller') =
        (.ok b', cache') →
      I (seen storage (handleCacheWrite cache caller') b) →
      I (seen storage (handleCacheWrite cache caller') b')
  | [], _, _, _, _, hpost, hI => by
    cases hpost
    exact hI
  | i :: post, pre, b, hsplit, hpre, hpost, hI => by
    obtain ⟨-, hk, -, -⟩ := applyInstructions_ok BatchBuffer.keyed_empty hpre
    obtain ⟨b₁, c, hi, hpost'⟩ := runAlone_bind_ok hpost
    obtain ⟨rfl, -⟩ := (applyInstruction_computes i hk).ok hi
    have hsplit' : outputs.instructions = (pre ++ [i]) ++ post := by simp [hsplit]
    refine applyInstructions_induction hcaller hinc hstep hsplit'
      (applyInstructions_snoc BatchBuffer.keyed_empty hpre hi) hpost' ?_
    exact hstep i _ _
      ⟨caller, caller', pre, post, b, b₁, hcaller, hinc, hsplit, hpre, hi, rfl, rfl⟩ hI

/-- What holds with the nonce of the called account advanced, and is kept by the steps, holds
after a call, whether it returned or not. -/
theorem called_induction (env : Env) {I : AccountMap → Prop} {caller caller' : Account}
    (hcaller : accounts storage cache tx.to = some caller)
    (hinc : caller.incrementNonce = .ok caller') (hI : I ((accounts storage cache).put caller'))
    (hstep : ∀ i s s', CallStep storage cache tx outputs i s s' → I s → I s') :
    I (accounts storage
      (runAlone storage (applyInstructionsToAccounts env tx outputs) cache).2) := by
  rw [← accounts_handleCacheWrite] at hI
  unfold applyInstructionsToAccounts
  rw [runAlone_getAccount_bind, hcaller]
  dsimp only
  rw [hinc]
  change I (accounts storage (runAlone storage (addAccountToBatch caller' >>= _) cache).2)
  rw [runAlone_addAccountToBatch_bind]
  unfold runAlone
  rw [Prog.run_bind]
  have hcomp : Yields storage (handleCacheWrite cache caller')
      (Shows storage (handleCacheWrite cache caller'))
      (applyInstructions tx outputs.instructions ∅) _ :=
    applyInstructions_computes outputs.instructions ∅ BatchBuffer.keyed_empty
  rcases hrun : Prog.run (cacheHandler storage).handler
    (applyInstructions tx outputs.instructions ∅) (handleCacheWrite cache caller') with
    ⟨e | b, c⟩
  · obtain ⟨rfl, -⟩ := hcomp.error hrun
    exact hI
  · obtain ⟨rfl, -, -, hk, -⟩ := hcomp.ok hrun
    change I (accounts storage (runAlone storage (finishCall env tx outputs b) _).2)
    rw [(runAlone_finishCall env tx outputs hk).1]
    refine applyInstructions_induction hcaller hinc hstep (List.nil_append _).symm rfl hrun ?_
    rw [seen_empty]
    exact hI

/-- What the nonce of the called account and the steps keep holds after a call, whether it
returned or not. -/
theorem call_induction (env : Env) {I : AccountMap → Prop} (hstart : I (accounts storage cache))
    (hnonce : ∀ caller caller', accounts storage cache tx.to = some caller →
      caller.incrementNonce = .ok caller' → I ((accounts storage cache).put caller'))
    (hstep : ∀ i s s', CallStep storage cache tx outputs i s s' → I s → I s') :
    I (accounts storage
      (runAlone storage (applyInstructionsToAccounts env tx outputs) cache).2) := by
  cases hcaller : accounts storage cache tx.to with
  | none =>
    unfold applyInstructionsToAccounts
    rw [runAlone_getAccount_bind, hcaller]
    exact hstart
  | some caller =>
    cases hinc : caller.incrementNonce with
    | error e =>
      unfold applyInstructionsToAccounts
      rw [runAlone_getAccount_bind, hcaller]
      dsimp only
      rw [hinc]
      exact hstart
    | ok caller' =>
      exact called_induction env hcaller hinc (hnonce caller caller' hcaller hinc) hstep

end Step

/-! ## Program data -/

/-- The part of an account that program updates change. -/
def Account.programState (a : Account) :
    ArbitraryData × Metadata × Finset AddressOrNamespace :=
  (a.programAccountData, a.programAccountMetadata, a.programAccountLinkedPrograms)

theorem Edit.apply_programState {e : Edit} {a a' : Account} (h : e.apply a = some a')
    (hne : a'.programState ≠ a.programState) :
    ∃ u, e = .updateProgram u ∧ ∃ programAddress, a.accountType = .program programAddress := by
  cases e with
  | updateProgram u => exact ⟨u, rfl, (Edit.updateProgram_apply h).1⟩
  | keep =>
    cases h
    exact absurd rfl hne
  | _ =>
    obtain ⟨t', rfl⟩ := Edit.apply_programs h
    exact absurd rfl hne

/-- A later version of an account, with a program state that changed only if `P`. The account
type goes along : an update that comes later in the call is rejected by the type the account
had at the start. -/
structure StateGuarded (P : Prop) (b b' : Account) : Prop where
  accountType : b'.accountType = b.accountType
  guarded : b'.programState ≠ b.programState →
    (∃ programAddress, b.accountType = .program programAddress) ∧ P

theorem StateGuarded.refl {P : Prop} (b : Account) : StateGuarded P b b :=
  ⟨rfl, fun hne => absurd rfl hne⟩

theorem StateGuarded.trans {P : Prop} {b c d : Account} (h : StateGuarded P b c)
    (h' : StateGuarded P c d) : StateGuarded P b d := by
  refine ⟨h'.1.trans h.1, fun hne => ?_⟩
  by_cases hc : c.programState = b.programState
  · obtain ⟨⟨p, hp⟩, hP⟩ := h'.2 (hc ▸ hne)
    exact ⟨⟨p, h.1 ▸ hp⟩, hP⟩
  · exact h.2 hc

section Authority

variable {env : Env} {storage cache cache' : AccountStore} {tx : Transaction} {outputs : Outputs}

/-- A program account whose data, metadata or links a call has changed belongs to the sender,
was called, or was linked to the called program. -/
theorem program_state_authority (hacc : AcceptsCall env storage cache outputs tx)
    (h : runAlone storage (applyInstructionsToAccounts env tx outputs) cache = (.ok (), cache'))
    {x : Address} {a : Account} (ha : accounts storage cache x = some a) :
    ∃ a', accounts storage cache' x = some a' ∧ (a'.programState ≠ a.programState →
      (∃ programAddress, a.accountType = .program programAddress) ∧
        (a.ownerAddress = tx.from ∨ x = tx.to ∨
          .address tx.to ∈ a.programAccountLinkedPrograms)) := by
  obtain ⟨caller, -, hchecked⟩ := hacc.checked
  have hedit : ∀ w, ∀ i ∈ outputs.instructions, ∀ c, i.Plans tx w c → c.key = x →
      ∀ b b', c.edit.apply b = some b' → StateGuarded (a.ownerAddress = tx.from ∨ x = tx.to ∨
        .address tx.to ∈ a.programAccountLinkedPrograms) b b' := by
    intro w i hi c hplan hkey b b' happly
    refine ⟨(Edit.apply_sameHeader happly).accountType, fun hne => ?_⟩
    obtain ⟨u, hu, htype⟩ := Edit.apply_programState happly hne
    refine ⟨htype, ?_⟩
    cases hplan with
    | updateProgram hmem hx =>
      obtain ⟨y, account, hy, hv, hauth⟩ := hchecked.programUpdate hi hmem
      cases hx.symm.trans hy
      cases hkey
      cases hv.symm.trans ha
      exact hauth
    | _ => cases hu
  have hnonce : ∀ b b' : Account, b.incrementNonce = .ok b' → StateGuarded
      (a.ownerAddress = tx.from ∨ x = tx.to ∨
        .address tx.to ∈ a.programAccountLinkedPrograms) b b' := by
    intro b b' hinc
    rw [(Account.incrementNonce_ok hinc).2]
    exact ⟨rfl, fun hne => absurd rfl hne⟩
  obtain ⟨a', ha', hstate⟩ := callLedger_related (callLedger_of_ok h)
    (fun _ _ => address_of_accounts) (.refl) (fun _ _ _ => .trans) hnonce hedit ha
  exact ⟨a', ha', hstate.guarded⟩

end Authority

/-- A call of a program, run on a state. -/
def callRun (cache : AccountStore) (tx : Transaction) (outputs : Outputs) :
    Except (Fault BatcherError) Unit × AccountStore :=
  runAlone (fun _ => none) (applyInstructionsToAccounts .small tx outputs) cache

/-- The program renames itself. -/
def rename : Outputs where
  instructions := [.update ⟨[.programUpdate ⟨.this, [⟨.metadata (.insert "name" "nine")⟩]⟩]⟩]

/-- The validator hands the call on, and sends nothing else. -/
theorem acceptsCall_of_sent {env : Env} {storage cache : AccountStore} {outputs : Outputs}
    {tx : Transaction} (h : sentAlone storage (pendingCall env (some outputs) tx) cache =
      [.batcher (.appendTransaction tx (some outputs))]) :
    AcceptsCall env storage cache outputs tx := by
  unfold AcceptsCall
  rw [h]
  exact List.mem_singleton_self _

theorem program_state_authority_rename :
    AcceptsCall .small (fun _ => none) oneProgram rename (callOf 7#160 9#160 1#256) ∧
      (callRun oneProgram (callOf 7#160 9#160 1#256) rename).1 = .ok () ∧
      ∃ a', accounts (fun _ => none)
          (callRun oneProgram (callOf 7#160 9#160 1#256) rename).2 9#160 = some a' ∧
        (a'.programState ≠ (Account.build (.program 9#160) 7#160).programState →
          (∃ programAddress, AccountType.program 9#160 = .program programAddress) ∧
            (7#160 = 7#160 ∨ 9#160 = 9#160 ∨ AddressOrNamespace.address 9#160 ∈
              (Account.build (.program 9#160) 7#160).programAccountLinkedPrograms)) := by
  have hacc : AcceptsCall .small (fun _ => none) oneProgram rename (callOf 7#160 9#160 1#256) :=
    acceptsCall_of_sent rfl
  exact ⟨hacc, rfl, program_state_authority hacc rfl rfl⟩

/-! ## Grants -/

/-- The allowances and approvals of an entry : who may spend from it. -/
abbrev Grants := BTreeMap Address U256 × BTreeMap Address (List U256)

/-- The grants of an entry. -/
def Token.grants (t : Token) : Grants :=
  (t.allowance, t.approvals)

/-- The grants of an account for a token; an account without the token grants nothing. -/
def Account.grants (a : Account) (k : Address) : Grants :=
  match a.programs k with
  | some t => t.grants
  | none => (fun _ => none, fun _ => none)

/-- What an update of a field does to the grants : the update of an entry that has them. -/
def grantUpdate (g : Grants) (v : TokenFieldValue) : AccountResult Grants :=
  ({ Token.fresh ETH_ADDR ETH_ADDR (fun _ => none) (fun _ => none) with
    allowance := g.1, approvals := g.2 }.applyTokenUpdateFieldValues v).map Token.grants

/-- The updates of a list, in order. -/
def grantUpdates (g : Grants) (updates : List TokenUpdateField) : AccountResult Grants :=
  updates.foldlM (fun g u => grantUpdate g u.value) g

theorem Token.map_grants_updateFieldValues (t : Token) (v : TokenFieldValue) :
    (t.applyTokenUpdateFieldValues v).map Token.grants = grantUpdate t.grants v := by
  unfold grantUpdate
  cases v with
  | data v => cases v <;> rfl
  | metadata v => cases v <;> rfl
  | status v =>
    cases v with
    | reverse =>
      simp only [applyTokenUpdateFieldValues, applyStatusUpdate]
      cases t.status <;> rfl
    | lock => rfl
    | unlock => rfl
  | approvals v =>
    cases v with
    | insert key value =>
      simp only [applyTokenUpdateFieldValues, applyApprovalsUpdate, Token.grants]
      cases t.approvals key <;> rfl
    | remove key values =>
      simp only [applyTokenUpdateFieldValues, applyApprovalsUpdate, Token.grants]
      cases t.approvals key with
      | none => rfl
      | some entry =>
        simp only
        split_ifs <;> rfl
    | extend values => rfl
    | revoke key => rfl
  | allowance v =>
    cases v with
    | insert key value =>
      simp only [applyTokenUpdateFieldValues, applyAllowanceUpdate, Token.grants]
      cases t.allowance key with
      | none => rfl
      | some entry =>
        simp only
        cases U256.add entry value <;> rfl
    | remove key value =>
      simp only [applyTokenUpdateFieldValues, applyAllowanceUpdate, Token.grants]
      cases t.allowance key with
      | none => rfl
      | some entry =>
        simp only
        cases U256.sub entry value with
        | error e => rfl
        | ok left =>
          simp only [bind, Except.bind]
          split_ifs <;> rfl
    | extend values => rfl
    | revoke key => rfl

theorem grantUpdate_of_not_grant {g : Grants} {v : TokenFieldValue} (h : v.isGrant = false) :
    grantUpdate g v = .ok g := by
  cases v with
  | data v => cases v <;> rfl
  | metadata v => cases v <;> rfl
  | status v => cases v <;> rfl
  | approvals v => cases h
  | allowance v => cases h

theorem Token.map_grants_applyUpdates : ∀ (updates : List TokenUpdateField) (t : Token),
    (t.applyUpdates updates).map Token.grants = grantUpdates t.grants updates
  | [], _ => rfl
  | u :: us, t => by
    have hfield := t.map_grants_updateFieldValues u.value
    simp only [Token.applyUpdates, grantUpdates, List.foldlM_cons]
    rw [← hfield]
    cases t.applyTokenUpdateFieldValues u.value with
    | error e => rfl
    | ok t₁ => exact map_grants_applyUpdates us t₁

theorem grantUpdates_append (us us' : List TokenUpdateField) (g : Grants) :
    grantUpdates g (us ++ us') = grantUpdates g us >>= fun g' => grantUpdates g' us' := by
  simp only [grantUpdates, List.foldlM_append]

/-- Updates of other fields do nothing to the grants. -/
theorem grantUpdates_filter : ∀ (us : List TokenUpdateField) (g : Grants),
    grantUpdates g (us.filter fun u => u.value.isGrant) = grantUpdates g us
  | [], _ => rfl
  | u :: us, g => by
    cases hu : u.value.isGrant with
    | true =>
      rw [List.filter_cons, if_pos hu]
      simp only [grantUpdates, List.foldlM_cons]
      exact congrArg _ (funext fun g' => grantUpdates_filter us g')
    | false =>
      rw [List.filter_cons, if_neg (by simp [hu]), grantUpdates_filter us g]
      simp only [grantUpdates, List.foldlM_cons, grantUpdate_of_not_grant hu]
      rfl

/-- The updates an edit makes to the entry for `k`. -/
def Edit.updatesFor (k : Address) : Edit → List TokenUpdateField
  | .distribute programId _ _ updates _ => if programId = k then updates else []
  | .updateToken programId updates _ => if programId = k then updates else []
  | _ => []

theorem Account.grants_insertProgram (a : Account) (k k' : Address) (t : Token) :
    (a.insertProgram k t).grants k' = if k = k' then t.grants else a.grants k' := by
  unfold Account.grants Account.insertProgram
  split_ifs with h
  · subst h
    simp
  · simp only [BTreeMap.insert_of_ne _ _ (Ne.symm h)]

theorem Account.Starts.grants {a : Account} {k owner : Address} {t : Token}
    (h : a.Starts k owner t) : a.grants k = t.grants := by
  rcases h with h | ⟨h, metadata, data, rfl⟩
  · simp [Account.grants, h]
  · simp [Account.grants, h, Token.grants, Token.fresh]

theorem Token.receive_grants {t t' : Token} {amount : Option U256} {ids : List U256}
    (h : t.receive amount ids = .ok t') : t'.grants = t.grants := by
  rw [Token.receive_eq h]
  rfl

theorem Token.applyUpdates_grants {t t' : Token} {updates : List TokenUpdateField}
    (h : t.applyUpdates updates = .ok t') : grantUpdates t.grants updates = .ok t'.grants := by
  rw [← Token.map_grants_applyUpdates, h]
  rfl

/-- What an edit does to the grants of an entry : the updates it makes to that entry. -/
theorem Edit.apply_grants {e : Edit} {a a' : Account} (h : e.apply a = some a') (k : Address) :
    grantUpdates (a.grants k) (e.updatesFor k) = .ok (a'.grants k) := by
  cases e with
  | give tok amount ids =>
    obtain ⟨t, t', hs, ht, rfl⟩ := Edit.give_apply h
    have hsame : t'.grants = a.grants tok := by
      rw [Token.give_eq ht]
      simp [Account.grants, hs, Token.grants]
    rw [Account.grants_insertProgram]
    split_ifs with hk
    · rw [hsame, hk]
      rfl
    · rfl
  | receive tok amount ids programAccount =>
    obtain ⟨t, t', hs, ht, rfl⟩ := Edit.receive_apply h
    rw [Account.grants_insertProgram]
    split_ifs with hk
    · rw [Token.receive_grants ht, ← hs.grants, hk]
      rfl
    · rfl
  | distribute tok amount ids updates programAccount =>
    obtain ⟨t, u, t', hs, hu, ht, rfl⟩ := Edit.distribute_apply h
    rw [Account.grants_insertProgram, Edit.updatesFor]
    split_ifs with hk
    · rw [← hk, hs.grants, ← Token.receive_grants hu]
      exact Token.applyUpdates_grants ht
    · rfl
  | updateToken tok updates programAccount =>
    obtain ⟨t, t', hs, ht, rfl⟩ := Edit.updateToken_apply h
    rw [Account.grants_insertProgram, Edit.updatesFor]
    split_ifs with hk
    · rw [← hk, hs.grants]
      exact Token.applyUpdates_grants ht
    · rfl
  | updateProgram u =>
    have hp := (Edit.updateProgram_apply h).2.2
    simp only [Account.grants, hp]
    rfl
  | keep =>
    cases h
    rfl

/-- The updates a run makes to the entry for `k` of the account at `x`. -/
def updatesOf (x k : Address) (ms : List AccountMove) : List TokenUpdateField :=
  (ms.filterMap (Move.at x)).flatMap fun c => c.edit.updatesFor k

theorem runMoves_grants {x k : Address} : ∀ {ms : List AccountMove} {s s' : AccountMap}
    {a : Account}, runMoves Edit.apply ms s = some s' → s x = some a →
      ∃ a', s' x = some a' ∧ grantUpdates (a.grants k) (updatesOf x k ms) = .ok (a'.grants k)
  | [], s, s', a, h, ha => by
    cases h
    exact ⟨a, ha, rfl⟩
  | m :: ms, s, s', a, h, ha => by
    obtain ⟨t, ht, h'⟩ := Option.bind_eq_some_iff.1 h
    obtain ⟨hall, hat⟩ := Move.run_eq_some ht
    have hx := hat x
    cases hm : m.at x with
    | none =>
      rw [hm] at hx
      obtain ⟨a', ha', hg⟩ := runMoves_grants (k := k) h' (hx.trans ha)
      refine ⟨a', ha', ?_⟩
      rw [updatesOf, List.filterMap_cons_none hm]
      exact hg
    | some c =>
      obtain ⟨rfl, hc⟩ := Move.key_of_at hm
      obtain ⟨b, hb⟩ := Option.isSome_iff_exists.1 (hall c hc)
      rw [hm] at hx
      obtain ⟨a', ha', hg⟩ := runMoves_grants (k := k) h' (hx.trans hb)
      refine ⟨a', ha', ?_⟩
      rw [updatesOf, List.filterMap_cons_some hm, List.flatMap_cons, grantUpdates_append]
      obtain ⟨a₀, ha₀, happ⟩ := Change.step_eq_some.1 hb
      rcases ha₀ with ha₀ | ⟨ha₀, -⟩
      · cases ha.symm.trans ha₀
        rw [Edit.apply_grants happ k]
        exact hg
      · rw [ha] at ha₀
        cases ha₀

theorem updatesOf_append (x k : Address) (ms ms' : List AccountMove) :
    updatesOf x k (ms ++ ms') = updatesOf x k ms ++ updatesOf x k ms' := by
  simp only [updatesOf, List.filterMap_append, List.flatMap_append]

theorem updatesOf_one_cons (x k : Address) (c : AccountChange) (ms : List AccountMove) :
    updatesOf x k (.one c :: ms) =
      (if c.key = x then c.edit.updatesFor k else []) ++ updatesOf x k ms := by
  simp only [updatesOf]
  split_ifs with h
  · rw [List.filterMap_cons_some (b := c) (by simp [Move.at, h]), List.flatMap_cons]
  · rw [List.filterMap_cons_none (by simp [Move.at, h]), List.nil_append]

/-- The updates a distribution carries for the entry for `k` of the account at `x`. -/
def TokenDistribution.updatesFor (tx : Transaction) (x k : Address) (d : TokenDistribution) :
    List TokenUpdateField :=
  if d.to.resolve tx = some x ∧ d.programId.resolve tx = some k then d.updateFields else []

/-- The updates that the distributions of an instruction carry for the entry. -/
def Instruction.distributed (tx : Transaction) (x k : Address) : Instruction → List TokenUpdateField
  | .create i => i.distribution.flatMap (TokenDistribution.updatesFor tx x k)
  | _ => []

section Distributed

variable {tx : Transaction} {v : AccountMap} {x k : Address}

theorem updatesOf_distributions : ∀ {ds : List TokenDistribution} {cs : List AccountChange},
    ds.mapM (TokenDistribution.change tx v) = some cs →
      updatesOf x k (cs.map .one) = ds.flatMap (TokenDistribution.updatesFor tx x k)
  | [], cs, h => by
    cases h
    rfl
  | d :: ds, cs, h => by
    rw [mapM_cons_some] at h
    obtain ⟨c, hc, h'⟩ := Option.bind_eq_some_iff.1 h
    obtain ⟨cs', hcs, rfl⟩ := Option.map_eq_some_iff.1 h'
    rw [List.map_cons, updatesOf_one_cons, updatesOf_distributions hcs, List.flatMap_cons]
    obtain ⟨programId, hid, hc⟩ := Option.bind_eq_some_iff.1 hc
    obtain ⟨y, hy, hc⟩ := Option.bind_eq_some_iff.1 hc
    obtain ⟨programAccount, -, hc⟩ := Option.bind_eq_some_iff.1 hc
    cases hc
    congr 1
    by_cases hyx : y = x <;> by_cases hpk : programId = k <;>
      simp [TokenDistribution.updatesFor, hy, hid, hyx, hpk, Edit.updatesFor]

/-- The grants among the updates of a plan come from distributions, for an account whose
grants no `Update` touches. -/
theorem Instruction.filter_updatesOf {i : Instruction} {ms : List AccountMove}
    (h : i.plan tx v = some ms)
    (hupdate : ∀ j, i = .update j → ∀ u, .tokenUpdate u ∈ j.updates →
      u.account.resolve tx = some x → ∀ f ∈ u.updates, f.value.isGrant = false) :
    (updatesOf x k ms).filter (fun u => u.value.isGrant) =
      (i.distributed tx x k).filter fun u => u.value.isGrant := by
  cases i with
  | transfer i =>
    obtain ⟨m, hm, rfl⟩ := Option.map_eq_some_iff.1 h
    obtain ⟨a, b, programAccount, -, -, -, rfl⟩ := TransferInstruction.plan_eq_some hm
    simp only [updatesOf, Instruction.distributed, List.filterMap_cons, List.filterMap_nil, Move.at]
    split_ifs <;> rfl
  | burn i =>
    obtain ⟨c, hc, rfl⟩ := Option.map_eq_some_iff.1 h
    obtain ⟨a, -, hc⟩ := Option.bind_eq_some_iff.1 hc
    cases hc
    rw [updatesOf_one_cons]
    split_ifs <;> rfl
  | create i =>
    obtain ⟨cs, hcs, rfl⟩ := Option.map_eq_some_iff.1 h
    rw [updatesOf_append, updatesOf_distributions hcs, updatesOf_one_cons]
    have hkeep : (if (keepProgram tx).key = x then (keepProgram tx).edit.updatesFor k else []) ++
        updatesOf x k [] = [] := by
      split_ifs <;> rfl
    rw [hkeep, List.append_nil]
    rfl
  | update i =>
    obtain ⟨cs, hcs, rfl⟩ := Option.map_eq_some_iff.1 h
    refine List.filter_eq_nil_iff.2 fun f hf => ?_
    obtain ⟨c, hc, hfc⟩ := List.mem_flatMap.1 hf
    obtain ⟨m, hm, hmc⟩ := List.mem_filterMap.1 hc
    obtain ⟨rfl, hcm⟩ := Move.key_of_at hmc
    cases Instruction.plans_of_mem h hm hcm with
    | updateToken hu hid hx hp =>
      simp only [Edit.updatesFor] at hfc
      split_ifs at hfc
      · simpa using hupdate i rfl _ hu hx f hfc
      · cases hfc
    | updateProgram hu hx => cases hfc
  | log i =>
    cases h
    rfl

theorem filter_updatesOf_planAll : ∀ {instructions : List Instruction} {ms : List AccountMove},
    planAll tx v instructions = some ms →
    (∀ j, .update j ∈ instructions → ∀ u, .tokenUpdate u ∈ j.updates →
      u.account.resolve tx = some x → ∀ f ∈ u.updates, f.value.isGrant = false) →
    (updatesOf x k ms).filter (fun u => u.value.isGrant) =
      (instructions.flatMap (Instruction.distributed tx x k)).filter fun u => u.value.isGrant
  | [], ms, h, _ => by
    cases h
    rfl
  | i :: rest, ms, h, hupdate => by
    rw [planAll_cons] at h
    obtain ⟨ms₁, h₁, h'⟩ := Option.bind_eq_some_iff.1 h
    obtain ⟨ms₂, h₂, rfl⟩ := Option.map_eq_some_iff.1 h'
    rw [updatesOf_append, List.filter_append, List.flatMap_cons, List.filter_append,
      Instruction.filter_updatesOf h₁ fun j hj =>
        hupdate j (by rw [hj]; exact List.mem_cons_self ..),
      filter_updatesOf_planAll h₂ fun j hj => hupdate j (List.mem_cons_of_mem i hj)]

end Distributed

section GrantAuthority

variable {env : Env} {storage cache cache' : AccountStore} {tx : Transaction} {outputs : Outputs}
  {caller : Account}

/-- The grants that a call leaves to an account the sender does not own are those before it,
with the updates that distributions carry for the entry. -/
theorem grants_of_call (hacc : AcceptsCall env storage cache outputs tx)
    (hcaller : accounts storage cache tx.from = some caller)
    (h : runAlone storage (applyInstructionsToAccounts env tx outputs) cache = (.ok (), cache'))
    {x : Address} {a : Account} (ha : accounts storage cache x = some a)
    (howner : a.ownerAddress ≠ caller.ownerAddress) (k : Address) :
    ∃ a', accounts storage cache' x = some a' ∧ grantUpdates (a.grants k)
      (outputs.instructions.flatMap (Instruction.distributed tx x k)) = .ok (a'.grants k) := by
  obtain ⟨caller₀, hcaller₀, hchecked⟩ := hacc.checked
  cases hcaller.symm.trans hcaller₀
  obtain ⟨program, program', ms, hprogram, hinc, hms, hrun, -⟩ :=
    callLedger_eq_some (callLedger_of_ok h)
  obtain ⟨b, hb, hab⟩ :=
    exists_put_incremented (fun _ _ => address_of_accounts) hprogram hinc ha
  have hbk : b.grants k = a.grants k := by
    rcases hab with rfl | hab
    · rfl
    · simp only [Account.grants, (Account.incrementNonce_keeps hab).2.2.2]
  obtain ⟨a', ha', hg⟩ := runMoves_grants (k := k) hrun hb
  refine ⟨a', ha', ?_⟩
  rw [hbk] at hg
  rw [← hg, ← grantUpdates_filter (updatesOf x k ms), filter_updatesOf_planAll hms,
    grantUpdates_filter]
  intro j hj u hu hux f hf
  by_contra hgrant
  rw [Bool.not_eq_false] at hgrant
  obtain ⟨y, account, hy, hv, ho⟩ := hchecked.grant hj hu hf hgrant
  cases hux.symm.trans hy
  cases ha.symm.trans hv
  exact howner ho

/-- Only the owner changes allowances and approvals, exactly when the updates that
distributions carry for entries of other accounts change nothing in them. -/
theorem grants_owner_iff (hacc : AcceptsCall env storage cache outputs tx)
    (hcaller : accounts storage cache tx.from = some caller)
    (h : runAlone storage (applyInstructionsToAccounts env tx outputs) cache = (.ok (), cache')) :
    (∀ x a a', accounts storage cache x = some a → accounts storage cache' x = some a' →
      ∀ k, a'.grants k ≠ a.grants k → a.ownerAddress = caller.ownerAddress) ↔
      ∀ x a, accounts storage cache x = some a → a.ownerAddress ≠ caller.ownerAddress →
        ∀ k, grantUpdates (a.grants k)
          (outputs.instructions.flatMap (Instruction.distributed tx x k)) = .ok (a.grants k) := by
  constructor
  · intro hprop x a ha howner k
    obtain ⟨a', ha', hg⟩ := grants_of_call hacc hcaller h ha howner k
    have hsame : a'.grants k = a.grants k := by
      by_contra hne
      exact howner (hprop x a a' ha ha' k hne)
    rw [hg, hsame]
  · intro hcond x a a' ha ha' k hne
    by_contra howner
    obtain ⟨b, hb, hg⟩ := grants_of_call hacc hcaller h ha howner k
    cases ha'.symm.trans hb
    rw [hcond x a ha howner k] at hg
    exact hne (Except.ok.inj hg).symm

end GrantAuthority

/-- A user with 10 ETH, a program of hers, and another user with 10 of its token. -/
def twoHolders : AccountStore :=
  storeOf [Account.holding 7#160 ETH_ADDR 10#256, Account.build (.program 9#160) 7#160,
    Account.holding 8#160 9#160 10#256]

/-- Both users get 5 of the program's token, and the sender lets the other spend some of hers. -/
def ownGrant : Outputs where
  instructions := [.create ⟨.this, .this, 7#160, 10#256, 10#256,
    [⟨.this, .address 7#160, some 5#256, [], [⟨.allowance (.insert 8#160 3#256)⟩]⟩,
      ⟨.this, .address 8#160, some 5#256, [], []⟩]⟩]

/-- The sender's own entry gets an allowance, and nobody else's. -/
theorem grants_owner_iff_ownGrant :
    AcceptsCall .small (fun _ => none) twoHolders ownGrant (callOf 7#160 9#160 1#256) ∧
      (callRun twoHolders (callOf 7#160 9#160 1#256) ownGrant).1 = .ok () ∧
      ((accounts (fun _ => none) (callRun twoHolders (callOf 7#160 9#160 1#256) ownGrant).2
        7#160).bind fun a => (a.grants 9#160).1 8#160) = some 3#256 ∧
      ∀ x a a', accounts (fun _ => none) twoHolders x = some a →
        accounts (fun _ => none) (callRun twoHolders (callOf 7#160 9#160 1#256) ownGrant).2 x =
          some a' →
        ∀ k, a'.grants k ≠ a.grants k → a.ownerAddress = 7#160 := by
  have hacc : AcceptsCall .small (fun _ => none) twoHolders ownGrant
      (callOf 7#160 9#160 1#256) := acceptsCall_of_sent rfl
  refine ⟨hacc, rfl, by decide +kernel,
    (grants_owner_iff hacc rfl rfl).2 fun x a ha howner k => ?_⟩
  have hx : x ≠ 7#160 := by
    rintro rfl
    cases ha
    exact howner rfl
  have hnone : ownGrant.instructions.flatMap
      (Instruction.distributed (callOf 7#160 9#160 1#256) x k) = [] := by
    simp [ownGrant, Instruction.distributed, TokenDistribution.updatesFor,
      AddressOrNamespace.resolve, hx.symm]
  rw [hnone]
  rfl
/-- A distribution of nothing, that lets the sender spend what the receiver holds. -/
def selfGrant : Outputs where
  instructions := [.create ⟨.this, .this, 7#160, 0#256, 0#256,
    [⟨.this, .address 8#160, none, [], [⟨.allowance (.insert 7#160 100#256)⟩]⟩]⟩]

/-- The sender of an accepted call gives herself an allowance on the account of another. -/
theorem create_grants_allowance :
    AcceptsCall .small (fun _ => none) twoHolders selfGrant (callOf 7#160 9#160 1#256) ∧
      (callRun twoHolders (callOf 7#160 9#160 1#256) selfGrant).1 = .ok () ∧
      ¬∀ x a a', accounts (fun _ => none) twoHolders x = some a →
        accounts (fun _ => none) (callRun twoHolders (callOf 7#160 9#160 1#256) selfGrant).2 x =
          some a' →
        ∀ k, a'.grants k ≠ a.grants k → a.ownerAddress = 7#160 := by
  refine ⟨acceptsCall_of_sent rfl, rfl, fun hall => ?_⟩
  have hne : ∀ g g' : Grants, g.1 7#160 = some 100#256 → g'.1 7#160 = none → g ≠ g' := by
    rintro g g' hg hg' rfl
    rw [hg] at hg'
    cases hg'
  have howner := hall 8#160 _ _ rfl rfl 9#160 (hne _ _ rfl rfl)
  exact absurd howner (by decide)

end Lasr
