import Lasr.Calls
import Lasr.Acceptance

/-!
# Two spellings of the called program

An instruction may name the called program as `This` or by its address. `spell` writes every
`This` of a call's outputs as the address.

The batcher tells the two apart only where the account does not exist, and
`apply_instructions_to_accounts` has read the called account before the first instruction, so
both spellings run alike (`applyInstructionsToAccounts_spell`). The validator compares
references as they are written : `is_self` does not know `This`, and the account that a
transfer or a burn takes from is compared with the sender's before it is looked up. The checks
of all other instructions come out the same (`checkInstruction_spell`).
-/

set_option linter.unusedSectionVars false

namespace Lasr

/-! ## Spelling -/

/-- `This` spelled as the address of the called program. -/
def AddressOrNamespace.spell (tx : Transaction) : AddressOrNamespace → AddressOrNamespace
  | .this => .address tx.to
  | ref => ref

/-- The distribution with its references spelled. -/
def TokenDistribution.spell (tx : Transaction) (d : TokenDistribution) : TokenDistribution :=
  { d with programId := d.programId.spell tx, «to» := d.to.spell tx }

/-- The create instruction with its references spelled. -/
def CreateInstruction.spell (tx : Transaction) (i : CreateInstruction) : CreateInstruction :=
  { i with
    programNamespace := i.programNamespace.spell tx
    programId := i.programId.spell tx
    distribution := i.distribution.map (TokenDistribution.spell tx) }

/-- The token update with its references spelled. -/
def TokenUpdate.spell (tx : Transaction) (u : TokenUpdate) : TokenUpdate :=
  { u with account := u.account.spell tx, token := u.token.spell tx }

/-- The program update with its reference spelled. -/
def ProgramUpdate.spell (tx : Transaction) (u : ProgramUpdate) : ProgramUpdate :=
  { u with account := u.account.spell tx }

/-- The update with its references spelled. -/
def TokenOrProgramUpdate.spell (tx : Transaction) : TokenOrProgramUpdate → TokenOrProgramUpdate
  | .tokenUpdate u => .tokenUpdate (u.spell tx)
  | .programUpdate u => .programUpdate (u.spell tx)

/-- The transfer with its references spelled. -/
def TransferInstruction.spell (tx : Transaction) (i : TransferInstruction) : TransferInstruction :=
  { i with «from» := i.from.spell tx, «to» := i.to.spell tx }

/-- The burn with its references spelled. -/
def BurnInstruction.spell (tx : Transaction) (i : BurnInstruction) : BurnInstruction :=
  { i with programId := i.programId.spell tx, «from» := i.from.spell tx }

/-- The instruction with its references spelled. -/
def Instruction.spell (tx : Transaction) : Instruction → Instruction
  | .create i => .create (i.spell tx)
  | .update i => .update ⟨i.updates.map (TokenOrProgramUpdate.spell tx)⟩
  | .transfer i => .transfer (i.spell tx)
  | .burn i => .burn (i.spell tx)
  | .log i => .log i

/-- The outputs with every `This` spelled as the address of the called program. -/
def Outputs.spell (tx : Transaction) (outputs : Outputs) : Outputs :=
  ⟨outputs.instructions.map (Instruction.spell tx)⟩

section Resolve

variable {tx : Transaction}

@[simp] theorem AddressOrNamespace.resolve_spell (ref : AddressOrNamespace) :
    (ref.spell tx).resolve tx = ref.resolve tx := by
  cases ref <;> rfl

theorem AddressOrNamespace.spell_of_ne {ref : AddressOrNamespace} (h : ref ≠ .this) :
    ref.spell tx = ref := by
  cases ref with
  | this => exact absurd rfl h
  | _ => rfl

end Resolve

/-! ## The batcher -/

section Batcher

variable {storage : AccountStore} {tx : Transaction} {batchBuffer : BatchBuffer}

/-- The called account exists. -/
def CalledExists (storage : AccountStore) (tx : Transaction) (cache : AccountStore) : Prop :=
  (accounts storage cache tx.to).isSome

/-- Nothing removes an account. -/
theorem calledExists_answer (o : Op) (cache : AccountStore) (h : CalledExists storage tx cache) :
    CalledExists storage tx ((cacheHandler storage).handler o cache).2 := by
  cases o with
  | cacheAccount account =>
    change (accounts storage (handleCacheWrite cache account) tx.to).isSome
    rw [accounts_handleCacheWrite, AccountMap.put_apply]
    split_ifs
    · rfl
    · exact h
  | _ => exact h

/-- Two batcher functions that run alike wherever the called account exists. -/
abbrev AlikeCalled {α : Type} (storage : AccountStore) (tx : Transaction) (p q : BatcherM α) :
    Prop :=
  Prog.Alike (cacheHandler storage).handler (CalledExists storage tx) p q

/-- The called account is found, in the buffer or in the cache. -/
theorem exists_seen_called {cache : AccountStore} (batchBuffer : BatchBuffer)
    (h : CalledExists storage tx cache) :
    ∃ account, seen storage cache batchBuffer tx.to = some account := by
  unfold seen
  cases batchBuffer.lookup tx.to with
  | some account => exact ⟨account, rfl⟩
  | none => exact Option.isSome_iff_exists.1 h

theorem getTransferFromAccount_spell (ref : AddressOrNamespace) :
    getTransferFromAccount tx (ref.spell tx) batchBuffer =
      getTransferFromAccount tx ref batchBuffer := by
  unfold getTransferFromAccount
  rw [AddressOrNamespace.resolve_spell]

theorem applyTransferFrom_spell (transfer : TransferInstruction) :
    applyTransferFrom tx (transfer.spell tx) batchBuffer =
      applyTransferFrom tx transfer batchBuffer :=
  congrArg (· >>= _) (getTransferFromAccount_spell transfer.from)

theorem applyBurnInstruction_spell (burn : BurnInstruction) :
    applyBurnInstruction tx (burn.spell tx) batchBuffer =
      applyBurnInstruction tx burn batchBuffer :=
  congrArg (· >>= _) (getTransferFromAccount_spell burn.from)

theorem applyTransferTo_spell (transfer : TransferInstruction) :
    AlikeCalled storage tx (applyTransferTo tx (transfer.spell tx) batchBuffer)
      (applyTransferTo tx transfer batchBuffer) := by
  obtain ⟨token, «from», «to», amount, ids⟩ := transfer
  cases «to» with
  | this =>
    intro cache hcalled
    obtain ⟨account, hseen⟩ := exists_seen_called batchBuffer hcalled
    change runAlone storage (applyTransferTo tx ⟨token, _, .address tx.to, amount, ids⟩ batchBuffer)
      cache = runAlone storage (applyTransferTo tx ⟨token, _, .this, amount, ids⟩ batchBuffer) cache
    unfold applyTransferTo
    simp only [runAlone_getTransferToAccount_bind, AddressOrNamespace.resolve, Option.bind_some,
      hseen]
    rfl
  | _ => exact Prog.Alike.refl _

theorem applyTransferInstruction_spell (transfer : TransferInstruction) :
    AlikeCalled storage tx (applyTransferInstruction tx (transfer.spell tx) batchBuffer)
      (applyTransferInstruction tx transfer batchBuffer) := by
  unfold applyTransferInstruction
  rw [applyTransferFrom_spell]
  refine Prog.Alike.bind calledExists_answer (Prog.Alike.refl _) fun fromAccount => ?_
  exact Prog.Alike.bind calledExists_answer (applyTransferTo_spell transfer) fun _ =>
    Prog.Alike.refl _

theorem applyDistribution_spell (d : TokenDistribution) :
    AlikeCalled storage tx (applyDistribution tx (d.spell tx) batchBuffer)
      (applyDistribution tx d batchBuffer) := by
  obtain ⟨programId, «to», amount, tokenIds, updateFields⟩ := d
  intro cache hcalled
  obtain ⟨account, hseen⟩ := exists_seen_called batchBuffer hcalled
  change runAlone storage (applyDistribution tx (TokenDistribution.spell tx
      ⟨programId, «to», amount, tokenIds, updateFields⟩) batchBuffer) cache =
    runAlone storage (applyDistribution tx ⟨programId, «to», amount, tokenIds, updateFields⟩
      batchBuffer) cache
  unfold applyDistribution
  simp only [TokenDistribution.spell, AddressOrNamespace.resolve_spell]
  cases programId.resolve tx with
  | none => rfl
  | some k =>
    cases «to» with
    | this =>
      simp only [AddressOrNamespace.spell, runAlone_getTransferToAccount_bind,
        AddressOrNamespace.resolve, Option.bind_some, hseen]
      rfl
    | _ => rfl

theorem applyTokenUpdate_spell (u : TokenUpdate) :
    AlikeCalled storage tx (applyTokenUpdate tx (u.spell tx) batchBuffer)
      (applyTokenUpdate tx u batchBuffer) := by
  obtain ⟨account, token, updates⟩ := u
  intro cache hcalled
  obtain ⟨called, hc⟩ := Option.isSome_iff_exists.1 hcalled
  change runAlone storage (applyTokenUpdate tx (TokenUpdate.spell tx ⟨account, token, updates⟩)
      batchBuffer) cache =
    runAlone storage (applyTokenUpdate tx ⟨account, token, updates⟩ batchBuffer) cache
  unfold applyTokenUpdate
  simp only [TokenUpdate.spell, AddressOrNamespace.resolve_spell]
  cases token.resolve tx with
  | none => rfl
  | some k =>
    cases account with
    | this =>
      simp only [AddressOrNamespace.spell, AddressOrNamespace.resolve]
      cases batchBuffer.lookup tx.to with
      | some a => rfl
      | none =>
        simp only [runAlone_getAccount_bind, hc]
        rfl
    | _ => rfl

theorem applyProgramUpdate_spell (u : ProgramUpdate) :
    AlikeCalled storage tx (applyProgramUpdate tx (u.spell tx) batchBuffer)
      (applyProgramUpdate tx u batchBuffer) := by
  obtain ⟨account, updates⟩ := u
  intro cache hcalled
  obtain ⟨called, hc⟩ := Option.isSome_iff_exists.1 hcalled
  change runAlone storage (applyProgramUpdate tx (ProgramUpdate.spell tx ⟨account, updates⟩)
      batchBuffer) cache =
    runAlone storage (applyProgramUpdate tx ⟨account, updates⟩ batchBuffer) cache
  unfold applyProgramUpdate
  cases account with
  | this =>
    simp only [ProgramUpdate.spell, AddressOrNamespace.spell, AddressOrNamespace.resolve]
    cases batchBuffer.lookup tx.to with
    | some a => rfl
    | none =>
      simp only [runAlone_getAccount_bind, hc]
      rfl
  | _ => rfl

theorem applyUpdate_spell (u : TokenOrProgramUpdate) :
    AlikeCalled storage tx (applyUpdate tx (u.spell tx) batchBuffer)
      (applyUpdate tx u batchBuffer) := by
  cases u with
  | tokenUpdate u => exact applyTokenUpdate_spell u
  | programUpdate u => exact applyProgramUpdate_spell u

theorem applyDistributions_spell :
    ∀ (dists : List TokenDistribution) (batchBuffer : BatchBuffer),
      AlikeCalled storage tx
        (applyDistributions tx (dists.map (TokenDistribution.spell tx)) batchBuffer)
        (applyDistributions tx dists batchBuffer)
  | [], _ => Prog.Alike.refl _
  | d :: rest, _ => Prog.Alike.bind calledExists_answer (applyDistribution_spell d).mapErr
      fun _ => applyDistributions_spell rest _

theorem applyUpdates_spell :
    ∀ (updates : List TokenOrProgramUpdate) (batchBuffer : BatchBuffer),
      AlikeCalled storage tx
        (applyUpdates tx (updates.map (TokenOrProgramUpdate.spell tx)) batchBuffer)
        (applyUpdates tx updates batchBuffer)
  | [], _ => Prog.Alike.refl _
  | u :: rest, _ => Prog.Alike.bind calledExists_answer (applyUpdate_spell u).mapErr
      fun _ => applyUpdates_spell rest _

theorem applyInstruction_spell (i : Instruction) (batchBuffer : BatchBuffer) :
    AlikeCalled storage tx (applyInstruction tx (i.spell tx) batchBuffer)
      (applyInstruction tx i batchBuffer) := by
  cases i with
  | transfer transfer =>
    exact Prog.Alike.bind calledExists_answer (applyTransferInstruction_spell transfer).mapErr
      fun _ => Prog.Alike.refl _
  | burn burn =>
    change AlikeCalled storage tx
      (asFailed tx (applyBurnInstruction tx (burn.spell tx) batchBuffer) >>= _) _
    rw [applyBurnInstruction_spell]
    exact Prog.Alike.refl _
  | create create =>
    exact Prog.Alike.bind calledExists_answer (applyDistributions_spell create.distribution _)
      fun _ => Prog.Alike.refl _
  | update update => exact applyUpdates_spell update.updates batchBuffer
  | log _ => exact Prog.Alike.refl _

theorem applyInstructions_spell :
    ∀ (instructions : List Instruction) (batchBuffer : BatchBuffer),
      AlikeCalled storage tx
        (applyInstructions tx (instructions.map (Instruction.spell tx)) batchBuffer)
        (applyInstructions tx instructions batchBuffer)
  | [], _ => Prog.Alike.refl _
  | i :: rest, batchBuffer => Prog.Alike.bind calledExists_answer
      (applyInstruction_spell i batchBuffer) fun _ => applyInstructions_spell rest _

/-- The batcher runs both spellings alike : the called account exists when the instructions
start. -/
theorem applyInstructionsToAccounts_spell (env : Env) (cache : AccountStore) (outputs : Outputs) :
    runAlone storage (applyInstructionsToAccounts env tx (outputs.spell tx)) cache =
      runAlone storage (applyInstructionsToAccounts env tx outputs) cache := by
  unfold applyInstructionsToAccounts
  rw [runAlone_getAccount_bind, runAlone_getAccount_bind]
  cases hcalled : accounts storage cache tx.to with
  | none => rfl
  | some caller =>
    have hexists : CalledExists storage tx cache := Option.isSome_iff_exists.2 ⟨caller, hcalled⟩
    refine Prog.Alike.bind calledExists_answer (Prog.Alike.refl _) (fun caller' => ?_) cache hexists
    refine Prog.Alike.bind calledExists_answer (Prog.Alike.refl _) fun _ => ?_
    refine Prog.Alike.bind calledExists_answer
      (applyInstructions_spell outputs.instructions ∅) fun batchBuffer => ?_
    -- only the report names the outputs, and it goes to another actor
    exact Prog.Alike.bind calledExists_answer (Prog.Alike.refl _) fun _ _ _ => rfl

end Batcher

/-! ## The validator -/

/-- The account map of a call, for every reference. -/
def lookupAll (v : AccountMap) (tx : Transaction) : AccountLookup := fun ref =>
  some ((ref.resolve tx).bind v)

section Checks

variable {v : AccountMap} {tx : Transaction} {caller : Account} {m m' : AccountLookup}

@[simp] theorem lookupAll_spell (ref : AddressOrNamespace) :
    lookupAll v tx (ref.spell tx) = lookupAll v tx ref := by
  simp [lookupAll]

theorem forM_congr {α : Type} {f g : α → Except String Unit} {l : List α}
    (h : ∀ x ∈ l, f x = g x) : l.forM f = l.forM g := by
  induction l with
  | nil => rfl
  | cons x l ih =>
    rw [List.forall_mem_cons] at h
    simp only [List.forM_eq_forM, List.forM_cons] at ih ⊢
    rw [h.1, ih h.2]

theorem checkUpdate_congr {u : TokenOrProgramUpdate}
    (h : ∀ ref ∈ UpdateInstruction.accountsInvolved ⟨[u]⟩, m ref = m' ref) :
    checkUpdate tx caller m u = checkUpdate tx caller m' u := by
  have hu := h _ (List.mem_singleton_self _)
  cases u with
  | tokenUpdate u =>
    refine forM_congr fun f _ => ?_
    dsimp only at hu
    cases f.value <;> simp only [checkTokenField, checkTokenData, hu]
  | programUpdate u =>
    dsimp only at hu
    simp only [checkUpdate, checkProgramUpdate, hu]

/-- A check only looks up what its instruction names. -/
theorem checkInstruction_congr {i : Instruction}
    (h : ∀ ref ∈ i.getAccountsInvolved, m ref = m' ref) :
    checkInstruction tx caller m i = checkInstruction tx caller m' i := by
  cases i with
  | transfer transfer =>
    have hfrom := h transfer.from (by simp [Instruction.getAccountsInvolved,
      TransferInstruction.accountsInvolved])
    simp only [checkInstruction, checkTransfer, hfrom]
  | burn burn =>
    have hfrom := h burn.from (by simp [Instruction.getAccountsInvolved,
      BurnInstruction.accountsInvolved])
    simp only [checkInstruction, checkBurn, hfrom]
  | update update =>
    refine forM_congr fun u hu => checkUpdate_congr fun ref href => ?_
    rw [UpdateInstruction.accountsInvolved, List.map_singleton, List.mem_singleton] at href
    subst href
    exact h _ (List.mem_map.2 ⟨u, hu, rfl⟩)
  | create create => rfl
  | log l => rfl

end Checks

/-- What the validator accepts, with a look-up of every reference. -/
theorem acceptsCall_iff_lookupAll {env : Env} {storage cache : AccountStore} {outputs : Outputs}
    {tx : Transaction} :
    AcceptsCall env storage cache outputs tx ↔
      tx.verifySignature env = .ok () ∧ ∃ caller, accounts storage cache tx.from = some caller ∧
        caller.validateNonce tx.nonce = .ok () ∧
        ∀ i ∈ outputs.instructions,
          checkInstruction tx caller (lookupAll (accounts storage cache) tx) i = .ok () := by
  have hsame : ∀ caller, ∀ i ∈ outputs.instructions,
      checkInstruction tx caller
          (accountLookup (accounts storage cache) tx (involved outputs tx)) i =
        checkInstruction tx caller (lookupAll (accounts storage cache) tx) i :=
    fun caller i hi => checkInstruction_congr fun ref href =>
      accountLookup_of_mem (mem_involved hi href)
  rw [acceptsCall_iff]
  refine and_congr_right fun _ => exists_congr fun caller => and_congr_right fun _ =>
    and_congr_right fun _ => forall₂_congr fun i hi => ?_
  rw [hsame caller i hi]

/-- What a transfer or a burn takes from `This`. The called program's own account needs no
approval for the amount of a transfer (`exempt`). -/
structure FromThis where
  program : Address
  exempt : Bool
  token : Address
  amount : Option U256
  ids : List U256

/-- What an instruction takes from `This`, if anything. -/
def Instruction.takingFromThis (tx : Transaction) : Instruction → Option FromThis
  | .transfer i => if i.from = .this then some ⟨tx.to, true, i.token, i.amount, i.ids⟩ else none
  | .burn i =>
    if i.from = .this then
      (i.programId.resolve tx).map fun program =>
        ⟨program, false, i.token, i.amount, i.tokenIds⟩
    else none
  | _ => none

/-- The sender holds what is taken. -/
def FromThis.HeldBySender (t : FromThis) (caller : Account) : Prop :=
  match t.amount with
  | some amt => caller.validateBalance t.token amt = .ok ()
  | none => caller.validateTokenOwnership t.program t.ids = .ok ()

/-- The called account holds what is taken, and approves. -/
def FromThis.GivenByCalled (t : FromThis) (v : AccountMap) (tx : Transaction) (caller : Account) :
    Prop :=
  ∃ account, v tx.to = some account ∧ (account.programs t.token).isSome ∧
    match t.amount with
    | some amt => account.validateBalance t.token amt = .ok () ∧
      (t.exempt = true ∧ account.accountType = .program t.program ∨
        eitherApproval (account.validateApprovedSpend t.token caller.ownerAddress amt)
          (account.validateApprovedSpend t.token t.program amt) = .ok ())
    | none => account.validateTokenOwnership t.token t.ids = .ok () ∧
      eitherApproval (account.validateApprovedTokenTransfer t.token caller.ownerAddress t.ids)
        (account.validateApprovedTokenTransfer t.token t.program t.ids) = .ok ()

/-- The instruction has a program update of `This`. -/
def Instruction.UpdatesThis : Instruction → Prop
  | .update i => ∃ u, .programUpdate u ∈ i.updates ∧ u.account = .this
  | _ => False

/-- The called account belongs to the sender or is linked to itself. -/
def CalledUpdatable (v : AccountMap) (tx : Transaction) : Prop :=
  ∃ account, v tx.to = some account ∧
    (account.ownerAddress = tx.from ∨ .address tx.to ∈ account.programAccountLinkedPrograms)

section Spelled

variable {v : AccountMap} {tx : Transaction} {caller : Account}

theorem address_ne_of_ne (h : caller.ownerAddress ≠ tx.to) :
    AddressOrNamespace.address tx.to ≠ .address caller.ownerAddress := by
  intro he
  rw [AddressOrNamespace.address.injEq] at he
  exact h he.symm

/-- The own-account test of a taking tells the spellings apart only for `This`, and only where
the sender's account names the called one as its owner. -/
theorem spell_eq_own_iff {ref : AddressOrNamespace}
    (h : caller.ownerAddress = tx.to → ref ≠ .this) :
    ref.spell tx = .address caller.ownerAddress ↔ ref = .address caller.ownerAddress := by
  by_cases hthis : ref = .this
  · subst hthis
    have hne : caller.ownerAddress ≠ tx.to := fun he => h he rfl
    exact iff_of_false (address_ne_of_ne hne) (by simp)
  · rw [AddressOrNamespace.spell_of_ne hthis]

theorem takeChecked_spell {program token : Address} {exempt : Account → Prop}
    {ref : AddressOrNamespace} {amount : Option U256} {ids : List U256}
    (h : caller.ownerAddress = tx.to → ref ≠ .this) :
    TakeChecked caller (lookupAll v tx) program exempt (ref.spell tx) token amount ids ↔
      TakeChecked caller (lookupAll v tx) program exempt ref token amount ids := by
  by_cases hown : ref = .address caller.ownerAddress
  · rw [takeChecked_own hown, takeChecked_own ((spell_eq_own_iff h).2 hown)]
  · rw [takeChecked_other hown, takeChecked_other (mt (spell_eq_own_iff h).1 hown),
      lookupAll_spell]

theorem checkTransfer_spell {i : TransferInstruction}
    (h : caller.ownerAddress = tx.to → i.from ≠ .this) :
    checkTransfer tx caller (lookupAll v tx) (i.spell tx) = .ok () ↔
      checkTransfer tx caller (lookupAll v tx) i = .ok () := by
  rw [checkTransfer_ok_iff, checkTransfer_ok_iff]
  exact takeChecked_spell h

theorem checkBurn_spell {i : BurnInstruction}
    (h : caller.ownerAddress = tx.to → i.from = .this → i.programId.resolve tx = none) :
    checkBurn tx caller (lookupAll v tx) (i.spell tx) = .ok () ↔
      checkBurn tx caller (lookupAll v tx) i = .ok () := by
  rw [checkBurn_ok_iff, checkBurn_ok_iff]
  refine exists_congr fun program => ?_
  simp only [BurnInstruction.spell, AddressOrNamespace.resolve_spell]
  refine and_congr_right fun hp => takeChecked_spell fun he hthis => ?_
  rw [h he hthis] at hp
  cases hp

theorem checkTokenField_spell (u : TokenUpdate) (f : TokenFieldValue) :
    checkTokenField tx caller (lookupAll v tx) (u.spell tx) f =
      checkTokenField tx caller (lookupAll v tx) u f := by
  obtain ⟨account, token, updates⟩ := u
  have hdata : checkTokenData tx caller (lookupAll v tx)
      (TokenUpdate.spell tx ⟨account, token, updates⟩) =
        checkTokenData tx caller (lookupAll v tx) ⟨account, token, updates⟩ := by
    cases token <;> cases account <;> rfl
  cases f <;> simp only [checkTokenField, TokenUpdate.spell, lookupAll_spell] <;> exact hdata

/-- A program update of `This` is refused where the same update of the address passes, unless
the sender owns the called account or the account is linked to itself. -/
theorem checkProgramUpdate_spell {u : ProgramUpdate} :
    checkProgramUpdate tx (lookupAll v tx) u = .ok () ↔
      checkProgramUpdate tx (lookupAll v tx) (u.spell tx) = .ok () ∧
        (u.account = .this → CalledUpdatable v tx) := by
  by_cases hthis : u.account = .this
  · have hspell : (u.spell tx).account = .address tx.to := by
      simp [ProgramUpdate.spell, hthis, AddressOrNamespace.spell]
    simp only [checkProgramUpdate, hspell, hthis, lookupAll, AddressOrNamespace.resolve,
      Option.bind_some, CalledUpdatable, ProgramUpdate.isSelf, forall_const]
    cases v tx.to with
    | none => simp [failedProgramUpdate]
    | some account =>
      by_cases ho : account.ownerAddress = tx.from
      · simp [ho]
      · by_cases hl : .address tx.to ∈ account.programAccountLinkedPrograms
        · simp [ho, hl]
        · simp [ho, hl, failedProgramUpdate]
  · have hspell : u.spell tx = u := by
      unfold ProgramUpdate.spell
      rw [AddressOrNamespace.spell_of_ne hthis]
    simp [hspell, hthis]

theorem checkUpdate_spell {u : TokenOrProgramUpdate} :
    checkUpdate tx caller (lookupAll v tx) u = .ok () ↔
      checkUpdate tx caller (lookupAll v tx) (u.spell tx) = .ok () ∧
        ∀ p, u = .programUpdate p → p.account = .this → CalledUpdatable v tx := by
  cases u with
  | tokenUpdate u =>
    have hsame : checkUpdate tx caller (lookupAll v tx)
        (TokenOrProgramUpdate.spell tx (.tokenUpdate u)) =
          checkUpdate tx caller (lookupAll v tx) (.tokenUpdate u) :=
      forM_congr fun f _ => checkTokenField_spell u f.value
    rw [hsame]
    exact (and_iff_left (fun _ he => nomatch he)).symm
  | programUpdate u =>
    refine checkProgramUpdate_spell.trans (and_congr_right fun _ => ?_)
    simp

/-- An instruction that takes nothing from `This` passes as it is written when it passes as
spelled and updates `This` only where the called account may be updated. -/
theorem checkInstruction_spell {i : Instruction}
    (h : caller.ownerAddress = tx.to → i.takingFromThis tx = none) :
    checkInstruction tx caller (lookupAll v tx) i = .ok () ↔
      checkInstruction tx caller (lookupAll v tx) (i.spell tx) = .ok () ∧
        (i.UpdatesThis → CalledUpdatable v tx) := by
  cases i with
  | transfer i =>
    refine Iff.trans ?_ (and_iff_left fun hn => hn.elim).symm
    refine (checkTransfer_spell fun he hthis => ?_).symm
    have hnone := h he
    simp [Instruction.takingFromThis, hthis] at hnone
  | burn i =>
    refine Iff.trans ?_ (and_iff_left fun hn => hn.elim).symm
    refine (checkBurn_spell fun he hthis => ?_).symm
    have hnone := h he
    simpa [Instruction.takingFromThis, hthis] using hnone
  | update i =>
    simp only [checkInstruction, Instruction.spell, forM_eq_ok_iff, List.forall_mem_map,
      Instruction.UpdatesThis]
    constructor
    · intro hall
      refine ⟨fun u hu => (checkUpdate_spell.1 (hall u hu)).1, ?_⟩
      rintro ⟨u, hu, hthis⟩
      exact (checkUpdate_spell.1 (hall _ hu)).2 u rfl hthis
    · rintro ⟨hall, hself⟩ u hu
      exact checkUpdate_spell.2 ⟨hall u hu, fun p hp hthis => hself ⟨p, hp ▸ hu, hthis⟩⟩
  | create i => exact (and_iff_left fun hn => hn.elim).symm
  | log i => exact (and_iff_left fun hn => hn.elim).symm

/-- A taking from `This` is checked against the called account, and spelled it is checked
against the sender's where that one names the called account as its owner. -/
theorem checkInstruction_taking {i : Instruction} {t : FromThis}
    (hown : caller.ownerAddress = tx.to) (ht : i.takingFromThis tx = some t) :
    (checkInstruction tx caller (lookupAll v tx) i = .ok () ↔ t.GivenByCalled v tx caller) ∧
      (checkInstruction tx caller (lookupAll v tx) (i.spell tx) = .ok () ↔
        t.HeldBySender caller) := by
  have hthis : AddressOrNamespace.this ≠ .address caller.ownerAddress := by simp
  have hspell : AddressOrNamespace.this.spell tx = .address caller.ownerAddress := by
    rw [hown]
    rfl
  have hlookup : ∀ account, lookupAll v tx .this = some (some account) ↔ v tx.to = some account :=
    fun account => by simp [lookupAll, AddressOrNamespace.resolve]
  cases i with
  | transfer i =>
    simp only [Instruction.takingFromThis, Option.ite_none_right_eq_some] at ht
    obtain ⟨hfrom, ht⟩ := ht
    cases ht
    constructor
    · refine checkTransfer_ok_iff.trans ?_
      rw [hfrom, takeChecked_other hthis]
      refine exists_congr fun account => and_congr (hlookup account) (and_congr_right fun _ => ?_)
      cases i.amount <;> simp
    · refine checkTransfer_ok_iff.trans ?_
      rw [TransferInstruction.spell, hfrom, hspell, takeChecked_own rfl]
      cases hamount : i.amount <;> simp [FromThis.HeldBySender]
  | burn i =>
    simp only [Instruction.takingFromThis, Option.ite_none_right_eq_some, Option.map_eq_some_iff]
      at ht
    obtain ⟨hfrom, program, hp, ht⟩ := ht
    cases ht
    constructor
    · refine checkBurn_ok_iff.trans ?_
      rw [hp, hfrom]
      simp only [Option.some.injEq, exists_eq_left', takeChecked_other hthis]
      refine exists_congr fun account => and_congr (hlookup account) (and_congr_right fun _ => ?_)
      cases i.amount <;> simp
    · refine checkBurn_ok_iff.trans ?_
      simp only [BurnInstruction.spell, AddressOrNamespace.resolve_spell, hp, Option.some.injEq,
        exists_eq_left', hfrom, hspell, takeChecked_own]
      cases hamount : i.amount <;> simp [FromThis.HeldBySender]
  | _ => cases ht

end Spelled

/-! ## Both -/

/-- What the instructions take from `This`, where the sender's account names the called one as
its owner. -/
def Outputs.ownTakings (outputs : Outputs) (tx : Transaction) (caller : Account) : List FromThis :=
  if caller.ownerAddress = tx.to then
    outputs.instructions.filterMap (Instruction.takingFromThis tx)
  else []

/-- Nothing tells the spellings of a call apart that passes all other checks : a program update
of `This` finds a called account of the sender or one linked to itself, and what is taken from
`This` is given by the called account just when the sender holds it. -/
def SpelledAlike (env : Env) (v : AccountMap) (tx : Transaction) (outputs : Outputs) : Prop :=
  tx.verifySignature env = .ok () → ∀ caller, v tx.from = some caller →
    caller.validateNonce tx.nonce = .ok () →
    (∀ i ∈ outputs.instructions, (caller.ownerAddress = tx.to → i.takingFromThis tx = none) →
      checkInstruction tx caller (lookupAll v tx) (i.spell tx) = .ok ()) →
    (((∃ i ∈ outputs.instructions, i.UpdatesThis) → CalledUpdatable v tx) ∧
      (∀ t ∈ outputs.ownTakings tx caller, t.GivenByCalled v tx caller) ↔
        ∀ t ∈ outputs.ownTakings tx caller, t.HeldBySender caller)

section Both

variable {env : Env} {storage cache : AccountStore} {v : AccountMap} {tx : Transaction}
  {outputs : Outputs} {caller : Account}

theorem mem_ownTakings {t : FromThis} :
    t ∈ outputs.ownTakings tx caller ↔ caller.ownerAddress = tx.to ∧
      ∃ i ∈ outputs.instructions, i.takingFromThis tx = some t := by
  unfold Outputs.ownTakings
  split_ifs with h <;> simp [h]

/-- The instructions fall into the takings from `This` and the others. -/
theorem forall_instructions_iff {P : Instruction → Prop} {Q : FromThis → Prop}
    (hPQ : ∀ i t, caller.ownerAddress = tx.to → i.takingFromThis tx = some t → (P i ↔ Q t)) :
    (∀ i ∈ outputs.instructions, P i) ↔
      (∀ i ∈ outputs.instructions, (caller.ownerAddress = tx.to → i.takingFromThis tx = none) →
        P i) ∧ ∀ t ∈ outputs.ownTakings tx caller, Q t := by
  constructor
  · refine fun hall => ⟨fun i hi _ => hall i hi, fun t ht => ?_⟩
    obtain ⟨hown, i, hi, hit⟩ := mem_ownTakings.1 ht
    exact (hPQ i t hown hit).1 (hall i hi)
  · rintro ⟨hother, htaking⟩ i hi
    by_cases hown : caller.ownerAddress = tx.to
    · cases hit : i.takingFromThis tx with
      | none => exact hother i hi fun _ => hit
      | some t => exact (hPQ i t hown hit).2 (htaking t (mem_ownTakings.2 ⟨hown, i, hi, hit⟩))
    · exact hother i hi fun he => absurd he hown

theorem Instruction.UpdatesThis.takingFromThis {i : Instruction} (h : i.UpdatesThis)
    (tx : Transaction) : i.takingFromThis tx = none := by
  cases i with
  | update i => rfl
  | _ => exact h.elim

theorem checks_iff :
    (∀ i ∈ outputs.instructions, checkInstruction tx caller (lookupAll v tx) i = .ok ()) ↔
      (∀ i ∈ outputs.instructions, (caller.ownerAddress = tx.to → i.takingFromThis tx = none) →
        checkInstruction tx caller (lookupAll v tx) (i.spell tx) = .ok ()) ∧
      ((∃ i ∈ outputs.instructions, i.UpdatesThis) → CalledUpdatable v tx) ∧
      ∀ t ∈ outputs.ownTakings tx caller, t.GivenByCalled v tx caller := by
  rw [forall_instructions_iff fun i t hown hit => (checkInstruction_taking hown hit).1,
    ← and_assoc]
  refine and_congr_left fun _ => ?_
  constructor
  · intro hall
    refine ⟨fun i hi h => ((checkInstruction_spell h).1 (hall i hi h)).1, ?_⟩
    rintro ⟨i, hi, hupdates⟩
    have hnone := fun _ : caller.ownerAddress = tx.to => hupdates.takingFromThis tx
    exact ((checkInstruction_spell hnone).1 (hall i hi hnone)).2 hupdates
  · rintro ⟨hall, hself⟩ i hi h
    exact (checkInstruction_spell h).2 ⟨hall i hi h, fun hupdates => hself ⟨i, hi, hupdates⟩⟩

theorem checks_spell_iff :
    (∀ i ∈ (outputs.spell tx).instructions,
        checkInstruction tx caller (lookupAll v tx) i = .ok ()) ↔
      (∀ i ∈ outputs.instructions, (caller.ownerAddress = tx.to → i.takingFromThis tx = none) →
        checkInstruction tx caller (lookupAll v tx) (i.spell tx) = .ok ()) ∧
      ∀ t ∈ outputs.ownTakings tx caller, t.HeldBySender caller := by
  simp only [Outputs.spell, List.forall_mem_map]
  exact forall_instructions_iff fun i t hown hit => (checkInstruction_taking hown hit).2

/-- `This` means the called program, to the validator and to the batcher, exactly where nothing
tells the spellings apart. -/
theorem spelling_iff :
    ((AcceptsCall env storage cache (outputs.spell tx) tx ↔
        AcceptsCall env storage cache outputs tx) ∧
      runAlone storage (applyInstructionsToAccounts env tx (outputs.spell tx)) cache =
        runAlone storage (applyInstructionsToAccounts env tx outputs) cache) ↔
      SpelledAlike env (accounts storage cache) tx outputs := by
  rw [and_iff_left (applyInstructionsToAccounts_spell env cache outputs),
    acceptsCall_iff_lookupAll, acceptsCall_iff_lookupAll]
  unfold SpelledAlike
  by_cases hsig : tx.verifySignature env = .ok ()
  · cases hcaller : accounts storage cache tx.from with
    | none => simp
    | some caller =>
      simp only [hsig, true_and, Option.some.injEq, exists_eq_left', forall_const, forall_eq']
      rw [checks_spell_iff, checks_iff, and_congr_right_iff, and_congr_right_iff]
      exact forall₂_congr fun _ _ => Iff.comm
  · simp [hsig]

end Both

/-- A user calls the program of another. -/
def strangersProgram : AccountStore :=
  storeOf [Account.build .user 7#160, Account.build (.program 9#160) 5#160]

/-- A program renames itself. -/
def renameThis : Outputs where
  instructions := [.update ⟨[.programUpdate ⟨.this, [⟨.metadata (.insert "symbol" "N")⟩]⟩]⟩]

/-- A program called by a stranger may update the address it has, and not `This`. -/
theorem spelling_matters :
    AcceptsCall .small (fun _ => none) strangersProgram
        (renameThis.spell (callOf 7#160 9#160 1#256)) (callOf 7#160 9#160 1#256) ∧
      ¬AcceptsCall .small (fun _ => none) strangersProgram renameThis
        (callOf 7#160 9#160 1#256) := by
  refine ⟨List.mem_singleton_self _, ?_⟩
  change Msg.batcher _ ∉ [Msg.pending _]
  simp

end Lasr
