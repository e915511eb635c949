import Lasr.Messages

/-!
# The validator

`actors/src/validator.rs` and the checks of `types/src/account.rs` it makes. A check ends
in `Except String Unit`, an error being the text it displays. `validate_send` and
`validate_call` report a failed check to the pending graph and hand an accepted
transaction to the batcher; `validate_bridge_in` drops a failed one.

The accounts are read first, one step for each, and the checks run on these copies
(`pendingTransaction`, `pendingCall`). The closure that a future leaves to the thread pool
is the end of the same program here : it only casts.
-/

set_option linter.unusedSectionVars false

namespace Lasr

/-- The debug text of an account reference. -/
def AddressOrNamespace.debug : AddressOrNamespace → String
  | .address a => "Address(" ++ Address.toFullString a ++ ")"
  | .namespace name => "Namespace(Namespace(\"" ++ name ++ "\"))"
  | .this => "This"

/-! ## Checks of an account -/

namespace Account

/-- "account does not have associated program". -/
def noProgram (programId : Address) : Except String Unit :=
  .error ("account does not have associated program: " ++ Address.toFullString programId)

/-- `validate_program_id`. -/
def validateProgramId (self : Account) (programId : Address) : Except String Unit :=
  match self.programs programId with
  | some _ => .ok ()
  | none => noProgram programId

/-- `validate_balance`. -/
def validateBalance (self : Account) (programId : Address) (amount : U256) :
    Except String Unit :=
  match self.programs programId with
  | some token =>
    if amount ≤ token.balance then .ok () else .error "account balance insufficient"
  | none => noProgram programId

/-- `validate_token_ownership`. -/
def validateTokenOwnership (self : Account) (programId : Address) (tokenIds : List U256) :
    Except String Unit :=
  match self.programs programId with
  | some token =>
    match tokenIds.find? fun nft => !token.tokenIds.contains nft with
    | some nft => .error
        ("account does not own token_id: 0x" ++ String.ofList (Nat.toDigits 16 nft.toNat))
    | none => .ok ()
  | none => noProgram programId

/-- `validate_approved_spend`. Its last branch is never reached : a program account already
took the one before. -/
def validateApprovedSpend (self : Account) (programId spender : Address) (amount : U256) :
    Except String Unit :=
  match self.programs programId with
  | some token =>
    match token.allowance spender with
    | some entry =>
      if amount < entry then .ok () else .error "amount exceeds approved limit"
    | none =>
      match token.approvals spender with
      | some entry =>
        if entry.isEmpty then .ok () else .error "spender not approved by this account"
      | none =>
        match self.accountType with
        | .program programAddr =>
          if programAddr = programId then .ok () else noProgram programId
        | .user => .error "unable to verify approved spend"
  | none => noProgram programId

/-- `validate_approved_token_transfer`. An approved id falls through to the error at the
end, as in the source. -/
def validateApprovedTokenTransfer (self : Account) (programId spender : Address)
    (tokenIds : List U256) : Except String Unit :=
  match self.programs programId with
  | some token =>
    match token.approvals spender with
    | some entry =>
      if entry.isEmpty then .error "spender not approved by this account"
      else
        match tokenIds.head? with
        | some nft =>
          if !entry.contains nft then .error
            ("spender not approved to spend token_id: " ++ Nat.repr nft.toNat)
          else noProgram programId
        | none => noProgram programId
    | none =>
      match self.accountType with
      | .program programAddr =>
        if programAddr = programId then .ok () else noProgram programId
      | .user => noProgram programId
  | none => noProgram programId

/-- `validate_nonce`. -/
def validateNonce (self : Account) (nonce : U256) : Except String Unit :=
  if self.nonce = 0#256 ∧ nonce = 0#256 then .ok ()
  else if self.nonce < nonce then .ok ()
  else .error "unable to validate nonce"

end Account

/-- The nonce check takes zero at zero, and anything above the account's nonce. -/
theorem validateNonce_ok_iff {account : Account} {nonce : U256} :
    account.validateNonce nonce = .ok () ↔
      (account.nonce.toNat = 0 ∧ nonce.toNat = 0) ∨ account.nonce.toNat < nonce.toNat := by
  have hzero : ∀ w : U256, w = 0#256 ↔ w.toNat = 0 := fun w => by
    rw [← BitVec.toNat_inj]
    simp
  rw [← hzero, ← hzero, ← BitVec.lt_def]
  unfold Account.validateNonce
  split_ifs with h₁ h₂
  · simp [h₁]
  · simp [h₂]
  · simp [h₁, h₂]

/-! ## Checks of a transaction -/

section Checks

variable (env : Env)

/-- The four checks of `validate_send`, the first failure being reported. -/
def checkSend (tx : Transaction) (account : Account) : Except String Unit := do
  account.validateProgramId tx.programId
  account.validateBalance tx.programId tx.value
  account.validateNonce tx.nonce
  tx.verifySignature env

/-- `account_map` of a call. -/
abbrev AccountLookup := BTreeMap AddressOrNamespace (Option Account)

/-- The first of two approvals that holds, or else the failure of the second. -/
def eitherApproval (first second : Except String Unit) : Except String Unit :=
  match first with
  | .ok () => .ok ()
  | .error _ => second

/-- The checks of a `Transfer`. -/
def checkTransfer (tx : Transaction) (caller : Account) (accountMap : AccountLookup)
    (transfer : TransferInstruction) : Except String Unit :=
  let token := transfer.token
  if transfer.from = .address caller.ownerAddress then
    match transfer.amount with
    | some amt => caller.validateBalance token amt
    | none => caller.validateTokenOwnership tx.to transfer.ids
  else
    match accountMap transfer.from with
    | some (some account) =>
      if (account.programs token).isNone then
        .error ("unable to acquire token " ++ Address.toText token ++
          " from account, does not exist")
      else
        match transfer.amount with
        | some amt =>
          match account.validateBalance token amt with
          | .error e =>
            .error ("account " ++ Address.toFullString account.address ++
              " has insufficient balance for token " ++ Address.toFullString token ++
              ": Error: " ++ e)
          | .ok () =>
            if account.accountType = .program tx.to then .ok ()
            else
              eitherApproval (account.validateApprovedSpend token caller.ownerAddress amt)
                (account.validateApprovedSpend token tx.to amt)
        | none => do
          account.validateTokenOwnership token transfer.ids
          eitherApproval
            (account.validateApprovedTokenTransfer token caller.ownerAddress transfer.ids)
            (account.validateApprovedTokenTransfer token tx.to transfer.ids)
    | _ => .error "unable to acquire transferFrom account, does not exist"

/-- The checks of a `Burn`. -/
def checkBurn (tx : Transaction) (caller : Account) (accountMap : AccountLookup)
    (burn : BurnInstruction) : Except String Unit :=
  match burn.programId with
  | .namespace _ => .error "program namespaces not yet implemented"
  | ref =>
    let programId := match ref with
      | .address a => a
      | _ => tx.to
    let token := burn.token
    if burn.from = .address caller.ownerAddress then
      match burn.amount with
      | some amt => caller.validateBalance token amt
      | none => caller.validateTokenOwnership programId burn.tokenIds
    else
      match accountMap burn.from with
      | some (some account) =>
        if (account.programs token).isNone then
          .error "account being debited does not hold token"
        else
          match burn.amount with
          | some amt => do
            account.validateBalance token amt
            eitherApproval (account.validateApprovedSpend token caller.ownerAddress amt)
              (account.validateApprovedSpend token programId amt)
          | none => do
            account.validateTokenOwnership token burn.tokenIds
            eitherApproval
              (account.validateApprovedTokenTransfer token caller.ownerAddress burn.tokenIds)
              (account.validateApprovedTokenTransfer token programId burn.tokenIds)
      | _ => .error "account being debited does not exist"

/-- The check that only its owner updates a field of an existing account. -/
def checkOwned (caller : Account) (found : Option (Option Account)) (field : String) :
    Except String Unit :=
  match found with
  | some (some acct) =>
    if acct.ownerAddress ≠ caller.ownerAddress then
      .error (field ++ " can only be updated by the account owner")
    else .ok ()
  | _ => .error (field ++ " can only be updated on accounts that exist")

/-- The check of an update of a token's data, metadata or status. -/
def checkTokenData (tx : Transaction) (caller : Account) (accountMap : AccountLookup)
    (tokenUpdate : TokenUpdate) : Except String Unit :=
  match tokenUpdate.token with
  | .namespace _ => .error "Namespaces not yet implemented for token updates"
  | ref =>
    let token := match ref with
      | .address a => a
      | _ => tx.to
    match accountMap tokenUpdate.account with
    | some (some account) =>
      if account.ownerAddress ≠ caller.ownerAddress then
        match account.programs token with
        | some program =>
          match program.approvals tx.to, program.approvals tx.from with
          | none, none => .error ("the caller does not own this account, and the account " ++
              "owner has not approved either the caller of the called program")
          | _, _ => .ok ()
        | none => .ok ()
      else .ok ()
    | _ => .ok ()

/-- The check of one field of a token update. -/
def checkTokenField (tx : Transaction) (caller : Account) (accountMap : AccountLookup)
    (tokenUpdate : TokenUpdate) : TokenFieldValue → Except String Unit
  | .approvals _ => checkOwned caller (accountMap tokenUpdate.account) "Approvals"
  | .allowance _ => checkOwned caller (accountMap tokenUpdate.account) "Allowances"
  | _ => checkTokenData tx caller accountMap tokenUpdate

/-- The display of `FailedProgramUpdate`. -/
def failedProgramUpdate (account : AddressOrNamespace) (reason : String) : Except String Unit :=
  .error ("failed to validate program update for address " ++ account.debug ++ ": " ++ reason)

/-- The check of a program update. -/
def checkProgramUpdate (tx : Transaction) (accountMap : AccountLookup)
    (programUpdate : ProgramUpdate) : Except String Unit :=
  match accountMap programUpdate.account with
  | some (some acct) =>
    if acct.ownerAddress ≠ tx.from ∧ ¬programUpdate.isSelf (.address tx.to) ∧
        .address tx.to ∉ acct.programAccountLinkedPrograms then
      failedProgramUpdate programUpdate.account
        ("program called must be called by program owner, be the program itself, or a linked " ++
          "program to update another program account")
    else .ok ()
  | _ => failedProgramUpdate programUpdate.account "program accounts must exist to be updated"

/-- The check of one update. -/
def checkUpdate (tx : Transaction) (caller : Account) (accountMap : AccountLookup) :
    TokenOrProgramUpdate → Except String Unit
  | .tokenUpdate u => u.updates.forM fun f => checkTokenField tx caller accountMap u f.value
  | .programUpdate u => checkProgramUpdate tx accountMap u

/-- The check of one instruction. -/
def checkInstruction (tx : Transaction) (caller : Account) (accountMap : AccountLookup) :
    Instruction → Except String Unit
  | .transfer transfer => checkTransfer tx caller accountMap transfer
  | .burn burn => checkBurn tx caller accountMap burn
  | .update update => update.updates.forM (checkUpdate tx caller accountMap)
  | .create create =>
    if caller.ownerAddress ≠ create.programOwner then
      .error "caller must be program owner for Create Instruction"
    else .ok ()
  | .log _ => .ok ()

/-- `validate_instructions`. -/
def validateInstructions (instructions : List Instruction) (tx : Transaction) (caller : Account)
    (accountMap : AccountLookup) : Except String Unit :=
  instructions.forM (checkInstruction tx caller accountMap)

/-- The checks of `validate_call`. -/
def checkCall (accountMap : AccountLookup) (outputs : Outputs) (tx : Transaction) :
    Except String Unit := do
  tx.verifySignature env
  match accountMap (.address tx.from) with
  | some (some caller) => do
    caller.validateNonce tx.nonce
    validateInstructions outputs.instructions tx caller accountMap
  | _ => .error ("unable to acquire `caller` account " ++ Address.toFullString tx.from ++
      ", does not exist")

end Checks

/-! ## The futures -/

section Futures

variable (env : Env)

/-- A validator future. Its errors are only logged. -/
abbrev ValidatorM (α : Type) := Async (Fault String) α

/-- Report a failed check to the pending graph, or hand the transaction to the batcher. -/
def report (tx : Transaction) (outputs : Option Outputs) (x : Except String Unit) :
    ValidatorM Unit :=
  match x with
  | .error e => cast (.pending (.invalid tx e))
  | .ok () => cast (.batcher (.appendTransaction tx outputs))

/-- `validate_bridge_in`. -/
def validateBridgeIn (tx : Transaction) : ValidatorM Unit :=
  if tx.from ≠ tx.to then pure () else cast (.batcher (.appendTransaction tx none))

/-- `validate_send`. -/
def validateSend (tx : Transaction) (account : Account) : ValidatorM Unit :=
  report tx none (checkSend env tx account)

/-- `validate_call`. -/
def validateCall (accountMap : AccountLookup) (outputs : Outputs) (tx : Transaction) :
    ValidatorM Unit :=
  report tx (some outputs) (checkCall env accountMap outputs tx)

/-- `pending_transaction`. -/
def pendingTransaction (tx : Transaction) : ValidatorM Unit :=
  match tx.transactionType with
  | .send _ => do
    match ← getAccount tx.from with
    | none => cast (.pending (.invalid tx "account does not exist"))
    | some account => validateSend env tx account
  | .bridgeIn _ => do
    let _ ← getAccount tx.from
    validateBridgeIn tx
  | .call _ => pure ()
  | .registerProgram _ => pure ()
  | .bridgeOut _ => pure ()

/-- The accounts a call needs, read one after another. -/
def readAccounts (tx : Transaction) : List AddressOrNamespace → AccountLookup →
    ValidatorM AccountLookup
  | [], accounts => pure accounts
  | ref :: refs, accounts =>
    match ref with
    | .this => do
      let account ← getAccount tx.to
      readAccounts tx refs (accounts.insert ref account)
    | .address a => do
      let account ← getAccount a
      readAccounts tx refs (accounts.insert ref account)
    | .namespace _ => readAccounts tx refs (accounts.insert ref none)

/-- `pending_call`. -/
def pendingCall (outputs : Option Outputs) (tx : Transaction) : ValidatorM Unit :=
  match outputs with
  | some outputs => do
    let involved := outputs.instructions.flatMap Instruction.getAccountsInvolved ++
      [.address tx.from, .address tx.to]
    let accounts ← readAccounts tx involved fun _ => none
    validateCall env accounts outputs tx
  | none => cast (.pending (.invalid tx "Call transaction missing associated outputs"))

/-- The future `ValidatorActor::handle` pushes, if any. `validate_register_program` accepts
and does nothing. -/
def validatorFuture : ValidatorMessage → Option (ValidatorM Unit)
  | .pendingTransaction tx => some (pendingTransaction env tx)
  | .pendingCall outputs tx => some (pendingCall env outputs tx)
  | .pendingRegistration _ => none

end Futures

end Lasr
