import Lasr.AccountCache

/-!
# The batcher

The account-applying half of `actors/src/batcher.rs`. Each async function is a program
over `effects`, so that it can be run alone and interleaved with others at its await
points.

A call collects the accounts it changes in a buffer keyed by the account's own address
(`addAccountToBatchBuffer`), fetches from the buffer before the cache (`fetchAccount`),
and writes the buffer to the cache at the end. The caller's nonce is written to the
cache before the first instruction.
-/

set_option linter.unusedSectionVars false

namespace Lasr

/-- `BatcherError`. -/
inductive BatcherError where
  | failedTransaction (msg : String) (txn : Transaction)
  | custom (msg : String)
  deriving DecidableEq, Repr

/-- The display of a `BatcherError`. -/
def BatcherError.toText : BatcherError → String
  | .failedTransaction msg _ => msg
  | .custom msg => msg

/-- A batcher function. -/
abbrev BatcherM (α : Type) := Async (Fault BatcherError) α

/-- `batch_buffer` of a call. -/
abbrev BatchBuffer := HashMap Address Account

/-- `Err(BatcherError::Custom(msg))`. -/
def customError {α : Type} (msg : String) : BatcherM α :=
  .fail (.err (.custom msg))

/-- `Err(BatcherError::FailedTransaction)`. -/
def failedTransaction {α : Type} (tx : Transaction) (msg : String) : BatcherM α :=
  .fail (.err (.failedTransaction msg tx))

/-- `map_err(|e| BatcherError::Custom(e.to_string()))` on an account's result. -/
def orCustom {α : Type} (x : AccountResult α) : BatcherM α :=
  Prog.ofExcept (x.mapError (Fault.map BatcherError.custom))

/-- `map_err(|e| BatcherError::FailedTransaction)` on an account's result. -/
def orFailed {α : Type} (tx : Transaction) (x : AccountResult α) : BatcherM α :=
  Prog.ofExcept (x.mapError (Fault.map fun msg => .failedTransaction msg tx))

/-- `map_err(|e| BatcherError::FailedTransaction)` on a batcher function. -/
def asFailed {α : Type} (tx : Transaction) (p : BatcherM α) : BatcherM α :=
  p.mapErr (Fault.map fun e => .failedTransaction e.toText tx)

/-- The account a method was called on; the token it returns is dropped. -/
def accountOf (x : AccountResult (Account × Token)) : AccountResult Account :=
  x.map Prod.fst

/-- `add_account_to_batch` : write to the cache, then insert into the batches. -/
def addAccountToBatch (account : Account) : BatcherM Unit := do
  cacheAccount account
  insertAccount account

/-! ## Sends and bridge-ins -/

/-- A credit of the receiver. Its result is ignored; a panic is not. -/
def creditWith (tx : Transaction) (account : Account) (programAccount : Option Account) :
    BatcherM Account :=
  match account.applySendTransaction tx programAccount with
  | .ok (account', _) => pure account'
  | .error (.err _) => pure account
  | .error .panic => .fail .panic

/-- The credit of the receiver : the program account of the token must exist, or the
token is ETH or VERSE. -/
def creditReceiver (tx : Transaction) (account : Account) : BatcherM Account := do
  match ← getAccount tx.programId with
  | some programAccount => creditWith tx account (some programAccount)
  | none =>
    if tx.programId = ETH_ADDR then creditWith tx account none
    else if tx.programId = VERSE_ADDR then creditWith tx account none
    else
      failedTransaction tx
        ("program account " ++ Address.toFullString tx.programId ++ " does not exist")

/-- The sender's side of `add_transaction_to_account` : the account after the
transaction, and the token it returns to the RPC layer. -/
def debitSender (tx : Transaction) : BatcherM (Account × Token) := do
  match ← getAccount tx.from with
  | some account =>
    let account ← orFailed tx account.incrementNonce
    orFailed tx (account.applySendTransaction tx none)
  | none =>
    if ¬tx.transactionType.isBridgeIn then failedTransaction tx "sender account does not exist"
    else
      let account := Account.build .user tx.from
      let programAccount ← getAccount tx.programId
      orFailed tx (account.applySendTransaction tx programAccount)

/-- The receiver's side of `add_transaction_to_account`. The account of a self-send is
the one the sender's side left in the buffer. -/
def creditSide (tx : Transaction) (buffer : HashMap String Account) :
    BatcherM (HashMap String Account) := do
  if tx.to ≠ tx.from then
    match ← getAccount tx.to with
    | some account =>
      return buffer.insert (Address.toFullString tx.to) (← creditReceiver tx account)
    | none =>
      let account ← creditReceiver tx (Account.build .user tx.to)
      return buffer.insert (Address.toFullString tx.to) account
  else if ¬tx.transactionType.isBridgeIn then
    match buffer.lookup (Address.toFullString tx.to) with
    | some account =>
      return buffer.insert (Address.toFullString tx.to) (← creditReceiver tx account)
    | none =>
      match ← getAccount tx.to with
      | some account =>
        return buffer.insert (Address.toFullString tx.to) (← creditReceiver tx account)
      | none => failedTransaction tx "account sending to itself does not exist"
  else return buffer

/-- Write every account of a list to the cache and the batches. -/
def addAccountsToBatch : List Account → BatcherM Unit
  | [] => pure ()
  | account :: rest => do
    addAccountToBatch account
    addAccountsToBatch rest

@[simp] theorem runAlone_addAccountToBatch_bind {β : Type} {storage cache : AccountStore}
    (account : Account) (f : Unit → BatcherM β) :
    runAlone storage (addAccountToBatch account >>= f) cache =
      runAlone storage (f ()) (handleCacheWrite cache account) := rfl

/-- A list of accounts is written in its order. -/
@[simp] theorem runAlone_addAccountsToBatch_bind {β : Type} {storage : AccountStore}
    (f : Unit → BatcherM β) :
    ∀ (l : List Account) (cache : AccountStore),
      runAlone storage (addAccountsToBatch l >>= f) cache =
        runAlone storage (f ()) (l.foldl handleCacheWrite cache)
  | [], _ => rfl
  | account :: l, cache =>
    runAlone_addAccountsToBatch_bind f l (handleCacheWrite cache account)

section Env

variable (env : Env)

/-- `add_transaction_to_account`. -/
def addTransactionToAccount (tx : Transaction) : BatcherM Unit := do
  let (fromAccount, token) ← debitSender tx
  let buffer := (∅ : HashMap String Account).insert
    (Address.toFullString tx.from) fromAccount
  let buffer ← creditSide tx buffer
  addAccountsToBatch ((env.order.iter buffer.entries).map Sigma.snd)
  addTransactionToBatch tx
  cast (.scheduler (.transactionApplied (env.hashString tx) token))
  cast (.pending (.valid tx))

/-- Its accounts part : the buffer with both sides, and the token for the RPC layer. -/
def sendAccounts (tx : Transaction) : BatcherM (HashMap String Account × Token) := do
  let (fromAccount, token) ← debitSender tx
  let buffer ← creditSide tx ((∅ : HashMap String Account).insert
    (Address.toFullString tx.from) fromAccount)
  return (buffer, token)

/-- The end of it : the transaction goes into a batch, and is reported. -/
def reportSend (tx : Transaction) (token : Token) : BatcherM Unit := do
  addTransactionToBatch tx
  cast (.scheduler (.transactionApplied (env.hashString tx) token))
  cast (.pending (.valid tx))

/-- What follows the accounts part : both sides are written, and the transaction reported. -/
def finishSend (tx : Transaction) (r : HashMap String Account × Token) : BatcherM Unit := do
  addAccountsToBatch ((env.order.iter r.1.entries).map Sigma.snd)
  reportSend env tx r.2

theorem addTransactionToAccount_eq (tx : Transaction) :
    addTransactionToAccount env tx = sendAccounts tx >>= finishSend env tx := by
  unfold addTransactionToAccount sendAccounts
  rw [Prog.bind_assoc]
  refine congrArg _ (funext fun r => ?_)
  dsimp only
  rw [Prog.bind_assoc]
  rfl

/-- What follows the accounts part always returns. -/
theorem runAlone_finishSend {storage cache : AccountStore} (tx : Transaction)
    (r : HashMap String Account × Token) :
    runAlone storage (finishSend env tx r) cache =
      (.ok (), ((env.order.iter r.1.entries).map Sigma.snd).foldl handleCacheWrite cache) := by
  unfold finishSend
  rw [runAlone_addAccountsToBatch_bind]
  rfl

end Env

/-! ## Instructions -/

/-- What an instruction's account reference stands for. Namespaces stand for nothing yet. -/
def AddressOrNamespace.resolve (tx : Transaction) : AddressOrNamespace → Option Address
  | .this => some tx.to
  | .address a => some a
  | .namespace _ => none

/-- An account from the buffer, or else from the cache. -/
def fetchAccount (address : Address) (batchBuffer : BatchBuffer) : BatcherM (Option Account) :=
  match batchBuffer.lookup address with
  | some account => pure (some account)
  | none => getAccount address

/-- `get_transfer_from_account`. -/
def getTransferFromAccount (tx : Transaction) («from» : AddressOrNamespace)
    (batchBuffer : BatchBuffer) : BatcherM Account :=
  match «from».resolve tx with
  | some address => do
    match ← fetchAccount address batchBuffer with
    | some account => pure account
    | none => customError "the `from` account in a transfer must exist"
  | none => customError
      "Transfers from namespaces are not yet supported, use address for \x7b:?\x7d instead"

/-- `get_transfer_to_account`. -/
def getTransferToAccount (tx : Transaction) («to» : AddressOrNamespace)
    (batchBuffer : BatchBuffer) : BatcherM (Option Account) :=
  match «to».resolve tx with
  | some address => fetchAccount address batchBuffer
  | none => pure none

/-- `apply_transfer_from`. -/
def applyTransferFrom (tx : Transaction) (transfer : TransferInstruction)
    (batchBuffer : BatchBuffer) : BatcherM Account := do
  let account ← getTransferFromAccount tx transfer.from batchBuffer
  orCustom (accountOf
    (account.applyTransferFromInstruction transfer.token transfer.amount transfer.ids))

/-- "token … program account does not exist". -/
def tokenProgramMissing {α : Type} (token : Address) : BatcherM α :=
  customError ("token " ++ Address.toFullString token ++ " program account does not exist")

/-- The credit of `apply_transfer_to`, for an account found or just built. -/
def creditTransfer (transfer : TransferInstruction) (account : Account) : BatcherM Account := do
  match ← getAccount transfer.token with
  | some programAccount =>
    orCustom (accountOf (account.applyTransferToInstruction transfer.token transfer.amount
      transfer.ids (some programAccount)))
  | none =>
    if transfer.token = ETH_ADDR ∨ transfer.token = VERSE_ADDR then
      orCustom (accountOf (account.applyTransferToInstruction transfer.token transfer.amount
        transfer.ids none))
    else tokenProgramMissing transfer.token

/-- `apply_transfer_to`. -/
def applyTransferTo (tx : Transaction) (transfer : TransferInstruction)
    (batchBuffer : BatchBuffer) : BatcherM Account := do
  match ← getTransferToAccount tx transfer.to batchBuffer with
  | some account => creditTransfer transfer account
  | none =>
    match transfer.to with
    | .address address => creditTransfer transfer (Account.build .user address)
    | _ => customError ("When sending tokens to an account that does not exist yet, " ++
        "fully qualified address must be used")

/-- `apply_transfer_instruction`. Both sides are computed from the same buffer. -/
def applyTransferInstruction (tx : Transaction) (transfer : TransferInstruction)
    (batchBuffer : BatchBuffer) : BatcherM (Account × Account) := do
  let fromAccount ← applyTransferFrom tx transfer batchBuffer
  let toAccount ← applyTransferTo tx transfer batchBuffer
  return (fromAccount, toAccount)

/-- `apply_burn_instruction`. -/
def applyBurnInstruction (tx : Transaction) (burn : BurnInstruction)
    (batchBuffer : BatchBuffer) : BatcherM Account := do
  let account ← getTransferFromAccount tx burn.from batchBuffer
  orCustom (accountOf (account.applyBurnInstruction burn.token burn.amount burn.tokenIds))

/-- The credit of `apply_distribution`, for an account found or just built. -/
def creditDistribution (programId : Address) (distribution : TokenDistribution)
    (account : Account) : BatcherM Account := do
  match ← getAccount programId with
  | some programAccount =>
    orCustom (accountOf (account.applyTokenDistribution programId distribution.amount
      distribution.tokenIds distribution.updateFields programAccount))
  | none => tokenProgramMissing programId

/-- `apply_distribution`. -/
def applyDistribution (tx : Transaction) (distribution : TokenDistribution)
    (batchBuffer : BatchBuffer) : BatcherM Account := do
  match distribution.programId.resolve tx with
  | none => customError "Namespaces are not yet supported for token distributions"
  | some programId =>
    match distribution.to with
    | .this =>
      match ← getTransferToAccount tx distribution.to batchBuffer with
      | some account => creditDistribution programId distribution account
      | none =>
        creditDistribution programId distribution (Account.build (.program tx.to) tx.from)
    | .address toAddr =>
      match ← getTransferToAccount tx distribution.to batchBuffer with
      | some account => creditDistribution programId distribution account
      | none => creditDistribution programId distribution (Account.build .user toAddr)
    | .namespace name =>
      customError ("Namespaced are not yet supported for Token Distrubtion applications, " ++
        "use address for Namespace(\"" ++ name ++ "\") instead")

/-- The update of `apply_token_update`, for an account found or just built. -/
def updateToken (programId : Address) (tokenUpdate : TokenUpdate) (account : Account) :
    BatcherM Account := do
  match ← getAccount programId with
  | some programAccount =>
    orCustom (accountOf (account.applyTokenUpdate programId tokenUpdate.updates programAccount))
  | none => tokenProgramMissing programId

/-- `apply_token_update`, with the buffer it may have written to through `get_mut`. -/
def applyTokenUpdate (tx : Transaction) (tokenUpdate : TokenUpdate)
    (batchBuffer : BatchBuffer) : BatcherM (BatchBuffer × Account) := do
  match tokenUpdate.token.resolve tx with
  | none => customError "Namespaces are not yet supported for token updates"
  | some programId =>
    match tokenUpdate.account.resolve tx with
    | none => customError "Namespaces are not yet enabled for applying token updates"
    | some address =>
      match batchBuffer.lookup address with
      | some account =>
        let account ← updateToken programId tokenUpdate account
        return (batchBuffer.insert address account, account)
      | none =>
        match ← getAccount address with
        | some account => return (batchBuffer, ← updateToken programId tokenUpdate account)
        | none =>
          match tokenUpdate.account with
          | .this =>
            customError "Use of `This` variant impermissible on accounts that do not exist yet"
          | _ =>
            return (batchBuffer, ← updateToken programId tokenUpdate (Account.build .user address))

/-- `apply_program_update`, with the buffer it may have written to through `get_mut`. -/
def applyProgramUpdate (tx : Transaction) (programUpdate : ProgramUpdate)
    (batchBuffer : BatchBuffer) : BatcherM (BatchBuffer × Account) := do
  match programUpdate.account.resolve tx with
  | none => customError "Namespaces are not yet enabled for applying token updates"
  | some address =>
    match batchBuffer.lookup address with
    | some account =>
      let account ← orCustom (account.applyProgramUpdate programUpdate)
      return (batchBuffer.insert address account, account)
    | none =>
      match ← getAccount address with
      | some account => return (batchBuffer, ← orCustom (account.applyProgramUpdate programUpdate))
      | none =>
        match programUpdate.account with
        | .this =>
          customError "Use of `This` variant impermissible on accounts that do not exist yet"
        | _ =>
          return (batchBuffer,
            ← orCustom ((Account.build .user address).applyProgramUpdate programUpdate))

/-- `apply_update`. -/
def applyUpdate (tx : Transaction) (update : TokenOrProgramUpdate) (batchBuffer : BatchBuffer) :
    BatcherM (BatchBuffer × Account) :=
  match update with
  | .tokenUpdate u => applyTokenUpdate tx u batchBuffer
  | .programUpdate u => applyProgramUpdate tx u batchBuffer

/-- `add_account_to_batch_buffer`. -/
def addAccountToBatchBuffer (batchBuffer : BatchBuffer) (account : Account) : BatchBuffer :=
  batchBuffer.insert account.address account

/-- `try_create_program_account`. -/
def tryCreateProgramAccount (tx : Transaction) (batchBuffer : BatchBuffer) : BatcherM Account := do
  match batchBuffer.lookup tx.to with
  | some account => return account
  | none =>
    match ← getAccount tx.to with
    | some account => return account
    | none => return Account.build (.program tx.to) tx.from

/-! ## Calls -/

/-- The distributions of a `Create`, in order. -/
def applyDistributions (tx : Transaction) :
    List TokenDistribution → BatchBuffer → BatcherM BatchBuffer
  | [], batchBuffer => pure batchBuffer
  | dist :: rest, batchBuffer => do
    let account ← asFailed tx (applyDistribution tx dist batchBuffer)
    applyDistributions tx rest (addAccountToBatchBuffer batchBuffer account)

/-- The updates of an `Update`, in order. -/
def applyUpdates (tx : Transaction) :
    List TokenOrProgramUpdate → BatchBuffer → BatcherM BatchBuffer
  | [], batchBuffer => pure batchBuffer
  | update :: rest, batchBuffer => do
    let (batchBuffer, account) ← asFailed tx (applyUpdate tx update batchBuffer)
    applyUpdates tx rest (addAccountToBatchBuffer batchBuffer account)

/-- One instruction of `apply_instructions_to_accounts`. -/
def applyInstruction (tx : Transaction) (instruction : Instruction) (batchBuffer : BatchBuffer) :
    BatcherM BatchBuffer :=
  match instruction with
  | .transfer transfer => do
    let (fromAccount, toAccount) ← asFailed tx (applyTransferInstruction tx transfer batchBuffer)
    return addAccountToBatchBuffer (addAccountToBatchBuffer batchBuffer fromAccount) toAccount
  | .burn burn => do
    let account ← asFailed tx (applyBurnInstruction tx burn batchBuffer)
    return addAccountToBatchBuffer batchBuffer account
  | .create create => do
    let batchBuffer ← applyDistributions tx create.distribution batchBuffer
    let programAccount ← asFailed tx (tryCreateProgramAccount tx batchBuffer)
    return addAccountToBatchBuffer batchBuffer programAccount
  | .update update => applyUpdates tx update.updates batchBuffer
  | .log _ => return batchBuffer

/-- The instruction loop of `apply_instructions_to_accounts`. -/
def applyInstructions (tx : Transaction) : List Instruction → BatchBuffer → BatcherM BatchBuffer
  | [], batchBuffer => pure batchBuffer
  | instruction :: rest, batchBuffer => do
    let batchBuffer ← applyInstruction tx instruction batchBuffer
    applyInstructions tx rest batchBuffer

section Env

variable (env : Env)

/-- `apply_instructions_to_accounts`. The account it calls `caller` is the one at
`transaction.to()`. -/
def applyInstructionsToAccounts (tx : Transaction) (outputs : Outputs) : BatcherM Unit := do
  match ← getAccount tx.to with
  | none => failedTransaction tx "caller account does not exist"
  | some caller =>
    let caller ← orFailed tx caller.incrementNonce
    addAccountToBatch caller
    let batchBuffer ← applyInstructions tx outputs.instructions ∅
    addAccountsToBatch ((env.order.iter batchBuffer.entries).map Sigma.snd)
    addTransactionToBatch tx
    cast (.pending (.validCall outputs tx))
    match ← getAccount tx.from with
    | none => failedTransaction tx "unable to acquire caller account"
    | some account =>
      cast (.scheduler (.callTransactionApplied (env.hashString tx) account))

/-! ## Program registration -/

/-- `apply_program_registration`. -/
def applyProgramRegistration (tx : Transaction) : BatcherM Unit := do
  match ← getAccount tx.from with
  | none =>
    cast (.scheduler (.callTransactionFailure (env.hashString tx) ""
      "deployer account doesn't exit"))
    failedTransaction tx "deployer account doesn't exit"
  | some account =>
    match env.contentId tx.inputs with
    | .error e => failedTransaction tx e
    | .ok none => failedTransaction tx "content id is required"
    | .ok (some none) => failedTransaction tx "contentId is incorrect type: Must be String"
    | .ok (some (some contentId)) =>
      match createProgramId env contentId tx with
      | .error e => failedTransaction tx e
      | .ok programId =>
        let metadata : Metadata := BTreeMap.insert (fun _ => none) "content_id" contentId
        let programAccount := { Account.build (.program programId) tx.from with
          programAccountMetadata := metadata }
        addAccountToBatch programAccount
        let account ← orFailed tx account.incrementNonce
        addAccountToBatch account
        cast (.scheduler (.registrationSuccess tx programId))

/-! ## The actor -/

/-- The future `BatcherActor::handle` pushes for an appended transaction, if any. -/
def appendTransaction (tx : Transaction) (outputs : Option Outputs) : Option (BatcherM Unit) :=
  match tx.transactionType with
  | .send _ => some (addTransactionToAccount env tx)
  | .bridgeIn _ => some (addTransactionToAccount env tx)
  | .call _ => outputs.map (applyInstructionsToAccounts env tx)
  | .registerProgram _ => some (applyProgramRegistration env tx)
  | .bridgeOut _ => none

/-! ## One transaction after another -/

/-- A transaction handed to the batcher. -/
structure Append where
  transaction : Transaction
  outputs : Option Outputs

/-- The cache after the batcher's future for a transaction ran alone. -/
def applyAppend (storage cache : AccountStore) (m : Append) : AccountStore :=
  match appendTransaction env m.transaction m.outputs with
  | some p => (runAlone storage p cache).2
  | none => cache

end Env

end Lasr
