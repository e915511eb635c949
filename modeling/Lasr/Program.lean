import Lasr.Token

/-!
# The programming model

The instructions of `types/src/programming_model.rs` that a program returns to the
protocol, and the program updates of `types/src/account.rs`. An `Outputs` carries the
instructions; the inputs it echoes are read by nothing modelled here, and neither is the
`field` tag next to an update's value.
-/

set_option linter.unusedSectionVars false

namespace Lasr

/-- `AddressOrNamespace`. `this` refers to the program that returned it. -/
inductive AddressOrNamespace where
  | address (a : Address)
  | «namespace» (name : String)
  | this
  deriving DecidableEq, Repr

/-! ## Updates -/

/-- `TokenUpdateField`. -/
structure TokenUpdateField where
  value : TokenFieldValue

/-- `LinkedProgramsValue`. -/
inductive LinkedProgramsValue where
  | insert (linkedProgram : Address)
  | extend (linkedPrograms : List Address)
  | remove (linkedProgram : Address)

/-- `ProgramFieldValue`. -/
inductive ProgramFieldValue where
  | linkedPrograms (v : LinkedProgramsValue)
  | metadata (v : MetadataValue)
  | data (v : DataValue)

/-- `ProgramUpdateField`. -/
structure ProgramUpdateField where
  value : ProgramFieldValue

/-- `TokenUpdate`. -/
structure TokenUpdate where
  account : AddressOrNamespace
  token : AddressOrNamespace
  updates : List TokenUpdateField

/-- `ProgramUpdate`. -/
structure ProgramUpdate where
  account : AddressOrNamespace
  updates : List ProgramUpdateField

/-- `is_self`. -/
def ProgramUpdate.isSelf (self : ProgramUpdate) (account : AddressOrNamespace) : Bool :=
  self.account = account

/-- `TokenOrProgramUpdate`. -/
inductive TokenOrProgramUpdate where
  | tokenUpdate (u : TokenUpdate)
  | programUpdate (u : ProgramUpdate)

/-! ## Instructions -/

/-- `TokenDistribution`. -/
structure TokenDistribution where
  programId : AddressOrNamespace
  «to» : AddressOrNamespace
  amount : Option U256
  tokenIds : List U256
  updateFields : List TokenUpdateField

/-- `CreateInstruction`. -/
structure CreateInstruction where
  programNamespace : AddressOrNamespace
  programId : AddressOrNamespace
  programOwner : Address
  totalSupply : U256
  initializedSupply : U256
  distribution : List TokenDistribution

/-- `UpdateInstruction`. -/
structure UpdateInstruction where
  updates : List TokenOrProgramUpdate

/-- `TransferInstruction`. -/
structure TransferInstruction where
  token : Address
  «from» : AddressOrNamespace
  «to» : AddressOrNamespace
  amount : Option U256
  ids : List U256

/-- `BurnInstruction`. -/
structure BurnInstruction where
  caller : Address
  programId : AddressOrNamespace
  token : Address
  «from» : AddressOrNamespace
  amount : Option U256
  tokenIds : List U256

/-- `ContractLogType`. -/
inductive ContractLogType where
  | info (s : String)
  | error (s : String)
  | warn (s : String)
  | debug (s : String)

/-- `Instruction`. -/
inductive Instruction where
  | create (i : CreateInstruction)
  | update (i : UpdateInstruction)
  | transfer (i : TransferInstruction)
  | burn (i : BurnInstruction)
  | log (i : ContractLogType)

/-- `Outputs`. -/
structure Outputs where
  instructions : List Instruction

/-! ## Accounts involved -/

/-- `CreateInstruction::accounts_involved`. -/
def CreateInstruction.accountsInvolved (self : CreateInstruction) : List AddressOrNamespace :=
  [self.programNamespace, self.programId, .address self.programOwner] ++
    self.distribution.map (fun d => d.to)

/-- `UpdateInstruction::accounts_involved`. -/
def UpdateInstruction.accountsInvolved (self : UpdateInstruction) : List AddressOrNamespace :=
  self.updates.map fun
    | .tokenUpdate u => u.account
    | .programUpdate u => u.account

/-- `TransferInstruction::accounts_involved`. -/
def TransferInstruction.accountsInvolved (self : TransferInstruction) :
    List AddressOrNamespace :=
  [self.from, self.to]

/-- `BurnInstruction::accounts_involved`. -/
def BurnInstruction.accountsInvolved (self : BurnInstruction) : List AddressOrNamespace :=
  [self.from]

/-- `get_accounts_involved`. -/
def Instruction.getAccountsInvolved : Instruction → List AddressOrNamespace
  | .create i => i.accountsInvolved
  | .update i => i.accountsInvolved
  | .transfer i => i.accountsInvolved
  | .burn i => i.accountsInvolved
  | .log _ => []

end Lasr
