import Lasr.Account

/-!
# Messages and effects

The messages of `messages/src/messages.rs` that the modelled actors send each other, and
the operations their futures perform (`effects`) : a read of the account cache, a write
to it, an insertion into the batches under the batcher's lock, a cast, and the start and
the collection of a container run. Each is one step of a future; what lies between two
of them is not interrupted.

Every actor is registered, so a cast always finds its mailbox. The reply ports of the
RPC layer are numbers.
-/

set_option linter.unusedSectionVars false

namespace Lasr

/-- `BridgeEvent`. -/
structure BridgeEvent where
  user : Address
  programId : Address
  amount : U256
  tokenId : U256
  tokenType : String
  bridgeEventId : U256
  deriving DecidableEq, Repr

/-- `EoEvent`. What a settlement event carries is read by nothing here. -/
inductive EoEvent where
  | bridge (log : List BridgeEvent)
  | settlement

/-- `SchedulerMessage`. -/
inductive SchedulerMessage where
  | call (transaction : Transaction) (rpcReply : ℕ)
  | send (transaction : Transaction) (rpcReply : ℕ)
  | registerProgram (transaction : Transaction) (rpcReply : ℕ)
  | transactionApplied (transactionHash : String) (token : Token)
  | sendTransactionFailure (transactionHash : String) (error : String)
  | callTransactionApplied (transactionHash : String) (account : Account)
  | callTransactionFailure (transactionHash : String) (outputs error : String)
  | callTransactionAsyncPending (transactionHash : String)
  | registrationSuccess (transaction : Transaction) (programId : Address)
  | registrationFailure (transactionHash : String) (errorString : String)

/-- `EngineMessage`. -/
inductive EngineMessage where
  | call (transaction : Transaction)
  | send (transaction : Transaction)
  | registerProgram (transaction : Transaction)
  | eoEvent (event : EoEvent)
  | callSuccess (transaction : Transaction) (transactionHash : String) (outputs : String)

/-- `ExecutorMessage`. -/
inductive ExecutorMessage where
  | create (transaction : Transaction) (contentId : String)
  | set (transaction : Transaction)
  | exec (transaction : Transaction)
  | results (transaction : Option Transaction) (contentId programId : String)
      (transactionHash : Option String)

/-- `PendingTransactionMessage`. -/
inductive PendingTransactionMessage where
  | new (transaction : Transaction) (outputs : Option Outputs)
  | newCall (transaction : Transaction)
  | execSuccess (transaction : Transaction)
  | valid (transaction : Transaction)
  | invalid (transaction : Transaction) (e : String)
  | validCall (outputs : Outputs) (transaction : Transaction)
  | cleanGraph

/-- `ValidatorMessage`. -/
inductive ValidatorMessage where
  | pendingTransaction (transaction : Transaction)
  | pendingCall (outputs : Option Outputs) (transaction : Transaction)
  | pendingRegistration (transaction : Transaction)

/-- `BatcherMessage`. -/
inductive BatcherMessage where
  | appendTransaction (transaction : Transaction) (outputs : Option Outputs)

/-- `ActorType`, for the modelled actors. -/
inductive ActorType where
  | scheduler
  | engine
  | executor
  | pendingTransactions
  | validator
  | batcher
  deriving DecidableEq, Repr

/-- A message with the actor it is for. -/
inductive Msg where
  | scheduler (m : SchedulerMessage)
  | engine (m : EngineMessage)
  | executor (m : ExecutorMessage)
  | pending (m : PendingTransactionMessage)
  | validator (m : ValidatorMessage)
  | batcher (m : BatcherMessage)

/-- The mailbox a message goes to. -/
def Msg.dest : Msg → ActorType
  | .scheduler _ => .scheduler
  | .engine _ => .engine
  | .executor _ => .executor
  | .pending _ => .pendingTransactions
  | .validator _ => .validator
  | .batcher _ => .batcher

/-- What an address leads to : nothing, or an account of that address. -/
abbrev Slot (a : Address) := Option {account : Account // account.address = a}

/-- The account in a slot. -/
def Slot.account {a : Address} (s : Slot a) : Option Account :=
  s.map Subtype.val

theorem Slot.address_of_account {a : Address} {s : Slot a} {account : Account}
    (h : s.account = some account) : account.address = a := by
  obtain ⟨x, -, hx⟩ := Option.map_eq_some_iff.1 h
  exact hx ▸ x.2

/-- The thread of a container : whether it gets as far as reporting to the executor, and
how it ends. -/
structure ContainerRun where
  reports : Bool
  outcome : Except String String

/-- The operations of a future. -/
inductive Op where
  /-- `get_account` : a read of the account cache. -/
  | getAccount (address : Address)
  /-- `cache_account` : a write to the account cache. -/
  | cacheAccount (account : Account)
  /-- The insertion of an account into the batches, under the batcher's lock. -/
  | insertAccount (account : Account)
  /-- The insertion of a transaction into the batches, under the batcher's lock. -/
  | insertTransaction (transaction : Transaction)
  /-- `cast`. -/
  | cast (m : Msg)
  /-- `execute` : start a container, and keep its handle under the program and hash. -/
  | runContainer (key : String × String) (thread : ContainerRun) (transaction : Transaction)
      (contentId : String)
  /-- `handles.remove`, and the outcome of the run. -/
  | takeHandle (key : String × String)

/-- The effects of a future. -/
abbrev effects : Signature where
  Op := Op
  Resp
    | .getAccount a => Slot a
    | .takeHandle _ => Option (Except String String)
    | _ => Unit

/-- An async function that fails with `ε`. -/
abbrev Async (ε α : Type) := Prog effects ε α

variable {ε : Type}

/-- `get_account`. -/
def getAccount (address : Address) : Async ε (Option Account) :=
  Prog.op (E := effects) (.getAccount address) fun s => .ret (Slot.account s)

/-- `Batcher::cache_account`. -/
def cacheAccount (account : Account) : Async ε Unit :=
  Prog.perform (E := effects) (.cacheAccount account)

/-- The locked part of `add_account_to_batch`. -/
def insertAccount (account : Account) : Async ε Unit :=
  Prog.perform (E := effects) (.insertAccount account)

/-- `add_transaction_to_batch`. -/
def addTransactionToBatch (transaction : Transaction) : Async ε Unit :=
  Prog.perform (E := effects) (.insertTransaction transaction)

/-- `cast`. -/
def cast (m : Msg) : Async ε Unit :=
  Prog.perform (E := effects) (.cast m)

/-- `execute`. -/
def runContainer (key : String × String) (thread : ContainerRun) (transaction : Transaction)
    (contentId : String) : Async ε Unit :=
  Prog.perform (E := effects) (.runContainer key thread transaction contentId)

/-- `handles.remove`. -/
def takeHandle (key : String × String) : Async ε (Option (Except String String)) :=
  Prog.perform (E := effects) (.takeHandle key)

end Lasr
