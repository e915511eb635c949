import Lasr.Batcher

/-!
# From a request to the batcher

The actors a request passes first : `TaskScheduler` of `actors/src/scheduler.rs`,
`EngineActor` of `engine.rs` and `ExecutorActor` of `executor.rs`, built without the
`remote` feature. The scheduler keeps the reply port of each request under the hash of its
transaction. The engine and the executor turn each message into a future.

The RPC method and the type of the transaction are independent. `registerProgram` takes any
transaction whose inputs name a content id and whose signature recovers to some address, and
hands it to the batcher by way of the executor (`Executor.create`).

What IPFS, the bundler and the containers do is read from `Services`. Starting a container
cannot fail, since everything that can is done in its own thread.
-/

set_option linter.unusedSectionVars false

namespace Lasr

/-- What the executor's surroundings do while it handles a message. -/
structure Services where
  /-- `check_pinned_status`. -/
  pinned : Except String Unit
  /-- `pin_object`. -/
  pin : Except String Unit
  /-- `bundle`. -/
  bundle : Except String Unit
  /-- The thread of a container that is started. -/
  container : ContainerRun

/-! ## The scheduler -/

/-- `TransactionResponse`, as the scheduler sends it. -/
inductive RpcResponse where
  | sendResponse (token : Token)
  | callResponse (account : Account)
  | asyncCallResponse (transactionHash : String)
  | registerProgramResponse (programId : Option String)
  | transactionError (description : String)

/-- The reply ports by transaction hash, and what was sent to which port. -/
structure SchedulerState where
  ports : HashMap String ℕ
  responses : List (ℕ × RpcResponse)

namespace SchedulerState

/-- The state the scheduler starts in. -/
def new : SchedulerState := ⟨∅, []⟩

/-- Answer the port kept for a hash, if there is one, and forget it. -/
def respond (hash : String) (response : RpcResponse) (state : SchedulerState) : SchedulerState :=
  match state.ports.lookup hash with
  | some port => ⟨state.ports.erase hash, state.responses ++ [(port, response)]⟩
  | none => state

/-- Hand a request to the engine, and keep its port. -/
def forward (env : Env) (m : EngineMessage) (tx : Transaction) (port : ℕ)
    (state : SchedulerState) : SchedulerState × List Msg :=
  ({ state with ports := state.ports.insert (env.hashString tx) port }, [.engine m])

/-- `TaskScheduler::handle`. A failed registration is answered by nobody. -/
def handle (env : Env) (m : SchedulerMessage) (state : SchedulerState) :
    SchedulerState × List Msg :=
  match m with
  | .call tx port => state.forward env (.call tx) tx port
  | .send tx port => state.forward env (.send tx) tx port
  | .registerProgram tx port => state.forward env (.registerProgram tx) tx port
  | .transactionApplied hash token => (state.respond hash (.sendResponse token), [])
  | .sendTransactionFailure hash error => (state.respond hash (.transactionError error), [])
  | .registrationSuccess tx programId =>
    (state.respond (env.hashString tx)
      (.registerProgramResponse (some (Address.toFullString programId))), [])
  | .callTransactionAsyncPending hash => (state.respond hash (.asyncCallResponse hash), [])
  | .callTransactionApplied hash account => (state.respond hash (.callResponse account), [])
  | .callTransactionFailure hash outputs error =>
    (state.respond hash (.transactionError
      ("Transaction " ++ hash ++ " failed due to " ++ error ++ ": " ++ outputs)), [])
  | .registrationFailure _ _ => (state, [])

end SchedulerState

/-! ## The engine -/

/-- A future of the engine or the executor. Its errors are only logged. -/
abbrev RequestM (α : Type) := Async (Fault String) α

namespace Engine

/-- The display of `EngineError::Custom` : the quoted message. -/
def errorText (msg : String) : String :=
  "\"" ++ (msg.replace "\\" "\\\\").replace "\"" "\\\"" ++ "\""

/-- `Err(EngineError::Custom)`. -/
def customError {α : Type} (msg : String) : RequestM α :=
  .fail (.err (errorText msg))

/-- `set_pending_transaction`. -/
def setPendingTransaction (tx : Transaction) (outputs : Option Outputs) : RequestM Unit :=
  cast (.pending (.new tx outputs))

/-- The transaction `handle_bridge_event` builds. -/
def bridgeTransaction (event : BridgeEvent) : Transaction where
  transactionType := .bridgeIn event.bridgeEventId
  «from» := event.user
  «to» := event.user
  programId := event.programId
  op := ""
  inputs := ""
  value := event.amount
  nonce := event.bridgeEventId
  v := 0
  r := 0#256
  s := 0#256

/-- `handle_bridge_event`. -/
def handleBridgeEvent : List BridgeEvent → RequestM Unit
  | [] => pure ()
  | event :: logs => do
    setPendingTransaction (bridgeTransaction event) none
    handleBridgeEvent logs

/-- `handle_eo_event`. -/
def handleEoEvent : EoEvent → RequestM Unit
  | .bridge log => handleBridgeEvent log
  | .settlement => pure ()

/-- `respond_with_error`. -/
def respondWithError (hash outputs error : String) : RequestM Unit :=
  cast (.scheduler (.callTransactionFailure hash outputs error))

variable (env : Env)

/-- `handle_register_program`. The program id is only computed to see that it exists. -/
def handleRegisterProgram (tx : Transaction) : RequestM Unit :=
  match env.contentId tx.inputs with
  | .error e => customError e
  | .ok none => customError "contentId is required"
  | .ok (some none) => customError "contentId is incorrect type"
  | .ok (some (some contentId)) =>
    match createProgramId env contentId tx with
    | .error e => customError e
    | .ok _ => cast (.executor (.create tx contentId))

/-- `handle_call_success`. Outputs that do not parse are reported twice. -/
def handleCallSuccess (tx : Transaction) (hash outputs : String) : RequestM Unit :=
  match env.parseOutputs outputs with
  | .ok parsed => setPendingTransaction tx (some parsed)
  | .error e => do
    respondWithError (env.hashString tx) outputs (errorText e)
    respondWithError hash outputs (errorText e)

/-- The future `EngineActor::handle` pushes. -/
def future : EngineMessage → RequestM Unit
  | .call tx => cast (.executor (.set tx))
  | .send tx => setPendingTransaction tx none
  | .registerProgram tx => handleRegisterProgram env tx
  | .eoEvent event => handleEoEvent event
  | .callSuccess tx hash outputs => handleCallSuccess env tx hash outputs

end Engine

/-! ## The executor -/

namespace Executor

/-- `registration_error`. -/
def registrationError (hash error : String) : RequestM Unit :=
  cast (.scheduler (.registrationFailure hash error))

/-- `execution_error`. -/
def executionError (hash error : String) : RequestM Unit :=
  cast (.scheduler (.callTransactionFailure hash "" error))

/-- The error of `parse_inputs`. -/
def inputsError (tx : Transaction) : String :=
  "program account " ++ Address.toFullString tx.to ++ " does not exist"

/-- The error for a program without an account. -/
def programMissing : String := "program account does not exist, unable to execute"

/-- `registration_success`. -/
def registrationSuccess (tx : Transaction) : RequestM Unit :=
  cast (.batcher (.appendTransaction tx none))

variable (env : Env) (services : Services)

/-- The first part of `create` : pin the object if it is not pinned. A failure is reported
and does not end the registration. -/
def pinObject (tx : Transaction) : RequestM Unit :=
  match services.pinned, services.pin with
  | .error _, .error e => registrationError (env.hashString tx) e
  | _, _ => pure ()

/-- The second part of `create`. -/
def bundle (tx : Transaction) (contentId : String) : RequestM Unit :=
  match services.bundle with
  | .ok () =>
    match createProgramId env contentId tx with
    | .ok _ => registrationSuccess tx
    | .error e => registrationError (env.hashString tx) e
  | .error e => registrationError (env.hashString tx) e

/-- `create`. -/
def create (tx : Transaction) (contentId : String) : RequestM Unit := do
  pinObject env services tx
  bundle env services tx contentId

/-- `set`. -/
def set (tx : Transaction) : RequestM Unit := do
  match ← getAccount tx.programId with
  | some _ =>
    match ← getAccount tx.to with
    | some _ => do
      cast (.pending (.newCall tx))
      cast (.scheduler (.callTransactionAsyncPending (env.hashString tx)))
    | none =>
      executionError (env.hashString tx)
        ("unable to set transaction in pending: Custom \x7b kind: Other, error: \"" ++
          inputsError tx ++ "\" \x7d")
  | none => executionError (env.hashString tx) programMissing

/-- `exec`. The container is named by the content id of the program's account. -/
def exec (tx : Transaction) : RequestM Unit := do
  match ← getAccount tx.programId with
  | some account =>
    let contentId := (account.programAccountMetadata "content_id").getD
      (Address.toFullString tx.programId)
    match ← getAccount tx.to with
    | some _ =>
      runContainer (Address.toFullString tx.programId, env.hashString tx) services.container tx
        contentId
    | none => executionError (env.hashString tx) (inputsError tx)
  | none => executionError (env.hashString tx) programMissing

/-- `results`. -/
def results (tx : Option Transaction) (programId : String) (hash : Option String) :
    RequestM Unit :=
  match hash with
  | none => pure ()
  | some hash => do
    match ← takeHandle (programId, hash) with
    | some (.ok output) =>
      match tx with
      | some tx => do
        cast (.pending (.execSuccess tx))
        cast (.engine (.callSuccess tx (env.hashString tx) output))
      | none => pure ()
    | some (.error e) => executionError hash e
    | none => pure ()

/-- The future `ExecutorActor::handle` pushes. -/
def future : ExecutorMessage → RequestM Unit
  | .create tx contentId => create env services tx contentId
  | .set tx => set env tx
  | .exec tx => exec env services tx
  | .results tx _ programId hash => results env tx programId hash

end Executor

end Lasr
