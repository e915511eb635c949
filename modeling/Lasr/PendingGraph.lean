import Lasr.Messages

/-!
# The pending graph

`actors/src/pending_transactions.rs`. A new transaction becomes a vertex with the accounts
it touches, and is meant to wait in the queues of the accounts that earlier ones hold. A
queue is only appended to when a dependency was already found in it, so no queue and no
list of dependents is ever filled (`Idle`, `idle_handle`). Hence every accepted
transaction goes to the validator the moment it arrives, and nothing else does
(`scheduled_handle`).

Guards are always acquired, so the vertices are plain values. The order in which a map is
walked and the clock are read from `Reading`, afresh for each message. The subtraction of
timestamps is the wrapping one.
-/

set_option linter.unusedSectionVars false

namespace Lasr

/-- `PENDING_TIMEOUT`, in milliseconds. -/
def PENDING_TIMEOUT : BitVec 64 := 15000#64

/-- What the handling of one message reads of its surroundings : the iteration order of
the maps, and the clock, at the time the vertex of a hash is looked at. -/
structure Reading where
  order : HashOrder
  clock : String → BitVec 64

/-- A reading at time zero, in the order of insertion. -/
def Reading.start : Reading := ⟨Env.small.order, fun _ => 0#64⟩

/-! ## Vertices -/

/-- `Vertex`. -/
structure Vertex where
  transaction : Transaction
  timestamp : BitVec 64
  outputs : Option Outputs
  accountsTouched : List Address
  dependentTransactions : List String

/-- The accounts an instruction names, with `This` as the program that was called. -/
def Instruction.accountsTouched (tx : Transaction) (instruction : Instruction) : List Address :=
  instruction.getAccountsInvolved.filterMap fun
    | .this => some tx.to
    | .address a => some a
    | .namespace _ => none

/-- `extract_accounts_touched`. -/
def Vertex.extractAccountsTouched (tx : Transaction) (outputs : Option Outputs) : List Address :=
  (tx.getAccountsInvolved ++
    match outputs with
    | some o => o.instructions.flatMap (Instruction.accountsTouched tx)
    | none => []).dedup

/-- `Vertex::new`. -/
def Vertex.new (tx : Transaction) (outputs : Option Outputs) (now : BitVec 64) : Vertex where
  transaction := tx
  timestamp := now
  outputs := outputs
  accountsTouched := extractAccountsTouched tx outputs
  dependentTransactions := []

/-- `PreCallVertex`. -/
structure PreCallVertex where
  transaction : Transaction
  programAccount : Address
  dependencies : List String

/-- `PreCallVertex::new`. -/
def PreCallVertex.new (tx : Transaction) : PreCallVertex where
  transaction := tx
  programAccount := tx.to
  dependencies := []

/-! ## The graph of pending transactions -/

/-- `PendingGraph`. -/
structure PendingGraph where
  vertices : HashMap String Vertex
  accountIndex : HashMap Address (List String)

/-- A call of `schedule_with_validator`. -/
abbrev Scheduled := Transaction × Option Outputs

/-- What `schedule_with_validator` casts, if anything. -/
def scheduleWithValidator (s : Scheduled) : Option ValidatorMessage :=
  match s.1.transactionType with
  | .send _ => some (.pendingTransaction s.1)
  | .call _ => some (.pendingCall s.2 s.1)
  | .bridgeIn _ => some (.pendingTransaction s.1)
  | .bridgeOut _ => none
  | .registerProgram _ => none

namespace PendingGraph

/-- `PendingGraph::new`. -/
def new : PendingGraph := ⟨∅, ∅⟩

/-- Note `id` among the dependents of the vertex `dependencyId`, if there is one. The flag
records that one was found. -/
def addDependent (id : String) (acc : HashMap String Vertex × Bool) (dependencyId : String) :
    HashMap String Vertex × Bool :=
  match acc.1.lookup dependencyId with
  | some depVertex =>
    let dependents :=
      if depVertex.dependentTransactions.contains id then depVertex.dependentTransactions
      else depVertex.dependentTransactions ++ [id]
    (acc.1.insert dependencyId { depVertex with dependentTransactions := dependents }, true)
  | none => acc

/-- The body of the account loop of `add_transaction`. The flag is carried from account to
account. -/
def addToAccount (id : String) (acc : PendingGraph × Bool) (account : Address) :
    PendingGraph × Bool :=
  let dependencies := (acc.1.accountIndex.lookup account).getD []
  let found := dependencies.foldl (addDependent id) (acc.1.vertices, acc.2)
  let dependencies := if found.2 then dependencies ++ [id] else dependencies
  (⟨found.1, acc.1.accountIndex.insert account dependencies⟩, found.2)

/-- `add_transaction`. -/
def addTransaction (env : Env) (reading : Reading) (tx : Transaction) (outputs : Option Outputs)
    (self : PendingGraph) : PendingGraph × List Scheduled :=
  let id := env.hashString tx
  let vertex := Vertex.new tx outputs (reading.clock id)
  let self : PendingGraph := { self with vertices := self.vertices.insert id vertex }
  let added := (reading.order.iter vertex.accountsTouched).foldl (addToAccount id) (self, false)
  (added.1, if added.2 then [] else [(tx, outputs)])

/-- Remove the first occurrence of a hash from the queue of an account, if it has one. -/
def dequeue (hash : String) (accountIndex : HashMap Address (List String)) (account : Address) :
    HashMap Address (List String) :=
  match accountIndex.lookup account with
  | some transactions => accountIndex.insert account (transactions.erase hash)
  | none => accountIndex

/-- `handle_valid`, and the part of `handle_invalid` that is the same. -/
def handleValid (reading : Reading) (hash : String) (self : PendingGraph) :
    PendingGraph × List String :=
  match self.vertices.lookup hash with
  | none => (self, [])
  | some validatedVertex =>
    let vertices := self.vertices.erase hash
    let ready := (reading.order.iter vertices.entries).filterMap fun s =>
      if s.2.dependentTransactions.contains hash ∧ (s.2.dependentTransactions.erase hash).isEmpty
      then some s.1 else none
    (⟨HashMap.mapValues (fun v =>
        { v with dependentTransactions := v.dependentTransactions.erase hash }) vertices,
      (reading.order.iter validatedVertex.accountsTouched).foldl (dequeue hash)
        self.accountIndex⟩, ready)

/-- `get_transactions`. -/
def getTransactions (self : PendingGraph) (ids : List String) : List Scheduled :=
  ids.filterMap fun id => (self.vertices.lookup id).map fun v => (v.transaction, v.outputs)

/-- The filter of `clean_graph` over the dependents of a timed-out vertex : those that head
every queue they are in. The queues are edited along the way. -/
def readyDependents (reading : Reading) (hash : String) :
    List String → PendingGraph → PendingGraph × List String
  | [], self => (self, [])
  | dep :: deps, self =>
    match self.vertices.lookup dep with
    | none => readyDependents reading hash deps self
    | some vtx =>
      let accounts := reading.order.iter vtx.accountsTouched
      let accountIndex := accounts.foldl (dequeue hash) self.accountIndex
      let next := accounts.filterMap fun a => (accountIndex.lookup a).bind List.head?
      let rest := readyDependents reading hash deps { self with accountIndex := accountIndex }
      (rest.1, if next.all (· == dep) then dep :: rest.2 else rest.2)

/-- The body of the loop of `clean_graph`, for one vertex of the copy it walks. -/
def cleanVertex (reading : Reading) (s : Sigma fun _ : String => Vertex) (self : PendingGraph) :
    PendingGraph × List Scheduled :=
  if PENDING_TIMEOUT ≤ reading.clock s.1 - s.2.timestamp then
    let deps := match self.vertices.lookup s.1 with
      | some vtx => vtx.dependentTransactions
      | none => []
    let self : PendingGraph := { self with vertices := self.vertices.erase s.1 }
    let ready := readyDependents reading s.1 deps self
    (ready.1, ready.1.getTransactions ready.2)
  else (self, [])

/-- `clean_graph`, over the entries it has still to walk. -/
def cleanVertices (reading : Reading) :
    List (Sigma fun _ : String => Vertex) → PendingGraph → PendingGraph × List Scheduled
  | [], self => (self, [])
  | s :: rest, self =>
    let first := cleanVertex reading s self
    let others := cleanVertices reading rest first.1
    (others.1, first.2 ++ others.2)

/-- `clean_graph`. -/
def cleanGraph (reading : Reading) (self : PendingGraph) : PendingGraph × List Scheduled :=
  cleanVertices reading (reading.order.iter self.vertices.entries) self

end PendingGraph

/-! ## The graph of calls before execution -/

/-- `PreCallGraph`. -/
structure PreCallGraph where
  vertices : HashMap String PreCallVertex
  programIndex : HashMap Address (List String)

namespace PreCallGraph

/-- `PreCallGraph::new`. -/
def new : PreCallGraph := ⟨∅, ∅⟩

/-- Visit a dependency : as in the source, a hash is pushed only where it already is. -/
def visitDependency (id : String) (acc : HashMap String PreCallVertex × Bool)
    (dependencyId : String) : HashMap String PreCallVertex × Bool :=
  match acc.1.lookup dependencyId with
  | some depVertex =>
    let dependencies :=
      if depVertex.dependencies.contains id then depVertex.dependencies ++ [id]
      else depVertex.dependencies
    (acc.1.insert dependencyId { depVertex with dependencies := dependencies }, true)
  | none => acc

/-- `add_call`, and the call it sends to the executor. -/
def addCall (env : Env) (tx : Transaction) (self : PreCallGraph) :
    PreCallGraph × List Transaction :=
  let id := env.hashString tx
  let vertices := self.vertices.insert id (PreCallVertex.new tx)
  let dependencies := (self.programIndex.lookup tx.to).getD []
  let found := dependencies.foldl (visitDependency id) (vertices, false)
  (⟨found.1, self.programIndex.insert tx.to dependencies⟩, if found.2 then [] else [tx])

/-- `handle_completed_exec`, and the call it sends to the executor. -/
def handleCompletedExec (hash : String) (self : PreCallGraph) : PreCallGraph × List Transaction :=
  match self.vertices.lookup hash with
  | none => (self, [])
  | some vertex =>
    let self : PreCallGraph := { self with vertices := self.vertices.erase hash }
    match vertex.dependencies with
    | [] => (self, [])
    | next :: _ => (self, ((self.vertices.lookup next).map PreCallVertex.transaction).toList)

end PreCallGraph

/-! ## The actor -/

/-- The state of `PendingTransactionActor` : `DependencyGraphs`, and the bridge-ins seen. -/
structure PendingState where
  pending : PendingGraph
  preCall : PreCallGraph
  bridgeInTransactions : List Transaction

/-- The state the actor starts in. -/
def PendingState.new : PendingState := ⟨.new, .new, []⟩

/-- What handling a message leads to : the calls of `schedule_with_validator`, and the other
casts. -/
structure PendingStep where
  state : PendingState
  scheduled : List Scheduled
  others : List Msg

/-- The messages of a step. -/
def PendingStep.casts (step : PendingStep) : List Msg :=
  (step.scheduled.filterMap scheduleWithValidator).map Msg.validator ++ step.others

namespace PendingState

variable (env : Env)

/-- `Valid` and `ValidCall`. -/
def handleValid (reading : Reading) (hash : String) (state : PendingState) : PendingStep :=
  let valid := state.pending.handleValid reading hash
  ⟨{ state with pending := valid.1 }, valid.1.getTransactions valid.2, []⟩

/-- `PendingTransactionActor::handle`. -/
def handle (reading : Reading) (message : PendingTransactionMessage) (state : PendingState) :
    PendingStep :=
  match message with
  | .new tx outputs =>
    if tx.transactionType.isBridgeIn ∧ state.bridgeInTransactions.contains tx then ⟨state, [], []⟩
    else
      let seen :=
        if tx.transactionType.isBridgeIn then state.bridgeInTransactions ++ [tx]
        else state.bridgeInTransactions
      let added := state.pending.addTransaction env reading tx outputs
      ⟨{ state with pending := added.1, bridgeInTransactions := seen }, added.2, []⟩
  | .newCall tx =>
    let added := state.preCall.addCall env tx
    ⟨{ state with preCall := added.1 }, [], added.2.map fun tx => .executor (.exec tx)⟩
  | .execSuccess tx =>
    let done := state.preCall.handleCompletedExec (env.hashString tx)
    ⟨{ state with preCall := done.1 }, [], done.2.map fun tx => .executor (.exec tx)⟩
  | .valid tx => state.handleValid reading (env.hashString tx)
  | .validCall _ tx => state.handleValid reading (env.hashString tx)
  | .invalid tx e =>
    { state.handleValid reading (env.hashString tx) with
      others := [.scheduler (.sendTransactionFailure (env.hashString tx) e)] }
  | .cleanGraph =>
    let cleaned := state.pending.cleanGraph reading
    ⟨{ state with pending := cleaned.1 }, cleaned.2, []⟩

end PendingState

/-! ## Nothing ever waits -/

namespace PendingGraph

/-- Every queue is empty, and no vertex has dependents. -/
structure Idle (g : PendingGraph) : Prop where
  queues : ∀ a q, g.accountIndex.lookup a = some q → q = []
  dependents : ∀ id v, g.vertices.lookup id = some v → v.dependentTransactions = []

theorem idle_new : Idle .new := by
  constructor
  · intro a q h
    simp [new] at h
  · intro id v h
    simp [new] at h

variable {env : Env} {reading : Reading} {g : PendingGraph}

/-- An account whose queue is empty lets the transaction pass, and keeps an empty queue. -/
theorem Idle.addToAccount (hg : Idle g) (id : String) (account : Address) :
    (PendingGraph.addToAccount id (g, false) account).2 = false ∧
      Idle (PendingGraph.addToAccount id (g, false) account).1 := by
  have hempty : (g.accountIndex.lookup account).getD [] = [] := by
    cases hq : g.accountIndex.lookup account with
    | none => rfl
    | some q => exact hg.queues account q hq
  simp only [PendingGraph.addToAccount, hempty, List.foldl_nil]
  refine ⟨trivial, ⟨fun a q h => ?_, hg.dependents⟩⟩
  rcases HashMap.lookup_insert_cases h with rfl | h
  · rfl
  · exact hg.queues a q h

theorem Idle.foldl_addToAccount (id : String) :
    ∀ (accounts : List Address) {g : PendingGraph}, Idle g →
      (accounts.foldl (PendingGraph.addToAccount id) (g, false)).2 = false ∧
        Idle (accounts.foldl (PendingGraph.addToAccount id) (g, false)).1
  | [], _, hg => ⟨rfl, hg⟩
  | account :: accounts, g, hg => by
    obtain ⟨hflag, hidle⟩ := hg.addToAccount id account
    have hpair : PendingGraph.addToAccount id (g, false) account =
        ((PendingGraph.addToAccount id (g, false) account).1, false) :=
      Prod.ext rfl hflag
    rw [List.foldl_cons, hpair]
    exact foldl_addToAccount id accounts hidle

/-- In an idle graph a new transaction is scheduled at once. -/
theorem Idle.addTransaction (hg : Idle g) (tx : Transaction) (outputs : Option Outputs) :
    (g.addTransaction env reading tx outputs).2 = [(tx, outputs)] ∧
      Idle (g.addTransaction env reading tx outputs).1 := by
  have hvertex : Idle ⟨g.vertices.insert (env.hashString tx)
      (Vertex.new tx outputs (reading.clock (env.hashString tx))), g.accountIndex⟩ := by
    refine ⟨hg.queues, fun id v h => ?_⟩
    rcases HashMap.lookup_insert_cases h with rfl | h
    · rfl
    · exact hg.dependents id v h
  obtain ⟨hflag, hidle⟩ := foldl_addToAccount (env.hashString tx)
    (reading.order.iter (Vertex.extractAccountsTouched tx outputs)) hvertex
  refine ⟨if_neg ?_, hidle⟩
  rw [Bool.not_eq_true]
  exact hflag

theorem Idle.dequeue {hash : String} :
    ∀ (accounts : List Address) {index : HashMap Address (List String)},
      (∀ a q, index.lookup a = some q → q = []) →
      ∀ a q, (accounts.foldl (PendingGraph.dequeue hash) index).lookup a = some q → q = []
  | [], _, h => h
  | account :: accounts, index, h => by
    rw [List.foldl_cons]
    refine Idle.dequeue accounts fun a q hq => ?_
    unfold PendingGraph.dequeue at hq
    split at hq
    · next transactions ht =>
      rcases HashMap.lookup_insert_cases hq with rfl | hq
      · rw [h account transactions ht]
        rfl
      · exact h a q hq
    · exact h a q hq

/-- In an idle graph a resolved transaction frees nothing. -/
theorem Idle.handleValid (hg : Idle g) (hash : String) :
    (g.handleValid reading hash).2 = [] ∧ Idle (g.handleValid reading hash).1 := by
  unfold PendingGraph.handleValid
  split
  · exact ⟨rfl, hg⟩
  · next vertex hv =>
    have hdeps : ∀ id v, (g.vertices.erase hash).lookup id = some v →
        v.dependentTransactions = [] := fun id v h =>
      hg.dependents id v (HashMap.lookup_of_lookup_erase h)
    refine ⟨?_, ⟨Idle.dequeue _ hg.queues, fun id v h => ?_⟩⟩
    · refine List.filterMap_eq_nil_iff.2 fun s hs => ?_
      have hmem := (reading.order.perm _).mem_iff.1 hs
      simp [hdeps s.1 s.2 (AList.mem_lookup_iff.2 hmem)]
    · obtain ⟨v₀, hv₀, rfl⟩ := HashMap.lookup_mapValues h
      simp [hdeps id v₀ hv₀]

theorem Idle.cleanVertex (hg : Idle g) (reading : Reading) (s : Sigma fun _ : String => Vertex) :
    (g.cleanVertex reading s).2 = [] ∧ Idle (g.cleanVertex reading s).1 := by
  unfold PendingGraph.cleanVertex
  split_ifs
  · have hdeps : (match g.vertices.lookup s.1 with
        | some vtx => vtx.dependentTransactions
        | none => []) = [] := by
      cases hv : g.vertices.lookup s.1 with
      | none => rfl
      | some v => exact hg.dependents s.1 v hv
    rw [hdeps]
    exact ⟨rfl, hg.queues, fun id v h => hg.dependents id v (HashMap.lookup_of_lookup_erase h)⟩
  · exact ⟨rfl, hg⟩

theorem Idle.cleanVertices (reading : Reading) :
    ∀ (l : List (Sigma fun _ : String => Vertex)) {g : PendingGraph}, Idle g →
      (g.cleanVertices reading l).2 = [] ∧ Idle (g.cleanVertices reading l).1
  | [], _, hg => ⟨rfl, hg⟩
  | s :: l, g, hg => by
    obtain ⟨hfirst, hidle⟩ := hg.cleanVertex reading s
    obtain ⟨hrest, hidle'⟩ := Idle.cleanVertices reading l hidle
    refine ⟨?_, hidle'⟩
    simp only [PendingGraph.cleanVertices, hfirst, hrest, List.append_nil]

end PendingGraph

namespace PendingState

variable {env : Env} {reading : Reading} {state : PendingState}

/-- The transaction a message brings in, unless it is a bridge-in seen before. -/
def accepts (message : PendingTransactionMessage) (state : PendingState) : List Scheduled :=
  match message with
  | .new tx outputs =>
    if tx.transactionType.isBridgeIn ∧ state.bridgeInTransactions.contains tx then []
    else [(tx, outputs)]
  | _ => []

theorem mem_accepts {message : PendingTransactionMessage} {s : Scheduled} :
    s ∈ accepts message state ↔ message = .new s.1 s.2 ∧
      ¬(s.1.transactionType.isBridgeIn ∧ state.bridgeInTransactions.contains s.1) := by
  cases message with
  | new tx outputs =>
    simp only [accepts, PendingTransactionMessage.new.injEq]
    split_ifs with hskip
    · constructor
      · intro h
        cases h
      · rintro ⟨⟨rfl, -⟩, hnot⟩
        exact absurd hskip hnot
    · rw [List.mem_singleton]
      constructor
      · rintro rfl
        exact ⟨⟨rfl, rfl⟩, hskip⟩
      · rintro ⟨⟨rfl, rfl⟩, -⟩
        rfl
  | _ => simp [accepts]

theorem handleValid_scheduled (h : state.pending.Idle) (hash : String) :
    (state.handleValid reading hash).scheduled = [] := by
  unfold PendingState.handleValid
  simp only [(h.handleValid hash).1, PendingGraph.getTransactions, List.filterMap_nil]

/-- An idle graph stays idle. -/
theorem idle_handle (h : state.pending.Idle) (message : PendingTransactionMessage) :
    (state.handle env reading message).state.pending.Idle := by
  cases message with
  | new tx outputs =>
    simp only [handle]
    split_ifs
    · exact h
    all_goals exact (h.addTransaction tx outputs).2
  | newCall tx => exact h
  | execSuccess tx => exact h
  | valid tx => exact (h.handleValid _).2
  | validCall outputs tx => exact (h.handleValid _).2
  | invalid tx e => exact (h.handleValid _).2
  | cleanGraph => exact (PendingGraph.Idle.cleanVertices _ _ h).2

/-- An idle graph schedules what it accepts, at once, and nothing else. -/
theorem scheduled_handle (h : state.pending.Idle) (message : PendingTransactionMessage) :
    (state.handle env reading message).scheduled = accepts message state := by
  cases message with
  | new tx outputs =>
    simp only [handle, accepts]
    split_ifs
    · rfl
    all_goals exact (h.addTransaction tx outputs).1
  | newCall tx => rfl
  | execSuccess tx => rfl
  | valid tx => exact handleValid_scheduled h _
  | validCall outputs tx => exact handleValid_scheduled h _
  | invalid tx e => exact handleValid_scheduled h _
  | cleanGraph => exact (PendingGraph.Idle.cleanVertices _ _ h).1

end PendingState

end Lasr
