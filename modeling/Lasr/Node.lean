import Lasr.ActorSystem
import Lasr.PendingGraph
import Lasr.Requests
import Lasr.Validator

/-!
# The node

The scheduler, the engine, the executor, the pending-transaction actor, the validator and
the batcher as one `ActorSystem`, over the account cache. A run starts from any cache, with
nothing in flight, and takes messages from outside : RPC requests, chain events, and in the
study of the graph also `New` messages of the caller's own.

Two fields of `World` record the run and are read by no actor. `journal` has every write of
a batcher future to the account cache, with the transaction it works for; `ledger` has the
transactions whose futures returned `Ok`, in that order.

A future that panics stays in its pool for ever.
-/

set_option linter.unusedSectionVars false

namespace Lasr

/-- What the handling of a message takes from outside. -/
structure Oracle where
  reading : Reading
  services : Services

/-- Whose future it is. The validator's and the batcher's name what they work on, and the
batcher's the order its maps are walked in. -/
inductive Job where
  | engine
  | executor
  | container
  | validator (m : Append)
  | batcher (order : HashOrder) (m : Append)

/-- The state of the actors, the account cache and the record of the run. -/
structure World where
  cache : AccountStore
  scheduler : SchedulerState
  pending : PendingState
  handles : HashMap (String × String) (Except String String)
  journal : List (Append × Account)
  ledger : List (HashOrder × Append)

/-- What a step of the node leads to. -/
abbrev NodeReaction := Reaction effects (Fault BatcherError) Msg Job World

/-- A state of the node. -/
abbrev NodeConfig := ActorSystem.Config effects (Fault BatcherError) Msg Job World

/-- A choice in a run of the node. -/
abbrev NodeChoice := ActorSystem.Choice ActorType Msg Oracle

/-- A future of the engine, the executor or the validator, in its pool. -/
def pooled (job : Job) (p : Async (Fault String) Unit) : Future effects (Fault BatcherError) Job :=
  ⟨job, p.mapErr (Fault.map BatcherError.custom)⟩

/-- The transaction a validator message is about, as the batcher would get it. -/
def ValidatorMessage.append : ValidatorMessage → Append
  | .pendingTransaction tx => ⟨tx, none⟩
  | .pendingCall outputs tx => ⟨tx, outputs⟩
  | .pendingRegistration tx => ⟨tx, none⟩

/-- What a future of the batcher works on. -/
def Job.appending : Job → Option Append
  | .batcher _ m => some m
  | _ => none

/-- The journal entry of a write. -/
def Job.entry (job : Job) (account : Account) : List (Append × Account) :=
  match job with
  | .batcher _ m => [(m, account)]
  | _ => []

namespace World

/-- Nothing but the account cache. -/
def start (cache : AccountStore) : World :=
  ⟨cache, .new, .new, ∅, [], []⟩

variable (env : Env) (storage : AccountStore)

/-- The batcher's future for a transaction, with the maps walked in `order`. -/
def batcherFutures (order : HashOrder) (m : Append) :
    List (Future effects (Fault BatcherError) Job) :=
  match appendTransaction { env with order := order } m.transaction m.outputs with
  | some p => [⟨.batcher order m, p⟩]
  | none => []

/-- The validator's future for a message. -/
def validatorFutures (m : ValidatorMessage) : List (Future effects (Fault BatcherError) Job) :=
  match validatorFuture env m with
  | some p => [pooled (.validator m.append) p]
  | none => []

/-- The handling of a message. -/
def handle (o : Oracle) (m : Msg) (w : World) : NodeReaction :=
  match m with
  | .scheduler m =>
    let r := w.scheduler.handle env m
    ⟨{ w with scheduler := r.1 }, r.2, []⟩
  | .engine m => ⟨w, [], [pooled .engine (Engine.future env m)]⟩
  | .executor m => ⟨w, [], [pooled .executor (Executor.future env o.services m)]⟩
  | .pending m =>
    let step := w.pending.handle env o.reading m
    ⟨{ w with pending := step.state }, step.casts, []⟩
  | .validator m => ⟨w, [], validatorFutures env m⟩
  | .batcher (.appendTransaction tx outputs) =>
    ⟨w, [], batcherFutures env o.reading.order ⟨tx, outputs⟩⟩

/-- The thread of a container, which tells the executor of its results. -/
def containerFutures (key : String × String) (thread : ContainerRun) (tx : Transaction)
    (contentId : String) : List (Future effects (Fault BatcherError) Job) :=
  if thread.reports then
    [⟨.container, cast (.executor (.results (some tx) contentId key.1 (some key.2)))⟩]
  else []

/-- An operation of a future. -/
def perform (job : Job) (o : Op) (w : World) : effects.Resp o × NodeReaction :=
  match o with
  | .getAccount a => ((w.cache a).or (storage a), ⟨w, [], []⟩)
  | .cacheAccount account =>
    ((), ⟨{ w with
      cache := handleCacheWrite w.cache account
      journal := w.journal ++ job.entry account }, [], []⟩)
  | .insertAccount _ => ((), ⟨w, [], []⟩)
  | .insertTransaction _ => ((), ⟨w, [], []⟩)
  | .cast m => ((), ⟨w, [m], []⟩)
  | .runContainer key thread tx contentId =>
    ((), ⟨{ w with handles := w.handles.insert key thread.outcome }, [],
      containerFutures key thread tx contentId⟩)
  | .takeHandle key => (w.handles.lookup key, ⟨{ w with handles := w.handles.erase key }, [], []⟩)

/-- What a pool does with the result of a future : the batcher's reports a failed
transaction to the pending graph, the others log an error. -/
def finish (job : Job) (x : Except (Fault BatcherError) Unit) (w : World) :
    Option NodeReaction :=
  match job, x with
  | .batcher order m, .ok () => some ⟨{ w with ledger := w.ledger ++ [(order, m)] }, [], []⟩
  | .batcher _ _, .error (.err (.failedTransaction msg txn)) =>
    some ⟨w, [.pending (.invalid txn msg)], []⟩
  | _, .error .panic => none
  | _, _ => some ⟨w, [], []⟩

/-- What becomes of a future that ended : it succeeded for the batcher, its failure is
reported, or nothing happens. -/
theorem finish_cases {job : Job} {x : Except (Fault BatcherError) Unit} {w : World}
    {r : NodeReaction} (h : finish job x w = some r) :
    (∃ order m, job = .batcher order m ∧ x = .ok () ∧
        r = ⟨{ w with ledger := w.ledger ++ [(order, m)] }, [], []⟩) ∨
      (∃ order m msg txn, job = .batcher order m ∧
        x = .error (.err (.failedTransaction msg txn)) ∧
        r = ⟨w, [.pending (.invalid txn msg)], []⟩) ∨
      (∀ order m, job = .batcher order m → ∃ e, x = .error e) ∧ r = ⟨w, [], []⟩ := by
  unfold finish at h
  split at h
  · next order m =>
    cases h
    exact Or.inl ⟨order, m, rfl, rfl, rfl⟩
  · next order m msg txn =>
    cases h
    exact Or.inr (Or.inl ⟨order, m, msg, txn, rfl, rfl, rfl⟩)
  · cases h
  · next hok _ =>
    cases h
    refine Or.inr (Or.inr ⟨?_, rfl⟩)
    rintro order m rfl
    cases x with
    | error e => exact ⟨e, rfl⟩
    | ok u => exact (hok order m rfl rfl).elim

end World

/-- The node. -/
def node (env : Env) (storage : AccountStore) :
    ActorSystem effects (Fault BatcherError) ActorType Msg Job Oracle World where
  dest := Msg.dest
  handle := World.handle env
  perform := World.perform storage
  finish := World.finish

/-- The node at rest. -/
def NodeConfig.start (cache : AccountStore) : NodeConfig := ⟨.start cache, [], []⟩

/-- What comes in from outside : RPC requests, chain events, and the timer of the graph. -/
def Msg.External : Msg → Prop
  | .scheduler (.call _ _) => True
  | .scheduler (.send _ _) => True
  | .scheduler (.registerProgram _ _) => True
  | .engine (.eoEvent _) => True
  | .pending .cleanGraph => True
  | _ => False

/-- The messages a run takes from outside. -/
def injected (chs : List NodeChoice) : List Msg :=
  chs.filterMap fun
    | .inject m => some m
    | _ => none

theorem mem_injected {m : Msg} {chs : List NodeChoice} : m ∈ injected chs ↔ .inject m ∈ chs := by
  simp only [injected, List.mem_filterMap]
  constructor
  · rintro ⟨ch, hch, h⟩
    split at h
    · cases h
      exact hch
    · cases h
  · intro h
    exact ⟨_, h, rfl⟩

/-- Everything works, and the maps are walked in the order of insertion. -/
def Oracle.plain : Oracle where
  reading := .start
  services := ⟨.ok (), .ok (), .ok (), ⟨true, .ok ""⟩⟩

/-- Poll the first future `n` times. -/
def polls (n : ℕ) : List NodeChoice :=
  List.replicate n (.poll 0)

end Lasr
