import Lasr.Budget
import Lasr.Calls
import Lasr.Causality
import Lasr.PreCall

/-!
# From a request to what is applied

What the batcher applies for a call was printed by a container that the node started for a
request : the outcome of a container is kept under the program and the hash of its transaction,
the executor finds it there, the engine reads it, and the pending graph, the validator and the
batcher hand on what the engine read (`applied_produced`). The container may have been started
for another request, but one for the same program with the same hash.

A request is handed on from actor to actor, and no actor keeps it to hand it on again. So no
transaction is applied more often than it came in (`applied_le_asked`).
-/

set_option linter.unusedSectionVars false

namespace Lasr

open ActorSystem

/-! ## Where outputs come from -/

/-- What the container of a call is kept under. -/
def executionKey (env : Env) (tx : Transaction) : String × String :=
  (Address.toFullString tx.programId, env.hashString tx)

section Produced

variable (env : Env) (S : Op → Prop) (Q : Transaction → Prop)

/-- A container that was started by an operation of `S`, for a call of `Q` under the key, ended
so. -/
def Ran (key : String × String) (x : Except String String) : Prop :=
  ∃ tx thread contentId, Q tx ∧ executionKey env tx = key ∧
    S (.runContainer key thread tx contentId) ∧ thread.outcome = x

/-- A container for the call, or for one with the same key, printed the outputs. -/
def Produced (tx : Transaction) (outputs : Outputs) : Prop :=
  Q tx ∧ ∃ text, Ran env S Q (executionKey env tx) (.ok text) ∧
    env.parseOutputs text = .ok outputs

/-- What is known of a call at each stage. -/
def Msg.Grounded : Msg → Prop
  | .scheduler (.call tx _) => Q tx
  | .engine (.call tx) => Q tx
  | .engine (.callSuccess tx _ text) => Q tx ∧ Ran env S Q (executionKey env tx) (.ok text)
  | .executor (.set tx) => Q tx
  | .executor (.exec tx) => Q tx
  | .executor (.results (some tx) _ programId hash) =>
    Q tx ∧ ∀ h, hash = some h → (programId, h) = executionKey env tx
  | .pending (.newCall tx) => Q tx
  | .pending (.new tx (some outputs)) => Produced env S Q tx outputs
  | .validator (.pendingCall (some outputs) tx) => Produced env S Q tx outputs
  | .batcher (.appendTransaction tx (some outputs)) => Produced env S Q tx outputs
  | _ => True

/-- An operation that casts such a message, or starts a container for a call of `Q`. -/
def Op.Grounded : Op → Prop
  | .cast m => m.Grounded env S Q
  | .runContainer key _ tx _ => Q tx ∧ key = executionKey env tx
  | _ => True

/-- A handle that is found is that of a container that ran. -/
def Op.Answered : (o : Op) → effects.Resp o → Prop
  | .takeHandle key, r => ∀ x, r = some x → Ran env S Q key x
  | _, _ => True

/-- What is known of a future, and of what the batcher works on. -/
structure FutureGrounded (f : Future effects (Fault BatcherError) Job) : Prop where
  prog : f.prog.Assuming (Op.Answered env S Q) (Op.Grounded env S Q)
  worked : ∀ order m, f.label = .batcher order m →
    Msg.Grounded env S Q (.batcher (.appendTransaction m.transaction m.outputs))

/-- What is known of the graphs, the handles and the transactions that were applied. -/
structure World.Grounded (w : World) : Prop where
  idle : w.pending.pending.Idle
  calls : w.pending.preCall.Holds Q
  handles : ∀ key x, w.handles.lookup key = some x → Ran env S Q key x
  ledger : ∀ e ∈ w.ledger,
    Msg.Grounded env S Q (.batcher (.appendTransaction e.2.transaction e.2.outputs))

variable {env S Q}

theorem Msg.IsReport.grounded {m : Msg} (h : m.IsReport) : m.Grounded env S Q := by
  cases m with
  | scheduler m =>
    cases m with
    | call tx port => exact h.elim
    | _ => trivial
  | pending m =>
    cases m with
    | new tx outputs => exact h.elim
    | newCall tx => exact h.elim
    | _ => trivial
  | _ => exact h.elim

/-- The messages whose handling makes something of a container. -/
def Msg.Executes : Msg → Prop
  | .engine (.callSuccess _ _ _) => True
  | .executor (.exec _) => True
  | .executor (.results _ _ _ _) => True
  | _ => False

/-- All others pass on what is known. -/
theorem Causes.grounded {m m' : Msg} (hm : m.Grounded env S Q) (hne : ¬m.Executes)
    (h : Causes env m m') : m'.Grounded env S Q := by
  cases h with
  | report h => exact h.grounded
  | call => exact hm
  | set => exact hm
  | newCall => exact hm
  | exec => exact hm
  | @schedule tx outputs m h =>
    cases outputs with
    | none =>
      cases m with
      | pendingCall outputs t =>
        cases outputs with
        | none => trivial
        | some o =>
          simp only [scheduleWithValidator] at h
          split at h <;> cases h
      | _ => trivial
    | some o =>
      cases m with
      | pendingCall outputs t =>
        simp only [scheduleWithValidator] at h
        split at h <;> cases h
        exact hm
      | _ => trivial
  | @append m h =>
    cases m with
    | pendingCall outputs tx =>
      cases outputs with
      | none => trivial
      | some o => exact hm
    | _ => trivial
  | newResult => exact absurd trivial hne
  | results => exact absurd trivial hne
  | execSuccess => exact absurd trivial hne
  | callSuccess => exact absurd trivial hne
  | _ => trivial

/-! ### The futures -/

theorem Op.Serving.grounded {P : Msg → Prop} {o : Op} (h : o.Serving P)
    (hP : ∀ m, P m → m.Grounded env S Q)
    (hresults : ∀ tx contentId programId hash,
      ¬P (.executor (.results (some tx) contentId programId hash))) : o.Grounded env S Q := by
  cases o with
  | cast m => exact hP m (h.sending m rfl)
  | runContainer key thread tx contentId =>
    exact absurd (h.sending _ rfl) (hresults tx contentId key.1 (some key.2))
  | _ => trivial

/-- The pool of the engine, the executor or the validator. -/
theorem grounded_pooled {job : Job} {p : Async (Fault String) Unit}
    (hjob : ∀ order m, job ≠ .batcher order m)
    (hp : p.Assuming (Op.Answered env S Q) (Op.Grounded env S Q)) :
    FutureGrounded env S Q (pooled job p) :=
  ⟨hp.mapErr, fun order m h => absurd h (hjob order m)⟩

/-- The future of a message that makes nothing of a container. -/
theorem grounded_of_causes {m : Msg} {p : Async (Fault String) Unit} (hm : m.Grounded env S Q)
    (hne : ¬m.Executes) (hp : p.Meets (Op.Serving (Causes env m)) fun _ => True) :
    p.Assuming (Op.Answered env S Q) (Op.Grounded env S Q) := by
  refine hp.assuming fun o ho => ho.grounded (fun m' h => h.grounded hm hne) ?_
  intro tx contentId programId hash h
  cases h with
  | report h => exact h
  | results => exact hne trivial

theorem assuming_cast_bind {ε β : Type} {m : Msg} {f : Unit → Async ε β}
    (h : m.Grounded env S Q)
    (hf : (f ()).Assuming (Op.Answered env S Q) (Op.Grounded env S Q)) :
    (cast m >>= f).Assuming (Op.Answered env S Q) (Op.Grounded env S Q) :=
  ⟨h, fun _ _ => hf⟩

theorem assuming_read_bind {ε β : Type} {a : Address} {f : Option Account → Async ε β}
    (hf : ∀ r, (f r).Assuming (Op.Answered env S Q) (Op.Grounded env S Q)) :
    (getAccount a >>= f).Assuming (Op.Answered env S Q) (Op.Grounded env S Q) :=
  ⟨trivial, fun _ _ => hf _⟩

theorem assuming_cast {ε : Type} {m : Msg} (h : m.Grounded env S Q) :
    (cast m : Async ε Unit).Assuming (Op.Answered env S Q) (Op.Grounded env S Q) :=
  ⟨h, fun _ _ => trivial⟩

/-- The engine hands on the outputs it reads. -/
theorem callSuccess_grounded {tx : Transaction} {hash text : String}
    (h : Msg.Grounded env S Q (.engine (.callSuccess tx hash text))) :
    (Engine.handleCallSuccess env tx hash text).Assuming (Op.Answered env S Q)
      (Op.Grounded env S Q) := by
  obtain ⟨htx, hran⟩ := h
  unfold Engine.handleCallSuccess
  split
  · next parsed hparsed => exact assuming_cast ⟨htx, text, hran, hparsed⟩
  · exact assuming_cast_bind trivial (assuming_cast trivial)

/-- The executor keeps the container of a call under its key. -/
theorem exec_grounded {services : Services} {tx : Transaction} (htx : Q tx) :
    (Executor.exec env services tx).Assuming (Op.Answered env S Q) (Op.Grounded env S Q) := by
  refine assuming_read_bind fun r => ?_
  split
  · refine assuming_read_bind fun r => ?_
    split
    · exact ⟨⟨htx, rfl⟩, fun _ _ => trivial⟩
    · exact assuming_cast trivial
  · exact assuming_cast trivial

/-- What the executor finds under the key of a call goes to the engine, for this call. -/
theorem results_grounded {tx : Option Transaction} {contentId programId : String}
    {hash : Option String}
    (h : Msg.Grounded env S Q (.executor (.results tx contentId programId hash))) :
    (Executor.results env tx programId hash).Assuming (Op.Answered env S Q)
      (Op.Grounded env S Q) := by
  unfold Executor.results
  split
  · trivial
  next hash =>
  refine ⟨trivial, fun r hr => ?_⟩
  cases r with
  | none => trivial
  | some x =>
    cases x with
    | error e => exact assuming_cast trivial
    | ok output =>
      cases tx with
      | none => trivial
      | some tx =>
        obtain ⟨htx, hkey⟩ := h
        have hran := hr _ rfl
        rw [hkey hash rfl] at hran
        exact assuming_cast_bind trivial (assuming_cast ⟨htx, hran⟩)

theorem engine_grounded {m : EngineMessage} (hm : Msg.Grounded env S Q (.engine m)) :
    (Engine.future env m).Assuming (Op.Answered env S Q) (Op.Grounded env S Q) := by
  cases m with
  | callSuccess tx hash text => exact callSuccess_grounded hm
  | _ => exact grounded_of_causes hm not_false (engine_causes _)

theorem executor_grounded {services : Services} {m : ExecutorMessage}
    (hm : Msg.Grounded env S Q (.executor m)) :
    (Executor.future env services m).Assuming (Op.Answered env S Q) (Op.Grounded env S Q) := by
  cases m with
  | exec tx => exact exec_grounded hm
  | results tx contentId programId hash => exact results_grounded hm
  | _ => exact grounded_of_causes hm not_false (executor_causes services _)

/-! ### Runs -/

variable {storage cache : AccountStore} {w : World}

theorem handle_grounded (o : Oracle) {m : Msg} (hw : w.Grounded env S Q)
    (hm : m.Grounded env S Q) :
    Reaction.Good (World.Grounded env S Q) (Msg.Grounded env S Q) (FutureGrounded env S Q)
      (World.handle env o m w) := by
  cases m with
  | scheduler m =>
    refine ⟨⟨hw.idle, hw.calls, hw.handles, hw.ledger⟩, fun m' hm' => ?_,
      fun _ h => absurd h List.not_mem_nil⟩
    cases m with
    | call tx port => exact List.mem_singleton.1 hm' ▸ hm
    | send tx port => exact List.mem_singleton.1 hm' ▸ trivial
    | registerProgram tx port => exact List.mem_singleton.1 hm' ▸ trivial
    | _ => cases hm'
  | engine m =>
    refine ⟨hw, (fun _ h => absurd h List.not_mem_nil), fun f hf => ?_⟩
    rw [List.mem_singleton.1 hf]
    exact grounded_pooled (by rintro _ _ ⟨⟩) (engine_grounded hm)
  | executor m =>
    refine ⟨hw, (fun _ h => absurd h List.not_mem_nil), fun f hf => ?_⟩
    rw [List.mem_singleton.1 hf]
    exact grounded_pooled (by rintro _ _ ⟨⟩) (executor_grounded hm)
  | pending m =>
    have hnew : ∀ tx, m = .newCall tx → Q tx := by
      rintro tx rfl
      exact hm
    obtain ⟨hcalls, hcasts⟩ := pending_casts env o.reading hw.idle hw.calls hnew
    refine ⟨⟨PendingState.idle_handle hw.idle m, hcalls, hw.handles, hw.ledger⟩,
      fun m' hm' => ?_, fun _ h => absurd h List.not_mem_nil⟩
    rcases hcasts m' hm' with hcause | ⟨tx, htx, rfl⟩
    · exact hcause.grounded hm not_false
    · exact htx
  | validator m =>
    refine ⟨hw, (fun _ h => absurd h List.not_mem_nil), fun f hf => ?_⟩
    simp only [World.handle, World.validatorFutures] at hf
    split at hf
    · next p hp =>
      rw [List.mem_singleton.1 hf]
      exact grounded_pooled (by rintro _ _ ⟨⟩)
        (grounded_of_causes hm not_false (validator_causes hp))
    · cases hf
  | batcher m =>
    obtain ⟨tx, outputs⟩ := m
    refine ⟨hw, (fun _ h => absurd h List.not_mem_nil), fun f hf => ?_⟩
    simp only [World.handle, World.batcherFutures] at hf
    split at hf
    · next p hp =>
      rw [List.mem_singleton.1 hf]
      refine ⟨(batcher_reports hp).assuming fun op hop => ?_, ?_⟩
      · cases op with
        | cast m' => exact (hop m' rfl).grounded
        | runContainer key thread t contentId => exact (hop _ rfl).elim
        | _ => trivial
      · rintro order m ⟨⟩
        exact hm
    · cases hf

theorem perform_grounded {job : Job} {o : Op}
    {k : effects.Resp o → Prog effects (Fault BatcherError) Unit} (ho : S o)
    (hw : w.Grounded env S Q) (hf : FutureGrounded env S Q ⟨job, .op o k⟩) :
    Reaction.Good (World.Grounded env S Q) (Msg.Grounded env S Q) (FutureGrounded env S Q)
        (World.perform storage job o w).2 ∧
      FutureGrounded env S Q ⟨job, k (World.perform storage job o w).1⟩ := by
  obtain ⟨⟨hop, hk⟩, hworked⟩ := hf
  have hsame : Reaction.Good (World.Grounded env S Q) (Msg.Grounded env S Q)
      (FutureGrounded env S Q) ⟨w, [], []⟩ :=
    ⟨hw, (fun _ h => absurd h List.not_mem_nil), fun _ h => absurd h List.not_mem_nil⟩
  cases o with
  | cacheAccount account =>
    exact ⟨⟨⟨hw.idle, hw.calls, hw.handles, hw.ledger⟩, (fun _ h => absurd h List.not_mem_nil),
      fun _ h => absurd h List.not_mem_nil⟩, hk _ trivial, hworked⟩
  | cast m =>
    refine ⟨⟨hw, fun m' hm' => ?_, fun _ h => absurd h List.not_mem_nil⟩, hk _ trivial, hworked⟩
    rw [List.mem_singleton.1 hm']
    exact hop
  | runContainer key thread tx contentId =>
    obtain ⟨htx, hkey⟩ := hop
    refine ⟨⟨⟨hw.idle, hw.calls, fun key' x h => ?_, hw.ledger⟩,
      (fun _ h => absurd h List.not_mem_nil),
      fun f hf => ?_⟩, hk _ trivial, hworked⟩
    · by_cases hk : key' = key
      · subst hk
        change (w.handles.insert key' thread.outcome).lookup key' = some x at h
        rw [AList.lookup_insert] at h
        exact ⟨tx, thread, contentId, htx, hkey.symm, ho, Option.some.inj h⟩
      · change (w.handles.insert key thread.outcome).lookup key' = some x at h
        rw [AList.lookup_insert_ne hk] at h
        exact hw.handles key' x h
    · simp only [World.perform, World.containerFutures] at hf
      split at hf
      · rw [List.mem_singleton.1 hf]
        refine ⟨assuming_cast ⟨htx, ?_⟩, by rintro _ _ ⟨⟩⟩
        rintro h ⟨⟩
        exact hkey
      · cases hf
  | takeHandle key =>
    refine ⟨⟨⟨hw.idle, hw.calls, fun key' x h => hw.handles key' x ?_, hw.ledger⟩,
      (fun _ h => absurd h List.not_mem_nil), fun _ h => absurd h List.not_mem_nil⟩,
      hk _ fun x hx => hw.handles key x hx,
      hworked⟩
    exact HashMap.lookup_of_lookup_erase h
  | _ => exact ⟨hsame, hk _ trivial, hworked⟩

theorem finish_grounded {job : Job} {x : Except (Fault BatcherError) Unit}
    (hw : w.Grounded env S Q) (hf : FutureGrounded env S Q ⟨job, .ofExcept x⟩) {r : NodeReaction}
    (h : World.finish job x w = some r) :
    Reaction.Good (World.Grounded env S Q) (Msg.Grounded env S Q) (FutureGrounded env S Q) r := by
  obtain ⟨order, m, rfl, -, rfl⟩ | ⟨order, m, msg, txn, -, -, rfl⟩ | ⟨-, rfl⟩ :=
    World.finish_cases h
  · refine ⟨⟨hw.idle, hw.calls, hw.handles, fun e he => ?_⟩, (fun _ h => absurd h List.not_mem_nil),
      fun _ h => absurd h List.not_mem_nil⟩
    rcases List.mem_append.1 he with he | he
    · exact hw.ledger e he
    · rw [List.mem_singleton.1 he]
      exact hf.worked order m rfl
  · refine ⟨hw, fun m' hm' => ?_, fun _ h => absurd h List.not_mem_nil⟩
    rw [List.mem_singleton.1 hm']
    trivial
  · exact ⟨hw, (fun _ h => absurd h List.not_mem_nil), fun _ h => absurd h List.not_mem_nil⟩

theorem grounded_keeps : (node env storage).KeepsWhen S (World.Grounded env S Q)
    (Msg.Grounded env S Q) (FutureGrounded env S Q) where
  handle o _ _ hw hm := handle_grounded o hw hm
  perform _ _ _ _ ho hw hf := perform_grounded ho hw hf
  finish _ _ _ _ hw hf h := finish_grounded hw hf h

theorem grounded_start : (NodeConfig.start cache).All (World.Grounded env S Q)
    (Msg.Grounded env S Q) (FutureGrounded env S Q) := by
  refine ⟨⟨PendingGraph.idle_new, fun id v h => ?_, fun key x h => ?_,
      fun _ h => absurd h List.not_mem_nil⟩,
    (fun _ h => absurd h List.not_mem_nil), fun _ h => absurd h List.not_mem_nil⟩
  · simp [NodeConfig.start, World.start, PendingState.new, PreCallGraph.new] at h
  · simp [NodeConfig.start, World.start] at h

end Produced

section Runs

variable {env : Env} {storage cache : AccountStore} {chs : List NodeChoice} {c : NodeConfig}

/-- The run performs the operation. -/
def Performed (env : Env) (storage cache : AccountStore) (chs : List NodeChoice) (o : Op) : Prop :=
  (node env storage).Sometime (Performs o) (NodeConfig.start cache) chs

/-- The run was asked for the call. -/
def CallAsked (chs : List NodeChoice) (tx : Transaction) : Prop :=
  ∃ port, .scheduler (.call tx port) ∈ injected chs

theorem Msg.External.grounded {S : Op → Prop} {m : Msg} (hext : m.External)
    (hm : m ∈ injected chs) : m.Grounded env S (CallAsked chs) := by
  cases m with
  | scheduler m =>
    cases m with
    | call tx port => exact ⟨port, hm⟩
    | _ => trivial
  | engine m =>
    cases m with
    | eoEvent event => trivial
    | _ => exact hext.elim
  | pending m =>
    cases m with
    | cleanGraph => trivial
    | _ => exact hext.elim
  | _ => exact hext.elim

end Runs

/-- A request `call` for a program whose container prints nothing, followed to its end. -/
def calledOnce : List NodeChoice :=
  [.inject (.scheduler (.call (callOf 7#160 9#160 1#256) 0)),
    .deliver .scheduler .plain, .deliver .engine .plain] ++ polls 2 ++
  [.deliver .executor .plain] ++ polls 5 ++
  [.deliver .pendingTransactions .plain, .deliver .executor .plain] ++ polls 6 ++
  [.deliver .executor .plain] ++ polls 4 ++
  [.deliver .engine .plain] ++ polls 2 ++
  [.deliver .pendingTransactions .plain, .deliver .pendingTransactions .plain,
    .deliver .validator .plain] ++ polls 4 ++
  [.deliver .batcher .plain] ++ polls 8

/-- The transactions that a message brings, to be applied. -/
def Msg.brings : Msg → List Transaction
  | .scheduler (.call tx _) => [tx]
  | .scheduler (.send tx _) => [tx]
  | .scheduler (.registerProgram tx _) => [tx]
  | .engine (.call tx) => [tx]
  | .engine (.send tx) => [tx]
  | .engine (.registerProgram tx) => [tx]
  | .engine (.callSuccess tx _ _) => [tx]
  | .engine (.eoEvent (.bridge log)) => log.map Engine.bridgeTransaction
  | .executor (.create tx _) => [tx]
  | .executor (.set tx) => [tx]
  | .executor (.exec tx) => [tx]
  | .executor (.results tx _ _ _) => tx.toList
  | .pending (.new tx _) => [tx]
  | .pending (.newCall tx) => [tx]
  | .validator m => [m.append.transaction]
  | .batcher (.appendTransaction tx _) => [tx]
  | _ => []

section Asked

variable (tx : Transaction)

/-- How often a message brings `tx`. -/
def Msg.weighs (m : Msg) : ℕ∞ := (m.brings.count tx : ℕ)

/-- How often an operation puts it in flight. -/
def Op.weighs : Op → ℕ∞
  | .cast m => m.weighs tx
  | .runContainer _ _ t _ => ([t].count tx : ℕ)
  | _ => 0

/-- How often a future may : what it puts in flight, and what it works on. -/
noncomputable def futureWeighs (f : Future effects (Fault BatcherError) Job) : ℕ∞ :=
  (match f.label with
    | .batcher _ m => (([m.transaction].count tx : ℕ) : ℕ∞)
    | _ => 0) + f.prog.uses (Op.weighs tx)

/-- How often it was applied. -/
def World.weighs (w : World) : ℕ∞ := ((w.ledger.map fun e => e.2.transaction).count tx : ℕ)

/-- No call and no transaction waits in a graph. -/
structure World.Prompt (w : World) : Prop where
  pending : w.pending.pending.Idle
  preCall : w.pending.preCall.Idle

variable {tx} {env : Env}

theorem Msg.IsReport.weighs {m : Msg} (h : m.IsReport) : m.weighs tx = 0 := by
  cases m with
  | scheduler m =>
    cases m with
    | call t port => exact h.elim
    | send t port => exact h.elim
    | registerProgram t port => exact h.elim
    | _ => rfl
  | pending m =>
    cases m with
    | new t outputs => exact h.elim
    | newCall t => exact h.elim
    | _ => rfl
  | _ => exact h.elim

section Futures

variable {ε β : Type} {n : ℕ∞}

theorem uses_cast_le {m : Msg} (h : m.weighs tx ≤ n) :
    (cast m : Async ε Unit).uses (Op.weighs tx) ≤ n :=
  Prog.uses_op_le (fun _ => by simpa [Op.weighs] using h) h

theorem uses_cast_bind_le {m : Msg} {f : Unit → Async ε β}
    (h : m.weighs tx + (f ()).uses (Op.weighs tx) ≤ n) :
    (cast m >>= f).uses (Op.weighs tx) ≤ n :=
  Prog.uses_op_le (fun _ => h) (le_self_add.trans h)

theorem uses_report_le {m : Msg} (h : m.IsReport) :
    (cast m : Async ε Unit).uses (Op.weighs tx) ≤ n :=
  uses_cast_le (h.weighs.trans_le zero_le)

theorem uses_report_bind_le {m : Msg} {f : Unit → Async ε β} (hm : m.IsReport)
    (h : (f ()).uses (Op.weighs tx) ≤ n) : (cast m >>= f).uses (Op.weighs tx) ≤ n := by
  refine uses_cast_bind_le ?_
  rw [hm.weighs, zero_add]
  exact h

theorem uses_read_bind_le {a : Address} {f : Option Account → Async ε β}
    (h : ∀ r, (f r).uses (Op.weighs tx) ≤ n) : (getAccount a >>= f).uses (Op.weighs tx) ≤ n :=
  Prog.uses_op_le (fun r => (zero_add _).trans_le (h (Slot.account r))) zero_le

theorem uses_takeHandle_bind_le {key : String × String}
    {f : Option (Except String String) → Async ε β} (h : ∀ r, (f r).uses (Op.weighs tx) ≤ n) :
    (takeHandle key >>= f).uses (Op.weighs tx) ≤ n :=
  Prog.uses_op_le (fun r => (zero_add _).trans_le (h r)) zero_le

theorem engine_uses (m : EngineMessage) :
    (Engine.future env m).uses (Op.weighs tx) ≤ Msg.weighs tx (.engine m) := by
  cases m with
  | call t => exact uses_cast_le le_rfl
  | send t => exact uses_cast_le le_rfl
  | registerProgram t =>
    simp only [Engine.future, Engine.handleRegisterProgram]
    split
    · exact zero_le
    · exact zero_le
    · exact zero_le
    split
    · exact zero_le
    · exact uses_cast_le le_rfl
  | eoEvent event =>
    cases event with
    | settlement => exact zero_le
    | bridge log =>
      simp only [Engine.future, Engine.handleEoEvent]
      induction log with
      | nil => exact zero_le
      | cons event log ih =>
        refine uses_cast_bind_le ((add_le_add_right ih _).trans (le_of_eq ?_))
        simp only [Msg.weighs, Msg.brings, List.map_cons, List.count_cons, List.count_nil]
        push_cast
        abel
  | callSuccess t hash outputs =>
    simp only [Engine.future, Engine.handleCallSuccess]
    split
    · exact uses_cast_le le_rfl
    · exact uses_report_bind_le trivial (uses_report_le trivial)

theorem create_uses {services : Services} {t : Transaction} {contentId : String} :
    (Executor.create env services t contentId).uses (Op.weighs tx) ≤
      Msg.weighs tx (.executor (.create t contentId)) := by
  have hbundle : (Executor.bundle env services t contentId).uses (Op.weighs tx) ≤
      Msg.weighs tx (.executor (.create t contentId)) := by
    unfold Executor.bundle
    split
    · split
      · exact uses_cast_le le_rfl
      · exact uses_report_le trivial
    · exact uses_report_le trivial
  unfold Executor.create Executor.pinObject
  split
  · exact uses_report_bind_le trivial hbundle
  · exact hbundle

theorem executor_uses (services : Services) (m : ExecutorMessage) :
    (Executor.future env services m).uses (Op.weighs tx) ≤ Msg.weighs tx (.executor m) := by
  cases m with
  | create t contentId => exact create_uses
  | set t =>
    refine uses_read_bind_le fun r => ?_
    split
    · refine uses_read_bind_le fun r => ?_
      split
      · have hreport : (cast (.scheduler (.callTransactionAsyncPending (env.hashString t))) :
            RequestM Unit).uses (Op.weighs tx) ≤ 0 := uses_report_le trivial
        refine uses_cast_bind_le ((add_le_add_right hreport _).trans ?_)
        rw [add_zero]
        exact le_rfl
      · exact uses_report_le trivial
    · exact uses_report_le trivial
  | exec t =>
    refine uses_read_bind_le fun r => ?_
    split
    · refine uses_read_bind_le fun r => ?_
      split
      · exact Prog.uses_op_le (fun _ => (add_zero _).le) le_rfl
      · exact uses_report_le trivial
    · exact uses_report_le trivial
  | results t contentId programId hash =>
    simp only [Executor.future, Executor.results]
    split
    · exact zero_le
    refine uses_takeHandle_bind_le fun r => ?_
    split
    · split
      · refine uses_cast_bind_le ?_
        exact (zero_add _).trans_le (uses_cast_le le_rfl)
      · exact zero_le
    · exact uses_report_le trivial
    · exact zero_le

/-- A validator future hands its transaction on at most once. -/
theorem validator_uses {m : ValidatorMessage} {p : ValidatorM Unit}
    (h : validatorFuture env m = some p) :
    p.uses (Op.weighs tx) ≤ Msg.weighs tx (.validator m) := by
  have hcauses := validator_causes h
  have hlast : p.Last fun o : Op => o.weighs tx ≠ 0 := by
    refine (validator_last h).mono (fun o ho hne => ?_) hcauses
    cases o with
    | cast m' => trivial
    | runContainer key thread t contentId =>
      have hcause : Causes env (.validator m) _ := ho.sending _ rfl
      cases hcause with
      | report h => exact h.elim
    | _ => exact absurd rfl hne
  refine Prog.uses_le_of_last (fun o ho => ?_) (fun o ho => not_not.1 ho) hcauses hlast
  cases o with
  | cast m' =>
    have hcause : Causes env (.validator m) m' := ho.sending m' rfl
    cases hcause with
    | report h => exact h.weighs.trans_le zero_le
    | append h => exact le_rfl
  | runContainer key thread t contentId =>
    have hcause : Causes env (.validator m) _ := ho.sending _ rfl
    cases hcause with
    | report h => exact h.elim
  | _ => exact zero_le

/-- The batcher hands on nothing. -/
theorem batcher_uses {t : Transaction} {outputs : Option Outputs} {p : BatcherM Unit}
    (h : appendTransaction env t outputs = some p) : p.uses (Op.weighs tx) = 0 := by
  refine Prog.uses_eq_zero ((batcher_reports h).mono (fun o ho => ?_) fun _ h => h)
  cases o with
  | cast m => exact (ho m rfl).weighs
  | runContainer key thread t contentId => exact (ho _ rfl).elim
  | _ => rfl

end Futures

/-! ### The node -/

/-- A transaction that is handed to the validator is handed on once. -/
theorem schedule_weighs (t : Transaction) (outputs : Option Outputs) :
    weighMail (Msg.weighs tx) ((([(t, outputs)] : List Scheduled).filterMap
      scheduleWithValidator).map Msg.validator) ≤ ([t].count tx : ℕ) := by
  have hlist : ([(t, outputs)] : List Scheduled).filterMap scheduleWithValidator =
      (scheduleWithValidator (t, outputs)).toList := by
    cases h : scheduleWithValidator (t, outputs) <;> simp [h]
  rw [hlist]
  cases h : scheduleWithValidator (t, outputs) with
  | none => exact zero_le
  | some m =>
    have hm : m.append.transaction = t := by
      unfold scheduleWithValidator at h
      split at h <;> cases h <;> rfl
    simp [Msg.weighs, Msg.brings, hm]

/-- The pending-transaction actor hands on what it gets, at most once. -/
theorem pending_weighs {state : PendingState} (hpending : state.pending.Idle)
    (hpre : state.preCall.Idle) (reading : Reading) (message : PendingTransactionMessage) :
    weighMail (Msg.weighs tx) (state.handle env reading message).casts ≤
      Msg.weighs tx (.pending message) := by
  rw [PendingStep.casts, PendingState.scheduled_handle hpending, weighMail_append]
  cases message with
  | new t outputs =>
    have hothers : (state.handle env reading (.new t outputs)).others = [] := by
      simp only [PendingState.handle]
      split_ifs <;> rfl
    rw [hothers, weighMail_nil, add_zero, PendingState.accepts]
    split_ifs
    · exact zero_le
    · exact schedule_weighs t outputs
  | newCall t =>
    have hothers : (state.handle env reading (.newCall t)).others = [.executor (.exec t)] := by
      simp only [PendingState.handle, (hpre.addCall env t).1]
      rfl
    rw [hothers, weighMail_cons, weighMail_nil, add_zero]
    exact (zero_add _).le
  | execSuccess t =>
    have hothers : (state.handle env reading (.execSuccess t)).others = [] := by
      simp only [PendingState.handle, (hpre.handleCompletedExec (env.hashString t)).1]
      rfl
    rw [hothers]
    exact zero_le
  | invalid t e => exact zero_le
  | valid t => exact zero_le
  | validCall outputs t => exact zero_le
  | cleanGraph => exact zero_le

/-- Nothing ever waits in the graphs. -/
theorem prompt_keeps {storage : AccountStore} : (node env storage).Keeps World.Prompt
    (fun _ => True) (fun _ => True) where
  handle o m w hw _ := by
    refine ⟨?_, (fun _ _ => trivial), fun _ _ => trivial⟩
    cases m with
    | pending m =>
      refine ⟨PendingState.idle_handle hw.pending m, ?_⟩
      cases m with
      | new t outputs =>
        change (w.pending.handle env o.reading (.new t outputs)).state.preCall.Idle
        simp only [PendingState.handle]
        split_ifs <;> exact hw.preCall
      | newCall t => exact (hw.preCall.addCall env t).2
      | execSuccess t => exact (hw.preCall.handleCompletedExec (env.hashString t)).2
      | _ => exact hw.preCall
    | scheduler m => exact ⟨hw.pending, hw.preCall⟩
    | _ => exact hw
  perform l o k w hw _ := by
    refine ⟨⟨?_, (fun _ _ => trivial), fun _ _ => trivial⟩, trivial⟩
    cases o with
    | cacheAccount account => exact ⟨hw.pending, hw.preCall⟩
    | runContainer key thread t contentId => exact ⟨hw.pending, hw.preCall⟩
    | takeHandle key => exact ⟨hw.pending, hw.preCall⟩
    | _ => exact hw
  finish l x w r hw _ h := by
    refine ⟨?_, (fun _ _ => trivial), fun _ _ => trivial⟩
    obtain ⟨order, m, -, -, rfl⟩ | ⟨order, m, msg, txn, -, -, rfl⟩ | ⟨-, rfl⟩ :=
      World.finish_cases h
    · exact ⟨hw.pending, hw.preCall⟩
    · exact hw
    · exact hw

/-- The pool of the engine, the executor or the validator. -/
theorem pooled_weighs {job : Job} (hjob : ∀ order m, job ≠ .batcher order m)
    (p : Async (Fault String) Unit) :
    futureWeighs tx (pooled job p) = p.uses (Op.weighs tx) := by
  have hnone : futureWeighs tx (pooled job p) = 0 + (pooled job p).prog.uses (Op.weighs tx) := by
    cases job with
    | batcher order m => exact absurd rfl (hjob order m)
    | _ => rfl
  rw [hnone, zero_add]
  exact Prog.uses_mapErr _ p

/-- A reaction that applies nothing. -/
theorem worth_le {r : NodeReaction} {w : World} {n : ℕ∞} (hledger : r.world.ledger = w.ledger)
    (h : weighMail (Msg.weighs tx) r.casts + (r.futures.map (futureWeighs tx)).sum ≤ n) :
    Reaction.worth (Msg.weighs tx) (World.weighs tx) (futureWeighs tx) r ≤ n + w.weighs tx := by
  have hweighs : r.world.weighs tx = w.weighs tx := by rw [World.weighs, hledger, World.weighs]
  rw [Reaction.worth, hweighs]
  exact add_le_add_left h _

theorem handle_weighs (o : Oracle) (m : Msg) {w : World} (hw : w.Prompt) :
    Reaction.worth (Msg.weighs tx) (World.weighs tx) (futureWeighs tx) (World.handle env o m w) ≤
      m.weighs tx + w.weighs tx := by
  have hledger : (World.handle env o m w).world.ledger = w.ledger := by cases m <;> rfl
  refine worth_le hledger ?_
  cases m with
  | scheduler m =>
    cases m with
    | call t port => exact (add_zero _).le
    | send t port => exact (add_zero _).le
    | registerProgram t port => exact (add_zero _).le
    | _ => exact (add_zero _).le
  | engine m =>
    have hjob : ∀ order m, Job.engine ≠ .batcher order m := by rintro _ _ ⟨⟩
    change 0 + ([_].map (futureWeighs tx)).sum ≤ _
    rw [zero_add, List.map_singleton, List.sum_singleton, pooled_weighs hjob]
    exact engine_uses m
  | executor m =>
    have hjob : ∀ order m, Job.executor ≠ .batcher order m := by rintro _ _ ⟨⟩
    change 0 + ([_].map (futureWeighs tx)).sum ≤ _
    rw [zero_add, List.map_singleton, List.sum_singleton, pooled_weighs hjob]
    exact executor_uses o.services m
  | pending m =>
    exact (add_zero _).trans_le (pending_weighs hw.pending hw.preCall o.reading m)
  | validator m =>
    change 0 + ((World.validatorFutures env m).map (futureWeighs tx)).sum ≤ _
    rw [zero_add, World.validatorFutures]
    split
    · next p hp =>
      have hjob : ∀ order t, Job.validator m.append ≠ .batcher order t := by rintro _ _ ⟨⟩
      rw [List.map_singleton, List.sum_singleton, pooled_weighs hjob]
      exact validator_uses hp
    · exact zero_le
  | batcher m =>
    obtain ⟨t, outputs⟩ := m
    change 0 + ((World.batcherFutures env o.reading.order ⟨t, outputs⟩).map
      (futureWeighs tx)).sum ≤ _
    rw [zero_add, World.batcherFutures]
    split
    · next p hp =>
      rw [List.map_singleton, List.sum_singleton, futureWeighs, batcher_uses hp, add_zero]
      exact le_rfl
    · exact zero_le

theorem perform_weighs {storage : AccountStore} (job : Job) (o : Op)
    (k : effects.Resp o → Prog effects (Fault BatcherError) Unit) (w : World) :
    futureWeighs tx ⟨job, k (World.perform storage job o w).1⟩ +
        Reaction.worth (Msg.weighs tx) (World.weighs tx) (futureWeighs tx)
          (World.perform storage job o w).2 ≤
      futureWeighs tx ⟨job, .op o k⟩ + w.weighs tx := by
  -- What the reaction puts in flight is what the operation weighs.
  have hreaction : Reaction.worth (Msg.weighs tx) (World.weighs tx) (futureWeighs tx)
      (World.perform storage job o w).2 ≤ o.weighs tx + w.weighs tx := by
    cases o with
    | cast m =>
      simp [Reaction.worth, World.perform, Op.weighs]
    | runContainer key thread t contentId =>
      refine worth_le rfl ?_
      change 0 + ((World.containerFutures key thread t contentId).map (futureWeighs tx)).sum ≤ _
      rw [zero_add, World.containerFutures]
      split
      · rw [List.map_singleton, List.sum_singleton]
        exact (zero_add _).trans_le (uses_cast_le le_rfl)
      · exact zero_le
    | _ => exact worth_le rfl (add_zero 0).le
  have hnext := Prog.add_uses_le (E := effects) (w := Op.weighs tx) o k
    (World.perform storage job o w).1
  simp only [futureWeighs]
  calc _ ≤ _ := add_le_add_right hreaction _
    _ = _ + (o.weighs tx + (k (World.perform storage job o w).1).uses (Op.weighs tx)) +
          w.weighs tx := by abel
    _ ≤ _ := add_le_add_left (add_le_add_right hnext _) _

theorem asked_conserves {storage : AccountStore} :
    Conserves (Msg.weighs tx) (World.weighs tx) (futureWeighs tx) (node env storage) World.Prompt
      (fun _ => True) (fun _ => True) where
  handle o m _ hw _ := handle_weighs o m hw
  perform l o k w _ _ := perform_weighs l o k w
  finish l x w r _ _ h := by
    obtain ⟨order, m, rfl, -, rfl⟩ | ⟨order, m, msg, txn, -, -, rfl⟩ | ⟨-, rfl⟩ :=
      World.finish_cases h
    · simp only [Reaction.worth, World.weighs, futureWeighs, weighMail_nil, List.map_nil,
        List.sum_nil, List.map_append, List.map_cons, List.count_append, Nat.cast_add,
        Prog.uses_of_isDone (Prog.isDone_ofExcept x), add_zero, zero_add]
      exact (add_comm _ _).le
    · exact worth_le rfl ((add_zero _).trans_le zero_le)
    · exact worth_le rfl ((add_zero _).trans_le zero_le)

theorem weighInjected_eq : ∀ chs : List NodeChoice, weighInjected (Msg.weighs tx) chs =
    (((injected chs).flatMap Msg.brings).count tx : ℕ)
  | [] => rfl
  | ch :: chs => by
    rw [weighInjected_cons, weighInjected_eq chs]
    cases ch with
    | inject m =>
      have hcons : injected (.inject m :: chs) = m :: injected chs := rfl
      rw [hcons, List.flatMap_cons, List.count_append, Nat.cast_add]
      exact congrArg (· + _) (add_zero _)
    | deliver a o => exact zero_add _
    | poll i => exact zero_add _

/-- In every run, over every order of its steps, no transaction is applied more often than the
messages from outside brought it. -/
theorem applied_le_asked {storage cache : AccountStore} {chs : List NodeChoice} {c : NodeConfig}
    (hrun : (node env storage).run (NodeConfig.start cache) chs = some c) (tx : Transaction) :
    (c.world.ledger.map fun e => e.2.transaction).count tx ≤
      ((injected chs).flatMap Msg.brings).count tx := by
  have hstart : (NodeConfig.start cache).All World.Prompt (fun _ => True) fun _ => True :=
    ⟨⟨PendingGraph.idle_new, PreCallGraph.Idle.new⟩, (fun _ _ => trivial), fun _ _ => trivial⟩
  have hconserves : Conserves (Msg.weighs tx) (World.weighs tx) (futureWeighs tx)
      (node env storage) World.Prompt _ _ := asked_conserves
  have hworth := hconserves.run prompt_keeps hstart (fun _ _ => trivial) hrun
  have hzero : (NodeConfig.start cache).worth (Msg.weighs tx) (World.weighs tx)
      (futureWeighs tx) = 0 := rfl
  rw [hzero, zero_add, weighInjected_eq] at hworth
  have hle : ((c.world.ledger.map fun e => e.2.transaction).count tx : ℕ∞) ≤
      (((injected chs).flatMap Msg.brings).count tx : ℕ) := le_trans le_add_self hworth
  exact_mod_cast hle

theorem applied_le_asked_calledOnce :
    ∃ c, (node .small fun _ => none).run (NodeConfig.start oneProgram) calledOnce = some c ∧
      (c.world.ledger.map fun e => e.2.transaction).count (callOf 7#160 9#160 1#256) = 1 ∧
      ((injected calledOnce).flatMap Msg.brings).count (callOf 7#160 9#160 1#256) = 1 ∧
      (c.world.ledger.map fun e => e.2.transaction).count (callOf 7#160 9#160 1#256) ≤
        ((injected calledOnce).flatMap Msg.brings).count (callOf 7#160 9#160 1#256) := by
  have hrun : ((node .small fun _ => none).run (NodeConfig.start oneProgram) calledOnce).map
      (fun c => (c.world.ledger.map fun e => e.2.transaction).count
        (callOf 7#160 9#160 1#256)) = some 1 := by decide
  obtain ⟨c, hc, hcount⟩ := Option.map_eq_some_iff.1 hrun
  exact ⟨c, hc, hcount, by decide, applied_le_asked hc _⟩

end Asked

end Lasr
