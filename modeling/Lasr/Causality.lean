import Lasr.Footprint
import Lasr.Node

/-!
# What a message leads to

`Causes` says once which messages the handling of a message can lead to, by the handler
itself or by the future it starts, over all answers and oracles. The pending-transaction
actor is the one place where a message can lead on to what an earlier one brought, through
the graph of calls.

A property of messages that is closed under `Causes` and holds of all that comes in from
outside therefore holds of every message of a run, and of every transaction a batcher future
works for (`Closed.run`).
-/

set_option linter.unusedSectionVars false

namespace Lasr

/-- The engine and the executor let the transaction through as a registration : its inputs
name a content id, and its signature recovers to some address. -/
def Registrable (env : Env) (tx : Transaction) : Prop :=
  ∃ contentId programId, env.contentId tx.inputs = .ok (some (some contentId)) ∧
    createProgramId env contentId tx = .ok programId

/-- What the validator has checked of a transaction it hands on. -/
def ValidatorMessage.Checked (env : Env) : ValidatorMessage → Prop
  | .pendingTransaction tx =>
    tx.transactionType.isSend ∧ tx.verifySignature env = .ok () ∨
      tx.transactionType.isBridgeIn ∧ tx.from = tx.to
  | .pendingCall outputs tx => outputs.isSome ∧ tx.verifySignature env = .ok ()
  | .pendingRegistration _ => False

/-- What the handling of a message can lead to. -/
inductive Causes (env : Env) : Msg → Msg → Prop
  | report {m m' : Msg} (h : m'.IsReport) : Causes env m m'
  | call {tx : Transaction} {port : ℕ} :
      Causes env (.scheduler (.call tx port)) (.engine (.call tx))
  | send {tx : Transaction} {port : ℕ} :
      Causes env (.scheduler (.send tx port)) (.engine (.send tx))
  | registerProgram {tx : Transaction} {port : ℕ} :
      Causes env (.scheduler (.registerProgram tx port)) (.engine (.registerProgram tx))
  | set {tx : Transaction} : Causes env (.engine (.call tx)) (.executor (.set tx))
  | newSend {tx : Transaction} : Causes env (.engine (.send tx)) (.pending (.new tx none))
  | create {tx : Transaction} {contentId : String} (h : Registrable env tx) :
      Causes env (.engine (.registerProgram tx)) (.executor (.create tx contentId))
  | newBridge {log : List BridgeEvent} {event : BridgeEvent} (h : event ∈ log) :
      Causes env (.engine (.eoEvent (.bridge log)))
        (.pending (.new (Engine.bridgeTransaction event) none))
  | newResult {tx : Transaction} {hash text : String} {outputs : Outputs} :
      Causes env (.engine (.callSuccess tx hash text)) (.pending (.new tx (some outputs)))
  | register {tx : Transaction} {contentId : String} :
      Causes env (.executor (.create tx contentId)) (.batcher (.appendTransaction tx none))
  | newCall {tx : Transaction} : Causes env (.executor (.set tx)) (.pending (.newCall tx))
  | exec {tx : Transaction} : Causes env (.pending (.newCall tx)) (.executor (.exec tx))
  | results {tx : Transaction} {contentId programId : String} {hash : Option String} :
      Causes env (.executor (.exec tx)) (.executor (.results (some tx) contentId programId hash))
  | execSuccess {tx : Transaction} {contentId programId : String} {hash : Option String} :
      Causes env (.executor (.results (some tx) contentId programId hash))
        (.pending (.execSuccess tx))
  | callSuccess {tx : Transaction} {contentId programId hash' text : String}
      {hash : Option String} :
      Causes env (.executor (.results (some tx) contentId programId hash))
        (.engine (.callSuccess tx hash' text))
  | schedule {tx : Transaction} {outputs : Option Outputs} {m : ValidatorMessage}
      (h : scheduleWithValidator (tx, outputs) = some m) :
      Causes env (.pending (.new tx outputs)) (.validator m)
  | append {m : ValidatorMessage} (h : m.Checked env) :
      Causes env (.validator m)
        (.batcher (.appendTransaction m.append.transaction m.append.outputs))

/-! ## The futures -/

/-- The messages an operation puts in flight, at once or by the thread it starts. -/
def Op.Sends : Op → Msg → Prop
  | .cast m, m' => m' = m
  | .runContainer key _ tx contentId, m' =>
    m' = .executor (.results (some tx) contentId key.1 (some key.2))
  | _, _ => False

/-- An operation that puts only messages of `P` in flight. -/
def Op.Sending (P : Msg → Prop) (o : Op) : Prop :=
  ∀ m, o.Sends m → P m

/-- Such an operation that writes no account. -/
structure Op.Serving (P : Msg → Prop) (o : Op) : Prop where
  sending : o.Sending P
  silent : ∀ account, o ≠ .cacheAccount account

section Futures

variable {ε β : Type} {P : Msg → Prop} {Q : β → Prop}

theorem meets_cast {m : Msg} (h : P m) :
    Prog.Meets (Op.Serving P) (fun _ => True) (cast m : Async ε Unit) := by
  refine ⟨⟨fun m' hm' => ?_, fun _ h => nomatch h⟩, fun _ => trivial⟩
  rw [show m' = m from hm']
  exact h

theorem meets_cast_bind {m : Msg} {f : Unit → Async ε β} (h : P m)
    (hf : (f ()).Meets (Op.Serving P) Q) :
    Prog.Meets (Op.Serving P) Q (cast m >>= f) :=
  Prog.Meets.bind (fun _ _ => hf) (meets_cast h)

theorem meets_read_bind {a : Address} {f : Option Account → Async ε β}
    (hf : ∀ r, (f r).Meets (Op.Serving P) Q) :
    Prog.Meets (Op.Serving P) Q (getAccount a >>= f) :=
  meets_getAccount_bind ⟨fun _ h => h.elim, fun _ h => nomatch h⟩ fun r _ => hf r

theorem meets_takeHandle_bind {key : String × String}
    {f : Option (Except String String) → Async ε β} (hf : ∀ r, (f r).Meets (Op.Serving P) Q) :
    Prog.Meets (Op.Serving P) Q (takeHandle key >>= f) :=
  ⟨⟨fun _ h => h.elim, fun _ h => nomatch h⟩, hf⟩

variable {env : Env}

theorem engine_causes (m : EngineMessage) :
    (Engine.future env m).Meets (Op.Serving (Causes env (.engine m))) fun _ => True := by
  cases m with
  | call tx => exact meets_cast .set
  | send tx => exact meets_cast .newSend
  | registerProgram tx =>
    simp only [Engine.future, Engine.handleRegisterProgram]
    split
    · trivial
    · trivial
    · trivial
    next contentId hcid =>
    split
    · trivial
    next programId hpid =>
    exact meets_cast (.create ⟨contentId, programId, hcid, hpid⟩)
  | eoEvent event =>
    cases event with
    | settlement => trivial
    | bridge log =>
      -- The events still to come are among those of the log.
      have hall : ∀ {rest : List BridgeEvent}, rest ⊆ log → (Engine.handleBridgeEvent rest).Meets
          (Op.Serving (Causes env (.engine (.eoEvent (.bridge log))))) fun _ => True := by
        intro rest
        induction rest with
        | nil => exact fun _ => trivial
        | cons event rest ih =>
          intro hsub
          obtain ⟨hevent, hrest⟩ := List.cons_subset.1 hsub
          exact meets_cast_bind (.newBridge hevent) (ih hrest)
      exact hall (List.Subset.refl log)
  | callSuccess tx hash outputs =>
    simp only [Engine.future, Engine.handleCallSuccess]
    split
    · exact meets_cast .newResult
    · exact meets_cast_bind (.report trivial) (meets_cast (.report trivial))

theorem create_causes {services : Services} {tx : Transaction} {contentId : String} :
    (Executor.create env services tx contentId).Meets
      (Op.Serving (Causes env (.executor (.create tx contentId)))) fun _ => True := by
  have hpin : (Executor.pinObject env services tx).Meets
      (Op.Serving (Causes env (.executor (.create tx contentId)))) fun _ => True := by
    unfold Executor.pinObject
    split
    · exact meets_cast (.report trivial)
    · trivial
  refine Prog.Meets.bind (fun _ _ => ?_) hpin
  unfold Executor.bundle
  split
  · split
    · exact meets_cast .register
    · exact meets_cast (.report trivial)
  · exact meets_cast (.report trivial)

theorem executor_causes (services : Services) (m : ExecutorMessage) :
    (Executor.future env services m).Meets (Op.Serving (Causes env (.executor m)))
      fun _ => True := by
  cases m with
  | create tx contentId => exact create_causes
  | set tx =>
    refine meets_read_bind fun r => ?_
    split
    · refine meets_read_bind fun r => ?_
      split
      · exact meets_cast_bind .newCall (meets_cast (.report trivial))
      · exact meets_cast (.report trivial)
    · exact meets_cast (.report trivial)
  | exec tx =>
    refine meets_read_bind fun r => ?_
    split
    · refine meets_read_bind fun r => ?_
      split
      · refine ⟨⟨fun m' hm' => ?_, fun _ h => nomatch h⟩, fun _ => trivial⟩
        rw [show m' = _ from hm']
        exact .results
      · exact meets_cast (.report trivial)
    · exact meets_cast (.report trivial)
  | results tx contentId programId hash =>
    simp only [Executor.future, Executor.results]
    split
    · trivial
    refine meets_takeHandle_bind fun r => ?_
    split
    · split
      · exact meets_cast_bind .execSuccess (meets_cast .callSuccess)
      · trivial
    · exact meets_cast (.report trivial)
    · trivial

theorem checkSend_verifySignature {tx : Transaction} {account : Account}
    (h : checkSend env tx account = .ok ()) : tx.verifySignature env = .ok () := by
  obtain ⟨_, -, h₁⟩ := Except.bind_eq_ok_iff.1 h
  obtain ⟨_, -, h₂⟩ := Except.bind_eq_ok_iff.1 h₁
  obtain ⟨_, -, h₃⟩ := Except.bind_eq_ok_iff.1 h₂
  exact h₃

theorem checkCall_verifySignature {tx : Transaction} {accountMap : AccountLookup}
    {outputs : Outputs} (h : checkCall env accountMap outputs tx = .ok ()) :
    tx.verifySignature env = .ok () := by
  obtain ⟨u, h₁, -⟩ := Except.bind_eq_ok_iff.1 h
  exact h₁

theorem readAccounts_sends {tx : Transaction} :
    ∀ {refs : List AddressOrNamespace} {accounts : AccountLookup},
      (readAccounts tx refs accounts).Meets (Op.Serving P) fun _ => True
  | [], _ => trivial
  | ref :: refs, accounts => by
    unfold readAccounts
    split
    · exact meets_read_bind fun _ => readAccounts_sends
    · exact meets_read_bind fun _ => readAccounts_sends
    · exact readAccounts_sends

theorem validator_causes {m : ValidatorMessage} {p : ValidatorM Unit}
    (h : validatorFuture env m = some p) :
    p.Meets (Op.Serving (Causes env (.validator m))) fun _ => True := by
  cases m with
  | pendingTransaction tx =>
    cases h
    unfold pendingTransaction
    split
    · next n htype =>
      refine meets_read_bind fun r => ?_
      split
      · exact meets_cast (.report trivial)
      unfold validateSend report
      split
      · exact meets_cast (.report trivial)
      next hcheck =>
      have hsend : tx.transactionType.isSend := by rw [htype]; rfl
      exact meets_cast (Causes.append (m := .pendingTransaction tx)
        (Or.inl ⟨hsend, checkSend_verifySignature hcheck⟩))
    · next n htype =>
      refine meets_read_bind fun _ => ?_
      unfold validateBridgeIn
      split
      · trivial
      next hself =>
      have hbridge : tx.transactionType.isBridgeIn := by rw [htype]; rfl
      exact meets_cast (Causes.append (m := .pendingTransaction tx)
        (Or.inr ⟨hbridge, not_not.1 hself⟩))
    · trivial
    · trivial
    · trivial
  | pendingCall outputs tx =>
    cases h
    unfold pendingCall
    split
    · next o =>
      refine Prog.Meets.bind (fun accounts _ => ?_) readAccounts_sends
      unfold validateCall report
      split
      · exact meets_cast (.report trivial)
      next hcheck =>
      exact meets_cast (Causes.append (m := .pendingCall (some o) tx)
        ⟨rfl, checkCall_verifySignature hcheck⟩)
    · exact meets_cast (.report trivial)
  | pendingRegistration tx => cases h

/-- A cast. -/
def Op.IsCast : Op → Prop
  | .cast _ => True
  | _ => False

theorem report_last {tx : Transaction} {outputs : Option Outputs} {x : Except String Unit} :
    (report tx outputs x).Last Op.IsCast := by
  cases x with
  | error e => exact Prog.last_perform _
  | ok u => exact Prog.last_perform _

theorem getAccount_silent (a : Address) :
    Prog.Meets (fun o : Op => ¬o.IsCast) (fun _ => True) (getAccount a : Async ε _) :=
  ⟨not_false, fun _ => trivial⟩

theorem readAccounts_silent {tx : Transaction} :
    ∀ {refs : List AddressOrNamespace} {accounts : AccountLookup},
      (readAccounts tx refs accounts).Meets (fun o : Op => ¬o.IsCast) fun _ => True
  | [], _ => trivial
  | ref :: refs, accounts => by
    unfold readAccounts
    split
    · exact Prog.Meets.bind (fun _ _ => readAccounts_silent) (getAccount_silent _)
    · exact Prog.Meets.bind (fun _ _ => readAccounts_silent) (getAccount_silent _)
    · exact readAccounts_silent

/-- A validator future casts once, and that is the last it does. -/
theorem validator_last {m : ValidatorMessage} {p : ValidatorM Unit}
    (h : validatorFuture env m = some p) : p.Last Op.IsCast := by
  cases m with
  | pendingTransaction tx =>
    cases h
    unfold pendingTransaction
    split
    · refine Prog.Last.bind (fun r => ?_) (getAccount_silent _)
      split
      · exact Prog.last_perform _
      · exact report_last
    · refine Prog.Last.bind (fun r => ?_) (getAccount_silent _)
      unfold validateBridgeIn
      split
      · trivial
      · exact Prog.last_perform _
    · trivial
    · trivial
    · trivial
  | pendingCall outputs tx =>
    cases h
    unfold pendingCall
    split
    · exact Prog.Last.bind (fun _ => report_last) readAccounts_silent
    · exact Prog.last_perform _
  | pendingRegistration tx => cases h

/-- A batcher future puts nothing but reports in flight. -/
theorem batcher_reports {tx : Transaction} {outputs : Option Outputs} {p : BatcherM Unit}
    (h : appendTransaction env tx outputs = some p) :
    p.Meets (Op.Sending Msg.IsReport) fun _ => True := by
  refine (appendTransaction_within h).mono (fun o ho m hm => ?_) fun _ h => h
  cases o with
  | cast m' =>
    rw [show m = m' from hm]
    exact ho
  | runContainer => exact ho.elim
  | _ => exact hm.elim

end Futures

/-! ## The graphs -/

/-- Every call in the graph has a transaction of `P`. -/
def PreCallGraph.Holds (P : Transaction → Prop) (g : PreCallGraph) : Prop :=
  ∀ id v, g.vertices.lookup id = some v → P v.transaction

namespace PreCallGraph.Holds

variable {P : Transaction → Prop} {g : PreCallGraph} {env : Env}

theorem foldl_visitDependency (id : String) :
    ∀ (dependencies : List String) {acc : HashMap String PreCallVertex × Bool},
      (∀ i v, acc.1.lookup i = some v → P v.transaction) →
      ∀ i v, (dependencies.foldl (visitDependency id) acc).1.lookup i = some v → P v.transaction
  | [], _, h => h
  | dep :: deps, acc, h => by
    rw [List.foldl_cons]
    refine foldl_visitDependency id deps ?_
    unfold visitDependency
    split
    · next depVertex hdep =>
      intro i v hv
      rcases HashMap.lookup_insert_cases hv with rfl | hv
      · exact h dep depVertex hdep
      · exact h i v hv
    · exact h

theorem addCall (hg : g.Holds P) {tx : Transaction} (htx : P tx) :
    (g.addCall env tx).1.Holds P := by
  refine foldl_visitDependency _ _ fun i v hv => ?_
  rcases HashMap.lookup_insert_cases hv with rfl | hv
  · exact htx
  · exact hg i v hv

theorem handleCompletedExec (hg : g.Holds P) (hash : String) :
    (g.handleCompletedExec hash).1.Holds P ∧ ∀ tx ∈ (g.handleCompletedExec hash).2, P tx := by
  unfold PreCallGraph.handleCompletedExec
  split
  · exact ⟨hg, fun tx htx => nomatch htx⟩
  next vertex hvertex =>
  have herase : (⟨g.vertices.erase hash, g.programIndex⟩ : PreCallGraph).Holds P :=
    fun i v hv => hg i v (HashMap.lookup_of_lookup_erase hv)
  split
  · exact ⟨herase, fun tx htx => nomatch htx⟩
  next next rest hdeps =>
  refine ⟨herase, fun tx htx => ?_⟩
  obtain ⟨v, hv, rfl⟩ := Option.map_eq_some_iff.1 (Option.mem_toList.1 htx)
  exact herase next v hv

end PreCallGraph.Holds

/-- What the pending-transaction actor can cast : a new transaction to the validator, the
call it was given or one it has kept to the executor, or a report. -/
theorem pending_casts (env : Env) (reading : Reading) {state : PendingState}
    {message : PendingTransactionMessage} {P : Transaction → Prop} (hidle : state.pending.Idle)
    (hpre : state.preCall.Holds P) (hnew : ∀ tx, message = .newCall tx → P tx) :
    (state.handle env reading message).state.preCall.Holds P ∧
      ∀ m ∈ (state.handle env reading message).casts,
        Causes env (.pending message) m ∨ ∃ tx, P tx ∧ m = .executor (.exec tx) := by
  have hscheduled : ∀ m ∈ ((state.handle env reading message).scheduled.filterMap
      scheduleWithValidator).map Msg.validator, Causes env (.pending message) m := by
    intro m hm
    obtain ⟨v, hv, rfl⟩ := List.mem_map.1 hm
    obtain ⟨s, hs, hsv⟩ := List.mem_filterMap.1 hv
    rw [PendingState.scheduled_handle hidle] at hs
    rw [(PendingState.mem_accepts.1 hs).1]
    exact .schedule hsv
  have hcasts : (∀ m ∈ (state.handle env reading message).others,
        Causes env (.pending message) m ∨ ∃ tx, P tx ∧ m = .executor (.exec tx)) →
      ∀ m ∈ (state.handle env reading message).casts,
        Causes env (.pending message) m ∨ ∃ tx, P tx ∧ m = .executor (.exec tx) := by
    intro hothers m hm
    rcases List.mem_append.1 hm with hm | hm
    · exact Or.inl (hscheduled m hm)
    · exact hothers m hm
  cases message with
  | new tx outputs =>
    have hsame : (state.handle env reading (.new tx outputs)).state.preCall = state.preCall ∧
        (state.handle env reading (.new tx outputs)).others = [] := by
      simp only [PendingState.handle]
      split_ifs <;> exact ⟨rfl, rfl⟩
    refine ⟨hsame.1 ▸ hpre, hcasts fun m hm => ?_⟩
    rw [hsame.2] at hm
    cases hm
  | newCall tx =>
    have htx : P tx := hnew tx rfl
    refine ⟨hpre.addCall htx, hcasts fun m hm => Or.inl ?_⟩
    obtain ⟨t, ht, rfl⟩ := List.mem_map.1 hm
    obtain rfl : t = tx := by
      simp only [PreCallGraph.addCall] at ht
      split at ht
      · cases ht
      · exact List.mem_singleton.1 ht
    exact .exec
  | execSuccess tx =>
    obtain ⟨hstate, hnext⟩ := hpre.handleCompletedExec (env.hashString tx)
    refine ⟨hstate, hcasts fun m hm => Or.inr ?_⟩
    obtain ⟨t, ht, rfl⟩ := List.mem_map.1 hm
    exact ⟨t, hnext t ht, rfl⟩
  | valid tx => exact ⟨hpre, hcasts fun m hm => absurd hm List.not_mem_nil⟩
  | validCall outputs tx => exact ⟨hpre, hcasts fun m hm => absurd hm List.not_mem_nil⟩
  | invalid tx e =>
    refine ⟨hpre, hcasts fun m hm => Or.inl (.report ?_)⟩
    rw [List.mem_singleton.1 hm]
    trivial
  | cleanGraph => exact ⟨hpre, hcasts fun m hm => absurd hm List.not_mem_nil⟩

/-! ## Properties of messages -/

/-- A property of messages that passes on to what they lead to. -/
structure Closed (env : Env) (I : Msg → Prop) : Prop where
  causes : ∀ {m m'}, I m → Causes env m m' → I m'

/-- The batcher got the transaction in a message of `I`, and has a future for it. -/
structure Worked (I : Msg → Prop) (m : Append) : Prop where
  message : I (.batcher (.appendTransaction m.transaction m.outputs))
  outputs : m.transaction.transactionType.isCall → m.outputs.isSome

/-- The graph is idle, and the calls it keeps and the writes so far go back to messages of
`I`. -/
structure World.Traced (I : Msg → Prop) (w : World) : Prop where
  idle : w.pending.pending.Idle
  calls : w.pending.preCall.Holds fun tx => I (.executor (.exec tx))
  journal : ∀ e ∈ w.journal, Worked I e.1

/-- A future that puts only messages of `I` in flight. The batcher's works for one, and only
reads, writes and reports; the others write no account. -/
structure FutureTraced (I : Msg → Prop) (f : Future effects (Fault BatcherError) Job) : Prop where
  sends : f.prog.Meets (Op.Sending I) fun _ => True
  worked : ∀ order m, f.label = .batcher order m → Worked I m
  within : ∀ order m, f.label = .batcher order m →
    f.prog.Meets (Op.Within Set.univ Set.univ) fun _ => True
  silent : (∀ order m, f.label ≠ .batcher order m) → f.prog.Meets (Op.Serving I) fun _ => True

namespace Closed

open ActorSystem

variable {env : Env} {storage cache : AccountStore} {I : Msg → Prop} {w : World}

/-- The pool of the engine, the executor or the validator. -/
theorem pooled (hI : Closed env I) {m : Msg} (hm : I m) {job : Job} {p : Async (Fault String) Unit}
    (hjob : ∀ order m, job ≠ .batcher order m)
    (hp : p.Meets (Op.Serving (Causes env m)) fun _ => True) :
    FutureTraced I (pooled job p) := by
  have hserve : p.Meets (Op.Serving I) fun _ => True :=
    hp.mono (fun _ ho => ⟨fun m' hm' => hI.causes hm (ho.sending m' hm'), ho.silent⟩) fun _ h => h
  exact ⟨(hserve.mono (fun _ ho => ho.sending) fun _ h => h).mapErr,
    (fun order m h => absurd h (hjob order m)), (fun order m h => absurd h (hjob order m)),
    fun _ => hserve.mapErr⟩

theorem handle (hI : Closed env I) (o : Oracle) (m : Msg) (hw : w.Traced I) (hm : I m) :
    Reaction.Good (World.Traced I) I (FutureTraced I) (World.handle env o m w) := by
  cases m with
  | scheduler m =>
    refine ⟨⟨hw.idle, hw.calls, hw.journal⟩, fun m' hm' => ?_, fun f hf => nomatch hf⟩
    cases m with
    | call tx port => exact List.mem_singleton.1 hm' ▸ hI.causes hm .call
    | send tx port => exact List.mem_singleton.1 hm' ▸ hI.causes hm .send
    | registerProgram tx port => exact List.mem_singleton.1 hm' ▸ hI.causes hm .registerProgram
    | _ => cases hm'
  | engine m =>
    refine ⟨hw, (fun m' hm' => nomatch hm'), fun f hf => ?_⟩
    rw [List.mem_singleton.1 hf]
    exact hI.pooled hm (fun _ _ h => nomatch h) (engine_causes m)
  | executor m =>
    refine ⟨hw, (fun m' hm' => nomatch hm'), fun f hf => ?_⟩
    rw [List.mem_singleton.1 hf]
    exact hI.pooled hm (fun _ _ h => nomatch h) (executor_causes o.services m)
  | pending m =>
    obtain ⟨hcalls, hcasts⟩ := pending_casts env o.reading hw.idle hw.calls
      fun tx htx => hI.causes (htx ▸ hm) .exec
    refine ⟨⟨PendingState.idle_handle hw.idle m, hcalls, hw.journal⟩, fun m' hm' => ?_,
      fun f hf => nomatch hf⟩
    rcases hcasts m' hm' with hcause | ⟨tx, htx, rfl⟩
    · exact hI.causes hm hcause
    · exact htx
  | validator m =>
    refine ⟨hw, (fun m' hm' => nomatch hm'), fun f hf => ?_⟩
    simp only [World.handle, World.validatorFutures] at hf
    split at hf
    · next p hp =>
      rw [List.mem_singleton.1 hf]
      exact hI.pooled hm (fun _ _ h => nomatch h) (validator_causes hp)
    · cases hf
  | batcher m =>
    obtain ⟨tx, outputs⟩ := m
    refine ⟨hw, (fun m' hm' => nomatch hm'), fun f hf => ?_⟩
    simp only [World.handle, World.batcherFutures] at hf
    split at hf
    · next p hp =>
      rw [List.mem_singleton.1 hf]
      refine ⟨(batcher_reports hp).mono (fun _ ho m' hm' => hI.causes hm (.report (ho m' hm')))
        fun _ h => h, ?_, (fun _ _ _ => appendTransaction_within hp),
        fun h => absurd rfl (h _ _)⟩
      rintro order m ⟨⟩
      refine ⟨hm, fun hcall => ?_⟩
      cases htype : tx.transactionType with
      | call n =>
        simp only [appendTransaction, htype] at hp
        obtain ⟨out, rfl, -⟩ := Option.map_eq_some_iff.1 hp
        rfl
      | _ => simp [htype, TransactionType.isCall] at hcall
    · cases hf

theorem perform (hw : w.Traced I) {job : Job} {o : Op}
    {k : effects.Resp o → Prog effects (Fault BatcherError) Unit}
    (hf : FutureTraced I ⟨job, .op o k⟩) :
    Reaction.Good (World.Traced I) I (FutureTraced I) (World.perform storage job o w).2 ∧
      FutureTraced I ⟨job, k (World.perform storage job o w).1⟩ := by
  obtain ⟨⟨hop, hk⟩, hworked, hwithin, hsilent⟩ := hf
  refine ⟨?_, hk _, hworked, fun order m h => (hwithin order m h).2 _, fun h => (hsilent h).2 _⟩
  have hsame : Reaction.Good (World.Traced I) I (FutureTraced I) ⟨w, [], []⟩ :=
    ⟨hw, (fun m hm => nomatch hm), fun f hf => nomatch hf⟩
  cases o with
  | cacheAccount account =>
    refine ⟨⟨hw.idle, hw.calls, fun e he => ?_⟩, (fun m hm => nomatch hm), fun f hf => nomatch hf⟩
    rcases List.mem_append.1 he with he | he
    · exact hw.journal e he
    · cases job with
      | batcher order m => exact List.mem_singleton.1 he ▸ hworked order m rfl
      | _ => cases he
  | cast m =>
    refine ⟨hw, fun m' hm' => ?_, fun f hf => nomatch hf⟩
    rw [List.mem_singleton.1 hm']
    exact hop m rfl
  | runContainer key thread tx contentId =>
    refine ⟨⟨hw.idle, hw.calls, hw.journal⟩, (fun m hm => nomatch hm), fun f hf => ?_⟩
    simp only [World.perform, World.containerFutures] at hf
    split at hf
    · rw [List.mem_singleton.1 hf]
      have hcast : (cast (.executor (.results (some tx) contentId key.1 (some key.2))) :
          Async (Fault BatcherError) Unit).Meets (Op.Serving I) fun _ => True :=
        meets_cast (hop _ rfl)
      exact ⟨hcast.mono (fun _ ho => ho.sending) fun _ h => h, (fun _ _ h => nomatch h),
        (fun _ _ h => nomatch h), fun _ => hcast⟩
    · cases hf
  | takeHandle key =>
    exact ⟨⟨hw.idle, hw.calls, hw.journal⟩, (fun m hm => nomatch hm), fun f hf => nomatch hf⟩
  | _ => exact hsame

theorem finish (hI : Closed env I) (hw : w.Traced I) {job : Job}
    {x : Except (Fault BatcherError) Unit} (hf : FutureTraced I ⟨job, .ofExcept x⟩)
    {r : NodeReaction} (h : World.finish job x w = some r) :
    Reaction.Good (World.Traced I) I (FutureTraced I) r := by
  obtain ⟨order, m, -, -, rfl⟩ | ⟨order, m, msg, txn, rfl, -, rfl⟩ | ⟨-, rfl⟩ :=
    World.finish_cases h
  · exact ⟨⟨hw.idle, hw.calls, hw.journal⟩, (fun m hm => nomatch hm), fun f hf => nomatch hf⟩
  · refine ⟨hw, fun m' hm' => ?_, fun f hf => nomatch hf⟩
    rw [List.mem_singleton.1 hm']
    exact hI.causes (hf.worked order m rfl).message (.report trivial)
  · exact ⟨hw, (fun m hm => nomatch hm), fun f hf => nomatch hf⟩

theorem keeps (hI : Closed env I) :
    (node env storage).Keeps (World.Traced I) I (FutureTraced I) where
  handle o m _ hw hm := hI.handle o m hw hm
  perform _ _ _ _ hw hf := perform hw hf
  finish _ _ _ _ hw hf h := hI.finish hw hf h

theorem start : (NodeConfig.start cache).All (World.Traced I) I (FutureTraced I) := by
  refine ⟨⟨PendingGraph.idle_new, fun id v h => ?_, fun e he => nomatch he⟩,
    (fun m hm => nomatch hm), fun f hf => nomatch hf⟩
  simp [NodeConfig.start, World.start, PendingState.new, PreCallGraph.new] at h

/-- In every state of a run, what holds of all that came in holds of every message and of
every transaction the batcher has worked on. -/
theorem run (hI : Closed env I) {chs : List NodeChoice} {c : NodeConfig}
    (hin : ∀ m ∈ injected chs, I m)
    (hrun : (node env storage).run (NodeConfig.start cache) chs = some c) :
    c.All (World.Traced I) I (FutureTraced I) :=
  hI.keeps.run start (fun m hm => hin m (mem_injected.2 hm)) hrun

end Closed

end Lasr
