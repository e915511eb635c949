import Lasr.Atomicity
import Lasr.Causality
import Lasr.Leads

/-!
# A send on a node at rest

What a send comes to where nothing else is going on : `serveSend` puts the checks of the
validator, the accounts part of the batcher and its insertions after each other. The node itself,
with the batches beside it (`batchStore`), gets to just that from any state at rest, message by
message and future by future (`leads_serveSend`), whatever the order in which the maps are walked.

So a send that finds the node at rest is applied once and answered with the sender's token if it
is accepted and fits, and the batches have room for both accounts and the transaction. Where they
have none, the batcher's future stays at the insertion and nobody answers. A send that is not
accepted, or does not fit, leaves the account cache and the batches alone, and is answered with
an error, unless the batcher's future panics : then nobody answers (`send_served`).
-/

set_option linter.unusedSectionVars false

namespace Lasr

namespace Batcher

section Send

variable (env : Env) (checkSize : Batch → Option ℕ)

/-- Accounts are added one after another. -/
def addAccounts : List Account → Batcher → Option Batcher
  | [], b => some b
  | account :: rest, b => (b.addAccount checkSize account).bind (addAccounts rest)

/-- The accounts of a send are added, and then its transaction. -/
def addSend (accounts : List Account) (tx : Transaction) (b : Batcher) : Option Batcher :=
  (b.addAccounts checkSize accounts).bind (addTransaction env checkSize tx)

end Send

end Batcher

/-- What an operation does to the batches. An insertion that never ends is refused. -/
def batchStore (env : Env) (checkSize : Batch → Option ℕ) : Op → Batcher → Option Batcher
  | .insertAccount account, b => b.addAccount checkSize account
  | .insertTransaction transaction, b => b.addTransaction env checkSize transaction
  | _, b => some b

/-- What a send comes to : the response, if there is one, the account cache, the batches, what the
ledger gets, and the insertion at which the batcher's future stays. -/
structure SendOutcome where
  response : Option RpcResponse
  cache : AccountStore
  batches : Batcher
  applied : List (HashOrder × Append)
  stays : Option Op

section Serve

variable (env : Env) (checkSize : Batch → Option ℕ) (storage : AccountStore)

/-- What the validator finds of a send, on the sender's account if there is one. -/
def checkedSend (tx : Transaction) : Option Account → Except String Unit
  | none => .error "account does not exist"
  | some account => checkSend env tx account

/-- Where the validator's finding goes. -/
def sendVerdict (tx : Transaction) : Except String Unit → Msg
  | .error e => .pending (.invalid tx e)
  | .ok () => .batcher (.appendTransaction tx none)

/-- The accounts that the batcher writes for a send, in `order`. -/
def sentList (order : HashOrder) (buffer : HashMap String Account) : List Account :=
  (order.iter buffer.entries).map Sigma.snd

/-- What a send comes to that has no room in the batches : its future stays. -/
def stuckSend (order : HashOrder) (tx : Transaction) (cache : AccountStore) (b : Batcher) :
    SendOutcome :=
  match runBatched { env with order := order } checkSize storage
      (addTransactionToAccount { env with order := order } tx) ⟨cache, b⟩ with
  | (.stuck op, s) => ⟨none, s.cache, s.batcher, [], some op⟩
  | (.done _, s) => ⟨none, s.cache, s.batcher, [], none⟩

/-- What the batcher makes of a send, with the buffer walked in `order`. -/
def batchSend (order : HashOrder) (tx : Transaction) (cache : AccountStore) (b : Batcher) :
    SendOutcome :=
  match sentAccounts storage cache tx with
  | .ok r =>
    match b.addSend env checkSize (sentList order r.1) tx with
    | some b' =>
      ⟨some (.sendResponse r.2), (sentList order r.1).foldl handleCacheWrite cache, b',
        [(order, ⟨tx, none⟩)], none⟩
    | none => stuckSend env checkSize storage order tx cache b
  | .error (.err (.failedTransaction msg _)) => ⟨some (.transactionError msg), cache, b, [], none⟩
  | .error _ => ⟨none, cache, b, [], none⟩

/-- What a send comes to on a node that does nothing else. -/
def serveSend (order : HashOrder) (tx : Transaction) (cache : AccountStore) (b : Batcher) :
    SendOutcome :=
  match checkedSend env tx (accounts storage cache tx.from) with
  | .error e => ⟨some (.transactionError e), cache, b, [], none⟩
  | .ok () => batchSend env checkSize storage order tx cache b

end Serve

variable {env : Env} {checkSize : Batch → Option ℕ} {storage cache : AccountStore}
  {tx : Transaction} {b b' : Batcher}

theorem exists_send (hsend : tx.transactionType.isSend = true) :
    ∃ n, tx.transactionType = .send n := by
  cases htype : tx.transactionType with
  | send n => exact ⟨n, rfl⟩
  | _ => simp [htype, TransactionType.isSend] at hsend

/-! ## The accounts part -/

/-- An error of the accounts part is a failed transaction, or a panic. -/
def SendFails (tx : Transaction) (e : Fault BatcherError) : Prop :=
  e = .panic ∨ ∃ msg, e = .err (.failedTransaction msg tx)

/-- A program that fails in no other way. -/
abbrev FailsAsSend {α : Type} (tx : Transaction) (p : BatcherM α) : Prop :=
  p.Guarded (fun _ _ => True) (SendFails tx) fun _ => True

section Fails

variable {α β : Type}

theorem FailsAsSend.bind {p : BatcherM α} {f : α → BatcherM β} (hp : FailsAsSend tx p)
    (hf : ∀ a, FailsAsSend tx (f a)) : FailsAsSend tx (p >>= f) :=
  Prog.Guarded.bind (fun a _ => hf a) hp

theorem failsAsSend_read {a : Address} {f : Option Account → BatcherM α}
    (hf : ∀ r, FailsAsSend tx (f r)) : FailsAsSend tx (getAccount a >>= f) :=
  fun slot _ => hf slot.account

theorem failsAsSend_failed (msg : String) :
    FailsAsSend tx (failedTransaction tx msg : BatcherM α) :=
  Or.inr ⟨msg, rfl⟩

theorem failsAsSend_orFailed (x : AccountResult α) : FailsAsSend tx (orFailed tx x) := by
  rcases x with (e | _) | a
  · exact failsAsSend_failed e
  · exact Or.inl rfl
  · trivial

theorem failsAsSend_creditReceiver (account : Account) :
    FailsAsSend tx (creditReceiver tx account) := by
  have hwith : ∀ programAccount, FailsAsSend tx (creditWith tx account programAccount) := by
    intro programAccount
    unfold creditWith
    split
    · trivial
    · trivial
    · exact Or.inl rfl
  refine failsAsSend_read fun r => ?_
  split
  · exact hwith _
  · split
    · exact hwith _
    · split
      · exact hwith _
      · exact failsAsSend_failed _

theorem failsAsSend_debitSender : FailsAsSend tx (debitSender tx) := by
  refine failsAsSend_read fun r => ?_
  split
  · exact (failsAsSend_orFailed _).bind fun _ => failsAsSend_orFailed _
  · split
    · exact failsAsSend_failed _
    · exact failsAsSend_read fun _ => failsAsSend_orFailed _

theorem failsAsSend_creditSide (buffer : HashMap String Account) :
    FailsAsSend tx (creditSide tx buffer) := by
  have hinsert : ∀ account : Account, FailsAsSend tx (creditReceiver tx account >>= fun a =>
      pure (buffer.insert (Address.toFullString tx.to) a)) :=
    fun account => (failsAsSend_creditReceiver account).bind fun _ => trivial
  unfold creditSide
  split
  · refine failsAsSend_read fun r => ?_
    split
    · exact hinsert _
    · exact hinsert _
  · split
    · split
      · exact hinsert _
      · refine failsAsSend_read fun r => ?_
        split
        · exact hinsert _
        · exact failsAsSend_failed _
    · trivial

end Fails

/-- A send that fails is reported as failed, or panics. -/
theorem sendAccounts_fails {e : Fault BatcherError}
    (h : sentAccounts storage cache tx = .error e) : SendFails tx e := by
  have hguarded : FailsAsSend tx (sendAccounts tx) :=
    failsAsSend_debitSender.bind fun r => (failsAsSend_creditSide _).bind fun _ => trivial
  exact hguarded.of_run_error h

/-! ## The futures, run alone -/

section Alone

variable {ε α β : Type} {out : List Msg}

/-- The account cache with a record of the messages sent, and the batches. -/
abbrev recordingBatches (env : Env) (checkSize : Batch → Option ℕ) (storage : AccountStore) :
    PartialHandler effects ((AccountStore × List Msg) × Batcher) :=
  (recording storage).beside (batchStore env checkSize)

/-- Without the record, a future does the same on the cache and the batches. -/
theorem runBatched_eq_of_attempt {p : Async ε α} {x : Outcome effects ε α} {c : AccountStore}
    (h : p.attempt (recordingBatches env checkSize storage) ((cache, []), b) =
      (x, ((c, out), b'))) :
    runBatched env checkSize storage p ⟨cache, b⟩ = (x, ⟨c, b'⟩) := by
  have hmap := Prog.attempt_map (c := fun s : (AccountStore × List Msg) × Batcher =>
    (⟨s.1.1, s.2⟩ : BatcherState)) (H := recordingBatches env checkSize storage)
    (K := batchHandler env checkSize storage) (fun o s => ?_) p ((cache, []), b)
  · rw [h] at hmap
    exact hmap
  · cases o with
    | insertAccount account =>
      simp only [batchHandler, Handler.beside, batchStore, Option.map_map]
      rfl
    | insertTransaction transaction =>
      simp only [batchHandler, Handler.beside, batchStore, Option.map_map]
      rfl
    | _ => rfl

/-- Reads send nothing, and leave the cache and the batches as they are. -/
theorem attempt_recording_of_reads {p : Async ε α}
    (h : p.Meets (Op.Reads Set.univ) fun _ => True) :
    p.attempt (recordingBatches env checkSize storage) ((cache, out), b) =
      (.done (runAlone storage p cache).1, ((cache, out), b)) := by
  refine Prog.attempt_of_reads
    (c := fun s : (AccountStore × List Msg) × Batcher => s.1.1) ?_ p ((cache, out), b) h
  rintro o s ⟨a, -, rfl⟩
  exact ⟨rfl, rfl⟩

/-- An account goes to the cache, and then to the batches if they have room. -/
theorem attempt_addAccountToBatch_bind {account : Account} (f : Unit → BatcherM β) :
    (addAccountToBatch account >>= f).attempt (recordingBatches env checkSize storage)
        ((cache, out), b) =
      match b.addAccount checkSize account with
      | some b' => (f ()).attempt (recordingBatches env checkSize storage)
          ((handleCacheWrite cache account, out), b')
      | none => (.stuck (.insertAccount account), ((handleCacheWrite cache account, out), b)) := by
  change Prog.attempt _ (.op (E := effects) (.insertAccount account) _)
    ((handleCacheWrite cache account, out), b) = _
  cases hb : b.addAccount checkSize account with
  | some b' => exact Prog.attempt_beside_some hb
  | none => exact Prog.attempt_beside_none hb

theorem attempt_addAccountsToBatch_of_some (f : Unit → BatcherM β) :
    ∀ {l : List Account} {cache : AccountStore} {b : Batcher},
      b.addAccounts checkSize l = some b' →
      (addAccountsToBatch l >>= f).attempt (recordingBatches env checkSize storage)
          ((cache, out), b) =
        (f ()).attempt (recordingBatches env checkSize storage)
          ((l.foldl handleCacheWrite cache, out), b')
  | [], _, _, h => by
    cases h
    rfl
  | account :: l, cache, b, h => by
    obtain ⟨b₁, hb₁, hrest⟩ := Option.bind_eq_some_iff.1 h
    change (addAccountToBatch account >>= fun _ => addAccountsToBatch l >>= f).attempt _ _ = _
    rw [attempt_addAccountToBatch_bind, hb₁]
    exact attempt_addAccountsToBatch_of_some f hrest

theorem attempt_addAccountsToBatch_of_none (f : Unit → BatcherM β) :
    ∀ {l : List Account} {cache : AccountStore} {b : Batcher}, b.addAccounts checkSize l = none →
      ∃ op c b', (addAccountsToBatch l >>= f).attempt (recordingBatches env checkSize storage)
        ((cache, out), b) = (.stuck op, ((c, out), b'))
  | account :: l, cache, b, h => by
    change ∃ op c b', (addAccountToBatch account >>= fun _ => addAccountsToBatch l >>= f).attempt
      (recordingBatches env checkSize storage) ((cache, out), b) = _
    rw [attempt_addAccountToBatch_bind]
    cases hb : b.addAccount checkSize account with
    | none => exact ⟨_, _, _, rfl⟩
    | some b₁ =>
      have hrest : b₁.addAccounts checkSize l = none := by
        simpa only [Batcher.addAccounts, hb, Option.bind_some] using h
      exact attempt_addAccountsToBatch_of_none f hrest

/-- The validator's future sends its finding. -/
theorem attempt_pendingTransaction (hsend : tx.transactionType.isSend = true) :
    (pendingTransaction env tx).attempt (recordingBatches env checkSize storage)
        ((cache, out), b) =
      (.done (.ok ()), ((cache, out ++ [sendVerdict tx
        (checkedSend env tx (accounts storage cache tx.from))]), b)) := by
  have hreport : ∀ x, (report tx none x).attempt (recordingBatches env checkSize storage)
      ((cache, out), b) = (.done (.ok ()), ((cache, out ++ [sendVerdict tx x]), b)) := by
    rintro (e | ⟨⟩) <;> rfl
  have hread : ∀ f : Option Account → ValidatorM Unit,
      (getAccount tx.from >>= f).attempt (recordingBatches env checkSize storage)
          ((cache, out), b) =
        (f (accounts storage cache tx.from)).attempt (recordingBatches env checkSize storage)
          ((cache, out), b) :=
    fun f => rfl
  obtain ⟨n, htype⟩ := exists_send hsend
  unfold pendingTransaction
  rw [htype]
  dsimp only
  rw [hread]
  cases accounts storage cache tx.from with
  | none => exact hreport (.error "account does not exist")
  | some account => exact hreport (checkSend env tx account)

/-- The batcher's future goes on to its insertions if the accounts part goes through. -/
theorem attempt_addTransactionToAccount :
    (addTransactionToAccount env tx).attempt (recordingBatches env checkSize storage)
        ((cache, out), b) =
      match sentAccounts storage cache tx with
      | .ok r => (finishSend env tx r).attempt (recordingBatches env checkSize storage)
          ((cache, out), b)
      | .error e => (.done (.error e), ((cache, out), b)) := by
  rw [addTransactionToAccount_eq, Prog.attempt_bind, attempt_recording_of_reads sendAccounts_reads]
  unfold sentAccounts
  cases (runAlone storage (sendAccounts tx) cache).1 <;> rfl

/-- It sends its reports at the end, if the batches have room. -/
theorem attempt_finishSend_of_some {r : HashMap String Account × Token}
    (h : b.addSend env checkSize (sentList env.order r.1) tx = some b') :
    (finishSend env tx r).attempt (recordingBatches env checkSize storage) ((cache, out), b) =
      (.done (.ok ()), (((sentList env.order r.1).foldl handleCacheWrite cache,
        out ++ [.scheduler (.transactionApplied (env.hashString tx) r.2), .pending (.valid tx)]),
        b')) := by
  obtain ⟨b₁, hb₁, hb'⟩ := Option.bind_eq_some_iff.1 h
  unfold finishSend
  rw [show (env.order.iter r.1.entries).map Sigma.snd = sentList env.order r.1 from rfl,
    attempt_addAccountsToBatch_of_some _ hb₁]
  have hreport : (reportSend env tx r.2).attempt (recordingBatches env checkSize storage)
      (((sentList env.order r.1).foldl handleCacheWrite cache, out), b₁) =
        (.done (.ok ()),
          (((sentList env.order r.1).foldl handleCacheWrite cache, (out ++ [_]) ++ [_]), b')) :=
    Prog.attempt_beside_some hb'
  rw [hreport, List.append_assoc]
  rfl

theorem attempt_finishSend_of_none {r : HashMap String Account × Token}
    (h : b.addSend env checkSize (sentList env.order r.1) tx = none) :
    ∃ op c b', (finishSend env tx r).attempt (recordingBatches env checkSize storage)
      ((cache, out), b) = (.stuck op, ((c, out), b')) := by
  unfold finishSend
  rw [show (env.order.iter r.1.entries).map Sigma.snd = sentList env.order r.1 from rfl]
  rcases Option.bind_eq_none_iff.1 h with hb
  cases haccounts : b.addAccounts checkSize (sentList env.order r.1) with
  | none => exact attempt_addAccountsToBatch_of_none _ haccounts
  | some b₁ =>
    rw [attempt_addAccountsToBatch_of_some _ haccounts]
    exact ⟨_, _, _, Prog.attempt_beside_none (hb b₁ haccounts)⟩

/-- Where they have none, it stays at an insertion, and has sent nothing. -/
theorem attempt_stuckSend {order : HashOrder} {r : HashMap String Account × Token}
    (hsides : sentAccounts storage cache tx = .ok r)
    (hroom : b.addSend env checkSize (sentList order r.1) tx = none) :
    ∃ op c b', (addTransactionToAccount { env with order := order } tx).attempt
        (recordingBatches env checkSize storage) ((cache, []), b) = (.stuck op, ((c, []), b')) ∧
      runBatched { env with order := order } checkSize storage
        (addTransactionToAccount { env with order := order } tx) ⟨cache, b⟩ =
          (.stuck op, ⟨c, b'⟩) ∧
      stuckSend env checkSize storage order tx cache b = ⟨none, c, b', [], some op⟩ := by
  let env' : Env := { env with order := order }
  have hattempt := @attempt_addTransactionToAccount env' checkSize storage cache tx b []
  rw [hsides] at hattempt
  obtain ⟨op, c, b', hfinish⟩ :=
    @attempt_finishSend_of_none env' checkSize storage cache tx b [] r hroom
  have hstuck := hattempt.trans hfinish
  have halone : runBatched env' checkSize storage (addTransactionToAccount env' tx) ⟨cache, b⟩ =
      (.stuck op, ⟨c, b'⟩) := runBatched_eq_of_attempt hstuck
  refine ⟨op, c, b', hstuck, halone, ?_⟩
  unfold stuckSend
  rw [halone]

end Alone

/-! ## The node, left to itself -/

/-- An operation of the account cache, or a cast. -/
def Op.Plain : Op → Prop
  | .runContainer _ _ _ _ => False
  | .takeHandle _ => False
  | _ => True

theorem Op.Within.plain {R W : Set Address} {o : Op} (h : o.Within R W) : o.Plain := by
  cases o with
  | runContainer key thread t contentId => exact h
  | takeHandle key => exact h
  | _ => trivial

/-- The state is `w₀` but for the cache and the journal, and the messages in flight are those of
the record. -/
def OnlyCache (w₀ : World) (s : AccountStore × List Msg) (w : World) (mail : List Msg) : Prop :=
  s.2 = mail ∧ ∃ journal, w = { w₀ with
    cache := s.1
    journal := journal }

/-- The node gets there by itself, and the batches stay as they are. -/
abbrev NodeLeads (env : Env) (checkSize : Batch → Option ℕ) (storage : AccountStore) (b : Batcher)
    (c c' : NodeConfig) : Prop :=
  (node env storage).Leads (batchStore env checkSize) (c, b) (c', b)

/-- A future with plain operations does on the node what it does on the account cache. -/
theorem node_mirrors {job : Job} {w₀ : World} :
    (node env storage).Mirrors job Op.Plain (recording storage) (OnlyCache w₀) where
  answer {o s w mail} ho hR := by
    obtain ⟨-, journal, rfl⟩ := hR
    cases o with
    | runContainer key thread t contentId => exact ho.elim
    | takeHandle key => exact ho.elim
    | _ => rfl
  futures {o} w ho := by
    cases o with
    | runContainer key thread t contentId => exact ho.elim
    | takeHandle key => exact ho.elim
    | _ => rfl
  state {o s w mail} ho hR := by
    obtain ⟨rfl, journal, rfl⟩ := hR
    cases o with
    | cacheAccount account =>
      exact ⟨(List.append_nil _).symm, journal ++ job.entry account, rfl⟩
    | cast m => exact ⟨rfl, journal, rfl⟩
    | runContainer key thread t contentId => exact ho.elim
    | takeHandle key => exact ho.elim
    | _ => exact ⟨(List.append_nil _).symm, journal, rfl⟩

section Futures

variable {job : Job} {w : World} {casts : List Msg}

/-- The only future gets to where it gets alone, on the cache and the batches. -/
theorem leads_attempt {p : BatcherM Unit} (hp : p.Meets Op.Plain fun _ => True)
    {x : Outcome effects (Fault BatcherError) Unit} {c : AccountStore} {out : List Msg}
    (hx : p.attempt (recordingBatches env checkSize storage) ((w.cache, casts), b) =
      (x, ((c, out), b'))) :
    ∃ journal q, x.Leaves (batchStore env checkSize) b' q ∧
      (node env storage).Leads (batchStore env checkSize) (⟨w, casts, [⟨job, p⟩]⟩, b)
        (⟨{ w with
            cache := c
            journal := journal }, out, [⟨job, q⟩]⟩, b') := by
  obtain ⟨w', mail, q, ⟨hmail, j, rfl⟩, hq, hleads⟩ :=
    node_mirrors.leads hp (show OnlyCache w (w.cache, casts) w casts from ⟨rfl, w.journal, rfl⟩) hx
  cases hmail
  exact ⟨j, q, hq, hleads⟩

/-- A future of the engine or the validator runs to its end. -/
theorem leads_pooled {p : Async (Fault String) Unit} (hp : p.Meets Op.Plain fun _ => True)
    (hjob : ∀ w, World.finish job (.ok ()) w = some ⟨w, [], []⟩)
    {c : AccountStore} {out : List Msg}
    (hx : p.attempt (recordingBatches env checkSize storage) ((w.cache, casts), b) =
      (.done (.ok ()), ((c, out), b))) : ∃ journal,
    NodeLeads env checkSize storage b ⟨w, casts, [pooled job p]⟩
      ⟨{ w with
          cache := c
          journal := journal }, out, []⟩ := by
  obtain ⟨j, q, hq, hj⟩ := @leads_attempt env checkSize storage b b job w casts _ hp.mapErr _ _ _
    (Prog.attempt_mapErr_done (g := Fault.map BatcherError.custom) hx)
  cases hq
  let w' : World := { w with
    cache := c
    journal := j }
  have hfinish : NodeLeads env checkSize storage b ⟨w', out, [⟨job, .ofExcept (.ok ())⟩]⟩
      (ActorSystem.react out [] ⟨w', [], []⟩) := ActorSystem.leads_finish (hjob w')
  rw [ActorSystem.react, List.append_nil] at hfinish
  exact ⟨j, hj.trans hfinish⟩

end Futures

/-! ## The stages of a send -/

section Stages

variable {w : World} {port : ℕ} {response : RpcResponse}

/-- What the rest of a send finds : the scheduler keeps the port, and nothing waits. -/
structure World.Awaits (env : Env) (tx : Transaction) (port : ℕ) (w : World) : Prop where
  port : w.scheduler.ports.lookup (env.hashString tx) = some port
  idle : w.pending.pending.Idle

/-- The pending graph takes its message. -/
theorem leads_pending {m : PendingTransactionMessage} {casts : List Msg} (o : Oracle)
    (hcasts : (w.pending.handle env o.reading m).casts = casts) :
    NodeLeads env checkSize storage b ⟨w, [.pending m], []⟩
      ⟨{ w with pending := (w.pending.handle env o.reading m).state }, casts, []⟩ := by
  rw [← hcasts]
  exact ActorSystem.leads_deliver o

/-- What an idle graph sends where it takes no transaction in. -/
theorem casts_of_idle {m : PendingTransactionMessage} {reading : Reading}
    (hidle : w.pending.pending.Idle) (hm : PendingState.accepts m w.pending = []) :
    (w.pending.handle env reading m).casts = (w.pending.handle env reading m).others := by
  rw [PendingStep.casts, PendingState.scheduled_handle hidle, hm]
  rfl

/-- A send gets to the validator, and its finding is on the way. -/
theorem leads_verdict (hidle : w.pending.pending.Idle) (hsend : tx.transactionType.isSend = true)
    (port : ℕ) (o : Oracle) : ∃ w' : World, w'.Awaits env tx port ∧ w'.cache = w.cache ∧
      w'.scheduler.responses = w.scheduler.responses ∧ w'.ledger = w.ledger ∧
      NodeLeads env checkSize storage b ⟨w, [.scheduler (.send tx port)], []⟩
        ⟨w', [sendVerdict tx (checkedSend env tx (accounts storage w.cache tx.from))], []⟩ := by
  obtain ⟨n, htype⟩ := exists_send hsend
  -- the scheduler keeps the port, and the engine hands the transaction on
  let w₁ : World := { w with scheduler := (w.scheduler.forward env (.send tx) tx port).1 }
  have hscheduler : NodeLeads env checkSize storage b ⟨w, [.scheduler (.send tx port)], []⟩
      ⟨w₁, [.engine (.send tx)], []⟩ := ActorSystem.leads_deliver o
  have hengine : NodeLeads env checkSize storage b ⟨w₁, [.engine (.send tx)], []⟩
      ⟨w₁, [], [pooled .engine (Engine.setPendingTransaction tx none)]⟩ :=
    ActorSystem.leads_deliver o
  obtain ⟨j, hset⟩ : ∃ journal, NodeLeads env checkSize storage b
      ⟨w₁, [], [pooled .engine (Engine.setPendingTransaction tx none)]⟩
      ⟨{ w₁ with journal := journal }, [.pending (.new tx none)], []⟩ := by
    have hcast : (Engine.setPendingTransaction tx none).Meets Op.Plain fun _ => True :=
      ⟨trivial, fun _ => trivial⟩
    exact leads_pooled hcast (fun _ => rfl) rfl
  -- nothing waits in the graph, so the transaction goes to the validator at once
  let w₂ : World := { w₁ with journal := j }
  let step := w₂.pending.handle env o.reading (.new tx none)
  have hcasts : step.casts = [.validator (.pendingTransaction tx)] := by
    have hscheduled : step.scheduled = [(tx, none)] :=
      (PendingState.scheduled_handle hidle _).trans
        (if_neg fun h => by simp [htype, TransactionType.isBridgeIn] at h)
    have hothers : step.others = [] := by
      simp only [step, PendingState.handle]
      split_ifs <;> rfl
    rw [PendingStep.casts, hscheduled, hothers]
    simp [scheduleWithValidator, htype]
  let w₃ : World := { w₂ with pending := step.state }
  have hpending : NodeLeads env checkSize storage b ⟨w₂, [.pending (.new tx none)], []⟩
      ⟨w₃, [.validator (.pendingTransaction tx)], []⟩ := leads_pending o hcasts
  have hvalidator : NodeLeads env checkSize storage b
      ⟨w₃, [.validator (.pendingTransaction tx)], []⟩
      ⟨w₃, [], [pooled (.validator ⟨tx, none⟩) (pendingTransaction env tx)]⟩ :=
    ActorSystem.leads_deliver o
  have hplain : (pendingTransaction env tx).Meets Op.Plain fun _ => True := by
    unfold pendingTransaction
    rw [htype]
    refine meets_getAccount_bind trivial fun r _ => ?_
    cases r with
    | none => exact ⟨trivial, fun _ => trivial⟩
    | some account =>
      change (report tx none (checkSend env tx account)).Meets Op.Plain _
      cases checkSend env tx account <;> exact ⟨trivial, fun _ => trivial⟩
  obtain ⟨j', hcheck⟩ : ∃ journal, NodeLeads env checkSize storage b
      ⟨w₃, [], [pooled (.validator ⟨tx, none⟩) (pendingTransaction env tx)]⟩
      ⟨{ w₃ with journal := journal },
        [] ++ [sendVerdict tx (checkedSend env tx (accounts storage w.cache tx.from))], []⟩ :=
    leads_pooled hplain (fun _ => rfl) (attempt_pendingTransaction hsend)
  refine ⟨{ w₃ with journal := j' }, ⟨AList.lookup_insert _, ?_⟩, rfl, rfl, rfl, ?_⟩
  · exact PendingState.idle_handle hidle _
  · exact hscheduler.trans (hengine.trans (hset.trans (hpending.trans (hvalidator.trans hcheck))))

/-- The scheduler answers the port. -/
theorem leads_answer {m : SchedulerMessage} {mail : List Msg} (hw : w.Awaits env tx port)
    (o : Oracle) (hm : w.scheduler.handle env m =
      (w.scheduler.respond (env.hashString tx) response, [])) :
    ∃ w' : World, w'.pending = w.pending ∧ w'.cache = w.cache ∧
      w'.scheduler.responses = w.scheduler.responses ++ [(port, response)] ∧
      w'.ledger = w.ledger ∧
      NodeLeads env checkSize storage b ⟨w, .scheduler m :: mail, []⟩ ⟨w', mail, []⟩ := by
  let w' : World := { w with scheduler := w.scheduler.respond (env.hashString tx) response }
  have hleads : NodeLeads env checkSize storage b ⟨w, .scheduler m :: mail, []⟩
      (ActorSystem.react mail [] (World.handle env o (.scheduler m) w)) :=
    ActorSystem.leads_deliver o
  have hreact : ActorSystem.react mail [] (World.handle env o (.scheduler m) w) =
      (⟨w', mail, []⟩ : NodeConfig) := by
    simp only [World.handle, hm, ActorSystem.react, List.append_nil, w']
  rw [hreact] at hleads
  refine ⟨w', rfl, rfl, ?_, rfl, hleads⟩
  simp only [w', SchedulerState.respond, hw.port]

/-- A transaction that failed is answered with its error. -/
theorem leads_rejected (hw : w.Awaits env tx port) (o : Oracle) (e : String) :
    ∃ w' : World, w'.cache = w.cache ∧
      w'.scheduler.responses = w.scheduler.responses ++ [(port, .transactionError e)] ∧
      w'.ledger = w.ledger ∧
      NodeLeads env checkSize storage b ⟨w, [.pending (.invalid tx e)], []⟩ ⟨w', [], []⟩ := by
  let w₁ : World := { w with pending := (w.pending.handle env o.reading (.invalid tx e)).state }
  have hpending : NodeLeads env checkSize storage b ⟨w, [.pending (.invalid tx e)], []⟩
      ⟨w₁, [.scheduler (.sendTransactionFailure (env.hashString tx) e)], []⟩ :=
    leads_pending o (casts_of_idle hw.idle rfl)
  have hw₁ : w₁.Awaits env tx port := ⟨hw.port, PendingState.idle_handle hw.idle _⟩
  obtain ⟨w', -, hcache, hresponses, hledger, hanswer⟩ :=
    @leads_answer env checkSize storage tx b w₁ port (.transactionError e)
      (.sendTransactionFailure (env.hashString tx) e) [] hw₁ o rfl
  exact ⟨w', hcache, hresponses, hledger, hpending.trans hanswer⟩

/-- The node has done with a request on port `port` that found the state `w`. -/
structure Serves (env : Env) (checkSize : Batch → Option ℕ) (storage : AccountStore)
    (order : HashOrder) (tx : Transaction) (w : World) (port : ℕ) (r : SendOutcome)
    (c : NodeConfig) (b : Batcher) : Prop where
  mail : c.mail = []
  cache : c.world.cache = r.cache
  batches : b = r.batches
  responses : c.world.scheduler.responses =
    w.scheduler.responses ++ (r.response.map fun response => (port, response)).toList
  ledger : c.world.ledger = w.ledger ++ r.applied
  quiet : r.response.isSome → c.futures = []
  stays : ∀ op, r.stays = some op →
    (node env storage).Halted (batchStore env checkSize) (c, b) ∧
      ∃ k, c.futures = [⟨.batcher order ⟨tx, none⟩, .op op k⟩]

/-- A transaction that failed is answered with its error, and the node is at rest. -/
theorem leads_failed (hw : w.Awaits env tx port) (o : Oracle) (e : String) (order : HashOrder) :
    ∃ c, NodeLeads env checkSize storage b ⟨w, [.pending (.invalid tx e)], []⟩ c ∧
      Serves env checkSize storage order tx w port
        ⟨some (.transactionError e), w.cache, b, [], none⟩ c b := by
  obtain ⟨w', hcache, hresponses, hledger, hleads⟩ :=
    @leads_rejected env checkSize storage tx b w port hw o e
  refine ⟨_, hleads, rfl, hcache, rfl, hresponses, hledger.trans (List.append_nil _).symm,
    fun _ => rfl, fun op h => ?_⟩
  cases h

/-- A transaction that went through is answered with its token, and the graph lets it go. -/
theorem leads_reported (hw : w.Awaits env tx port) (o : Oracle) (token : Token)
    (order : HashOrder) :
    ∃ c, NodeLeads env checkSize storage b
        ⟨w, [.scheduler (.transactionApplied (env.hashString tx) token), .pending (.valid tx)], []⟩
        c ∧
      Serves env checkSize storage order tx w port
        ⟨some (.sendResponse token), w.cache, b, [], none⟩ c b := by
  obtain ⟨w₁, hpending, hcache, hresponses, hledger, hanswer⟩ :=
    @leads_answer env checkSize storage tx b w port (.sendResponse token)
      (.transactionApplied (env.hashString tx) token) [.pending (.valid tx)] hw o rfl
  have hidle : w₁.pending.pending.Idle := hpending ▸ hw.idle
  have hvalid : NodeLeads env checkSize storage b ⟨w₁, [.pending (.valid tx)], []⟩ ⟨_, [], []⟩ :=
    leads_pending o (casts_of_idle hidle rfl)
  refine ⟨_, hanswer.trans hvalid, rfl, hcache, rfl, hresponses,
    hledger.trans (List.append_nil _).symm, fun _ => rfl, fun op h => ?_⟩
  cases h

/-- The batcher puts the future for a send into its pool. -/
theorem leads_taken (hsend : tx.transactionType.isSend = true) (o : Oracle) :
    NodeLeads env checkSize storage b ⟨w, [.batcher (.appendTransaction tx none)], []⟩
      ⟨w, [], [⟨.batcher o.reading.order ⟨tx, none⟩,
        addTransactionToAccount { env with order := o.reading.order } tx⟩]⟩ := by
  have hfutures : World.batcherFutures env o.reading.order ⟨tx, none⟩ =
      [⟨.batcher o.reading.order ⟨tx, none⟩,
        addTransactionToAccount { env with order := o.reading.order } tx⟩] := by
    obtain ⟨n, htype⟩ := exists_send hsend
    simp only [World.batcherFutures, appendTransaction, htype]
  have h : NodeLeads env checkSize storage b ⟨w, [.batcher (.appendTransaction tx none)], []⟩
      ⟨w, [], World.batcherFutures env o.reading.order ⟨tx, none⟩⟩ :=
    ActorSystem.leads_deliver o
  rwa [hfutures] at h

theorem addTransactionToAccount_plain :
    (addTransactionToAccount env tx).Meets Op.Plain fun _ => True :=
  (addTransactionToAccount_within (Set.Subset.refl _) (Set.mem_univ _) (Set.mem_univ _)
    (Set.mem_univ _)).mono (fun _ ho => ho.plain) fun _ h => h

/-- The batcher works on a send that was accepted, and reports it. -/
theorem leads_batchSend (hw : w.Awaits env tx port) (hsend : tx.transactionType.isSend = true)
    (o : Oracle) :
    ∃ c b', (node env storage).Leads (batchStore env checkSize)
        (⟨w, [.batcher (.appendTransaction tx none)], []⟩, b) (c, b') ∧
      Serves env checkSize storage o.reading.order tx w port
        (batchSend env checkSize storage o.reading.order tx w.cache b) c b' := by
  let env' : Env := { env with order := o.reading.order }
  let job : Job := .batcher o.reading.order ⟨tx, none⟩
  have htaken : NodeLeads env checkSize storage b ⟨w, [.batcher (.appendTransaction tx none)], []⟩
      ⟨w, [], [⟨job, addTransactionToAccount env' tx⟩]⟩ := leads_taken hsend o
  have hworked : ∀ {x : Outcome effects (Fault BatcherError) Unit} {c : AccountStore}
      {out : List Msg} {b' : Batcher}, (addTransactionToAccount env' tx).attempt
        (recordingBatches env checkSize storage) ((w.cache, []), b) = (x, ((c, out), b')) → _ :=
    fun hx => @leads_attempt env checkSize storage b _ job w [] _ addTransactionToAccount_plain
      _ _ _ hx
  have hattempt := @attempt_addTransactionToAccount env' checkSize storage w.cache tx b []
  unfold batchSend
  cases hsides : sentAccounts storage w.cache tx with
  | ok r =>
    rw [hsides] at hattempt
    dsimp only at hattempt ⊢
    cases hroom : b.addSend env checkSize (sentList o.reading.order r.1) tx with
    | some b' =>
      have hdone := hattempt.trans
        (@attempt_finishSend_of_some env' checkSize storage w.cache tx b b' [] r hroom)
      obtain ⟨j, q, hq, hleads⟩ := hworked hdone
      cases hq
      let w₁ : World := { w with
        cache := (sentList o.reading.order r.1).foldl handleCacheWrite w.cache
        journal := j
        ledger := w.ledger ++ [(o.reading.order, ⟨tx, none⟩)] }
      let reports : List Msg :=
        [.scheduler (.transactionApplied (env.hashString tx) r.2), .pending (.valid tx)]
      have hended : (node env storage).Leads (batchStore env checkSize) _
          (ActorSystem.react reports [] ⟨w₁, [], []⟩, b') :=
        hleads.trans (ActorSystem.leads_finish rfl)
      obtain ⟨c, hreported, hserves⟩ :=
        @leads_reported env checkSize storage tx b' w₁ port ⟨hw.port, hw.idle⟩ o r.2
          o.reading.order
      exact ⟨c, b', htaken.trans (hended.trans hreported), hserves.mail, hserves.cache, rfl,
        hserves.responses, hserves.ledger.trans (List.append_nil _), hserves.quiet, hserves.stays⟩
    | none =>
      obtain ⟨op, c, b', hstuck, -, hserve⟩ := attempt_stuckSend hsides hroom
      obtain ⟨j, q, ⟨⟨k, rfl⟩, hrefused⟩, hleads⟩ := hworked hstuck
      dsimp only
      rw [hserve]
      refine ⟨_, b', htaken.trans hleads, rfl, rfl, rfl, (List.append_nil _).symm,
        (List.append_nil _).symm, fun h => ?_, fun op' h => ?_⟩
      · cases h
      · cases h
        exact ⟨ActorSystem.halted_of_refused hrefused, k, rfl⟩
  | error e =>
    rw [hsides] at hattempt
    obtain ⟨j, q, hq, hleads⟩ := hworked hattempt
    cases hq
    rcases sendAccounts_fails hsides with rfl | ⟨msg, rfl⟩
    · refine ⟨_, b, htaken.trans hleads, rfl, rfl, rfl, (List.append_nil _).symm,
        (List.append_nil _).symm, fun h => ?_, fun op h => ?_⟩
      · cases h
      · cases h
    · let w₁ : World := { w with journal := j }
      have hdone : NodeLeads env checkSize storage b _
          (ActorSystem.react [] [] ⟨w₁, [.pending (.invalid tx msg)], []⟩) :=
        hleads.trans (ActorSystem.leads_finish rfl)
      obtain ⟨c, hfailed, hserves⟩ :=
        @leads_failed env checkSize storage tx b w₁ port ⟨hw.port, hw.idle⟩ o msg o.reading.order
      exact ⟨c, b, htaken.trans (hdone.trans hfailed), hserves.mail, hserves.cache, rfl,
        hserves.responses, hserves.ledger, hserves.quiet, hserves.stays⟩

/-- The node gets to what a send comes to. -/
theorem leads_serveSend (hidle : w.pending.pending.Idle)
    (hsend : tx.transactionType.isSend = true) (port : ℕ) (o : Oracle) :
    ∃ c b', (node env storage).Leads (batchStore env checkSize)
        (⟨w, [.scheduler (.send tx port)], []⟩, b) (c, b') ∧
      Serves env checkSize storage o.reading.order tx w port
        (serveSend env checkSize storage o.reading.order tx w.cache b) c b' := by
  obtain ⟨w', hw, hcache, hresponses, hledger, hverdict⟩ :=
    @leads_verdict env checkSize storage tx b w hidle hsend port o
  have hserves : ∀ {r : SendOutcome} {c : NodeConfig} {b' : Batcher},
      Serves env checkSize storage o.reading.order tx w' port r c b' →
        Serves env checkSize storage o.reading.order tx w port r c b' := by
    rintro r c b' ⟨hmail, hstore, hbatches, hanswers, happlied, hquiet, hstays⟩
    exact ⟨hmail, hstore, hbatches, hresponses ▸ hanswers, hledger ▸ happlied, hquiet, hstays⟩
  unfold serveSend
  cases hcheck : checkedSend env tx (accounts storage w.cache tx.from) with
  | error e =>
    rw [hcheck] at hverdict
    obtain ⟨c, hleads, hc⟩ :=
      @leads_failed env checkSize storage tx b w' port hw o e o.reading.order
    rw [hcache] at hc
    exact ⟨c, b, hverdict.trans hleads, hserves hc⟩
  | ok u =>
    rw [hcheck] at hverdict
    obtain ⟨c, b', hleads, hc⟩ :=
      @leads_batchSend env checkSize storage tx b w' port hw hsend o
    rw [hcache] at hc
    exact ⟨c, b', hverdict.trans hleads, hserves hc⟩

end Stages

/-! ## What becomes of a send -/

section Served

variable {order : HashOrder}

/-- The token of the response is the one the sender's side has made. -/
theorem sentAccounts_token {r : HashMap String Account × Token}
    (h : sentAccounts storage cache tx = .ok r) :
    ∃ sender, runAlone storage (debitSender tx) cache = (.ok sender, cache) ∧ sender.2 = r.2 := by
  have hrun : runAlone storage (sendAccounts tx) cache = (.ok r, _) := Prod.ext h rfl
  obtain ⟨sender, c, hsender, h₁⟩ := runAlone_bind_ok hrun
  obtain ⟨rfl, -⟩ := debitSender_ok hsender
  obtain ⟨buffer, c', -, h₂⟩ := runAlone_bind_ok h₁
  cases h₂
  exact ⟨sender, hsender, rfl⟩

/-- What the batcher's future does to the cache, and how it ends. -/
theorem runAlone_addTransactionToAccount :
    runAlone storage (addTransactionToAccount env tx) cache =
      match sentAccounts storage cache tx with
      | .ok r => (.ok (), (sentList env.order r.1).foldl handleCacheWrite cache)
      | .error e => (.error e, cache) := by
  have hcache : (runAlone storage (sendAccounts tx) cache).2 = cache :=
    runAlone_of_reads sendAccounts_reads storage cache
  unfold sentAccounts
  unfold runAlone at hcache ⊢
  rw [addTransactionToAccount_eq, Prog.run_bind]
  rcases hsides : Prog.run (cacheHandler storage).handler (sendAccounts tx) cache with ⟨e | r, c⟩
  · rw [hsides] at hcache
    cases hcache
    rfl
  · rw [hsides] at hcache
    cases hcache
    exact runAlone_finishSend env tx r

/-- A send that is accepted passes its checks. -/
theorem checkedSend_ok_iff (hsend : tx.transactionType.isSend = true) :
    checkedSend env tx (accounts storage cache tx.from) = .ok () ↔
      AcceptsSend env storage cache tx := by
  rw [acceptsSend_iff]
  cases accounts storage cache tx.from with
  | none => simp [checkedSend]
  | some account => simp [checkedSend, hsend]

/-- A send goes through if it is accepted, fits and finds room, and stays where it finds none.
It leaves the cache and the batches alone otherwise. -/
theorem serveSend_cases (hsend : tx.transactionType.isSend = true) :
    (AcceptsSend env storage cache tx ∧ SendFits (accounts storage cache) tx ∧
        ∃ sender buffer, runAlone storage (debitSender tx) cache = (.ok sender, cache) ∧
          sentAccounts storage cache tx = .ok (buffer, sender.2) ∧
          ((∃ b', b.addSend env checkSize (sentList order buffer) tx = some b' ∧
              serveSend env checkSize storage order tx cache b = ⟨some (.sendResponse sender.2),
                (runAlone storage (addTransactionToAccount { env with order := order } tx)
                  cache).2, b', [(order, ⟨tx, none⟩)], none⟩) ∨
            b.addSend env checkSize (sentList order buffer) tx = none ∧
              ∃ op s, runBatched { env with order := order } checkSize storage
                  (addTransactionToAccount { env with order := order } tx) ⟨cache, b⟩ =
                    (.stuck op, s) ∧
                serveSend env checkSize storage order tx cache b =
                  ⟨none, s.cache, s.batcher, [], some op⟩)) ∨
      (¬(AcceptsSend env storage cache tx ∧ SendFits (accounts storage cache) tx) ∧
        ((∃ e, serveSend env checkSize storage order tx cache b =
            ⟨some (.transactionError e), cache, b, [], none⟩) ∨
          AcceptsSend env storage cache tx ∧
            (runAlone storage (addTransactionToAccount env tx) cache).1 = .error .panic ∧
            serveSend env checkSize storage order tx cache b = ⟨none, cache, b, [], none⟩)) := by
  unfold serveSend
  cases hcheck : checkedSend env tx (accounts storage cache tx.from) with
  | error e =>
    refine Or.inr ⟨fun h => ?_, Or.inl ⟨e, rfl⟩⟩
    cases hcheck.symm.trans ((checkedSend_ok_iff hsend).2 h.1)
  | ok u =>
    have hacc : AcceptsSend env storage cache tx := (checkedSend_ok_iff hsend).1 hcheck
    have happlies : (runAlone storage (addTransactionToAccount env tx) cache).1 = .ok () ↔ _ :=
      send_applies_iff hacc
    rw [runAlone_addTransactionToAccount] at happlies
    simp only [batchSend, runAlone_addTransactionToAccount]
    cases hsides : sentAccounts storage cache tx with
    | ok r =>
      rw [hsides] at happlies
      obtain ⟨sender, hsender, htoken⟩ := sentAccounts_token hsides
      have hpair : (Except.ok r : Except (Fault BatcherError) _) = .ok (r.1, sender.2) := by
        rw [htoken]
      refine Or.inl ⟨hacc, happlies.1 rfl, sender, r.1, hsender, hpair, ?_⟩
      dsimp only
      cases hroom : b.addSend env checkSize (sentList order r.1) tx with
      | some b' => exact Or.inl ⟨b', rfl, by rw [htoken]⟩
      | none =>
        obtain ⟨op, c, b', -, halone, hserve⟩ := attempt_stuckSend hsides hroom
        exact Or.inr ⟨rfl, op, ⟨c, b'⟩, halone, hserve⟩
    | error e =>
      rw [hsides] at happlies
      have hno : ¬(AcceptsSend env storage cache tx ∧ SendFits (accounts storage cache) tx) := by
        rintro ⟨-, hfits⟩
        cases happlies.2 hfits
      refine Or.inr ⟨hno, ?_⟩
      rcases sendAccounts_fails hsides with rfl | ⟨msg, rfl⟩
      · exact Or.inr ⟨hacc, rfl, rfl⟩
      · exact Or.inl ⟨msg, rfl⟩

end Served

/-- A send of 1 ETH that comes in on port 3, with these batches. -/
def smallRequest (b : Batcher) : NodeConfig × Batcher :=
  ({ NodeConfig.start tenEth with
    mail := [.scheduler (.send (ethSend 7#160 8#160 4#256 1#256) 3)] }, b)

/-- A parent with one child, both empty. -/
def emptyBatches : Batcher := ⟨Batch.new, [Batch.new]⟩

end Lasr
