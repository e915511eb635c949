import Lasr.Budget
import Lasr.Causality
import Lasr.Scheduling

/-!
# Chain events and bridge-ins

A bridge-in is unsigned. The engine builds one from each chain event, and the
pending-transaction actor drops a `New` for one it has seen. From there on it weighs one : the
validator hands it on at most once, and the batcher writes for it at most once, since its
sender is its receiver (`bridge_affords`). In the other direction every chain event is carried
to the list of those seen, and from it to a write of the batcher, unless the user's account
cannot take the credit (`up_delivers`, `down_delivers`).

So the bridge-ins applied are the distinct chain events, as long as no request brings a
transaction of that type itself (`bridge_backing`). Nothing in the node looks at that.
-/

set_option linter.unusedSectionVars false

namespace Lasr

open ActorSystem

/-! ## What is credited, and what backs it -/

/-- The transactions the batcher's futures have written for, one for each write. -/
def World.applied (w : World) : List Transaction :=
  w.journal.map fun e => e.1.transaction

/-- The bridge-ins among them. -/
def World.bridgedIn (w : World) : List Transaction :=
  w.applied.filter fun tx => tx.transactionType.isBridgeIn

/-- The sum of the values the applied bridge-ins credit for a token. -/
def World.credited (w : World) (token : Address) : ℕ :=
  ((w.bridgedIn.filter fun tx => tx.programId = token).map fun tx => tx.value.toNat).sum

/-- What tells chain events apart : the event id, the user, the program and the amount. -/
def BridgeEvent.key (e : BridgeEvent) : U256 × Address × Address × U256 :=
  (e.bridgeEventId, e.user, e.programId, e.amount)

/-- The chain events of a message. -/
def Msg.events : Msg → List BridgeEvent
  | .engine (.eoEvent (.bridge log)) => log
  | _ => []

/-- The chain events a run takes in. -/
def ingested (chs : List NodeChoice) : List BridgeEvent :=
  (injected chs).flatMap Msg.events

/-- The sum of the amounts of the distinct chain events for a token. -/
def backing (chs : List NodeChoice) (token : Address) : ℕ :=
  ((((ingested chs).map BridgeEvent.key).dedup.filter fun k => k.2.2.1 = token).map
    fun k => k.2.2.2.toNat).sum

/-- The transaction of the events with a key. -/
def bridgeOf (k : U256 × Address × Address × U256) : Transaction :=
  Engine.bridgeTransaction ⟨k.2.1, k.2.2.1, k.2.2.2, 0#256, "", k.1⟩

theorem bridgeOf_injective : Function.Injective bridgeOf := by
  rintro ⟨n, user, programId, amount⟩ ⟨n', user', programId', amount'⟩ h
  simp only [bridgeOf, Engine.bridgeTransaction, Transaction.mk.injEq] at h
  obtain ⟨-, hfrom, -, hprogram, -, -, hvalue, hnonce, -⟩ := h
  simp [hfrom, hprogram, hvalue, hnonce]

/-! ## Where a bridge-in can come from -/

/-- The transaction a message carries on the road of a request. -/
def Msg.requested : Msg → Option Transaction
  | .scheduler (.call tx _) => some tx
  | .scheduler (.send tx _) => some tx
  | .scheduler (.registerProgram tx _) => some tx
  | .engine (.call tx) => some tx
  | .engine (.send tx) => some tx
  | .engine (.registerProgram tx) => some tx
  | .engine (.callSuccess tx _ _) => some tx
  | .executor (.create tx _) => some tx
  | .executor (.set tx) => some tx
  | .executor (.exec tx) => some tx
  | .executor (.results tx _ _ _) => tx
  | .pending (.newCall tx) => some tx
  | .pending (.execSuccess tx) => some tx
  | _ => none

/-- The transaction a message carries after the engine. -/
def Msg.admitted : Msg → Option Transaction
  | .pending (.new tx _) => some tx
  | .validator m => some m.append.transaction
  | .batcher (.appendTransaction tx _) => some tx
  | _ => none

theorem Msg.IsReport.carries {m : Msg} (h : m.IsReport) :
    m.requested = none ∧ m.admitted = none ∧ m.events = [] := by
  cases m with
  | scheduler m => cases m <;> first | exact h.elim | exact ⟨rfl, rfl, rfl⟩
  | pending m => cases m <;> first | exact h.elim | exact ⟨rfl, rfl, rfl⟩
  | _ => exact h.elim

theorem scheduleWithValidator_transaction {s : Scheduled} {m : ValidatorMessage}
    (h : scheduleWithValidator s = some m) : m.append.transaction = s.1 := by
  unfold scheduleWithValidator at h
  split at h <;> cases h <;> rfl

/-- What a message carries it has from the one it goes back to. -/
theorem Causes.carries {env : Env} {m m' : Msg} (h : Causes env m m') :
    (∀ tx, m'.requested = some tx → m.requested = some tx) ∧
      (∀ tx, m'.admitted = some tx → m.requested = some tx ∨ m.admitted = some tx ∨
        ∃ e ∈ m.events, tx = Engine.bridgeTransaction e) ∧ m'.events = [] := by
  cases h with
  | report h =>
    obtain ⟨hreq, hadm, hev⟩ := h.carries
    exact ⟨by simp [hreq], by simp [hadm], hev⟩
  | newBridge h =>
    refine ⟨by simp [Msg.requested], fun tx htx => Or.inr (Or.inr ?_), rfl⟩
    cases htx
    exact ⟨_, h, rfl⟩
  | schedule h =>
    refine ⟨by simp [Msg.requested], fun tx htx => Or.inr (Or.inl ?_), rfl⟩
    cases htx
    rw [scheduleWithValidator_transaction h]
    rfl
  | append h => exact ⟨by simp [Msg.requested], fun tx htx => Or.inr (Or.inl htx), rfl⟩
  | newSend => exact ⟨by simp [Msg.requested], fun tx htx => Or.inl htx, rfl⟩
  | newResult => exact ⟨by simp [Msg.requested], fun tx htx => Or.inl htx, rfl⟩
  | register => exact ⟨by simp [Msg.requested], fun tx htx => Or.inl htx, rfl⟩
  | _ => exact ⟨fun tx htx => htx, by simp [Msg.admitted], rfl⟩

/-- No request has a bridge-in, and every other bridge-in is that of an event. -/
structure Msg.Backed (events : List BridgeEvent) (m : Msg) : Prop where
  requested : ∀ tx, m.requested = some tx → tx.transactionType.isBridgeIn = false
  admitted : ∀ tx, m.admitted = some tx → tx.transactionType.isBridgeIn = true →
    tx ∈ events.map Engine.bridgeTransaction
  events : m.events ⊆ events

theorem backed_closed {env : Env} (events : List BridgeEvent) :
    Closed env (Msg.Backed events) := by
  refine ⟨fun {m m'} hm h => ?_⟩
  obtain ⟨hreq, hadm, hev⟩ := h.carries
  refine ⟨fun tx htx => hm.requested tx (hreq tx htx), fun tx htx hbridge => ?_, ?_⟩
  · rcases hadm tx htx with hr | ha | ⟨e, he, rfl⟩
    · rw [hm.requested tx hr] at hbridge
      cases hbridge
    · exact hm.admitted tx ha hbridge
    · exact List.mem_map_of_mem (hm.events he)
  · rw [hev]
    exact List.nil_subset _

/-- A message from outside that brings no bridge-in of its own. -/
def Msg.NoBridgeIn (m : Msg) : Prop :=
  ∀ tx, m.requested = some tx → tx.transactionType.isBridgeIn = false

theorem Msg.External.admitted {m : Msg} (h : m.External) : m.admitted = none := by
  cases m with
  | scheduler m => cases m <;> first | exact h.elim | rfl
  | engine m => rfl
  | pending m => cases m <;> first | exact h.elim | rfl
  | _ => exact h.elim

theorem Msg.NoBridgeIn.backed {chs : List NodeChoice} {m : Msg} (hm : m ∈ injected chs)
    (hext : m.External) (h : m.NoBridgeIn) : m.Backed (ingested chs) := by
  refine ⟨h, fun tx htx => ?_, fun e he => List.mem_flatMap.2 ⟨m, hm, he⟩⟩
  rw [hext.admitted] at htx
  cases htx

/-- The transaction of an event is a bridge-in of its user to itself. -/
theorem bridgeTransaction_self {events : List BridgeEvent} {tx : Transaction}
    (h : tx ∈ events.map Engine.bridgeTransaction) :
    tx.transactionType.isBridgeIn = true ∧ tx.to = tx.from := by
  obtain ⟨e, -, rfl⟩ := List.mem_map.1 h
  exact ⟨rfl, rfl⟩

/-! ## At most once -/

/-- Whether the future works for `tx`. -/
def Job.worksFor (tx : Transaction) (job : Job) : Prop :=
  ∃ m, job.appending = some m ∧ m.transaction = tx

open Classical in
/-- A message to the validator or the batcher about `tx` weighs one. -/
noncomputable def Msg.bears (tx : Transaction) : Msg → ℕ∞
  | .validator m => if m.append.transaction = tx then 1 else 0
  | .batcher (.appendTransaction t _) => if t = tx then 1 else 0
  | _ => 0

open Classical in
/-- To cast such a message weighs one, and so does a write of a future that works for `tx`. -/
noncomputable def Job.spends (tx : Transaction) (job : Job) : Op → ℕ∞
  | .cast m => m.bears tx
  | .cacheAccount _ => if job.worksFor tx then 1 else 0
  | _ => 0

/-- How often the batcher has written for `tx`. -/
def World.writes (tx : Transaction) (w : World) : ℕ :=
  w.applied.count tx

/-- Whether the pending-transaction actor has seen the bridge-in `tx`, as a number. -/
def World.seen (tx : Transaction) (w : World) : ℕ :=
  if w.pending.bridgeInTransactions.contains tx then 1 else 0

section AtMostOnce

variable {env : Env} {storage : AccountStore} {events : List BridgeEvent} {tx : Transaction}

theorem Msg.IsReport.bears {m : Msg} (h : m.IsReport) : m.bears tx = 0 := by
  cases m with
  | scheduler m => rfl
  | pending m => rfl
  | _ => exact h.elim

theorem Msg.External.bears {m : Msg} (h : m.External) : m.bears tx = 0 := by
  cases m with
  | scheduler m => rfl
  | engine m => rfl
  | pending m => rfl
  | _ => exact h.elim

/-- No message of the road of requests leads to one about a bridge-in. -/
theorem Causes.bears_eq_zero (htx : tx.transactionType.isBridgeIn = true) {m m' : Msg}
    (hm : m.Backed events) (hadm : m.admitted = none) (h : Causes env m m') :
    m'.bears tx = 0 := by
  cases h with
  | report h => exact h.bears
  | @register t contentId =>
    have hne : t ≠ tx := by
      rintro rfl
      rw [hm.requested t rfl] at htx
      cases htx
    exact if_neg hne
  | schedule h => cases hadm
  | append h => cases hadm
  | _ => rfl

/-- A future that is not the batcher's, on the road of requests, spends nothing. -/
theorem uses_pooled (htx : tx.transactionType.isBridgeIn = true) {m : Msg}
    (hm : m.Backed events) (hadm : m.admitted = none) {job : Job} {p : Async (Fault String) Unit}
    (hp : p.Meets (Op.Serving (Causes env m)) fun _ => True) :
    (pooled job p).prog.uses (job.spends tx) = 0 := by
  refine Prog.uses_eq_zero (hp.mono (fun o ho => ?_) fun _ h => h).mapErr
  cases o with
  | cast m' => exact (ho.sending m' rfl).bears_eq_zero htx hm hadm
  | cacheAccount account => exact absurd rfl (ho.silent account)
  | _ => rfl

/-- The validator hands a transaction on at most once, and no other. -/
theorem uses_validator {m : ValidatorMessage} {p : ValidatorM Unit}
    (h : validatorFuture env m = some p) :
    (pooled (.validator m.append) p).prog.uses (Job.spends tx (.validator m.append)) ≤
      Msg.bears tx (.validator m) := by
  have hcast : ∀ m', Causes env (.validator m) m' → m'.bears tx ≤ Msg.bears tx (.validator m) := by
    intro m' hm'
    cases hm' with
    | report h =>
      rw [h.bears]
      exact zero_le
    | append h => exact le_rfl
  refine Prog.uses_le_of_last (C := Op.IsCast) (fun o ho => ?_) (fun o ho => ?_)
    (validator_causes h).mapErr (validator_last h).mapErr
  · cases o with
    | cast m' => exact hcast m' (ho.sending m' rfl)
    | cacheAccount account => exact absurd rfl (ho.silent account)
    | _ => exact zero_le
  · cases o with
    | cast m' => exact absurd trivial ho
    | cacheAccount account =>
      refine if_neg ?_
      rintro ⟨a, ha, -⟩
      cases ha
    | _ => rfl

theorem HashOrder.iter_singleton {α : Type} (order : HashOrder) (x : α) : order.iter [x] = [x] :=
  List.perm_singleton.1 (order.perm [x])

/-- The receiver's side of a bridge-in to oneself does nothing. -/
theorem creditSide_bridgeIn (htx : tx.transactionType.isBridgeIn = true) (hself : tx.to = tx.from)
    (buffer : HashMap String Account) : creditSide tx buffer = pure buffer := by
  unfold creditSide
  rw [if_neg (not_not.2 hself), if_neg (not_not.2 htx)]

/-- What a bridge-in to oneself does after its account was computed. -/
def bridgeWrites (env : Env) (tx : Transaction) (r : Account × Token) : BatcherM Unit := do
  addAccountToBatch r.1
  addTransactionToBatch tx
  cast (.scheduler (.transactionApplied (env.hashString tx) r.2))
  cast (.pending (.valid tx))

/-- A bridge-in to oneself computes one account, and writes it. -/
theorem addTransactionToAccount_bridgeIn (htx : tx.transactionType.isBridgeIn = true)
    (hself : tx.to = tx.from) :
    addTransactionToAccount env tx = debitSender tx >>= bridgeWrites env tx := by
  unfold addTransactionToAccount
  congr 1
  funext ⟨account, token⟩
  simp only [creditSide_bridgeIn htx hself, Prog.pure_eq, Prog.ret_bind]
  have hentries : ((∅ : HashMap String Account).insert (Address.toFullString tx.from)
      account).entries = [⟨Address.toFullString tx.from, account⟩] := rfl
  rw [hentries, env.order.iter_singleton]
  rfl

/-- A bridge-in to oneself writes once. -/
theorem uses_bridgeIn (htx : tx.transactionType.isBridgeIn = true) (hself : tx.to = tx.from)
    {w : Op → ℕ∞} (hzero : ∀ o : Op, o.Within Set.univ ∅ → w o = 0)
    (hone : ∀ account, w (.cacheAccount account) ≤ 1) :
    (addTransactionToAccount env tx).uses w ≤ 1 := by
  have hreads : (debitSender tx).Meets (Op.Reads Set.univ) fun r => r.1.address = tx.from :=
    debitSender_reads (Set.mem_univ _) (Set.mem_univ _)
  have hdebit : (debitSender tx).uses w = 0 :=
    Prog.uses_eq_zero (hreads.mono (fun o ho => hzero o ho.within) fun _ h => h)
  have hwrites : ∀ r, (bridgeWrites env tx r).uses w ≤ 1 := by
    intro r
    have hrest : (insertAccount r.1 >>= fun _ => addTransactionToBatch tx >>= fun _ =>
        cast (.scheduler (.transactionApplied (env.hashString tx) r.2)) >>= fun _ =>
          cast (.pending (.valid tx)) : BatcherM Unit).uses w = 0 :=
      Prog.uses_eq_zero (Q := fun _ => True) ⟨hzero _ trivial, fun _ => ⟨hzero _ trivial, fun _ =>
        ⟨hzero _ trivial, fun _ => ⟨hzero _ trivial, fun _ => trivial⟩⟩⟩⟩
    refine Prog.uses_op_le (fun _ => ?_) (hone r.1)
    calc w (.cacheAccount r.1) + _ = w (.cacheAccount r.1) + 0 := congrArg _ hrest
      _ ≤ 1 := by rw [add_zero]; exact hone r.1
  rw [addTransactionToAccount_bridgeIn htx hself]
  calc (debitSender tx >>= bridgeWrites env tx).uses w
      ≤ (debitSender tx).uses w + 1 := Prog.uses_bind_le (fun r _ => hwrites r) hreads
    _ = 1 := by rw [hdebit, zero_add]

/-- The batcher writes for a bridge-in at most once, and for no other transaction. -/
theorem uses_batcher (htx : tx.transactionType.isBridgeIn = true) {order : HashOrder} {m : Append}
    (hm : Msg.Backed events (.batcher (.appendTransaction m.transaction m.outputs)))
    {p : BatcherM Unit}
    (h : appendTransaction { env with order := order } m.transaction m.outputs = some p) :
    p.uses (Job.spends tx (.batcher order m)) ≤
      Msg.bears tx (.batcher (.appendTransaction m.transaction m.outputs)) := by
  by_cases heq : m.transaction = tx
  · obtain ⟨-, hself⟩ := bridgeTransaction_self (hm.admitted _ rfl (heq ▸ htx))
    have hp : p = addTransactionToAccount { env with order := order } tx := by
      rw [heq] at h
      unfold appendTransaction at h
      cases htype : tx.transactionType <;> simp_all [TransactionType.isBridgeIn]
    have hbears : Msg.bears tx (.batcher (.appendTransaction m.transaction m.outputs)) = 1 :=
      if_pos heq
    rw [hbears, hp]
    rw [heq] at hself
    refine uses_bridgeIn htx hself (fun o ho => ?_) fun account => ?_
    · cases o with
      | cacheAccount account => exact ho.elim
      | cast m' => exact Msg.IsReport.bears ho
      | _ => rfl
    · unfold Job.spends
      split_ifs <;> simp
  · refine le_of_eq_of_le (Prog.uses_eq_zero ((appendTransaction_within h).mono (fun o ho => ?_)
      fun _ h => h)) zero_le
    cases o with
    | cacheAccount account =>
      refine if_neg ?_
      rintro ⟨a, ⟨⟩, ha⟩
      exact heq ha
    | cast m' => exact Msg.IsReport.bears ho
    | _ => rfl

theorem weighMail_eq_zero {l : List Msg} (h : ∀ m ∈ l, m.bears tx = 0) :
    weighMail (Msg.bears tx) l = 0 := by
  refine List.sum_eq_zero fun n hn => ?_
  obtain ⟨m, hm, rfl⟩ := List.mem_map.1 hn
  exact h m hm

theorem weighMail_validator : ∀ l : List ValidatorMessage,
    weighMail (Msg.bears tx) (l.map Msg.validator) = (l.countP fun m => m.transaction = tx : ℕ)
  | [] => rfl
  | m :: l => by
    have hm : m.append.transaction = m.transaction := by cases m <;> rfl
    rw [List.map_cons, weighMail_cons, weighMail_validator l, List.countP_cons, Msg.bears, hm]
    by_cases heq : m.transaction = tx
    · simp [heq, add_comm]
    · simp [heq]

/-- Of a bridge-in the pending-transaction actor hands on what it has not seen. -/
theorem pending_bears (htx : tx.transactionType.isBridgeIn = true) {w : World}
    (hidle : w.pending.pending.Idle) (reading : Reading) (message : PendingTransactionMessage) :
    weighMail (Msg.bears tx) (w.pending.handle env reading message).casts + w.seen tx ≤
      (World.seen tx { w with pending := (w.pending.handle env reading message).state } : ℕ) := by
  have hothers : ∀ m ∈ (w.pending.handle env reading message).others, m.bears tx = 0 := by
    intro m hm
    cases message with
    | new t outputs =>
      simp only [PendingState.handle] at hm
      split_ifs at hm <;> cases hm
    | newCall t =>
      obtain ⟨u, -, rfl⟩ := List.mem_map.1 hm
      rfl
    | execSuccess t =>
      obtain ⟨u, -, rfl⟩ := List.mem_map.1 hm
      rfl
    | invalid t e =>
      rw [List.mem_singleton.1 hm]
      rfl
    | _ => cases hm
  have hcount := @casts_handle env w.pending hidle ⟨reading, message⟩ tx
  have hseen := @seen_handle env tx htx ⟨reading, message⟩ w.pending
  have hvalidated : tx.transactionType.isValidated = true := by
    simp [TransactionType.isValidated, htx]
  rw [PendingStep.casts, weighMail_append, weighMail_validator, weighMail_eq_zero hothers, hcount]
  simp only [World.seen, hseen, htx, hvalidated, true_and]
  cases w.pending.bridgeInTransactions.contains tx <;>
    cases PendingEvent.isNew tx ⟨reading, message⟩ <;> simp

/-- A reaction that writes nothing and sees nothing new. -/
theorem cost_le_of_still {r : NodeReaction} {w : World} {n : ℕ∞}
    (hwrites : r.world.writes tx = w.writes tx) (hseen : r.world.seen tx = w.seen tx)
    (hr : weighMail (Msg.bears tx) r.casts + weighFutures (Job.spends tx) r.futures ≤ n) :
    Reaction.cost (Msg.bears tx) (Job.spends tx) (fun w : World => (w.writes tx : ℕ∞)) r +
      w.seen tx ≤ n + w.writes tx + r.world.seen tx := by
  simp only [Reaction.cost, hwrites, hseen]
  exact add_le_add_left (add_le_add_left hr _) _

/-- A reaction that also sends nothing. -/
theorem cost_le_of_silent {r : NodeReaction} {w : World} {n : ℕ∞}
    (hwrites : r.world.writes tx = w.writes tx) (hseen : r.world.seen tx = w.seen tx)
    (hcasts : r.casts = []) (hr : weighFutures (Job.spends tx) r.futures ≤ n) :
    Reaction.cost (Msg.bears tx) (Job.spends tx) (fun w : World => (w.writes tx : ℕ∞)) r +
      w.seen tx ≤ n + w.writes tx + r.world.seen tx := by
  refine cost_le_of_still hwrites hseen ?_
  rw [hcasts, weighMail_nil, zero_add]
  exact hr

theorem weighFutures_singleton_le {f : Future effects (Fault BatcherError) Job} {n : ℕ∞}
    (h : f.prog.uses (f.label.spends tx) ≤ n) : weighFutures (Job.spends tx) [f] ≤ n := by
  simpa using h

theorem handle_affords (htx : tx.transactionType.isBridgeIn = true) (o : Oracle) {m : Msg}
    {w : World} (hw : w.Traced (Msg.Backed events)) (hm : m.Backed events) :
    Reaction.cost (Msg.bears tx) (Job.spends tx) (fun w : World => (w.writes tx : ℕ∞))
      (World.handle env o m w) + w.seen tx ≤
        m.bears tx + w.writes tx + (World.handle env o m w).world.seen tx := by
  cases m with
  | scheduler m =>
    refine cost_le_of_still rfl rfl (le_of_eq ?_)
    refine (congrArg (· + _) (weighMail_eq_zero fun m' hm' => ?_)).trans (add_zero 0)
    cases m with
    | call t port => rw [List.mem_singleton.1 hm']; rfl
    | send t port => rw [List.mem_singleton.1 hm']; rfl
    | registerProgram t port => rw [List.mem_singleton.1 hm']; rfl
    | _ => cases hm'
  | engine m =>
    refine cost_le_of_silent rfl rfl rfl ?_
    exact weighFutures_singleton_le (uses_pooled htx hm rfl (engine_causes m)).le
  | executor m =>
    refine cost_le_of_silent rfl rfl rfl ?_
    exact weighFutures_singleton_le
      (uses_pooled htx hm rfl (executor_causes o.services m)).le
  | pending m =>
    have hbears := @pending_bears env tx htx w hw.idle o.reading m
    unfold Reaction.cost
    calc _ = (weighMail (Msg.bears tx) (w.pending.handle env o.reading m).casts + w.seen tx) +
          w.writes tx := by
          simp only [World.handle, weighFutures_nil, add_zero, World.writes, World.applied]
          abel
      _ ≤ _ := add_le_add_left hbears _
      _ = _ := by
          simp only [Msg.bears, zero_add, World.handle]
          exact add_comm _ _
  | validator m =>
    refine cost_le_of_silent rfl rfl rfl ?_
    change weighFutures _ (World.validatorFutures env m) ≤ _
    unfold World.validatorFutures
    split
    · next p hp => exact weighFutures_singleton_le (uses_validator hp)
    · exact zero_le
  | batcher m =>
    obtain ⟨t, outputs⟩ := m
    refine cost_le_of_silent rfl rfl rfl ?_
    change weighFutures _ (World.batcherFutures env o.reading.order ⟨t, outputs⟩) ≤ _
    unfold World.batcherFutures
    split
    · next p hp => exact weighFutures_singleton_le (uses_batcher htx hm hp)
    · exact zero_le

theorem perform_affords (job : Job) (o : Op) (w : World) :
    Reaction.cost (Msg.bears tx) (Job.spends tx) (fun w : World => (w.writes tx : ℕ∞))
      (World.perform storage job o w).2 + w.seen tx ≤
        job.spends tx o + w.writes tx + (World.perform storage job o w).2.world.seen tx := by
  cases o with
  | cast m =>
    refine cost_le_of_still rfl rfl (le_of_eq ?_)
    simp [World.perform, Job.spends]
  | runContainer key thread t contentId =>
    refine cost_le_of_still rfl rfl (le_of_eq ?_)
    simp only [World.perform, World.containerFutures, weighMail_nil, zero_add]
    split
    · simp only [weighFutures_cons, weighFutures_nil, add_zero]
      exact Prog.uses_eq_zero (Q := fun _ => True) ⟨rfl, fun _ => trivial⟩
    · rfl
  | cacheAccount account =>
    -- The write is in the journal for `tx` exactly when the future works for it.
    have hwrites : ((World.perform storage job (.cacheAccount account) w).2.world.writes tx : ℕ∞) =
        job.spends tx (.cacheAccount account) + w.writes tx := by
      simp only [World.perform, World.writes, World.applied, List.map_append, List.count_append]
      by_cases hfor : job.worksFor tx
      · obtain ⟨m, hm, rfl⟩ := hfor
        cases job with
        | batcher order m' =>
          cases hm
          have hfor : (Job.batcher order m).worksFor m.transaction := ⟨m, rfl, rfl⟩
          simp [Job.entry, Job.spends, hfor, add_comm]
        | _ => cases hm
      · have hnone : ((job.entry account).map fun e => e.1.transaction).count tx = 0 := by
          cases job with
          | batcher order m =>
            have hne : m.transaction ≠ tx := fun h => hfor ⟨m, rfl, h⟩
            simp [Job.entry, hne]
          | _ => rfl
        simp [Job.spends, hfor, hnone]
    simp only [Reaction.cost, hwrites]
    simp [World.perform, World.seen]
  | _ => exact cost_le_of_still rfl rfl zero_le

/-- Nothing the node does spends more of a bridge-in than was there. -/
theorem bridge_affords (htx : tx.transactionType.isBridgeIn = true) :
    Affords (Msg.bears tx) (Job.spends tx) (fun w : World => (w.writes tx : ℕ∞))
      (node env storage) (World.Traced (Msg.Backed events)) (Msg.Backed events)
      (FutureTraced (Msg.Backed events)) (World.seen tx) where
  handle o _ _ hw hm := handle_affords htx o hw hm
  perform l o _ w _ _ := perform_affords l o w
  finish l x w r _ _ h := by
    have hstill : r.world.writes tx = w.writes tx ∧ r.world.seen tx = w.seen tx ∧
        weighMail (Msg.bears tx) r.casts + weighFutures (Job.spends tx) r.futures = 0 := by
      obtain ⟨_, _, -, -, rfl⟩ | ⟨_, _, _, _, -, -, rfl⟩ | ⟨-, rfl⟩ := World.finish_cases h <;>
        exact ⟨rfl, rfl, rfl⟩
    obtain ⟨hwrites, hseen, hzero⟩ := hstill
    simpa using cost_le_of_still hwrites hseen hzero.le

/-- In every state of a run a bridge-in has been written for at most once. -/
theorem bridgedIn_nodup {cache : AccountStore} {chs : List NodeChoice} {c : NodeConfig}
    (hin : ∀ m ∈ injected chs, m.External ∧ m.NoBridgeIn)
    (hrun : (node env storage).run (NodeConfig.start cache) chs = some c) :
    c.world.bridgedIn.Nodup := by
  refine List.nodup_iff_count_le_one.2 fun tx => ?_
  by_cases htx : tx.transactionType.isBridgeIn = true
  swap
  · have hmem : tx ∉ c.world.bridgedIn := fun hmem => htx (List.mem_filter.1 hmem).2
    rw [List.count_eq_zero_of_not_mem hmem]
    exact Nat.zero_le 1
  have hcost : c.cost (Msg.bears tx) (Job.spends tx) (fun w : World => (w.writes tx : ℕ∞)) ≤
      c.world.seen tx := by
    refine Affords.run (backed_closed (ingested chs)).keeps (bridge_affords htx) Closed.start
      (fun m hm => ?_) ?_ hrun
    · have hmem : m ∈ injected chs := mem_injected.2 hm
      obtain ⟨hext, hno⟩ := hin m hmem
      exact ⟨hno.backed hmem hext, hext.bears⟩
    · exact zero_le
  · have hle : (c.world.writes tx : ℕ∞) ≤ c.world.seen tx := le_trans le_add_self hcost
    have hone : c.world.seen tx ≤ 1 := by
      unfold World.seen
      split_ifs <;> simp
    calc c.world.bridgedIn.count tx ≤ c.world.applied.count tx :=
          List.Sublist.count_le tx (List.filter_sublist ..)
      _ ≤ c.world.seen tx := by exact_mod_cast hle
      _ ≤ 1 := hone

end AtMostOnce

/-! ## At least once -/

/-- The user's account can take the credit : its nonce can grow, and an entry it has for the
token is its own and has room for the value. -/
def Account.Takes (account : Account) (tx : Transaction) : Prop :=
  account.nonce.toNat + 1 < 2 ^ 256 ∧ ∀ token ∈ account.programs tx.programId,
    tx.from = token.ownerId ∧ token.balance.toNat + tx.value.toNat < 2 ^ 256

instance (account : Account) (tx : Transaction) : Decidable (account.Takes tx) :=
  inferInstanceAs (Decidable (_ ∧ _))

/-- The bridge-in whose user's account the choice makes the batcher read. -/
def reading (c : NodeConfig) : NodeChoice → Option Append
  | .poll i =>
    match c.futures[i]? with
    | some ⟨.batcher _ m, .op (.getAccount a) _⟩ =>
      if m.transaction.transactionType.isBridgeIn ∧ a = m.transaction.from then some m else none
    | _ => none
  | _ => none

/-- The batcher finds no account for the user of a bridge-in, or one that can take the
credit. -/
def Creditable (storage : AccountStore) (c : NodeConfig) (ch : NodeChoice) : Prop :=
  ∀ m ∈ reading c ch, ∀ account ∈ accounts storage c.world.cache m.transaction.from,
    account.Takes m.transaction

instance (storage : AccountStore) (c : NodeConfig) (ch : NodeChoice) :
    Decidable (Creditable storage c ch) :=
  inferInstanceAs (Decidable (∀ m ∈ reading c ch, _))

/-- The same of the answer that a future gets. -/
def Job.Takes (job : Job) (o : Op) (r : effects.Resp o) : Prop :=
  match job, o, r with
  | .batcher _ m, .getAccount a, r =>
    m.transaction.transactionType.isBridgeIn = true → a = m.transaction.from →
      ∀ account ∈ Slot.account r, account.Takes m.transaction
  | _, _, _ => True

/-- The message brings the event of `tx` to the pending-transaction actor. -/
def Msg.Up (tx : Transaction) : Msg → Prop
  | .engine (.eoEvent (.bridge log)) => tx ∈ log.map Engine.bridgeTransaction
  | .pending (.new t _) => t = tx
  | _ => False

/-- The message takes `tx` from there to the batcher. -/
def Msg.Down (tx : Transaction) : Msg → Prop
  | .validator (.pendingTransaction t) => t = tx
  | .batcher (.appendTransaction t _) => t = tx
  | _ => False

/-- A cast of a message of `B`. -/
def Op.Casts (B : Msg → Prop) (o : Op) : Prop :=
  ∃ m, o = .cast m ∧ B m

/-- A cast that takes `tx` on, or a write for it. -/
def Job.Settles (tx : Transaction) (job : Job) (o : Op) : Prop :=
  o.Casts (Msg.Down tx) ∨ job.worksFor tx ∧ ∃ account, o = .cacheAccount account

section AtLeastOnce

variable {env : Env} {storage : AccountStore} {tx : Transaction}

/-- A bridge-in fails on no entry of the token but one with another owner, or one without
room. -/
theorem Account.applySendTransaction_takes {account : Account}
    (htx : tx.transactionType.isBridgeIn = true)
    (htoken : ∀ token ∈ account.programs tx.programId,
      tx.from = token.ownerId ∧ token.balance.toNat + tx.value.toNat < 2 ^ 256)
    (programAccount : Option Account) :
    ∃ r, account.applySendTransaction tx programAccount = .ok r := by
  unfold Account.applySendTransaction
  rw [if_pos htx]
  split
  · exact ⟨_, rfl⟩
  · next token hp =>
    obtain ⟨howner, hroom⟩ := htoken token hp
    have hadd : U256.add token.balance tx.value = .ok (token.balance + tx.value) := if_pos hroom
    have hfrom : token.tryFrom tx = .ok { token with balance := token.balance + tx.value } := by
      unfold Token.tryFrom
      rw [if_pos howner, if_pos htx, hadd]
      rfl
    unfold Account.updateHeldToken
    rw [hfrom]
    exact ⟨_, rfl⟩

/-- A bridge-in whose account can take it comes to its write. -/
theorem batcher_eventually (htx : tx.transactionType.isBridgeIn = true) (hself : tx.to = tx.from)
    {order : HashOrder} {m : Append} (hm : m.transaction = tx) :
    (addTransactionToAccount env tx).Eventually (Job.Takes (.batcher order m))
      (Job.Settles tx (.batcher order m)) := by
  have hwrites : ∀ r, (bridgeWrites env tx r).Eventually (Job.Takes (.batcher order m))
      (Job.Settles tx (.batcher order m)) := fun r =>
    Or.inl (Or.inr ⟨⟨m, rfl, hm⟩, r.1, rfl⟩)
  have happlied : ∀ {x : AccountResult (Account × Token)}, (∃ r, x = .ok r) →
      (orFailed tx x >>= bridgeWrites env tx).Eventually (Job.Takes (.batcher order m))
        (Job.Settles tx (.batcher order m)) := by
    rintro x ⟨r, rfl⟩
    exact hwrites r
  have hread : ∀ f : Option Account → BatcherM (Account × Token),
      (∀ s, Job.Takes (.batcher order m) (.getAccount tx.from) s →
        (f (Slot.account s) >>= bridgeWrites env tx).Eventually (Job.Takes (.batcher order m))
          (Job.Settles tx (.batcher order m))) →
      ((getAccount tx.from >>= f) >>= bridgeWrites env tx).Eventually
        (Job.Takes (.batcher order m)) (Job.Settles tx (.batcher order m)) :=
    fun f h => Or.inr h
  rw [addTransactionToAccount_bridgeIn htx hself]
  unfold debitSender
  refine hread _ fun s hs => ?_
  have htakes : ∀ account ∈ Slot.account s, account.Takes tx := by
    subst hm
    exact hs htx rfl
  cases hacc : Slot.account s with
  | some account =>
    obtain ⟨hnonce, htoken⟩ := htakes account hacc
    simp only [Account.incrementNonce_of_lt hnonce]
    exact happlied (@Account.applySendTransaction_takes tx
      { account with nonce := account.nonce + 1#256 } htx htoken none)
  | none =>
    simp only [htx, not_true_eq_false, if_false]
    refine Or.inr fun s' _ => ?_
    refine happlied (Account.applySendTransaction_takes htx (fun token h => ?_) _)
    cases h

/-- The validator hands a bridge-in to oneself on. -/
theorem validator_eventually (htx : tx.transactionType.isBridgeIn = true)
    (hself : tx.to = tx.from) {job : Job} :
    (pooled job (pendingTransaction env tx)).prog.Eventually (Job.Takes job)
      (Job.Settles tx job) := by
  refine Prog.Eventually.mapErr ?_
  unfold pendingTransaction
  cases htype : tx.transactionType with
  | bridgeIn n =>
    refine Or.inr fun s _ => ?_
    have hcast : validateBridgeIn tx = cast (.batcher (.appendTransaction tx none)) :=
      if_neg (not_not.2 hself.symm)
    change (validateBridgeIn tx).Eventually _ _
    rw [hcast]
    exact Or.inl (Or.inl ⟨_, rfl, rfl⟩)
  | _ => simp [htype, TransactionType.isBridgeIn] at htx

/-- The engine casts a `New` for each event of a log. -/
theorem engine_eventually :
    ∀ {log : List BridgeEvent}, tx ∈ log.map Engine.bridgeTransaction →
      (Engine.handleBridgeEvent log).Eventually (fun _ _ => True) (Op.Casts (Msg.Up tx))
  | event :: log, h => by
    rw [List.map_cons, List.mem_cons] at h
    rcases h with rfl | h
    · exact Or.inl ⟨_, rfl, rfl⟩
    · exact Or.inr fun _ _ => engine_eventually h

theorem mem_seen_handle (htx : tx.transactionType.isBridgeIn = true) {state : PendingState}
    (reading : Reading) (message : PendingTransactionMessage) :
    tx ∈ (state.handle env reading message).state.bridgeInTransactions ↔
      tx ∈ state.bridgeInTransactions ∨ ∃ outputs, message = .new tx outputs := by
  have hseen := @seen_handle env tx htx ⟨reading, message⟩ state
  rw [Bool.eq_iff_iff] at hseen
  simp only [List.contains_iff_mem, Bool.or_eq_true] at hseen
  rw [hseen]
  refine or_congr_right ?_
  cases message with
  | new t outputs => simp [PendingEvent.isNew]
  | _ => simp [PendingEvent.isNew]

/-- Every chain event comes to the list of those seen. -/
theorem up_delivers (htx : tx.transactionType.isBridgeIn = true) :
    Delivers (fun w : World => tx ∈ w.pending.bridgeInTransactions) (Msg.Up tx)
      (fun (_ : Job) _ _ => True) (fun _ => Op.Casts (Msg.Up tx)) (node env storage)
      (fun _ => True) fun _ => True where
  handle_done o m w h := by
    cases m with
    | pending m => exact (mem_seen_handle htx o.reading m).2 (Or.inl h)
    | batcher m =>
      obtain ⟨t, outputs⟩ := m
      exact h
    | _ => exact h
  perform_done l o w h := by
    cases o <;> exact h
  finish_done l x w r h hfin := by
    obtain ⟨_, _, -, -, rfl⟩ | ⟨_, _, _, _, -, -, rfl⟩ | ⟨-, rfl⟩ := World.finish_cases hfin <;>
      exact h
  handle o m w _ _ hm := by
    cases m with
    | engine m =>
      cases m with
      | eoEvent event =>
        cases event with
        | bridge log =>
          exact Or.inr (Or.inr ⟨_, List.mem_singleton_self _, (engine_eventually hm).mapErr⟩)
        | settlement => exact hm.elim
      | _ => exact hm.elim
    | pending m =>
      cases m with
      | new t outputs =>
        obtain rfl : t = tx := hm
        exact Or.inl ((mem_seen_handle htx o.reading _).2 (Or.inr ⟨outputs, rfl⟩))
      | _ => exact hm.elim
    | _ => exact hm.elim
  perform l o w h := by
    obtain ⟨m, rfl, hm⟩ := h
    exact Or.inr ⟨m, List.mem_singleton_self _, hm⟩

/-- The batcher's future for a bridge-in. -/
theorem batcherFutures_of_isBridgeIn {m : Append} (order : HashOrder)
    (h : m.transaction.transactionType.isBridgeIn = true) :
    World.batcherFutures env order m = [⟨.batcher order m,
      addTransactionToAccount { env with order := order } m.transaction⟩] := by
  have happ : appendTransaction { env with order := order } m.transaction m.outputs =
      some (addTransactionToAccount { env with order := order } m.transaction) := by
    unfold appendTransaction
    cases htype : m.transaction.transactionType <;> simp_all [TransactionType.isBridgeIn]
  simp only [World.batcherFutures, happ]

/-- What was seen comes to a write of the batcher. -/
theorem down_delivers (htx : tx.transactionType.isBridgeIn = true) (hself : tx.to = tx.from) :
    Delivers (fun w : World => tx ∈ w.applied) (Msg.Down tx) Job.Takes (Job.Settles tx)
      (node env storage) (fun _ => True) fun _ => True where
  handle_done o m w h := by
    cases m with
    | batcher m =>
      obtain ⟨t, outputs⟩ := m
      exact h
    | _ => exact h
  perform_done l o w h := by
    cases o with
    | cacheAccount account =>
      change tx ∈ (w.journal ++ l.entry account).map _
      rw [List.map_append]
      exact List.mem_append_left _ h
    | _ => exact h
  finish_done l x w r h hfin := by
    obtain ⟨_, _, -, -, rfl⟩ | ⟨_, _, _, _, -, -, rfl⟩ | ⟨-, rfl⟩ := World.finish_cases hfin <;>
      exact h
  handle o m w _ _ hm := by
    cases m with
    | validator m =>
      cases m with
      | pendingTransaction t =>
        obtain rfl : t = tx := hm
        exact Or.inr (Or.inr ⟨_, List.mem_singleton_self _, validator_eventually htx hself⟩)
      | _ => exact hm.elim
    | batcher m =>
      obtain ⟨t, outputs⟩ := m
      obtain rfl : t = tx := hm
      refine Or.inr (Or.inr ⟨⟨.batcher o.reading.order ⟨t, outputs⟩,
        addTransactionToAccount { env with order := o.reading.order } t⟩, ?_,
        batcher_eventually htx hself rfl⟩)
      change _ ∈ World.batcherFutures env o.reading.order ⟨t, outputs⟩
      rw [batcherFutures_of_isBridgeIn o.reading.order htx]
      exact List.mem_singleton_self _
    | _ => exact hm.elim
  perform l o w h := by
    rcases h with ⟨m, rfl, hm⟩ | ⟨⟨m, hl, rfl⟩, account, rfl⟩
    · exact Or.inr ⟨m, List.mem_singleton_self _, hm⟩
    · cases l with
      | batcher order m' =>
        cases hl
        refine Or.inl ?_
        change m.transaction ∈ (w.journal ++ [(m, account)]).map _
        simp
      | _ => cases hl

theorem Creditable.answers {c : NodeConfig} {ch : NodeChoice} (h : Creditable storage c ch) :
    (node env storage).Answers Job.Takes c ch := by
  rintro i l o k rfl hi
  cases l with
  | batcher order m =>
    cases o with
    | getAccount a =>
      rintro htx rfl
      refine h m ?_
      simp [reading, hi, htx]
    | _ => trivial
  | _ => trivial

/-- Everything there is satisfies the trivial invariants. -/
theorem all_trivial (c : NodeConfig) : c.All (fun _ => True) (fun _ => True) fun _ => True :=
  ⟨trivial, fun _ _ => trivial, fun _ _ => trivial⟩

/-- The event of `tx` was seen, or is on its way there. -/
abbrev Arriving (tx : Transaction) (c : NodeConfig) : Prop :=
  c.Carries (fun w => tx ∈ w.pending.bridgeInTransactions) (Msg.Up tx) (fun _ _ _ => True)
    fun _ => Op.Casts (Msg.Up tx)

/-- `tx` was written for, or is on its way there. -/
abbrev Settling (tx : Transaction) (c : NodeConfig) : Prop :=
  c.Carries (fun w => tx ∈ w.applied) (Msg.Down tx) Job.Takes (Job.Settles tx)

theorem arriving_run (htx : tx.transactionType.isBridgeIn = true) :
    ∀ {chs : List NodeChoice} {c c' : NodeConfig}, Arriving tx c →
      (node env storage).run c chs = some c' → Arriving tx c'
  | [], _, _, hc, h => by
    cases h
    exact hc
  | ch :: chs, c, c', hc, h => by
    obtain ⟨d, hd, hrun⟩ := run_cons h
    have hnext : Arriving tx d :=
      (up_delivers htx).step (all_trivial c) (fun _ _ _ _ _ _ => trivial) hc hd
    exact arriving_run htx hnext hrun

/-- What comes in is seen, or is on its way there. -/
theorem arriving_of_inject (htx : tx.transactionType.isBridgeIn = true) {m : Msg}
    (hm : m.Up tx) :
    ∀ {chs : List NodeChoice} {c c' : NodeConfig}, .inject m ∈ chs →
      (node env storage).run c chs = some c' → Arriving tx c'
  | ch :: chs, c, c', hmem, h => by
    obtain ⟨d, hd, hrun⟩ := run_cons h
    rcases List.mem_cons.1 hmem with rfl | hmem
    · cases hd with
      | inject m =>
        exact arriving_run htx (Or.inr (Or.inl ⟨m, by simp, hm⟩)) hrun
    · exact arriving_of_inject htx hm hmem hrun

/-- The step that sees a bridge-in casts it to the validator. -/
theorem settling_of_new (htx : tx.transactionType.isBridgeIn = true) {w : World}
    (hidle : w.pending.pending.Idle) (hnot : tx ∉ w.pending.bridgeInTransactions)
    (reading : Reading) (outputs : Option Outputs) :
    Msg.validator (.pendingTransaction tx) ∈
      (w.pending.handle env reading (.new tx outputs)).casts := by
  refine List.mem_append_left _ (List.mem_map_of_mem (List.mem_filterMap.2 ⟨(tx, outputs), ?_, ?_⟩))
  · rw [PendingState.scheduled_handle hidle, PendingState.mem_accepts]
    refine ⟨rfl, fun h => hnot ?_⟩
    simpa using h.2
  · unfold scheduleWithValidator
    cases htype : tx.transactionType <;> simp_all [TransactionType.isBridgeIn]

theorem settling_step (htx : tx.transactionType.isBridgeIn = true) (hself : tx.to = tx.from)
    {c c' : NodeConfig} {ch : NodeChoice} (hidle : c.world.pending.pending.Idle)
    (hans : (node env storage).Answers Job.Takes c ch)
    (hc : tx ∈ c.world.pending.bridgeInTransactions → Settling tx c)
    (h : (node env storage).Step c ch c') :
    tx ∈ c'.world.pending.bridgeInTransactions → Settling tx c' := by
  intro hseen
  by_cases hbefore : tx ∈ c.world.pending.bridgeInTransactions
  · exact (down_delivers htx hself).step (all_trivial c) hans (hc hbefore) h
  cases h with
  | inject m => exact absurd hseen hbefore
  | @deliver a o l₁ l₂ m hmail hfirst hdest =>
    cases m with
    | pending m =>
      obtain ⟨outputs, rfl⟩ := ((mem_seen_handle htx o.reading m).1 hseen).resolve_left hbefore
      exact Or.inr (Or.inl ⟨_, List.mem_append_right _
        (settling_of_new htx hidle hbefore o.reading outputs), rfl⟩)
    | batcher m =>
      obtain ⟨t, outputs⟩ := m
      exact absurd hseen hbefore
    | _ => exact absurd hseen hbefore
  | @finish t₁ t₂ l x r hfut hfin =>
    obtain ⟨_, _, -, -, rfl⟩ | ⟨_, _, _, _, -, -, rfl⟩ | ⟨-, rfl⟩ := World.finish_cases hfin <;>
      exact absurd hseen hbefore
  | @perform t₁ t₂ l o k hfut => cases o <;> exact absurd hseen hbefore

end AtLeastOnce

/-! ## The bridge is backed -/

section Backing

variable {env : Env} {storage cache : AccountStore} {chs : List NodeChoice} {c : NodeConfig}

/-- In every state of a run a bridge-in that was seen was written for, or is on its way. -/
theorem settling_run {tx : Transaction} (htx : tx.transactionType.isBridgeIn = true)
    (hself : tx.to = tx.from)
    (hans : (node env storage).Along (Creditable storage) (NodeConfig.start cache) chs)
    (hrun : (node env storage).run (NodeConfig.start cache) chs = some c) :
    tx ∈ c.world.pending.bridgeInTransactions → Settling tx c := by
  have hclosed : Closed env fun _ => True := ⟨fun _ _ => trivial⟩
  have hinv := run_induction (I := fun c : NodeConfig =>
    c.All (World.Traced fun _ => True) (fun _ => True) (FutureTraced fun _ => True) ∧
      (tx ∈ c.world.pending.bridgeInTransactions → Settling tx c))
    (fun c ch _ c' hc hans hstep => ⟨hclosed.keeps.step hc.1 (fun _ _ => trivial) hstep,
      settling_step htx hself hc.1.world.idle hans.answers hc.2 hstep⟩)
    ⟨Closed.start, fun h => nomatch h⟩ hans hrun
  exact hinv.2

/-- The sum of the values of the transactions for a token. -/
def valueOf (l : List Transaction) (token : Address) : ℕ :=
  ((l.filter fun tx => tx.programId = token).map fun tx => tx.value.toNat).sum

theorem backing_eq (token : Address) :
    backing chs token = valueOf ((ingested chs).map Engine.bridgeTransaction).dedup token := by
  have hmap : ((ingested chs).map Engine.bridgeTransaction).dedup =
      ((ingested chs).map BridgeEvent.key).dedup.map bridgeOf := by
    rw [← List.dedup_map_of_injective bridgeOf_injective, List.map_map]
    rfl
  rw [hmap, valueOf, List.filter_map, List.map_map]
  rfl

theorem valueOf_le_of_subperm {l l' : List Transaction} (h : l.Subperm l') (token : Address) :
    valueOf l token ≤ valueOf l' token := by
  obtain ⟨l'', hperm, hsub⟩ := h
  have hsum : valueOf l'' token = valueOf l token :=
    ((hperm.filter _).map _).sum_eq
  rw [← hsum]
  exact ((hsub.filter _).map _).sum_le_sum fun _ _ => Nat.zero_le _

end Backing

/-- A chain event of 3 ETH for 0x07. -/
def threeEth : BridgeEvent := ⟨7#160, ETH_ADDR, 3#256, 0#256, "ERC20", 1#256⟩

/-- The event comes in twice, and is followed to its end. -/
def bridgedTwice : List NodeChoice :=
  [.inject (.engine (.eoEvent (.bridge [threeEth]))),
    .inject (.engine (.eoEvent (.bridge [threeEth]))),
    .deliver .engine .plain, .deliver .engine .plain] ++ polls 4 ++
  [.deliver .pendingTransactions .plain, .deliver .pendingTransactions .plain,
    .deliver .validator .plain] ++ polls 3 ++
  [.deliver .batcher .plain] ++ polls 7 ++
  [.deliver .scheduler .plain, .deliver .pendingTransactions .plain]

/-- A bridge-in of 100 ETH for 0x07 that nobody sent on the chain. -/
def madeUp : Transaction := Engine.bridgeTransaction ⟨7#160, ETH_ADDR, 100#256, 0#256, "", 1#256⟩

/-- A request `send` for it, followed to its end. -/
def madeUpRun : List NodeChoice :=
  [.inject (.scheduler (.send madeUp 0)), .deliver .scheduler .plain, .deliver .engine .plain] ++
  polls 2 ++ [.deliver .pendingTransactions .plain, .deliver .validator .plain] ++ polls 3 ++
  [.deliver .batcher .plain] ++ polls 7 ++
  [.deliver .scheduler .plain, .deliver .pendingTransactions .plain]

end Lasr
