import Lasr.Causality
import Lasr.Interleave
import Mathlib.Data.List.Permutation

/-!
# Futures of the batcher that run together

The pending graph lets every transaction through at once, so the batcher has futures for
several transactions that read and write the same accounts, and each writes whole accounts
back (`two_credits_lost`).

Seen from the account cache the node is a pool of such futures (`batcherPool`) : every step of
it is one of the pool, or changes nothing there (`batcherPool_step`). If the batcher only takes
up transactions that keep apart from those whose futures still run (`TakenApart`), the cache at
rest is that of the successful transactions applied one after another
(`serialisable_of_apart`). A call that fails after its nonce was written leaves that nonce
behind, so what the batcher takes up is to go through (`Append.feasible`).
-/

set_option linter.unusedSectionVars false

namespace Lasr

open ActorSystem

/-! ## Transactions that go through -/

namespace Append

/-- Once a transaction has written an account it does not fail : the instructions of a call go
through, and then its sender has an account; the nonce of a deployer can grow. -/
def feasible (env : Env) (storage cache : AccountStore) (m : Append) : Bool :=
  match m.transaction.transactionType, m.outputs with
  | .call _, some outputs =>
    match accounts storage cache m.transaction.to with
    | none => true
    | some program =>
      match program.incrementNonce with
      | .error _ => true
      | .ok program' =>
        let cache := handleCacheWrite cache program'
        match
          (runAlone storage (applyInstructions m.transaction outputs.instructions ∅) cache).1 with
        | .error _ => false
        | .ok batchBuffer => (seen storage cache batchBuffer m.transaction.from).isSome
  | .registerProgram _, _ =>
    match accounts storage cache m.transaction.from, registered env m.transaction with
    | some deployer, some _ => deployer.incrementNonce.isOk
    | _, _ => true
  | _, _ => true

variable {env : Env} {order : HashOrder} {storage cache : AccountStore} {m : Append}

/-- A call that goes through does not fail once its nonce is written. -/
theorem call_failsClean {tx : Transaction} {outputs : Outputs} {n : U256}
    (htype : tx.transactionType = .call n) (h : feasible env storage cache ⟨tx, some outputs⟩) :
    (applyInstructionsToAccounts { env with order := order } tx outputs).FailsClean
      (cacheHandler storage) cache := by
  intro e he
  rcases hrun : runAlone storage
    (applyInstructionsToAccounts { env with order := order } tx outputs) cache with ⟨x, cache'⟩
  obtain rfl : x = .error e := (congrArg Prod.fst hrun).symm.trans he
  refine (congrArg Prod.snd hrun).trans ?_
  unfold applyInstructionsToAccounts at hrun
  rw [runAlone_getAccount_bind] at hrun
  split at hrun
  · cases hrun
    rfl
  next program hprogram =>
  rcases runAlone_bind_error hrun with h₁ | ⟨program', c, h₁, h₂⟩
  · exact (congrArg Prod.snd h₁).symm.trans (congrArg Prod.snd (runAlone_ofExcept _))
  obtain ⟨hinc, rfl⟩ := orFailed_ok h₁
  simp only [feasible, htype, hprogram, hinc] at h
  rw [runAlone_addAccountToBatch_bind] at h₂
  rcases runAlone_bind_error h₂ with h₃ | ⟨batchBuffer, c', h₃, h₄⟩
  · simp [h₃] at h
  obtain ⟨rfl, hk, -, -⟩ := applyInstructions_ok BatchBuffer.keyed_empty h₃
  simp only [h₃] at h
  rw [runAlone_addAccountsToBatch_bind, runAlone_addTransactionToBatch_bind, runAlone_cast_bind,
    runAlone_getAccount_bind, accounts_flush order hk] at h₄
  split at h₄
  · next hnone =>
    rw [hnone] at h
    cases h
  · cases h₄

/-- A registration that goes through does not fail once its program is written. -/
theorem registration_failsClean {tx : Transaction} {outputs : Option Outputs} {n : U256}
    (htype : tx.transactionType = .registerProgram n)
    (h : feasible env storage cache ⟨tx, outputs⟩) :
    (applyProgramRegistration { env with order := order } tx).FailsClean (cacheHandler storage)
      cache := by
  intro e he
  rcases hrun : runAlone storage (applyProgramRegistration { env with order := order } tx) cache
    with ⟨x, cache'⟩
  obtain rfl : x = .error e := (congrArg Prod.fst hrun).symm.trans he
  refine (congrArg Prod.snd hrun).trans ?_
  unfold applyProgramRegistration at hrun
  rw [runAlone_getAccount_bind] at hrun
  split at hrun
  · cases hrun
    rfl
  next deployer hdeployer =>
  split at hrun
  · cases hrun
    rfl
  · cases hrun
    rfl
  · cases hrun
    rfl
  next contentId hcid =>
  split at hrun
  · cases hrun
    rfl
  next programId hpid =>
  have hreg : registered env tx = some programId := by
    have hcid' : env.contentId tx.inputs = .ok (some (some contentId)) := hcid
    have hpid' : createProgramId env contentId tx = .ok programId := hpid
    simp [registered, hcid', hpid', Except.toOption]
  simp only [feasible, htype, hdeployer, hreg] at h
  rw [runAlone_addAccountToBatch_bind] at hrun
  cases hinc : deployer.incrementNonce with
  | error e' =>
    rw [hinc] at h
    cases h
  | ok deployer' =>
    rw [hinc] at hrun
    cases hrun

/-- A transaction that goes through leaves no trace if it fails. -/
theorem failsClean (h : m.feasible env storage cache) :
    (m.future env order).FailsClean (cacheHandler storage) cache := by
  obtain ⟨tx, outputs⟩ := m
  unfold future appendTransaction
  cases htype : tx.transactionType with
  | send n => exact fun e he => addTransactionToAccount_error (Prod.ext he rfl)
  | bridgeIn n => exact fun e he => addTransactionToAccount_error (Prod.ext he rfl)
  | call n =>
    cases outputs with
    | none => exact fun e he => nomatch he
    | some outputs => exact call_failsClean htype h
  | registerProgram n => exact registration_failsClean htype h
  | bridgeOut n => exact fun e he => nomatch he

end Append

/-! ## The pool of the batcher -/

/-- An operation of a batcher future keeps to the cells it is said to. -/
theorem Op.Within.keyed {storage : AccountStore} {R W : Set Address} (hWR : W ⊆ R) {o : Op}
    (h : o.Within R W) :
    (∀ a, (cacheHandler storage).key o = some a → a ∈ R) ∧
      ∀ cache a, a ∉ W → ((cacheHandler storage).handler o cache).2 a = cache a := by
  cases o with
  | getAccount a =>
    refine ⟨fun b hb => ?_, fun _ _ _ => rfl⟩
    cases hb
    exact h
  | cacheAccount account =>
    refine ⟨fun b hb => ?_, fun cache b hb => ?_⟩
    · cases hb
      exact hWR h
    · have hne : b ≠ account.address := by
        rintro rfl
        exact hb h
      exact Function.update_of_ne hne _ _
  | _ => exact ⟨(fun _ hb => nomatch hb), fun _ _ _ => rfl⟩

/-- The futures of the batcher, over the account cache. -/
def batcherTasks (env : Env) (storage : AccountStore) :
    Tasks effects (Fault BatcherError) Address Slot (HashOrder × Append) where
  cells := cacheHandler storage
  body l := l.2.future env l.1
  reads l := {a | a ∈ l.2.reads env}
  writes l := {a | a ∈ l.2.writes env}
  writes_subset l := l.2.writes_subset_reads env
  within l := l.2.within.mono (fun _ h => (h.keyed (l.2.writes_subset_reads env)).1) fun _ h => h
  confined l := l.2.within.mono (fun _ h => (h.keyed (l.2.writes_subset_reads env)).2) fun _ h => h

/-- A future of the batcher. -/
def batcherTask (f : Future effects (Fault BatcherError) Job) :
    Option (Future effects (Fault BatcherError) (HashOrder × Append)) :=
  match f.label with
  | .batcher order m => some ⟨(order, m), f.prog⟩
  | _ => none

/-- What the batcher has to do with the account cache. -/
def batcherPool (c : NodeConfig) :
    Pool effects (Fault BatcherError) Address Slot (HashOrder × Append) :=
  ⟨c.world.cache, c.world.ledger, c.futures.filterMap batcherTask⟩

/-- The transaction the batcher takes up in a step. -/
def takenUp (c : NodeConfig) : NodeChoice → Option Append
  | .deliver .batcher _ =>
    match c.mail.find? (Msg.dest · = .batcher) with
    | some (.batcher (.appendTransaction tx outputs)) => some ⟨tx, outputs⟩
    | _ => none
  | _ => none

section Pool

variable {env : Env} {storage : AccountStore} {c c' : NodeConfig} {ch : NodeChoice}
  {t₁ t₂ : List (Future effects (Fault BatcherError) Job)}

/-- An operation of a batcher future is answered by the cache, and starts nothing. -/
theorem perform_batcher (storage : AccountStore) (w : World) {o : Op}
    (h : o.Within Set.univ Set.univ) (job : Job) :
    (World.perform storage job o w).1 = ((cacheHandler storage).handler o w.cache).1 ∧
      (World.perform storage job o w).2.world.cache =
        ((cacheHandler storage).handler o w.cache).2 ∧
      (World.perform storage job o w).2.world.ledger = w.ledger ∧
      (World.perform storage job o w).2.futures.filterMap batcherTask = [] := by
  cases o with
  | runContainer => exact h.elim
  | takeHandle => exact h.elim
  | _ => exact ⟨rfl, rfl, rfl, rfl⟩

/-- An operation that writes no account changes nothing in the pool. -/
theorem perform_silent (storage : AccountStore) (w : World) {o : Op}
    (h : ∀ account, o ≠ .cacheAccount account) (job : Job) :
    (World.perform storage job o w).2.world.cache = w.cache ∧
      (World.perform storage job o w).2.world.ledger = w.ledger ∧
      (World.perform storage job o w).2.futures.filterMap batcherTask = [] := by
  cases o with
  | cacheAccount account => exact absurd rfl (h account)
  | runContainer key run tx contentId =>
    refine ⟨rfl, rfl, ?_⟩
    change (World.containerFutures key run tx contentId).filterMap batcherTask = []
    unfold World.containerFutures
    split <;> rfl
  | _ => exact ⟨rfl, rfl, rfl⟩

/-- Only a message to the batcher starts one of its futures. -/
theorem handle_others (env : Env) (w : World) {msg : Msg} (h : ∀ m, msg ≠ .batcher m)
    (o : Oracle) :
    (World.handle env o msg w).world.cache = w.cache ∧
      (World.handle env o msg w).world.ledger = w.ledger ∧
      (World.handle env o msg w).futures.filterMap batcherTask = [] := by
  cases msg with
  | batcher m => exact absurd rfl (h m)
  | validator m =>
    refine ⟨rfl, rfl, ?_⟩
    change (World.validatorFutures env m).filterMap batcherTask = []
    unfold World.validatorFutures
    split <;> rfl
  | _ => exact ⟨rfl, rfl, rfl⟩

theorem filterMap_batcher {order : HashOrder} {m : Append} (p : BatcherM Unit) :
    (t₁ ++ ⟨.batcher order m, p⟩ :: t₂).filterMap batcherTask =
      t₁.filterMap batcherTask ++ ⟨(order, m), p⟩ :: t₂.filterMap batcherTask :=
  List.filterMap_append

theorem filterMap_other {job : Job} (h : ∀ order m, job ≠ .batcher order m) (p : BatcherM Unit) :
    (t₁ ++ ⟨job, p⟩ :: t₂).filterMap batcherTask = (t₁ ++ t₂).filterMap batcherTask := by
  rw [List.filterMap_append, List.filterMap_append]
  cases job with
  | batcher order m => exact absurd rfl (h order m)
  | _ => rfl

/-- What the batcher takes up is its first message. -/
theorem takenUp_eq {l₁ l₂ : List Msg} {tx : Transaction} {outputs : Option Outputs} {o : Oracle}
    (hmail : c.mail = l₁ ++ .batcher (.appendTransaction tx outputs) :: l₂)
    (hfirst : ∀ m ∈ l₁, m.dest ≠ .batcher) :
    takenUp c (.deliver .batcher o) = some ⟨tx, outputs⟩ := by
  have hnone : l₁.find? (Msg.dest · = .batcher) = none := by
    simpa using hfirst
  have hfind : c.mail.find? (Msg.dest · = .batcher) =
      some (.batcher (.appendTransaction tx outputs)) := by
    rw [hmail, List.find?_append, hnone]
    rfl
  simp only [takenUp, hfind]

theorem batcherPool_react (mail : List Msg)
    (futures : List (Future effects (Fault BatcherError) Job)) (r : NodeReaction) :
    batcherPool (react mail futures r) = ⟨r.world.cache, r.world.ledger,
      futures.filterMap batcherTask ++ r.futures.filterMap batcherTask⟩ := by
  rw [← List.filterMap_append]
  rfl

/-- The batcher takes up a transaction, and may have a future for it. -/
theorem batcherPool_takeUp (order : HashOrder) (m : Append) (mail : List Msg) :
    batcherPool (react mail c.futures ⟨c.world, [], World.batcherFutures env order m⟩) =
        batcherPool c ∨
      (batcherTasks env storage).Step (batcherPool c) (some (order, m))
        (batcherPool (react mail c.futures ⟨c.world, [], World.batcherFutures env order m⟩)) := by
  rw [batcherPool_react]
  unfold World.batcherFutures
  cases happ : appendTransaction { env with order := order } m.transaction m.outputs with
  | none => exact Or.inl (by simp [batcherPool])
  | some p =>
    have hbody : (batcherTasks env storage).body (order, m) = p := by
      simp [batcherTasks, Append.future, happ]
    have hstart := Tasks.Step.start (T := batcherTasks env storage) (s := batcherPool c) (order, m)
    rw [hbody] at hstart
    exact Or.inr hstart

/-- A future of the batcher ends. -/
theorem batcherPool_finish {job : Job} {x : Except (Fault BatcherError) Unit} {r : NodeReaction}
    (hfut : c.futures = t₁ ++ ⟨job, .ofExcept x⟩ :: t₂)
    (hfin : World.finish job x c.world = some r) :
    batcherPool (react c.mail (t₁ ++ t₂) r) = batcherPool c ∨
      (batcherTasks env storage).Step (batcherPool c) none
        (batcherPool (react c.mail (t₁ ++ t₂) r)) := by
  rw [batcherPool_react, List.filterMap_append]
  have hrun : ∀ order m, job = .batcher order m → (batcherPool c).running =
      t₁.filterMap batcherTask ++ ⟨(order, m), .ofExcept x⟩ :: t₂.filterMap batcherTask := by
    rintro order m rfl
    exact (congrArg _ hfut).trans (filterMap_batcher _)
  obtain ⟨order, m, rfl, rfl, rfl⟩ | ⟨order, m, msg, txn, rfl, rfl, rfl⟩ | ⟨hx, rfl⟩ :=
    World.finish_cases hfin
  · rw [List.filterMap_nil, List.append_nil]
    exact Or.inr (.ret (hrun order m rfl))
  · rw [List.filterMap_nil, List.append_nil]
    exact Or.inr (.fail (hrun order m rfl))
  · rw [List.filterMap_nil, List.append_nil]
    by_cases hjob : ∃ order m, job = .batcher order m
    · obtain ⟨order, m, rfl⟩ := hjob
      obtain ⟨e, rfl⟩ := hx order m rfl
      exact Or.inr (.fail (hrun order m rfl))
    · refine Or.inl ?_
      rw [batcherPool, hfut, filterMap_other fun order m h => hjob ⟨order, m, h⟩,
        List.filterMap_append]

/-- A future performs an operation. -/
theorem batcherPool_perform {I : Msg → Prop} {job : Job} {o : Op}
    {k : effects.Resp o → Prog effects (Fault BatcherError) Unit}
    (hfut : c.futures = t₁ ++ ⟨job, .op o k⟩ :: t₂) (hf : FutureTraced I ⟨job, .op o k⟩)
    (hc' : c' = react c.mail (t₁ ++ ⟨job, k (World.perform storage job o c.world).1⟩ :: t₂)
      (World.perform storage job o c.world).2) :
    batcherPool c' = batcherPool c ∨
      (batcherTasks env storage).Step (batcherPool c) none (batcherPool c') := by
  rw [hc', batcherPool_react]
  by_cases hjob : ∃ order m, job = .batcher order m
  · obtain ⟨order, m, rfl⟩ := hjob
    obtain ⟨hanswer, hcache, hledger, hnone⟩ :=
      perform_batcher storage c.world (hf.within order m rfl).1 (.batcher order m)
    rw [hanswer, hcache, hledger, hnone, List.append_nil, filterMap_batcher]
    exact Or.inr (.perform ((congrArg _ hfut).trans (filterMap_batcher _)))
  · have hother : ∀ order m, job ≠ .batcher order m := fun order m h => hjob ⟨order, m, h⟩
    obtain ⟨hcache, hledger, hnone⟩ :=
      perform_silent storage c.world (hf.silent hother).1.silent job
    refine Or.inl ?_
    rw [hcache, hledger, hnone, List.append_nil, filterMap_other hother, batcherPool, hfut,
      filterMap_other hother]

/-- A step of the node is one of the pool, or changes nothing there. What starts is what the
batcher takes up. -/
theorem batcherPool_step {I : Msg → Prop}
    (hc : c.All (World.Traced I) I (FutureTraced I)) (h : (node env storage).Step c ch c') :
    batcherPool c' = batcherPool c ∨
      ∃ a, (batcherTasks env storage).Step (batcherPool c) a (batcherPool c') ∧
        ∀ l, a = some l → takenUp c ch = some l.2 := by
  have hnone (h : batcherPool c' = batcherPool c ∨
      (batcherTasks env storage).Step (batcherPool c) none (batcherPool c')) :
      batcherPool c' = batcherPool c ∨
        ∃ a, (batcherTasks env storage).Step (batcherPool c) a (batcherPool c') ∧
          ∀ l, a = some l → takenUp c ch = some l.2 :=
    h.imp_right fun h => ⟨none, h, fun l hl => nomatch hl⟩
  cases h with
  | inject m => exact Or.inl rfl
  | @deliver a o l₁ l₂ msg hmail hfirst hdest =>
    by_cases hbatcher : ∃ m, msg = .batcher m
    · obtain ⟨⟨tx, outputs⟩, rfl⟩ := hbatcher
      obtain rfl : .batcher = a := hdest
      refine (batcherPool_takeUp o.reading.order ⟨tx, outputs⟩ _).imp_right fun h =>
        ⟨_, h, fun l hl => ?_⟩
      rw [← Option.some.inj hl]
      exact takenUp_eq hmail hfirst
    · obtain ⟨hcache, hledger, hfutures⟩ := handle_others env c.world
        (fun m hm => hbatcher ⟨m, hm⟩) o
      refine Or.inl ?_
      rw [batcherPool_react]
      change Pool.mk (World.handle env o msg c.world).world.cache
        (World.handle env o msg c.world).world.ledger (c.futures.filterMap batcherTask ++
          (World.handle env o msg c.world).futures.filterMap batcherTask) = _
      rw [hcache, hledger, hfutures, List.append_nil]
      rfl
  | @finish t₁ t₂ job x r hfut hfin => exact hnone (batcherPool_finish hfut hfin)
  | @perform t₁ t₂ job o k hfut =>
    have hf := hc.futures ⟨job, .op o k⟩ (by simp [hfut])
    exact hnone (batcherPool_perform hfut hf rfl)

end Pool

/-! ## Runs -/

/-- A transaction that the batcher takes up keeps apart from those whose futures run. -/
def TakenApart (env : Env) (c : NodeConfig) (ch : NodeChoice) : Prop :=
  ∀ m ∈ takenUp c ch, ∀ f ∈ c.futures, ∀ m' ∈ f.label.appending, m.Apart env m'

/-- A transaction that the batcher takes up goes through. -/
def TakenFeasible (env : Env) (storage : AccountStore) (c : NodeConfig) (ch : NodeChoice) : Prop :=
  ∀ m ∈ takenUp c ch, m.feasible env storage c.world.cache

instance (env : Env) (c : NodeConfig) (ch : NodeChoice) : Decidable (TakenApart env c ch) :=
  inferInstanceAs (Decidable (∀ m ∈ takenUp c ch, _))

instance (env : Env) (storage : AccountStore) (c : NodeConfig) (ch : NodeChoice) :
    Decidable (TakenFeasible env storage c ch) :=
  inferInstanceAs (Decidable (∀ m ∈ takenUp c ch, _))

/-- The successful transactions of a ledger, one after another. -/
def serially (env : Env) (storage cache : AccountStore) (ledger : List (HashOrder × Append)) :
    AccountStore :=
  ledger.foldl (fun cache e => applyAppend { env with order := e.1 } storage cache e.2) cache

/-- The cache is that of the successful transactions, one after another in some order. -/
def Serialisable (env : Env) (storage cache : AccountStore) (c : NodeConfig) : Prop :=
  ∃ ledger, ledger.Perm c.world.ledger ∧ c.world.cache = serially env storage cache ledger

section Runs

variable {env : Env} {storage cache : AccountStore} {chs : List NodeChoice} {c : NodeConfig}

theorem serially_eq (ledger : List (HashOrder × Append)) :
    serially env storage cache ledger = (batcherTasks env storage).serially cache ledger := by
  unfold serially Tasks.serially
  congr 1
  funext cache e
  simp only [applyAppend, batcherTasks, Append.future]
  cases appendTransaction { env with order := e.1 } e.2.transaction e.2.outputs <;> rfl

theorem TakenApart.startsApart {ch : NodeChoice} (h : TakenApart env c ch)
    {a : Option (HashOrder × Append)} (ha : ∀ l, a = some l → takenUp c ch = some l.2) :
    (batcherTasks env storage).StartsApart (batcherPool c) a := by
  intro l hl t ht
  obtain ⟨⟨job, p⟩, hf, htask⟩ := List.mem_filterMap.1 ht
  cases job with
  | batcher order m =>
    cases htask
    obtain ⟨h₁, h₂⟩ := h l.2 (ha l hl) _ hf m rfl
    exact ⟨Set.disjoint_left.2 h₁, Set.disjoint_left.2 h₂⟩
  | _ => cases htask

/-- What every step of the pool keeps under a condition on the step of the node, a run of the
node keeps. -/
theorem batcherPool_run {C : NodeConfig → NodeChoice → Prop}
    {J : Pool effects (Fault BatcherError) Address Slot (HashOrder × Append) → Prop}
    (hstart : J ⟨cache, [], []⟩)
    (hstep : ∀ c ch a s', J (batcherPool c) → C c ch →
      (∀ l, a = some l → takenUp c ch = some l.2) →
      (batcherTasks env storage).Step (batcherPool c) a s' → J s')
    (hC : (node env storage).Along C (NodeConfig.start cache) chs)
    (hrun : (node env storage).run (NodeConfig.start cache) chs = some c) : J (batcherPool c) := by
  have hclosed : Closed env fun _ => True := ⟨fun _ _ => trivial⟩
  have hinv := run_induction (I := fun c : NodeConfig =>
    c.All (World.Traced fun _ => True) (fun _ => True) (FutureTraced fun _ => True) ∧
      J (batcherPool c)) (fun c ch _ c' hc hC h => ?_) ⟨Closed.start, hstart⟩ hC hrun
  · exact hinv.2
  · refine ⟨hclosed.keeps.step hc.1 (fun _ _ => trivial) h, ?_⟩
    rcases batcherPool_step hc.1 h with heq | ⟨a, hs, ha⟩
    · rw [heq]
      exact hc.2
    · exact hstep c ch a _ hc.2 hC ha hs

/-- In every run in which the batcher only takes up transactions that keep apart from those
whose futures run, and that go through, the cache at rest is that of the successful
transactions, one after another. -/
theorem serialisable_of_apart
    (hapart : (node env storage).Along
      (fun c ch => TakenApart env c ch ∧ TakenFeasible env storage c ch)
      (NodeConfig.start cache) chs)
    (hrun : (node env storage).run (NodeConfig.start cache) chs = some c) (hquiet : c.Quiet) :
    Serialisable env storage cache c := by
  have hserial : (batcherTasks env storage).Serial cache (batcherPool c) := by
    refine batcherPool_run (Tasks.serial_start cache) (fun c ch a s' h hC ha hs => ?_) hapart hrun
    exact h.step (hC.1.startsApart ha) (fun l hl => Append.failsClean (hC.2 l.2 (ha l hl))) hs
  have hidle : (batcherPool c).running = [] := by
    rw [batcherPool, hquiet.2]
    rfl
  refine ⟨c.world.ledger, List.Perm.refl _, ?_⟩
  rw [serially_eq]
  exact hserial.eq_of_idle hidle

end Runs

/-- Two users with 10 ETH each. -/
def twoUsers : AccountStore :=
  storeOf [Account.holding 7#160 ETH_ADDR 10#256, Account.holding 8#160 ETH_ADDR 10#256]

/-- Two sends that the batcher works on at the same time : both futures read before either
writes. -/
def together (tx tx' : Transaction) : List NodeChoice :=
  [.inject (.pending (.new tx none)), .inject (.pending (.new tx' none)),
    .deliver .pendingTransactions .plain, .deliver .pendingTransactions .plain,
    .deliver .validator .plain, .deliver .validator .plain] ++ polls 6 ++
  [.deliver .batcher .plain, .deliver .batcher .plain] ++
  polls 3 ++ List.replicate 3 (.poll 1) ++ polls 16 ++
  [.deliver .scheduler .plain, .deliver .scheduler .plain,
    .deliver .pendingTransactions .plain, .deliver .pendingTransactions .plain]

/-- A `New` for a send or a bridge-in, or for a call with its outputs. -/
def Msg.Submission : Msg → Prop
  | .pending (.new tx none) => tx.transactionType.isSend ∨ tx.transactionType.isBridgeIn
  | .pending (.new tx (some _)) => tx.transactionType.isCall
  | _ => False

theorem together_submission {tx tx' : Transaction} (h : tx.transactionType.isSend)
    (h' : tx'.transactionType.isSend) : ∀ m ∈ injected (together tx tx'), m.Submission := by
  intro m hm
  have hcases : m = .pending (.new tx none) ∨ m = .pending (.new tx' none) := by
    simpa [together, injected, polls, List.replicate] using hm
  rcases hcases with rfl | rfl
  · exact Or.inl h
  · exact Or.inl h'

theorem serialisable_of_apart_together :
    ∃ c, (node .small fun _ => none).run (NodeConfig.start twoUsers)
        (together (ethSend 7#160 9#160 1#256 1#256) (ethSend 8#160 10#160 1#256 1#256)) = some c ∧
      c.Quiet ∧ c.world.ledger.length = 2 ∧ Serialisable .small (fun _ => none) twoUsers c := by
  have hrun : ((node .small fun _ => none).run (NodeConfig.start twoUsers)
      (together (ethSend 7#160 9#160 1#256 1#256) (ethSend 8#160 10#160 1#256 1#256))).map
      (fun c => (c.mail.length, c.futures.length, c.world.ledger.length)) = some (0, 0, 2) := by
    decide +kernel
  have hapart : (node .small fun _ => none).Along
      (fun c ch => TakenApart .small c ch ∧ TakenFeasible .small (fun _ => none) c ch)
      (NodeConfig.start twoUsers)
      (together (ethSend 7#160 9#160 1#256 1#256) (ethSend 8#160 10#160 1#256 1#256)) := by
    decide +kernel
  obtain ⟨c, hc, hval⟩ := Option.map_eq_some_iff.1 hrun
  simp only [Prod.mk.injEq, List.length_eq_zero_iff] at hval
  obtain ⟨hmail, hfut, hledger⟩ := hval
  exact ⟨c, hc, ⟨hmail, hfut⟩, hledger, serialisable_of_apart hapart hc ⟨hmail, hfut⟩⟩

/-- What 0x09 has of ETH. -/
def nineHas (cache : AccountStore) : ℕ :=
  (accounts (fun _ => none) cache).balanceAt 9#160 ETH_ADDR

/-- Two sends of 1 ETH to 0x09 succeed, and 0x09 has one ETH. In either order it would have
two. -/
theorem two_credits_lost :
    ∃ c, (∀ m ∈ injected (together (ethSend 7#160 9#160 1#256 1#256)
        (ethSend 8#160 9#160 1#256 1#256)), m.Submission) ∧
      (node .small fun _ => none).run (NodeConfig.start twoUsers)
        (together (ethSend 7#160 9#160 1#256 1#256) (ethSend 8#160 9#160 1#256 1#256)) = some c ∧
      c.Quiet ∧ ¬Serialisable .small (fun _ => none) twoUsers c := by
  have hrun : ((node .small fun _ => none).run (NodeConfig.start twoUsers)
      (together (ethSend 7#160 9#160 1#256 1#256) (ethSend 8#160 9#160 1#256 1#256))).map
      (fun c => (c.mail.length, c.futures.length, nineHas c.world.cache,
        c.world.ledger.permutations'.map fun ledger =>
          nineHas (serially .small (fun _ => none) twoUsers ledger))) = some (0, 0, 1, [2, 2]) := by
    decide +kernel
  obtain ⟨c, hc, hval⟩ := Option.map_eq_some_iff.1 hrun
  simp only [Prod.mk.injEq, List.length_eq_zero_iff] at hval
  obtain ⟨hmail, hfut, hone, htwo⟩ := hval
  refine ⟨c, together_submission rfl rfl, hc, ⟨hmail, hfut⟩, ?_⟩
  rintro ⟨ledger, hperm, hcache⟩
  have hmem : nineHas (serially .small (fun _ => none) twoUsers ledger) ∈ [2, 2] := by
    rw [← htwo]
    exact List.mem_map_of_mem (List.mem_permutations'.2 hperm)
  rw [← hcache, hone] at hmem
  revert hmem
  decide

end Lasr
