import Lasr.Isolation

/-!
# Nonces and replays

`validate_nonce` takes any nonce above the account's, while applying a send moves the
account's nonce by one only. So a send whose nonce is more than one ahead can be applied again
(`skipping_send_replays`).

Otherwise it is rejected ever after, in every run of the node in which the batcher only takes
up transactions that keep apart from those whose futures run (`replay_rejected`). For then no
operation of a batcher future lowers a nonce (`Append.grows`) : a send moves its sender's nonce
by one, a call that of the account it calls, and a call that fails may leave the nonce it has
written. Only a registration starts the account of its program anew.
-/

set_option linter.unusedSectionVars false

namespace Lasr

open ActorSystem

variable {env : Env} {storage cache cache' : AccountStore} {tx : Transaction}

/-! ## What a send does to nonces -/

/-- The sender's copy has its nonce moved by one, if the account exists. -/
theorem debitSender_nonce {r : Account × Token}
    (h : runAlone storage (debitSender tx) cache = (.ok r, cache')) :
    (accounts storage cache).nonceAt tx.from ≤ r.1.nonce.toNat ∧
      (tx.transactionType.isBridgeIn = false →
        r.1.nonce.toNat = (accounts storage cache).nonceAt tx.from + 1) := by
  obtain ⟨-, ⟨account, account₁, hacc, hinc, hsend⟩ | ⟨hnone, hb, pa, hsend⟩⟩ := debitSender_ok h
  · have hnonce : r.1.nonce.toNat = (accounts storage cache).nonceAt tx.from + 1 := by
      rw [(Account.applySendTransaction_sameHeader hsend).nonce, (Account.incrementNonce_ok hinc).1,
        AccountMap.nonceAt_of_some hacc]
    exact ⟨by omega, fun _ => hnonce⟩
  · refine ⟨?_, fun hb' => ?_⟩
    · simp [AccountMap.nonceAt, hnone]
    · rw [hb] at hb'
      cases hb'

theorem nonce_receiverOf :
    (receiverOf storage cache tx).nonce.toNat = (accounts storage cache).nonceAt tx.to :=
  stands_receiverOf.nonce

/-- A send that returns lowers no nonce, and moves an existing sender's by one. -/
theorem send_nonceAt
    (h : runAlone storage (addTransactionToAccount env tx) cache = (.ok (), cache')) :
    (∀ a, (accounts storage cache).nonceAt a ≤ (accounts storage cache').nonceAt a) ∧
      (tx.transactionType.isBridgeIn = false → (accounts storage cache').nonceAt tx.from =
        (accounts storage cache).nonceAt tx.from + 1) := by
  obtain ⟨r, hr, hcase⟩ := addTransactionToAccount_ok h
  obtain ⟨hle, heq⟩ := debitSender_nonce hr
  have haddr := debitSender_address hr
  have hput : ∀ a, (accounts storage cache).nonceAt a ≤
      ((accounts storage cache).put r.1).nonceAt a := by
    intro a
    rw [AccountMap.nonceAt_put, haddr]
    split_ifs with ha
    · rw [ha]
      exact hle
    · exact le_rfl
  have hself : ((accounts storage cache).put r.1).nonceAt tx.from = r.1.nonce.toNat := by
    rw [AccountMap.nonceAt_put, haddr, if_pos rfl]
  rcases hcase with ⟨hne, toAccount, hcr, hacc⟩ | ⟨-, -, toAccount, hcr, hacc⟩ | ⟨-, hb, hacc⟩
  · have hh := creditReceiver_sameHeader hcr
    have hto : toAccount.address = tx.to := hh.address.trans receiverOf_address
    rw [hacc]
    refine ⟨fun a => (hput a).trans ?_, fun hb => ?_⟩
    · rw [AccountMap.nonceAt_put _ toAccount, hto]
      split_ifs with ha
      · have hother : ((accounts storage cache).put r.1).nonceAt a =
            (accounts storage cache).nonceAt a := by
          rw [AccountMap.nonceAt_put, haddr, if_neg (by rw [ha]; exact hne)]
        rw [hother, hh.nonce, nonce_receiverOf, ha]
      · exact le_rfl
    · rw [AccountMap.nonceAt_put, hto, if_neg hne.symm, hself, heq hb]
  · have hh := creditReceiver_sameHeader hcr
    have hto : toAccount.address = tx.from := hh.address.trans haddr
    have hall : ∀ a, ((accounts storage cache).put toAccount).nonceAt a =
        ((accounts storage cache).put r.1).nonceAt a := by
      intro a
      rw [AccountMap.nonceAt_put, AccountMap.nonceAt_put, hto, haddr, hh.nonce]
    rw [hacc]
    exact ⟨fun a => (hput a).trans (hall a).ge, fun hb => by rw [hall, hself, heq hb]⟩
  · rw [hacc]
    refine ⟨hput, fun hb' => ?_⟩
    rw [hb] at hb'
    cases hb'

/-! ## No operation lowers a nonce -/

/-- The nonce a reader sees in a slot. -/
def nonceIn (storage : AccountStore) (a : Address) (s : Slot a) : ℕ :=
  match Slot.account (s.or (storage a)) with
  | some account => account.nonce.toNat
  | none => 0

theorem nonceIn_eq (a : Address) :
    nonceIn storage a (cache a) = (accounts storage cache).nonceAt a := rfl

/-- A slot whose nonce does not fall, unless it is that of a registered program. -/
def NonceGrows (storage : AccountStore) (programs : List Address) (a : Address)
    (s s' : Slot a) : Prop :=
  a ∉ programs → nonceIn storage a s ≤ nonceIn storage a s'

section Grows

variable {programs : List Address}

/-- Putting an account that stands no lower than what it replaces. -/
theorem nonceAt_le_put {v : AccountMap} {account : Account}
    (h : v.nonceAt account.address ≤ account.nonce.toNat) (a : Address) :
    v.nonceAt a ≤ (v.put account).nonceAt a := by
  rw [AccountMap.nonceAt_put]
  split_ifs with ha
  · rw [ha]
    exact h
  · exact le_rfl

/-- A write of an account that stands no lower than what it replaces. -/
theorem addAccountToBatch_grows {account : Account} (h : account.address ∉ programs →
      (accounts storage cache).nonceAt account.address ≤ account.nonce.toNat) :
    (addAccountToBatch account).Grows (cacheHandler storage) (NonceGrows storage programs)
      cache := by
  refine ⟨fun a ha => ?_, fun _ _ => le_rfl, trivial⟩
  change nonceIn storage a (cache a) ≤ nonceIn storage a (handleCacheWrite cache account a)
  rw [nonceIn_eq, nonceIn_eq, accounts_handleCacheWrite]
  by_cases haddr : a = account.address
  · exact nonceAt_le_put (h (haddr ▸ ha)) a
  · rw [AccountMap.nonceAt_put, if_neg haddr]

/-- Writes of accounts of different addresses, each of which stands no lower than what it
replaces. -/
theorem addAccountsToBatch_grows :
    ∀ {l : List Account} {cache : AccountStore}, (l.map Account.address).Nodup →
      (∀ account ∈ l,
        (accounts storage cache).nonceAt account.address ≤ account.nonce.toNat) →
      (addAccountsToBatch l).Grows (cacheHandler storage) (NonceGrows storage programs) cache
  | [], _, _, _ => trivial
  | account :: l, cache, hnd, h => by
    rw [List.map_cons, List.nodup_cons] at hnd
    refine Prog.Grows.bind (addAccountToBatch_grows fun _ => h account (List.mem_cons_self ..))
      fun _ _ => addAccountsToBatch_grows hnd.2 fun b hb => ?_
    have hne : b.address ≠ account.address := fun he =>
      hnd.1 (he ▸ List.mem_map_of_mem hb)
    change (accounts storage (handleCacheWrite cache account)).nonceAt b.address ≤ _
    rw [accounts_handleCacheWrite, AccountMap.nonceAt_put, if_neg hne]
    exact h b (List.mem_cons_of_mem _ hb)

/-- A map of accounts is written out, in any order. -/
theorem flush_grows {κ : Type} [DecidableEq κ] (order : HashOrder) {buffer : HashMap κ Account}
    {key : Address → κ}
    (hkey : ∀ k account, buffer.lookup k = some account → key account.address = k)
    (h : ∀ k account, buffer.lookup k = some account →
      (accounts storage cache).nonceAt account.address ≤ account.nonce.toNat) :
    (addAccountsToBatch ((order.iter buffer.entries).map Sigma.snd)).Grows (cacheHandler storage)
      (NonceGrows storage programs) cache := by
  refine addAccountsToBatch_grows (AccountMap.nodup_of_entries order hkey) fun account hacc => ?_
  obtain ⟨s, hs, rfl⟩ := List.mem_map.1 hacc
  exact h s.1 s.2 (AList.mem_lookup_iff.2 ((order.perm _).mem_iff.1 hs))

theorem grows_of_reads {α : Type} {R : Set Address} {Q : α → Prop} {p : BatcherM α}
    (h : p.Meets (Op.Reads R) Q) :
    p.Grows (cacheHandler storage) (NonceGrows storage programs) cache := by
  refine Prog.grows_of_still (fun _ _ _ => le_rfl) (h.mono ?_ fun _ h => h)
  rintro o ⟨a, -, rfl⟩ m
  rfl

theorem getAccount_bind_grows {α : Type} {a : Address} {f : Option Account → BatcherM α}
    (hf : (f (accounts storage cache a)).Grows (cacheHandler storage)
      (NonceGrows storage programs) cache) :
    (getAccount a >>= f).Grows (cacheHandler storage) (NonceGrows storage programs) cache :=
  ⟨fun _ _ => le_rfl, hf⟩

/-- What a send buffers stands no lower than what it replaces. -/
theorem send_buffer {r : Account × Token} {buffer : HashMap String Account}
    (hr : runAlone storage (debitSender tx) cache = (.ok r, cache))
    (hbuf : runAlone storage (creditSide tx ((∅ : HashMap String Account).insert
      (Address.toFullString tx.from) r.1)) cache = (.ok buffer, cache')) :
    TextKeyed buffer ∧ ∀ k account, buffer.lookup k = some account →
      (accounts storage cache).nonceAt account.address ≤ account.nonce.toNat := by
  have hsender : (accounts storage cache).nonceAt r.1.address ≤ r.1.nonce.toNat := by
    rw [debitSender_address hr]
    exact (debitSender_nonce hr).1
  refine ⟨(creditSide_sides hr hbuf).1, fun k account hk => ?_⟩
  obtain ⟨-, ⟨-, toAccount, hcr, rfl⟩ | ⟨-, -, toAccount, hcr, rfl⟩ | ⟨-, -, rfl⟩⟩ :=
    creditSide_ok hbuf
  · have hh := creditReceiver_sameHeader hcr
    rcases HashMap.lookup_insert_cases hk with rfl | hk
    · rw [hh.address, receiverOf_address, hh.nonce, nonce_receiverOf]
    · rcases HashMap.lookup_insert_cases hk with rfl | hk
      · exact hsender
      · simp at hk
  · have hh := creditReceiver_sameHeader hcr
    rcases HashMap.lookup_insert_cases hk with rfl | hk
    · rw [hh.address, hh.nonce]
      exact hsender
    · simp at hk
  · rcases HashMap.lookup_insert_cases hk with rfl | hk
    · exact hsender
    · simp at hk

theorem send_grows :
    (addTransactionToAccount env tx).Grows (cacheHandler storage) (NonceGrows storage programs)
      cache := by
  have hstill := runAlone_of_reads (@sendAccounts_reads tx) storage cache
  rw [addTransactionToAccount_eq]
  refine Prog.Grows.bind (grows_of_reads sendAccounts_reads) fun r hr => ?_
  change Prog.Grows _ _ _ (runAlone storage (sendAccounts tx) cache).2
  obtain ⟨-, sender, hsender, hbuf⟩ := sendAccounts_ok (Prod.ext hr hstill)
  rw [hstill]
  obtain ⟨hkey, hnonce⟩ := send_buffer hsender hbuf
  refine Prog.Grows.bind (flush_grows env.order hkey hnonce) fun _ _ => ?_
  exact ⟨fun _ _ => le_rfl, fun _ _ => le_rfl, fun _ _ => le_rfl, trivial⟩

theorem call_grows {outputs : Outputs} :
    (applyInstructionsToAccounts env tx outputs).Grows (cacheHandler storage)
      (NonceGrows storage programs) cache := by
  refine getAccount_bind_grows ?_
  split
  · trivial
  next caller hcaller =>
  cases hinc : caller.incrementNonce with
  | error e => trivial
  | ok caller' =>
    have haddr : caller'.address = tx.to :=
      (Account.incrementNonce_keeps hinc).1.trans (address_of_accounts hcaller)
    change Prog.Grows _ _ (addAccountToBatch caller' >>= _) cache
    refine Prog.Grows.bind (addAccountToBatch_grows fun _ => ?_) fun _ _ => ?_
    · rw [haddr, AccountMap.nonceAt_of_some hcaller, (Account.incrementNonce_ok hinc).1]
      exact Nat.le_succ _
    change Prog.Grows _ _ _ (handleCacheWrite cache caller')
    have hempty : BatchBuffer.In Set.univ ∅ := fun _ _ h => by simp at h
    have hreads : (applyInstructions tx outputs.instructions ∅).Meets (Op.Reads Set.univ)
        (BatchBuffer.In Set.univ) :=
      applyInstructions_reads (Set.Subset.refl _) hempty (fun _ _ => Set.mem_univ _)
        fun _ _ => Set.mem_univ _
    refine Prog.Grows.bind (grows_of_reads hreads) fun batchBuffer hrun => ?_
    have hstill := runAlone_of_reads hreads storage (handleCacheWrite cache caller')
    obtain ⟨-, hk, hn, -⟩ := applyInstructions_ok BatchBuffer.keyed_empty
      (Prod.ext hrun rfl : runAlone storage (applyInstructions tx outputs.instructions ∅)
        (handleCacheWrite cache caller') = (.ok batchBuffer, _))
    change Prog.Grows _ _ _ (runAlone storage (applyInstructions tx outputs.instructions ∅)
      (handleCacheWrite cache caller')).2
    rw [hstill]
    refine Prog.Grows.bind
      (@flush_grows _ _ programs _ _ env.order _ id hk fun k account hlook => ?_) fun _ _ => ?_
    · have hseen : seen storage (handleCacheWrite cache caller') batchBuffer account.address =
          some account := by
        rw [hk k account hlook]
        simp [seen, hlook]
      rw [← AccountMap.nonceAt_of_some hseen, hn, seen_empty]
    · refine ⟨fun _ _ => le_rfl, fun _ _ => le_rfl, getAccount_bind_grows ?_⟩
      split
      · trivial
      · exact ⟨fun _ _ => le_rfl, trivial⟩

theorem registration_grows (hreg : ∀ a ∈ registered env tx, a ∈ programs) :
    (applyProgramRegistration env tx).Grows (cacheHandler storage) (NonceGrows storage programs)
      cache := by
  refine getAccount_bind_grows ?_
  split
  · exact ⟨fun _ _ => le_rfl, trivial⟩
  next deployer hdeployer =>
  split
  · trivial
  · trivial
  · trivial
  next contentId hcid =>
  split
  · trivial
  next programId hpid =>
  have hprogram : programId ∈ programs :=
    hreg programId (by simp [registered, hcid, hpid, Except.toOption])
  refine Prog.Grows.bind (addAccountToBatch_grows fun h => absurd hprogram h) fun _ _ => ?_
  cases hinc : deployer.incrementNonce with
  | error e => trivial
  | ok deployer' =>
    have haddr : deployer'.address = tx.from :=
      (Account.incrementNonce_keeps hinc).1.trans (address_of_accounts hdeployer)
    change Prog.Grows _ _ (addAccountToBatch deployer' >>= _) (handleCacheWrite cache _)
    refine Prog.Grows.bind (addAccountToBatch_grows fun hfrom => ?_)
      fun _ _ => ⟨fun _ _ => le_rfl, trivial⟩
    -- The deployer is not the program that was just written.
    have hne : tx.from ≠ programId := by
      rintro he
      rw [haddr, he] at hfrom
      exact hfrom hprogram
    rw [haddr, accounts_handleCacheWrite, AccountMap.nonceAt_put]
    refine le_of_eq_of_le (if_neg hne) ?_
    rw [AccountMap.nonceAt_of_some hdeployer, (Account.incrementNonce_ok hinc).1]
    exact Nat.le_succ _

/-- The address of the program that the transaction registers. -/
def Append.registers (env : Env) (m : Append) : Option Address :=
  match m.transaction.transactionType with
  | .registerProgram _ => registered env m.transaction
  | _ => none

/-- No operation of a batcher future lowers a nonce, unless it registers a program there. -/
theorem Append.grows {m : Append} {order : HashOrder}
    (hreg : ∀ a ∈ m.registers env, a ∈ programs) :
    (m.future env order).Grows (cacheHandler storage) (NonceGrows storage programs) cache := by
  obtain ⟨tx, outputs⟩ := m
  unfold Append.future appendTransaction
  cases htype : tx.transactionType with
  | send n => exact send_grows
  | bridgeIn n => exact send_grows
  | call n =>
    cases outputs with
    | none => trivial
    | some outputs => exact call_grows
  | registerProgram n =>
    refine registration_grows fun a ha => hreg a ?_
    simp only [Append.registers, htype]
    exact ha
  | bridgeOut n => trivial

end Grows

/-! ## Replays -/

theorem checkSend_nonce {account : Account} (h : checkSend env tx account = .ok ()) :
    account.validateNonce tx.nonce = .ok () := by
  obtain ⟨_, -, h₁⟩ := Except.bind_eq_ok_iff.1 h
  obtain ⟨_, -, h₂⟩ := Except.bind_eq_ok_iff.1 h₁
  obtain ⟨_, h₃, -⟩ := Except.bind_eq_ok_iff.1 h₂
  exact h₃

/-- A send that was applied has its nonce behind it, for good. -/
def Spent (storage : AccountStore) (programs : List Address) (l : HashOrder × Append)
    (cache : AccountStore) : Prop :=
  l.2.transaction.transactionType.isSend = true → l.2.transaction.from ∉ programs ∧
    l.2.transaction.nonce.toNat ≤ (accounts storage cache).nonceAt l.2.transaction.from ∧
    0 < (accounts storage cache).nonceAt l.2.transaction.from

/-- A send that the batcher takes up is at most one ahead of its sender, and is not sent by a
program. A program that it registers is one of `programs`. -/
def TakenNext (env : Env) (storage : AccountStore) (programs : List Address) (c : NodeConfig)
    (ch : NodeChoice) : Prop :=
  ∀ m ∈ takenUp c ch,
    (m.transaction.transactionType.isSend = true → m.transaction.from ∉ programs ∧
      m.transaction.nonce.toNat ≤
        (accounts storage c.world.cache).nonceAt m.transaction.from + 1) ∧
    ∀ a ∈ m.registers env, a ∈ programs

-- By way of the option, not of all addresses.
instance (programs : List Address) (o : Option Address) : Decidable (∀ a ∈ o, a ∈ programs) :=
  @decidable_of_iff _ (∀ a ∈ o.toList, a ∈ programs) (by simp) (List.decidableBAll _ o.toList)

instance (env : Env) (storage : AccountStore) (programs : List Address) (c : NodeConfig)
    (ch : NodeChoice) : Decidable (TakenNext env storage programs c ch) :=
  inferInstanceAs (Decidable (∀ m ∈ takenUp c ch, _))

section Replay

variable {programs : List Address}

theorem Spent.congr {l : HashOrder × Append}
    (hc : ∀ a ∈ (batcherTasks env storage).reads l, cache a = cache' a)
    (h : Spent storage programs l cache) : Spent storage programs l cache' := by
  intro hsend
  obtain ⟨hfrom, hle, hpos⟩ := h hsend
  have hread : l.2.transaction.from ∈ l.2.reads env := by
    unfold Append.reads Append.writes
    cases htype : l.2.transaction.transactionType <;> simp_all [TransactionType.isSend]
  have hsame : (accounts storage cache').nonceAt l.2.transaction.from =
      (accounts storage cache).nonceAt l.2.transaction.from := by
    rw [← nonceIn_eq, ← nonceIn_eq, hc _ hread]
  exact ⟨hfrom, hsame ▸ hle, hsame ▸ hpos⟩

theorem Spent.grows {l : HashOrder × Append}
    (hc : ∀ a, NonceGrows storage programs a (cache a) (cache' a))
    (h : Spent storage programs l cache) : Spent storage programs l cache' := by
  intro hsend
  obtain ⟨hfrom, hle, hpos⟩ := h hsend
  have hmono : (accounts storage cache).nonceAt l.2.transaction.from ≤
      (accounts storage cache').nonceAt l.2.transaction.from := hc _ hfrom
  exact ⟨hfrom, hle.trans hmono, lt_of_lt_of_le hpos hmono⟩

/-- A send that is next has its nonce behind it once it returns. -/
theorem spent_of_next {m : Append} {order : HashOrder}
    (hnext : m.transaction.transactionType.isSend = true → m.transaction.from ∉ programs ∧
      m.transaction.nonce.toNat ≤ (accounts storage cache).nonceAt m.transaction.from + 1)
    (h : runAlone storage (m.future env order) cache = (.ok (), cache')) :
    Spent storage programs (order, m) cache' := by
  intro hsend
  obtain ⟨hfrom, hle⟩ := hnext hsend
  obtain ⟨tx, outputs⟩ := m
  have hfuture : Append.future env order ⟨tx, outputs⟩ =
      addTransactionToAccount { env with order := order } tx := by
    unfold Append.future appendTransaction
    cases htype : tx.transactionType <;> simp_all [TransactionType.isSend]
  have hb : tx.transactionType.isBridgeIn = false := by
    cases htype : tx.transactionType <;>
      simp_all [TransactionType.isSend, TransactionType.isBridgeIn]
  rw [hfuture] at h
  have hnonce := (send_nonceAt h).2 hb
  change tx.nonce.toNat ≤ _ at hle
  exact ⟨hfrom, by rw [hnonce]; exact hle, by rw [hnonce]; exact Nat.succ_pos _⟩

/-- In every state of a run in which the batcher only takes up transactions that keep apart
from those whose futures run, and sends that are at most one ahead of their sender, the nonce
check of every send that was applied fails, and the validator does not accept it again. -/
theorem replay_rejected {chs : List NodeChoice} {c : NodeConfig}
    (hnext : (node env storage).Along
      (fun c ch => TakenApart env c ch ∧ TakenNext env storage programs c ch)
      (NodeConfig.start cache) chs)
    (hrun : (node env storage).run (NodeConfig.start cache) chs = some c) :
    ∀ e ∈ c.world.ledger, e.2.transaction.transactionType.isSend = true → ∀ account,
      accounts storage c.world.cache e.2.transaction.from = some account →
        account.validateNonce e.2.transaction.nonce ≠ .ok () ∧
          checkSend env e.2.transaction account ≠ .ok () := by
  have hspent : (batcherTasks env storage).Established (NonceGrows storage programs)
      (Spent storage programs) (batcherPool c) := by
    refine batcherPool_run ⟨⟨(fun _ h => nomatch h), (fun _ h => nomatch h), List.Pairwise.nil⟩,
      (fun _ h => nomatch h), fun _ h => nomatch h⟩ (fun c ch a s' h hC ha hs => ?_) hnext hrun
    refine h.step (fun _ _ _ => le_rfl) (fun l _ _ hm hl => hl.congr hm)
      (fun l _ _ hm hl => hl.grows hm) (hC.1.startsApart ha) (fun l hl => ?_) hs
    obtain ⟨hsend, hreg⟩ := hC.2 l.2 (ha l hl)
    exact ⟨Append.grows hreg, fun _ hret => spent_of_next hsend (Prod.ext hret rfl)⟩
  intro e he hsend account hacc
  obtain ⟨-, hle, hpos⟩ := hspent.done e he hsend
  change _ ≤ (accounts storage c.world.cache).nonceAt _ at hle
  change 0 < (accounts storage c.world.cache).nonceAt _ at hpos
  rw [AccountMap.nonceAt_of_some hacc] at hle hpos
  have hcheck : account.validateNonce e.2.transaction.nonce ≠ .ok () := by
    rw [ne_eq, validateNonce_ok_iff]
    omega
  exact ⟨hcheck, fun hok => hcheck (checkSend_nonce hok)⟩

end Replay

/-- A `New` for a transaction, followed to its end. -/
def appliedOnce (tx : Transaction) : List NodeChoice :=
  [.inject (.pending (.new tx none)), .deliver .pendingTransactions .plain,
    .deliver .validator .plain] ++ polls 3 ++ [.deliver .batcher .plain] ++ polls 11

theorem replay_rejected_appliedOnce :
    ∃ c, (node .small fun _ => none).run (NodeConfig.start tenEth)
        (appliedOnce (ethSend 7#160 8#160 4#256 1#256)) = some c ∧
      c.world.ledger.length = 1 ∧
      ∀ e ∈ c.world.ledger, e.2.transaction.transactionType.isSend = true → ∀ account,
        accounts (fun _ => none) c.world.cache e.2.transaction.from = some account →
          account.validateNonce e.2.transaction.nonce ≠ .ok () ∧
            checkSend .small e.2.transaction account ≠ .ok () := by
  have hrun : ((node .small fun _ => none).run (NodeConfig.start tenEth)
      (appliedOnce (ethSend 7#160 8#160 4#256 1#256))).map (fun c => c.world.ledger.length) =
      some 1 := by
    decide +kernel
  have hnext : (node .small fun _ => none).Along
      (fun c ch => TakenApart .small c ch ∧ TakenNext .small (fun _ => none) [] c ch)
      (NodeConfig.start tenEth) (appliedOnce (ethSend 7#160 8#160 4#256 1#256)) := by
    decide +kernel
  obtain ⟨c, hc, hlen⟩ := Option.map_eq_some_iff.1 hrun
  exact ⟨c, hc, hlen, replay_rejected hnext hc⟩

/-- A send whose nonce skips from 0 to 5 is accepted and applied, and is then accepted once
more. -/
theorem skipping_send_replays :
    ∃ c, (node .small fun _ => none).run (NodeConfig.start tenEth)
        (appliedOnce (ethSend 7#160 8#160 1#256 5#256)) = some c ∧
      (∃ e ∈ c.world.ledger, e.2.transaction = ethSend 7#160 8#160 1#256 5#256) ∧
      ∃ account, accounts (fun _ => none) c.world.cache 7#160 = some account ∧
        checkSend .small (ethSend 7#160 8#160 1#256 5#256) account = .ok () := by
  have hrun : ((node .small fun _ => none).run (NodeConfig.start tenEth)
      (appliedOnce (ethSend 7#160 8#160 1#256 5#256))).map
      (fun c => (c.world.ledger.map (·.2.transaction),
        (accounts (fun _ => none) c.world.cache 7#160).map
          (checkSend .small (ethSend 7#160 8#160 1#256 5#256)))) =
      some ([ethSend 7#160 8#160 1#256 5#256], some (.ok ())) := by
    decide +kernel
  obtain ⟨c, hc, hval⟩ := Option.map_eq_some_iff.1 hrun
  obtain ⟨hledger, haccepted⟩ := Prod.mk.inj hval
  obtain ⟨account, hacc, hok⟩ := Option.map_eq_some_iff.1 haccepted
  have hmem : ethSend 7#160 8#160 1#256 5#256 ∈ c.world.ledger.map (·.2.transaction) := by
    rw [hledger]
    exact List.mem_singleton_self _
  obtain ⟨e, he, htx⟩ := List.mem_map.1 hmem
  exact ⟨c, hc, ⟨e, he, htx⟩, account, hacc, hok⟩

end Lasr
