import Lasr.Batches
import Lasr.Application

/-!
# Atomicity

What the two functions of the batcher that apply a transaction leave behind when they do not
come to their end, in the account cache and in the batches.

`apply_instructions_to_accounts` keeps what its instructions do in a buffer, but has written
the called account with its nonce advanced before the first of them. So a call that fails has
left everything as it was just in case it failed before that (`call_unchanged_iff`).

`add_transaction_to_account` works out both accounts before it writes one of them. A send
that fails has written nothing, and from there on both accounts are written provided that
each finds room in a batch (`send_atomic_iff`). Where one does not, the send stays in the
insertion, with one account in the cache and the other one not.
-/

set_option linter.unusedSectionVars false

namespace Lasr

/-! ## Calls -/

section Call

variable {env : Env} {checkSize : Batch → Option ℕ} {storage cache : AccountStore}
  {tx : Transaction} {outputs : Outputs}

/-- An instruction moves no nonce. -/
theorem CallStep.nonceAt {i : Instruction} {v w : AccountMap}
    (h : CallStep storage cache tx outputs i v w) (a : Address) : w.nonceAt a = v.nonceAt a := by
  obtain ⟨caller, caller', pre, post, b, b', -, -, -, hpre, hi, rfl, rfl⟩ := h
  obtain ⟨-, hk, -, -⟩ := applyInstructions_ok BatchBuffer.keyed_empty hpre
  obtain ⟨-, -, hnonce, -⟩ := applyInstruction_ok hk hi
  exact hnonce a

/-- Whatever a call comes to, the called account has its nonce advanced. -/
theorem nonceAt_called {called called' : Account}
    (hcalled : accounts storage cache tx.to = some called)
    (hinc : called.incrementNonce = .ok called') :
    (accounts storage
      (runAlone storage (applyInstructionsToAccounts env tx outputs) cache).2).nonceAt tx.to =
      called.nonce.toNat + 1 := by
  have haddr : called'.address = tx.to :=
    (Account.incrementNonce_keeps hinc).1.trans (address_of_accounts hcalled)
  refine called_induction (I := fun v => v.nonceAt tx.to = called.nonce.toNat + 1) env hcalled hinc
    ?_ fun i v w hstep hv => (hstep.nonceAt tx.to).trans hv
  rw [AccountMap.nonceAt_put, haddr, if_pos rfl, (Account.incrementNonce_ok hinc).1]

/-- A call that fails has left the cache and the batches as they were just in case the called
account does not exist, or has the largest nonce there is. -/
theorem call_unchanged_iff {e : Fault BatcherError} {s s' : BatcherState}
    (h : runBatched env checkSize storage (applyInstructionsToAccounts env tx outputs) s =
      (.done (.error e), s')) :
    s' = s ↔ ∀ called, accounts storage s.cache tx.to = some called →
      2 ^ 256 ≤ called.nonce.toNat + 1 := by
  constructor
  · rintro rfl called hcalled
    by_contra hlt
    obtain ⟨called', hinc⟩ := Account.incrementNonce_isOk_iff.2 (not_le.1 hlt)
    have hmoved : (accounts storage (runAlone storage
        (applyInstructionsToAccounts env tx outputs) s'.cache).2).nonceAt tx.to = _ :=
      nonceAt_called hcalled hinc
    rw [runAlone_of_runBatched h, AccountMap.nonceAt_of_some hcalled] at hmoved
    omega
  · intro hlast
    unfold applyInstructionsToAccounts at h
    rw [runBatched_getAccount_bind] at h
    cases hcalled : accounts storage s.cache tx.to with
    | none =>
      rw [hcalled] at h
      cases h
      rfl
    | some called =>
      rw [hcalled] at h
      dsimp only at h
      cases hinc : called.incrementNonce with
      | error e' =>
        rw [hinc] at h
        cases h
        rfl
      | ok called' =>
        exact absurd (Account.incrementNonce_isOk_iff.1 ⟨called', hinc⟩)
          (not_lt.2 (hlast called hcalled))

end Call

/-- A rough length of an encoded batch, with transactions of almost 512 KiB. -/
def roughSize (batch : Batch) : Option ℕ :=
  some (524000 * batch.transactions.entries.length + 600 * batch.accounts.entries.length)

/-- The batcher before its first transaction. -/
def noBatches : Batcher := ⟨Batch.new, []⟩

/-- The user's call that pays twice, run on this cache. -/
def payTwiceRun (cache : AccountStore) :
    Outcome effects (Fault BatcherError) Unit × BatcherState :=
  runBatched .small roughSize (fun _ => none)
    (applyInstructionsToAccounts .small (callOf 7#160 9#160 1#256) payTwice) ⟨cache, noBatches⟩

theorem call_unchanged_iff_tenEth :
    payTwiceRun tenEth = (.done (.error (.err (.failedTransaction "caller account does not exist"
        (callOf 7#160 9#160 1#256)))), ⟨tenEth, noBatches⟩) ∧
      ∀ called, accounts (fun _ => none) tenEth 9#160 = some called →
        2 ^ 256 ≤ called.nonce.toNat + 1 := by
  have hrun : payTwiceRun tenEth = (.done (.error (.err (.failedTransaction
    "caller account does not exist" (callOf 7#160 9#160 1#256)))), ⟨tenEth, noBatches⟩) := rfl
  exact ⟨hrun, (call_unchanged_iff hrun).1 rfl⟩

/-- The second of two transfers fails, and the called account has its nonce advanced in the
cache and in the parent batch. -/
theorem failed_call_moves_nonce :
    ∃ e s', payTwiceRun oneProgram = (.done (.error (.err e)), s') ∧
      (accounts (fun _ => none) oneProgram).nonceAt 9#160 = 0 ∧
      (accounts (fun _ => none) s'.cache).nonceAt 9#160 = 1 ∧
      s'.batcher.parent.accounts.keys = [Address.toFullString 9#160] ∧
      s' ≠ ⟨oneProgram, noBatches⟩ := by
  refine ⟨_, _, rfl, rfl, rfl, rfl, fun h => ?_⟩
  have hkeys := congrArg (fun s : BatcherState => s.batcher.parent.accounts.keys) h
  cases hkeys

/-! ## Sends and bridge-ins -/

/-- What the accounts part of a send comes to, on these accounts. -/
def sentAccounts (storage cache : AccountStore) (tx : Transaction) :
    Except (Fault BatcherError) (HashMap String Account × Token) :=
  (runAlone storage (sendAccounts tx) cache).1

/-- The account is in the cache and in a batch. -/
def BatcherState.Written (s : BatcherState) (account : Account) : Prop :=
  Slot.account (s.cache account.address) = some account ∧ s.batcher.Holds account

/-- A send or bridge-in is atomic in a state : where its accounts part fails, it returns that
error and nothing has changed; otherwise every write of an account comes to its end, and the
new accounts of both sides are written. -/
structure SendAtomic (env : Env) (checkSize : Batch → Option ℕ) (storage : AccountStore)
    (s : BatcherState) (tx : Transaction) : Prop where
  failed : ∀ e, sentAccounts storage s.cache tx = .error e →
    runBatched env checkSize storage (addTransactionToAccount env tx) s = (.done (.error e), s)
  ends : ∀ r, sentAccounts storage s.cache tx = .ok r → ∀ account,
    (runBatched env checkSize storage (addTransactionToAccount env tx) s).1 ≠
      .stuck (.insertAccount account)
  written : ∀ r, sentAccounts storage s.cache tx = .ok r → ∀ a, a = tx.from ∨ a = tx.to →
    ∃ account, r.1.lookup (Address.toFullString a) = some account ∧ account.address = a ∧
      (runBatched env checkSize storage (addTransactionToAccount env tx) s).2.Written account

section Send

variable {env : Env} {checkSize : Batch → Option ℕ} {storage cache : AccountStore}
  {tx : Transaction} {s : BatcherState}

/-- A send goes on to write its accounts where their part of it goes through. -/
theorem runBatched_addTransactionToAccount :
    runBatched env checkSize storage (addTransactionToAccount env tx) s =
      match sentAccounts storage s.cache tx with
      | .ok r => runBatched env checkSize storage (finishSend env tx r) s
      | .error e => (.done (.error e), s) := by
  rw [addTransactionToAccount_eq, runBatched_reads_bind sendAccounts_reads]
  unfold sentAccounts
  cases (runAlone storage (sendAccounts tx) s.cache).1 <;> rfl

/-- Its buffer has both sides, each under the text of its address. -/
theorem sentAccounts_sides {r : HashMap String Account × Token}
    (h : sentAccounts storage cache tx = .ok r) : TextKeyed r.1 ∧ ∀ a, a = tx.from ∨ a = tx.to →
      ∃ account, r.1.lookup (Address.toFullString a) = some account := by
  have hstill := runAlone_of_reads (@sendAccounts_reads tx) storage cache
  obtain ⟨-, sender, hsender, hbuffer⟩ := sendAccounts_ok (Prod.ext h hstill)
  exact creditSide_sides hsender hbuffer

/-- What is left once the accounts are written keeps them written, and stays at no account. -/
theorem finishSend_of_hasRoom {r : HashMap String Account × Token}
    (hkeyed : TextKeyed r.1)
    (hroom : s.batcher.HasRoom checkSize ((env.order.iter r.1.entries).map Sigma.snd)) :
    (∀ account, (runBatched env checkSize storage (finishSend env tx r) s).1 ≠
        .stuck (.insertAccount account)) ∧
      ∀ k account, r.1.lookup k = some account →
        (runBatched env checkSize storage (finishSend env tx r) s).2.Written account := by
  have hnd := AccountMap.nodup_of_entries env.order hkeyed
  obtain ⟨b, hrun, hall, -⟩ :=
    runBatched_addAccountsToBatch_of_hasRoom (fun _ => reportSend env tx r.2) hroom hnd
  have hmem : ∀ {k account}, r.1.lookup k = some account →
      account ∈ (env.order.iter r.1.entries).map Sigma.snd := fun hlook =>
    List.mem_map_of_mem ((env.order.perm _).mem_iff.2 (AList.mem_lookup_iff.1 hlook))
  have hcached : ∀ {k account}, r.1.lookup k = some account →
      Slot.account ((((env.order.iter r.1.entries).map Sigma.snd).foldl handleCacheWrite s.cache)
        account.address) = some account := by
    intro k account hlook
    have hput := AccountMap.putAll_of_mem (v := accounts (fun _ => none) s.cache) hnd (hmem hlook)
    rw [← accounts_foldl_handleCacheWrite] at hput
    simpa [accounts] using hput
  unfold finishSend
  rw [hrun]
  unfold reportSend
  rw [runBatched_addTransactionToBatch_bind]
  cases hb : b.addTransaction env checkSize tx with
  | none =>
    refine ⟨fun _ h => ?_, fun k account hlook => ⟨hcached hlook, hall _ (hmem hlook)⟩⟩
    cases h
  | some b' =>
    refine ⟨fun _ h => ?_, fun k account hlook =>
      ⟨hcached hlook, (hall _ (hmem hlook)).addTransaction hb⟩⟩
    cases h

/-- A send or bridge-in is atomic just in case the accounts it comes to find room in the
batches, one after another. -/
theorem send_atomic_iff : SendAtomic env checkSize storage s tx ↔
    ∀ r, sentAccounts storage s.cache tx = .ok r →
      s.batcher.HasRoom checkSize ((env.order.iter r.1.entries).map Sigma.snd) := by
  constructor
  · intro h r hr
    by_contra hroom
    obtain ⟨account, s', hrun⟩ :=
      runBatched_addAccountsToBatch_of_not_hasRoom (fun _ => reportSend env tx r.2) hroom
    refine h.ends r hr account ?_
    rw [runBatched_addTransactionToAccount, hr]
    exact congrArg Prod.fst hrun
  · intro hroom
    refine ⟨fun e he => ?_, fun r hr => ?_, fun r hr a ha => ?_⟩
    · rw [runBatched_addTransactionToAccount, he]
    · rw [runBatched_addTransactionToAccount, hr]
      exact (finishSend_of_hasRoom (sentAccounts_sides hr).1 (hroom r hr)).1
    · obtain ⟨hkeyed, hsides⟩ := sentAccounts_sides hr
      obtain ⟨account, hlook⟩ := hsides a ha
      refine ⟨account, hlook, Address.toFullString_injective (hkeyed _ _ hlook), ?_⟩
      rw [runBatched_addTransactionToAccount, hr]
      exact (finishSend_of_hasRoom hkeyed (hroom r hr)).2 _ _ hlook

end Send

/-- A parent with one transaction of almost 512 KiB, and no children. -/
def fullBatches : Batcher where
  parent := ⟨(∅ : HashMap String Transaction).insert
    (Env.small.hashString (callOf 5#160 9#160 1#256)) (callOf 5#160 9#160 1#256), ∅⟩
  children := []

/-- A send of 4 ETH, run on full batches. -/
def fullSendRun : Outcome effects (Fault BatcherError) Unit × BatcherState :=
  runBatched .small roughSize (fun _ => none)
    (addTransactionToAccount .small (ethSend 7#160 8#160 4#256 1#256)) ⟨tenEth, fullBatches⟩

/-- The send stays at the receiver's account, which is in the cache by then. The sender has
the 10 ETH it had. -/
theorem full_batches_split_send :
    (∃ receiver, fullSendRun.1 = .stuck (.insertAccount receiver)) ∧
      (accounts (fun _ => none) fullSendRun.2.cache).balanceAt 8#160 ETH_ADDR = 4 ∧
      (accounts (fun _ => none) fullSendRun.2.cache).balanceAt 7#160 ETH_ADDR = 10 ∧
      ¬SendAtomic .small roughSize (fun _ => none) ⟨tenEth, fullBatches⟩
        (ethSend 7#160 8#160 4#256 1#256) := by
  have hstuck : fullSendRun.1 = .stuck (.insertAccount _) := rfl
  refine ⟨⟨_, hstuck⟩, rfl, rfl, fun h => ?_⟩
  exact h.ends _ rfl _ hstuck

end Lasr
