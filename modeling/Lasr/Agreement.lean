import Lasr.Versions
import Lasr.Ownership

/-!
# The account cache and the batches

`add_account_to_batch` has two effects : a `Write` in the mailbox of the account cache, and an
insertion under the batcher's lock. `cache_account` does not wait for anything, so a future
asks for the lock in the poll that sends the write. Here is what the two meet with : the
mailbox, which is first in, first out; the lock, whose waiters get it in the order they asked
for it; and batch requests that keep the lock until the DA client has answered.

A poll takes a future to its next await (`BatcherSystem.poll`) : the reply to a read, or the
lock. The first waiter has the lock. An insertion that never ends keeps it for good.

The order of the writes is the order of the insertions, so the cache with the writes of its
mailbox is the batches with the insertions that wait (`Agrees`). Without an insertion that
waits, the cache has, once its mailbox is empty of writes, what the last batch has
(`cache_agrees`).
-/

set_option linter.unusedSectionVars false

namespace Lasr

/-! ## The system -/

/-- A message in the mailbox of the account cache. A read carries what follows its reply. -/
inductive CacheMail where
  | write (account : Account)
  | read (address : Address) (k : Slot address → BatcherM Unit)

/-- Who has asked for the batcher's lock, and what follows. -/
inductive LockWaiter where
  /-- `add_account_to_batch`. -/
  | account (account : Account) (rest : BatcherM Unit)
  /-- `add_transaction_to_batch`. -/
  | transaction (transaction : Transaction) (rest : BatcherM Unit)
  /-- `handle_next_batch_request`. -/
  | nextBatch (world : DaWorld)
  /-- `request_blob_validation` and `handle_blob_verification_proof`, which change no batch. -/
  | other

/-- What is done with the lock. -/
def LockWaiter.op : LockWaiter → Option BatchOp
  | .account acc _ => some (.addAccount acc)
  | .transaction tx _ => some (.addTransaction tx)
  | .nextBatch world => some (.nextBatch world)
  | .other => none

/-- The future that goes on after the lock. -/
def LockWaiter.rest : LockWaiter → List (BatcherM Unit)
  | .account _ rest => [rest]
  | .transaction _ rest => [rest]
  | .nextBatch _ => []
  | .other => []

/-- The account cache with its mailbox, the futures that can be polled, the lock with its holder
first, and the batches behind it. -/
structure BatcherSystem where
  cache : AccountStore
  mail : List CacheMail
  ready : List (BatcherM Unit)
  lock : List LockWaiter
  settlement : Settlement

namespace BatcherSystem

/-- An empty batcher. -/
def start (cache : AccountStore) : BatcherSystem :=
  ⟨cache, [], [], [], .start Batch.new []⟩

/-- Take a future to its next await. -/
def poll : BatcherM Unit → BatcherSystem → BatcherSystem
  | .ret _, s => s
  | .fail _, s => s
  | .op (.getAccount address) k, s => { s with mail := s.mail ++ [.read address k] }
  | .op (.cacheAccount account) k, s => poll (k ()) { s with mail := s.mail ++ [.write account] }
  | .op (.insertAccount account) k, s => { s with lock := s.lock ++ [.account account (k ())] }
  | .op (.insertTransaction tx) k, s => { s with lock := s.lock ++ [.transaction tx (k ())] }
  | .op (.cast _) k, s => poll (k ()) s
  -- no future of the batcher runs a container
  | .op (.runContainer _ _ _ _) k, s => poll (k ()) s
  | .op (.takeHandle _) k, s => poll (k none) s

/-- What happens next. -/
inductive Event where
  /-- A transaction is appended, and its future pushed to the pool. -/
  | append (order : HashOrder) (m : Append)
  /-- `GetNextBatch`. -/
  | getNextBatch (world : DaWorld)
  /-- Someone else asks for the lock. -/
  | ask
  /-- A future is polled. -/
  | poll (i : ℕ)
  /-- The account cache takes its next message, over the persistence store of that moment. -/
  | deliver (storage : AccountStore)
  /-- The holder of the lock does its work and lets it go. -/
  | release

section Step

variable (env : Env) (encodeBatch : Batch → Option String)

/-- The work of a holder of the lock on the batches, if it ends. -/
def work (self : Settlement) (w : LockWaiter) : Option Settlement :=
  match w.op with
  | some op => self.step env encodeBatch op
  | none => some self

/-- One event, if it can happen. -/
def step (self : BatcherSystem) : Event → Option BatcherSystem
  | .append order m => some { self with ready := self.ready ++ [m.future env order] }
  | .getNextBatch world => some { self with lock := self.lock ++ [.nextBatch world] }
  | .ask => some { self with lock := self.lock ++ [.other] }
  | .poll i =>
    match self.ready[i]? with
    | some p => some (poll p { self with ready := self.ready.eraseIdx i })
    | none => none
  | .deliver storage =>
    match self.mail with
    | [] => none
    | .write account :: mail =>
      some { self with cache := handleCacheWrite self.cache account, mail := mail }
    | .read address k :: mail =>
      some { self with
        mail := mail
        ready := self.ready ++ [k ((self.cache address).or (storage address))] }
  | .release =>
    match self.lock with
    | [] => none
    | w :: lock =>
      (work env encodeBatch self.settlement w).map fun settlement =>
        { self with
          lock := lock
          ready := self.ready ++ LockWaiter.rest w
          settlement := settlement }

/-- One event after another. -/
def run : BatcherSystem → List Event → Option BatcherSystem
  | self, [] => some self
  | self, e :: es => (self.step env encodeBatch e).bind fun s => run s es

end Step

/-- The accounts whose writes are in the mailbox, in order. -/
def writes (self : BatcherSystem) : List Account :=
  self.mail.filterMap fun
    | .write account => some account
    | .read _ _ => none

/-- The accounts whose insertions wait for the lock or have it, in order : the calls of
`add_account_to_batch` in progress. -/
def inserts (self : BatcherSystem) : List Account :=
  self.lock.filterMap fun
    | .account account _ => some account
    | _ => none

/-- The account cache, as it is without its mailbox. -/
def cached (self : BatcherSystem) : AccountMap := fun a => Slot.account (self.cache a)

/-- The version of an account in the last batch that has one : the parent, or else the batch sent
last. -/
def inBatch (self : BatcherSystem) (a : Address) : Option Account :=
  (self.settlement.queue.parent.accounts.lookup (Address.toFullString a)).or
    (lastEntry (Address.toFullString a) self.settlement.sent)

end BatcherSystem

/-! ## Writes and insertions in pairs -/

/-- A write to the cache is followed by the insertion of its account. -/
def Op.partner : Op → Option Op
  | .cacheAccount account => some (.insertAccount account)
  | _ => none

/-- The insertion of an account. -/
def Op.IsInsertAccount : Op → Prop
  | .insertAccount _ => True
  | _ => False

/-- Every write of a program is followed at once by the insertion of its account. -/
abbrev WritesPaired {α : Type} (p : BatcherM α) : Prop :=
  p.Paired (E := effects) Op.partner Op.IsInsertAccount none

section Pairs

variable {α β : Type} {R : Set Address} {Q : α → Prop} {env : Env} {tx : Transaction}

theorem writesPaired_of_reads {p : BatcherM α} (h : p.Meets (Op.Reads R) Q) : WritesPaired p := by
  refine Prog.paired_of_meets (h.mono ?_ fun _ hq => hq)
  rintro o ⟨a, -, rfl⟩
  exact ⟨(fun hno => nomatch hno), rfl⟩

theorem addAccountToBatch_paired (account : Account) : WritesPaired (addAccountToBatch account) :=
  ⟨(fun hno => nomatch hno), fun _ => ⟨rfl, fun _ => trivial⟩⟩

theorem addAccountsToBatch_paired : ∀ l : List Account, WritesPaired (addAccountsToBatch l)
  | [] => trivial
  | account :: l => Prog.Paired.bind (fun _ => addAccountsToBatch_paired l)
      (addAccountToBatch_paired account)

theorem getAccount_paired_bind {a : Address} {f : Option Account → BatcherM β}
    (hf : ∀ r, WritesPaired (f r)) : WritesPaired (getAccount a >>= f) :=
  ⟨(fun hno => nomatch hno), fun _ => hf _⟩

theorem cast_paired_bind {m : Msg} {f : Unit → BatcherM β} (hf : WritesPaired (f ())) :
    WritesPaired (cast m >>= f) :=
  ⟨(fun hno => nomatch hno), fun _ => hf⟩

theorem addTransactionToBatch_paired_bind {f : Unit → BatcherM β} (hf : WritesPaired (f ())) :
    WritesPaired (addTransactionToBatch tx >>= f) :=
  ⟨(fun hno => nomatch hno), fun _ => hf⟩

theorem orFailed_paired (x : AccountResult α) : WritesPaired (orFailed tx x) :=
  writesPaired_of_reads (R := Set.univ)
    (Prog.meets_ofExcept (Q := fun _ => True) fun _ _ => trivial)

theorem addTransactionToAccount_paired : WritesPaired (addTransactionToAccount env tx) := by
  rw [addTransactionToAccount_eq]
  refine Prog.Paired.bind (fun r => ?_) (writesPaired_of_reads sendAccounts_reads)
  refine Prog.Paired.bind (fun _ => ?_) (addAccountsToBatch_paired _)
  exact addTransactionToBatch_paired_bind (cast_paired_bind (cast_paired_bind trivial))

theorem applyInstructions_paired (outputs : Outputs) :
    WritesPaired (applyInstructions tx outputs.instructions ∅) :=
  writesPaired_of_reads (applyInstructions_reads (Set.Subset.refl Set.univ)
    (fun _ _ h => by simp at h) (fun _ _ => Set.mem_univ _) fun _ _ => Set.mem_univ _)

theorem applyInstructionsToAccounts_paired (outputs : Outputs) :
    WritesPaired (applyInstructionsToAccounts env tx outputs) := by
  refine getAccount_paired_bind fun r => ?_
  cases r with
  | none => trivial
  | some caller =>
    refine Prog.Paired.bind (fun caller => ?_) (orFailed_paired _)
    refine Prog.Paired.bind (fun _ => ?_) (addAccountToBatch_paired caller)
    refine Prog.Paired.bind (fun batchBuffer => ?_) (applyInstructions_paired outputs)
    refine Prog.Paired.bind (fun _ => ?_) (addAccountsToBatch_paired _)
    refine addTransactionToBatch_paired_bind (cast_paired_bind (getAccount_paired_bind fun r => ?_))
    cases r with
    | none => trivial
    | some account => exact cast_paired_bind trivial

theorem applyProgramRegistration_paired : WritesPaired (applyProgramRegistration env tx) := by
  refine getAccount_paired_bind fun r => ?_
  cases r with
  | none => exact cast_paired_bind trivial
  | some account =>
    dsimp only
    rcases env.contentId tx.inputs with e | _ | _ | contentId
    · trivial
    · trivial
    · trivial
    · dsimp only
      cases createProgramId env contentId tx with
      | error e => trivial
      | ok programId =>
        refine Prog.Paired.bind (fun _ => ?_) (addAccountToBatch_paired _)
        refine Prog.Paired.bind (fun account => ?_) (orFailed_paired _)
        refine Prog.Paired.bind (fun _ => ?_) (addAccountToBatch_paired account)
        exact cast_paired_bind trivial

/-- So it is in every future of the batcher. -/
theorem future_paired (order : HashOrder) (m : Append) : WritesPaired (m.future env order) := by
  unfold Append.future appendTransaction
  cases m.transaction.transactionType with
  | send n => exact addTransactionToAccount_paired
  | bridgeIn n => exact addTransactionToAccount_paired
  | call n =>
    cases m.outputs with
    | none => trivial
    | some outputs => exact applyInstructionsToAccounts_paired outputs
  | registerProgram n => exact applyProgramRegistration_paired
  | bridgeOut n => trivial

end Pairs

/-! ## The invariant -/

section Agree

variable {env : Env} {encodeBatch : Batch → Option String} {base : AccountStore}
  {s s' : BatcherSystem}

/-- The writes and insertions of all futures come in pairs. -/
structure BatcherSystem.AllPaired (s : BatcherSystem) : Prop where
  mail : ∀ a k, CacheMail.read a k ∈ s.mail → ∀ r, WritesPaired (k r)
  ready : ∀ p ∈ s.ready, WritesPaired p
  lock : ∀ w ∈ s.lock, ∀ p ∈ w.rest, WritesPaired p

/-- What the batches have for each address, over a cache to start from. -/
def BatcherSystem.batched (base : AccountStore) (self : BatcherSystem) : AccountMap := fun a =>
  (self.settlement.finalEntry (Address.toFullString a)).or (Slot.account (base a))

/-- The cache with the writes of its mailbox is the batches with the insertions that wait for the
lock, and those that are due. -/
structure BatcherSystem.Agrees (base : AccountStore) (due : List Account) (s : BatcherSystem) :
    Prop where
  views : s.cached.putAll s.writes = (s.batched base).putAll (s.inserts ++ due)
  single : s.settlement.queue.children = []
  paired : s.AllPaired

theorem AccountMap.putAll_append (v : AccountMap) (l l' : List Account) :
    v.putAll (l ++ l') = (v.putAll l).putAll l' :=
  List.foldl_append

/-- A new waiter for the lock. -/
theorem BatcherSystem.AllPaired.lock_append (hs : s.AllPaired) {w : LockWaiter}
    (hw : ∀ p ∈ w.rest, WritesPaired p) :
    AllPaired { s with lock := s.lock ++ [w] } := by
  refine ⟨hs.mail, hs.ready, fun w' hw' => ?_⟩
  rcases List.mem_append.1 hw' with hw' | hw'
  · exact hs.lock w' hw'
  · cases List.mem_singleton.1 hw'
    exact hw

/-- A new message for the cache. -/
theorem BatcherSystem.AllPaired.mail_append (hs : s.AllPaired) {m : CacheMail}
    (hm : ∀ a k, m = .read a k → ∀ r, WritesPaired (k r)) :
    AllPaired { s with mail := s.mail ++ [m] } := by
  refine ⟨fun a k hmem => ?_, hs.ready, hs.lock⟩
  rcases List.mem_append.1 hmem with hmem | hmem
  · exact hs.mail a k hmem
  · exact hm a k (List.mem_singleton.1 hmem).symm

/-- A poll whose insertion is due asks for the lock. -/
theorem BatcherSystem.Agrees.poll_due {account : Account} {p : BatcherM Unit}
    (hp : p.Paired (E := effects) Op.partner Op.IsInsertAccount (some (.insertAccount account)))
    (hs : s.Agrees base [account]) : (BatcherSystem.poll p s).Agrees base [] := by
  cases p with
  | ret _ => exact hp.elim
  | fail _ => exact hp.elim
  | op o k =>
    obtain ⟨rfl, hrest⟩ := hp
    have hi : BatcherSystem.inserts { s with lock := s.lock ++ [.account account (k ())] } =
        s.inserts ++ [account] := by simp [inserts]
    refine ⟨?_, hs.single, hs.paired.lock_append fun q hq => ?_⟩
    · change s.cached.putAll s.writes = (s.batched base).putAll
        (BatcherSystem.inserts { s with lock := s.lock ++ [.account account (k ())] } ++ [])
      rw [hi, List.append_nil]
      exact hs.views
    · cases List.mem_singleton.1 hq
      exact hrest ()

/-- Someone waits for the lock, and it is not for an account. -/
theorem BatcherSystem.Agrees.wait (hs : s.Agrees base []) {w : LockWaiter}
    (hw : BatcherSystem.inserts { s with lock := s.lock ++ [w] } = s.inserts)
    (hrest : ∀ p ∈ w.rest, WritesPaired p) :
    BatcherSystem.Agrees base [] { s with lock := s.lock ++ [w] } := by
  refine ⟨?_, hs.single, hs.paired.lock_append hrest⟩
  change s.cached.putAll s.writes = (s.batched base).putAll
    (BatcherSystem.inserts { s with lock := s.lock ++ [w] } ++ [])
  rw [hw]
  exact hs.views

/-- A poll puts a write and its insertion in line together. -/
theorem BatcherSystem.Agrees.poll {p : BatcherM Unit} (hp : WritesPaired p)
    (hs : s.Agrees base []) : (BatcherSystem.poll p s).Agrees base [] := by
  induction p generalizing s with
  | ret _ => exact hs
  | fail _ => exact hs
  | op o k ih =>
    cases o with
    | getAccount a =>
      refine ⟨?_, hs.single, hs.paired.mail_append fun b f hm r => ?_⟩
      · have hw : BatcherSystem.writes { s with mail := s.mail ++ [.read a k] } = s.writes := by
          simp [writes]
        change s.cached.putAll
          (BatcherSystem.writes { s with mail := s.mail ++ [.read a k] }) = _
        rw [hw]
        exact hs.views
      · cases hm
        exact hp.2 r
    | cacheAccount account =>
      change (BatcherSystem.poll (k ())
        { s with mail := s.mail ++ [.write account] }).Agrees base []
      refine poll_due (hp.2 ()) ⟨?_, hs.single, hs.paired.mail_append fun _ _ hm => nomatch hm⟩
      have hw : BatcherSystem.writes { s with mail := s.mail ++ [.write account] } =
          s.writes ++ [account] := by simp [writes]
      change s.cached.putAll
        (BatcherSystem.writes { s with mail := s.mail ++ [.write account] }) =
          (s.batched base).putAll (s.inserts ++ [account])
      rw [hw, AccountMap.putAll_append, hs.views, List.append_nil, AccountMap.putAll_append]
    | insertAccount account => exact absurd trivial hp.1
    | insertTransaction tx =>
      refine hs.wait (by simp [inserts]) fun q hq => ?_
      cases List.mem_singleton.1 hq
      exact hp.2 ()
    | cast m =>
      change (BatcherSystem.poll (k ()) s).Agrees base []
      exact ih () (hp.2 ()) hs
    | runContainer _ _ _ _ =>
      change (BatcherSystem.poll (k ()) s).Agrees base []
      exact ih () (hp.2 ()) hs
    | takeHandle _ =>
      change (BatcherSystem.poll (k none) s).Agrees base []
      exact ih none (hp.2 none) hs

/-- A step on a batcher without children leaves it without children. -/
theorem Settlement.children_step {t t' : Settlement} {op : BatchOp}
    (ht : t.queue.children = []) (h : t.step env encodeBatch op = some t') :
    t'.queue.children = [] := by
  have hfit : ∀ {insert : Batch → Except BatcherError Batch} {b : Batcher},
      firstFit insert t.queue.batches = some b.batches → b.children = [] := by
    intro insert b hb
    obtain ⟨pre, bin, bin', post, hpre, -, hb'⟩ := firstFit_eq_some hb
    have hlen : b.batches.length = t.queue.batches.length := by simp [hpre, hb']
    simpa [Batcher.batches, ht] using hlen
  cases op with
  | addTransaction tx =>
    obtain ⟨b, hb, rfl⟩ := Option.map_eq_some_iff.1 h
    exact hfit (Batcher.firstFit_of_addTransaction hb)
  | addAccount account =>
    obtain ⟨b, hb, rfl⟩ := Option.map_eq_some_iff.1 h
    exact hfit (Batcher.firstFit_of_addAccount hb)
  | nextBatch world =>
    cases h
    unfold request
    rcases t.queue.handleNextBatchRequest_cases env.order encodeBatch world with
      ⟨-, hr⟩ | ⟨-, -, hr⟩ | ⟨requestId, -, hr⟩
    · simpa only [hr] using ht
    · simpa only [hr] using ht
    · simp only [hr.queue, ht, List.tail_nil]

/-- The work of the holder : an insertion brings its account into the last batch, and nothing
else changes what the batches have. -/
theorem BatcherSystem.finalEntry_work {t t' : Settlement} {w : LockWaiter}
    (ht : t.queue.children = []) (h : work env encodeBatch t w = some t') (a : Address) :
    t'.finalEntry (Address.toFullString a) = match w with
      | .account account _ =>
        if a = account.address then some account else t.finalEntry (Address.toFullString a)
      | _ => t.finalEntry (Address.toFullString a) := by
  cases w with
  | account account rest =>
    have hstep : t.step env encodeBatch (.addAccount account) = some t' := h
    dsimp only
    split_ifs with ha
    · subst ha
      have hbehind : behind (Batch.checkSize encodeBatch) account t.queue.batches = [] := by
        simp [Batcher.batches, ht, behind]
      rw [Settlement.finalEntry_addAccount hstep, hbehind]
      rfl
    · refine Settlement.finalEntry_step_of_ne (fun other hop hkey => ha ?_) hstep
      cases hop
      exact Address.toFullString_injective hkey
  | transaction tx rest =>
    have hstep : t.step env encodeBatch (.addTransaction tx) = some t' := h
    exact Settlement.finalEntry_step_of_ne (fun _ hop => by cases hop) hstep
  | nextBatch world =>
    have hstep : t.step env encodeBatch (.nextBatch world) = some t' := h
    exact Settlement.finalEntry_step_of_ne (fun _ hop => by cases hop) hstep
  | other =>
    cases h
    rfl

theorem BatcherSystem.children_work {t t' : Settlement} {w : LockWaiter}
    (ht : t.queue.children = []) (h : work env encodeBatch t w = some t') :
    t'.queue.children = [] := by
  unfold work at h
  cases hop : w.op with
  | some op =>
    rw [hop] at h
    exact Settlement.children_step ht h
  | none =>
    rw [hop] at h
    cases h
    exact ht

/-- The holder does its work, and its account is no longer among those that wait. -/
theorem BatcherSystem.Agrees.release {w : LockWaiter} {lock : List LockWaiter} {t : Settlement}
    (hs : s.Agrees base []) (hlock : s.lock = w :: lock)
    (h : work env encodeBatch s.settlement w = some t) :
    BatcherSystem.Agrees base []
      { s with lock := lock, ready := s.ready ++ w.rest, settlement := t } := by
  have hfinal := finalEntry_work hs.single h
  refine ⟨?_, ?_, ⟨hs.paired.mail, fun p hp => ?_, fun w' hw' => hs.paired.lock w' ?_⟩⟩
  · change s.cached.putAll s.writes = AccountMap.putAll (fun a =>
      (t.finalEntry (Address.toFullString a)).or (Slot.account (base a)))
        (lock.filterMap (fun | .account account _ => some account | _ => none) ++ [])
    rw [hs.views, List.append_nil, List.append_nil]
    cases w with
    | account account rest =>
      have hput : (fun a => (t.finalEntry (Address.toFullString a)).or (Slot.account (base a))) =
          (s.batched base).put account := by
        funext a
        rw [hfinal a, AccountMap.put_apply]
        dsimp only
        split_ifs <;> rfl
      have hin : s.inserts = account ::
          lock.filterMap (fun | .account account _ => some account | _ => none) := by
        simp [inserts, hlock]
      rw [hput, hin]
      rfl
    | _ =>
      have hin : s.inserts =
          lock.filterMap (fun | .account account _ => some account | _ => none) := by
        simp [inserts, hlock]
      rw [hin]
      refine congrArg (fun v => AccountMap.putAll v _) (funext fun a => ?_)
      rw [hfinal a]
      rfl
  · exact children_work hs.single h
  · rcases List.mem_append.1 hp with hp | hp
    · exact hs.paired.ready p hp
    · exact hs.paired.lock w (by simp [hlock]) p hp
  · rw [hlock]
    exact List.mem_cons_of_mem _ hw'

theorem BatcherSystem.agrees_start (base : AccountStore) : (start base).Agrees base [] := by
  refine ⟨funext fun a => ?_, rfl, ?_⟩
  · have hnone : (start base).settlement.finalEntry (Address.toFullString a) = none := rfl
    change Slot.account (base a) =
      ((start base).settlement.finalEntry (Address.toFullString a)).or (Slot.account (base a))
    rw [hnone, Option.none_or]
  · exact ⟨(fun _ _ h => nomatch h), (fun _ h => nomatch h), (fun _ h => nomatch h)⟩

theorem BatcherSystem.cached_eq (s : BatcherSystem) :
    s.cached = accounts (fun _ => none) s.cache := by
  funext a
  simp [cached, accounts]

/-- The cache takes its next message. -/
theorem BatcherSystem.Agrees.deliver {m : CacheMail} {mail : List CacheMail}
    {storage : AccountStore} (hs : s.Agrees base []) (hmail : s.mail = m :: mail)
    (h : s.step env encodeBatch (.deliver storage) = some s') : s'.Agrees base [] := by
  have htail : ∀ a k, CacheMail.read a k ∈ mail → ∀ r, WritesPaired (k r) := fun a k hk =>
    hs.paired.mail a k (hmail ▸ List.mem_cons_of_mem _ hk)
  simp only [step, hmail] at h
  cases m with
  | write account =>
    cases h
    refine ⟨?_, hs.single, ⟨htail, hs.paired.ready, hs.paired.lock⟩⟩
    have hw : s.writes = account ::
        BatcherSystem.writes { s with
          cache := handleCacheWrite s.cache account, mail := mail } := by
      simp [writes, hmail]
    have hc : BatcherSystem.cached { s with
        cache := handleCacheWrite s.cache account, mail := mail } = s.cached.put account := by
      simp only [cached_eq]
      exact accounts_handleCacheWrite (fun _ => none) s.cache account
    have hviews := hs.views
    rw [hw] at hviews
    rw [hc]
    exact hviews
  | read a k =>
    cases h
    refine ⟨?_, hs.single, ⟨htail, fun p hp => ?_, hs.paired.lock⟩⟩
    · have hw : s.writes = BatcherSystem.writes { s with
          mail := mail
          ready := s.ready ++ [k ((s.cache a).or (storage a))] } := by
        simp [writes, hmail]
      exact hw ▸ hs.views
    · rcases List.mem_append.1 hp with hp | hp
      · exact hs.paired.ready p hp
      · cases List.mem_singleton.1 hp
        exact hs.paired.mail a k (hmail ▸ List.mem_cons_self) _

/-- Every event keeps the agreement. -/
theorem BatcherSystem.Agrees.step {e : Event} (hs : s.Agrees base [])
    (h : s.step env encodeBatch e = some s') : s'.Agrees base [] := by
  cases e with
  | append order m =>
    cases h
    refine ⟨hs.views, hs.single, ⟨hs.paired.mail, fun p hp => ?_, hs.paired.lock⟩⟩
    rcases List.mem_append.1 hp with hp | hp
    · exact hs.paired.ready p hp
    · cases List.mem_singleton.1 hp
      exact future_paired order m
  | getNextBatch world =>
    cases h
    exact hs.wait (by simp [inserts]) fun _ hp => nomatch hp
  | ask =>
    cases h
    exact hs.wait (by simp [inserts]) fun _ hp => nomatch hp
  | poll i =>
    simp only [BatcherSystem.step] at h
    split at h
    · next p hp =>
      cases h
      refine Agrees.poll (hs.paired.ready p (List.mem_of_getElem? hp)) ?_
      exact ⟨hs.views, hs.single, ⟨hs.paired.mail,
        fun q hq => hs.paired.ready q (List.mem_of_mem_eraseIdx hq), hs.paired.lock⟩⟩
    · cases h
  | deliver storage =>
    cases hmail : s.mail with
    | nil =>
      simp only [BatcherSystem.step, hmail] at h
      cases h
    | cons m mail => exact hs.deliver hmail h
  | release =>
    cases hlock : s.lock with
    | nil =>
      simp only [BatcherSystem.step, hlock] at h
      cases h
    | cons w lock =>
      simp only [BatcherSystem.step, hlock] at h
      obtain ⟨t, ht, rfl⟩ := Option.map_eq_some_iff.1 h
      exact hs.release hlock ht

/-- So does a run. -/
theorem BatcherSystem.Agrees.run : ∀ {es : List Event} {s : BatcherSystem}, s.Agrees base [] →
    s.run env encodeBatch es = some s' → s'.Agrees base []
  | [], _, hs, h => by
    cases h
    exact hs
  | _ :: _, _, hs, h => by
    obtain ⟨s₁, h₁, hrest⟩ := Option.bind_eq_some_iff.1 h
    exact Agrees.run (hs.step h₁) hrest

/-- Without children, what is settled last is in the parent or in the batch sent last. -/
theorem BatcherSystem.finalEntry_eq_inBatch (hs : s.settlement.queue.children = []) (a : Address) :
    s.settlement.finalEntry (Address.toFullString a) = s.inBatch a := by
  simp [Settlement.finalEntry, inBatch, Batcher.batches, hs, lastEntry_append, lastEntry]

/-- In every run, once no `add_account_to_batch` is in progress, the cache with the writes of its
mailbox has what the last batch has, and has it by itself once no write is in the mailbox. -/
theorem cache_agrees {es : List BatcherSystem.Event}
    (h : (BatcherSystem.start base).run env encodeBatch es = some s) (hidle : s.inserts = [])
    (a : Address) :
    s.cached.putAll s.writes a = (s.inBatch a).or (Slot.account (base a)) ∧
      (s.writes = [] → s.cached a = (s.inBatch a).or (Slot.account (base a))) := by
  have hagrees := (BatcherSystem.agrees_start base).run h
  have hview : s.cached.putAll s.writes a = (s.inBatch a).or (Slot.account (base a)) := by
    rw [hagrees.views, hidle, ← BatcherSystem.finalEntry_eq_inBatch hagrees.single]
    rfl
  refine ⟨hview, fun hw => ?_⟩
  rw [hw] at hview
  exact hview

end Agree

/-- A bridge-in of 10 ETH, up to the insertion of the user's account. -/
def bridgeInEvents : List BatcherSystem.Event :=
  [.append Env.small.order ⟨ethBridgeIn 7#160 10#256, none⟩, .poll 0,
    .deliver (fun _ => none), .poll 0, .deliver (fun _ => none), .poll 0, .release]

/-- Two bridge-ins side by side, a batch sent in between, and a third bridge-in for the first user
while the transactions of the others wait for the lock. -/
def threeBridgeIns : List BatcherSystem.Event :=
  [.append Env.small.order ⟨ethBridgeIn 7#160 10#256, none⟩,
    .append Env.small.order ⟨ethBridgeIn 8#160 20#256, none⟩, .poll 1, .poll 0,
    .deliver fun _ => none, .deliver fun _ => none, .poll 1, .poll 0, .deliver fun _ => none,
    .poll 0, .ask, .deliver fun _ => none, .poll 0, .getNextBatch (.answering "7"), .release,
    .poll 0, .release, .release, .deliver fun _ => none, .poll 0, .release,
    .append Env.small.order ⟨ethBridgeIn 7#160 5#256, none⟩, .poll 0, .deliver fun _ => none,
    .deliver fun _ => none, .poll 0, .deliver fun _ => none, .release, .release, .release]

/-- The first user's account is in the parent, and the second one's in the batch that was sent. -/
theorem cache_agrees_after_three_bridge_ins :
    ∃ s, (BatcherSystem.start fun _ => none).run Env.small (fun _ => some "")
        threeBridgeIns = some s ∧
      s.inserts = [] ∧ s.writes = [] ∧ s.settlement.sent.length = 1 ∧
        (s.settlement.queue.parent.accounts.lookup (Address.toFullString 8#160)).isNone ∧
        (s.inBatch 7#160).isSome ∧ s.cached 7#160 = s.inBatch 7#160 ∧
        (s.inBatch 8#160).isSome ∧ s.cached 8#160 = s.inBatch 8#160 := by
  obtain ⟨s, hrun⟩ : ∃ s, (BatcherSystem.start fun _ => none).run Env.small (fun _ => some "")
      threeBridgeIns = some s := ⟨_, rfl⟩
  have hidle : s.inserts = [] := by
    cases hrun
    rfl
  have hw : s.writes = [] := by
    cases hrun
    rfl
  have hbatches : s.settlement.sent.length = 1 ∧
      (s.settlement.queue.parent.accounts.lookup (Address.toFullString 8#160)).isNone := by
    cases hrun
    exact ⟨rfl, rfl⟩
  have hseven : (s.inBatch 7#160).isSome := by
    cases hrun
    rfl
  have height : (s.inBatch 8#160).isSome := by
    cases hrun
    rfl
  have hsame : ∀ a, s.cached a = s.inBatch a := fun a =>
    ((cache_agrees hrun hidle a).2 hw).trans Option.or_none
  exact ⟨s, hrun, hidle, hw, hbatches.1, hbatches.2, hseven, hsame _, height, hsame _⟩

/-- The insertion is over, and the write is still in the mailbox. -/
theorem cache_behind_batch :
    ¬∀ (es : List BatcherSystem.Event) (s : BatcherSystem),
      (BatcherSystem.start fun _ => none).run Env.small (fun _ => some "") es = some s →
        s.inserts = [] → ∀ a account, s.inBatch a = some account → s.cached a = some account := by
  intro h
  obtain ⟨s, hrun⟩ : ∃ s, (BatcherSystem.start fun _ => none).run Env.small (fun _ => some "")
      bridgeInEvents = some s := ⟨_, rfl⟩
  have hidle : s.inserts = [] := by
    cases hrun
    rfl
  have hcached : s.cached 7#160 = none := by
    cases hrun
    rfl
  have hbatch : (s.inBatch 7#160).isSome := by
    cases hrun
    rfl
  obtain ⟨account, haccount⟩ := Option.isSome_iff_exists.1 hbatch
  have hsome := h _ s hrun hidle 7#160 account haccount
  rw [hcached] at hsome
  exact nomatch hsome

end Lasr
