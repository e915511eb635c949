import Lasr.Footprint

/-!
# The batches

The other half of `add_account_to_batch` and `add_transaction_to_batch` : the `parent` and
the `children` of the batcher. A batch takes an item when its encoding stays under 512 KiB
with it; how long an encoding is comes from outside (`checkSize`).

The insertion asks the parent and then each child, in a loop `while let Err(e) = res` whose
body sets `new_batch` once the children are used up, and leaves `res` as it is
(`insertLoop`). So the item goes to the first batch that takes it (`addToBatches_eq`), and
where none does the loop goes on for ever, with any number of rounds
(`addToBatches_eq_none`).

`batchHandler` answers the operations of a future that runs alone, on the account cache and
the batches. There a future may stay at an insertion; one that ends is a run on the account
cache alone (`runAlone_of_runBatched`).
-/

set_option linter.unusedSectionVars false

namespace Lasr

/-! ## A batch -/

/-- `Batch`. -/
structure Batch where
  transactions : HashMap String Transaction
  accounts : HashMap String Account

namespace Batch

/-- `Batch::new`. -/
def new : Batch := ⟨∅, ∅⟩

section Capacity

variable (env : Env) (checkSize : Batch → Option ℕ)

/-- `at_capacity`. -/
def atCapacity (self : Batch) : Option Bool :=
  (checkSize self).map fun size => decide (512 * 1024 ≤ size)

/-- `transaction_would_exceed_capacity`. -/
def transactionWouldExceedCapacity (self : Batch) (transaction : Transaction) : Option Bool :=
  atCapacity checkSize { self with
    transactions := self.transactions.insert (env.hashString transaction) transaction }

/-- `account_would_exceed_capacity`. It tries the account under its owner's address, also
for a program account. -/
def accountWouldExceedCapacity (self : Batch) (account : Account) : Option Bool :=
  atCapacity checkSize { self with
    accounts := self.accounts.insert (Address.toFullString account.ownerAddress) account }

/-- `insert_transaction`. -/
def insertTransaction (transaction : Transaction) (self : Batch) : Except BatcherError Batch :=
  if (self.transactionWouldExceedCapacity env checkSize transaction).any (!·) then
    .ok { self with
      transactions := self.transactions.insert (env.hashString transaction) transaction }
  else .error (.custom "transactions at capacity")

/-- `insert_account`. -/
def insertAccount (account : Account) (self : Batch) : Except BatcherError Batch :=
  if (self.accountWouldExceedCapacity checkSize account).any (!·) then
    match account.accountType with
    | .program address => .ok { self with
        accounts := self.accounts.insert (Address.toFullString address) account }
    | .user => .ok { self with
        accounts := self.accounts.insert (Address.toFullString account.ownerAddress) account }
  else .error (.custom "accounts at capacity")

end Capacity

/-- The batch holds the account, under the text of its address. -/
def Holds (self : Batch) (account : Account) : Prop :=
  self.accounts.lookup (Address.toFullString account.address) = some account

section Insert

variable {env : Env} {checkSize : Batch → Option ℕ} {b b' : Batch} {account : Account}
  {transaction : Transaction}

/-- An account that fits goes under its own address. -/
theorem insertAccount_eq_ok_iff : b.insertAccount checkSize account = .ok b' ↔
    b.accountWouldExceedCapacity checkSize account = some false ∧
      b' = { b with
        accounts := b.accounts.insert (Address.toFullString account.address) account } := by
  unfold insertAccount Account.address
  cases hcap : b.accountWouldExceedCapacity checkSize account with
  | none => simp
  | some full =>
    cases full with
    | true => simp
    | false => cases account.accountType <;> simp [eq_comm]

theorem insertTransaction_accounts
    (h : b.insertTransaction env checkSize transaction = .ok b') : b'.accounts = b.accounts := by
  unfold insertTransaction at h
  split_ifs at h
  cases h
  rfl

theorem holds_insertAccount (h : b.insertAccount checkSize account = .ok b') :
    b'.Holds account := by
  obtain ⟨-, rfl⟩ := insertAccount_eq_ok_iff.1 h
  exact AList.lookup_insert _

theorem Holds.insertAccount {other : Account} (hb : b.Holds other)
    (hne : other.address ≠ account.address)
    (h : b.insertAccount checkSize account = .ok b') : b'.Holds other := by
  obtain ⟨-, rfl⟩ := insertAccount_eq_ok_iff.1 h
  have hkey : Address.toFullString other.address ≠ Address.toFullString account.address :=
    fun he => hne (Address.toFullString_injective he)
  exact (AList.lookup_insert_ne hkey).trans hb

theorem Holds.insertTransaction (hb : b.Holds account)
    (h : b.insertTransaction env checkSize transaction = .ok b') : b'.Holds account := by
  unfold Holds
  rw [insertTransaction_accounts h]
  exact hb

end Insert

end Batch

/-! ## First fit -/

section FirstFit

variable {B ε : Type}

/-- Put an item into the first bin that takes it, if one does. -/
def firstFit (insert : B → Except ε B) : List B → Option (List B)
  | [] => none
  | bin :: bins =>
    match insert bin with
    | .ok bin' => some (bin' :: bins)
    | .error _ => (firstFit insert bins).map (bin :: ·)

variable {insert : B → Except ε B}

theorem firstFit_isSome_iff : ∀ {bins : List B},
    (firstFit insert bins).isSome ↔ ∃ bin ∈ bins, ∃ bin', insert bin = .ok bin'
  | [] => by simp [firstFit]
  | bin :: bins => by
    cases hbin : insert bin with
    | ok bin' => simp [firstFit, hbin]
    | error e => simp [firstFit, hbin, firstFit_isSome_iff]

/-- One bin has taken the item, the others are as they were. -/
theorem firstFit_eq_some : ∀ {bins bins' : List B}, firstFit insert bins = some bins' →
    ∃ pre bin bin' post, bins = pre ++ bin :: post ∧ insert bin = .ok bin' ∧
      bins' = pre ++ bin' :: post
  | bin :: bins, bins', h => by
    cases hbin : insert bin with
    | ok bin' =>
      simp only [firstFit, hbin, Option.some.injEq] at h
      exact ⟨[], bin, bin', bins, rfl, hbin, h.symm⟩
    | error e =>
      simp only [firstFit, hbin] at h
      obtain ⟨rest, hrest, rfl⟩ := Option.map_eq_some_iff.1 h
      obtain ⟨pre, c, c', post, rfl, hc, rfl⟩ := firstFit_eq_some hrest
      exact ⟨bin :: pre, c, c', post, rfl, hc, rfl⟩

/-- What an insertion establishes of its bin, some bin has after it. -/
theorem exists_of_firstFit {p : B → Prop} {bins bins' : List B}
    (hp : ∀ bin bin', insert bin = .ok bin' → p bin') (h : firstFit insert bins = some bins') :
    ∃ bin ∈ bins', p bin := by
  obtain ⟨pre, bin, bin', post, rfl, hbin, rfl⟩ := firstFit_eq_some h
  exact ⟨bin', by simp, hp bin bin' hbin⟩

/-- What an insertion keeps of its bin stays true of some bin. -/
theorem exists_firstFit_of_exists {p : B → Prop} {bins bins' : List B}
    (hp : ∀ bin bin', insert bin = .ok bin' → p bin → p bin')
    (h : firstFit insert bins = some bins') (hex : ∃ bin ∈ bins, p bin) : ∃ bin ∈ bins', p bin := by
  obtain ⟨pre, bin, bin', post, rfl, hbin, rfl⟩ := firstFit_eq_some h
  obtain ⟨c, hc, hpc⟩ := hex
  rw [List.mem_append, List.mem_cons] at hc
  rcases hc with hc | rfl | hc
  · exact ⟨c, by simp [hc], hpc⟩
  · exact ⟨bin', by simp, hp c bin' hbin hpc⟩
  · exact ⟨c, by simp [hc], hpc⟩

/-- What an insertion keeps of a bin, it keeps of every bin. -/
theorem forall_firstFit {p : B → Prop} {bins bins' : List B}
    (hp : ∀ bin bin', insert bin = .ok bin' → p bin → p bin')
    (h : firstFit insert bins = some bins') (hall : ∀ bin ∈ bins, p bin) :
    ∀ bin ∈ bins', p bin := by
  obtain ⟨pre, bin, bin', post, rfl, hbin, rfl⟩ := firstFit_eq_some h
  intro c hc
  rw [List.mem_append, List.mem_cons] at hc
  rcases hc with hc | rfl | hc
  · exact hall c (by simp [hc])
  · exact hp bin c hbin (hall bin (by simp))
  · exact hall c (by simp [hc])

end FirstFit

/-! ## The batcher's batches -/

/-- The batches of a `Batcher`. -/
structure Batcher where
  parent : Batch
  children : List Batch

/-- The loop `while let Err(e) = res`, for a number of rounds : `res` is the last result,
`passed` the children gone by, `iter` those still to come. It is `none` where the rounds are
used up first. -/
def insertLoop (insert : Batch → Except BatcherError Batch) : ℕ → Except BatcherError Unit →
    List Batch → List Batch → Bool → Option (List Batch × Bool)
  | _, .ok _, passed, iter, newBatch => some (passed ++ iter, newBatch)
  | 0, .error _, _, _, _ => none
  | n + 1, .error _, passed, child :: iter, newBatch =>
    match insert child with
    | .ok child' => insertLoop insert n (.ok ()) (passed ++ [child']) iter newBatch
    | .error e => insertLoop insert n (.error e) (passed ++ [child]) iter newBatch
  | n + 1, .error e, passed, [], _ => insertLoop insert n (.error e) passed [] true

namespace Batcher

/-- All batches, in the order in which they are asked. -/
def batches (self : Batcher) : List Batch :=
  self.parent :: self.children

/-- The locked part of `add_account_to_batch` and `add_transaction_to_batch`, for a number of
rounds of its loop. -/
def addToBatches (insert : Batch → Except BatcherError Batch) (rounds : ℕ) (self : Batcher) :
    Option Batcher :=
  let (parent, res) : Batch × Except BatcherError Unit :=
    match insert self.parent with
    | .ok parent => (parent, .ok ())
    | .error e => (self.parent, .error e)
  match insertLoop insert rounds res [] self.children false with
  | none => none
  | some (children, newBatch) =>
    if newBatch then
      let batch := match insert Batch.new with
        | .ok batch => batch
        | .error _ => Batch.new
      some ⟨parent, children ++ [batch]⟩
    else some ⟨parent, children⟩

section Loop

variable {insert : Batch → Except BatcherError Batch}

theorem insertLoop_ok (n : ℕ) (passed iter : List Batch) (newBatch : Bool) :
    insertLoop insert n (.ok ()) passed iter newBatch = some (passed ++ iter, newBatch) := by
  cases n <;> rfl

/-- Once the children are used up, no round ends the loop. -/
theorem insertLoop_nil (e : BatcherError) (passed : List Batch) :
    ∀ (n : ℕ) (newBatch : Bool), insertLoop insert n (.error e) passed [] newBatch = none
  | 0, _ => rfl
  | n + 1, _ => insertLoop_nil e passed n true

/-- With a round for each child, the loop finds the first child that takes the item. -/
theorem insertLoop_eq : ∀ (iter : List Batch) (n : ℕ) (e : BatcherError) (passed : List Batch),
    iter.length ≤ n → insertLoop insert n (.error e) passed iter false =
      (firstFit insert iter).map fun l => (passed ++ l, false)
  | [], n, e, passed, _ => insertLoop_nil e passed n false
  | child :: iter, n + 1, e, passed, h => by
    cases hc : insert child with
    | ok child' => simp [insertLoop, firstFit, hc, insertLoop_ok]
    | error e' =>
      have hrest := insertLoop_eq iter n e' (passed ++ [child]) (by simpa using h)
      simp [insertLoop, firstFit, hc, hrest, Function.comp_def]

/-- Where no child takes the item, the loop ends with no number of rounds. -/
theorem insertLoop_eq_none : ∀ (iter : List Batch) (n : ℕ) (e : BatcherError)
    (passed : List Batch), firstFit insert iter = none →
      insertLoop insert n (.error e) passed iter false = none
  | [], n, e, passed, _ => insertLoop_nil e passed n false
  | _ :: _, 0, _, _, _ => rfl
  | child :: iter, n + 1, e, passed, h => by
    cases hc : insert child with
    | ok child' => simp [firstFit, hc] at h
    | error e' =>
      have hnone : firstFit insert iter = none := by simpa [firstFit, hc] using h
      simpa [insertLoop, hc] using insertLoop_eq_none iter n e' (passed ++ [child]) hnone

/-- With a round for each child, the item goes to the first batch that takes it. -/
theorem addToBatches_eq (b : Batcher) {n : ℕ} (hn : b.children.length ≤ n) :
    (b.addToBatches insert n).map batches = firstFit insert b.batches := by
  unfold addToBatches batches
  cases hp : insert b.parent with
  | ok parent => simp [firstFit, hp, insertLoop_ok]
  | error e =>
    simp only [firstFit, hp, insertLoop_eq b.children n e [] hn, List.nil_append]
    cases firstFit insert b.children <;> rfl

/-- Where it has not ended by then, the insertion ends with no number of rounds. -/
theorem addToBatches_eq_none (b : Batcher) (h : b.addToBatches insert b.children.length = none)
    (n : ℕ) : b.addToBatches insert n = none := by
  have hfit : firstFit insert b.batches = none := by
    rw [← addToBatches_eq b le_rfl, h, Option.map_none]
  unfold addToBatches
  unfold batches at hfit
  cases hp : insert b.parent with
  | ok parent => simp [firstFit, hp] at hfit
  | error e =>
    have hnone : firstFit insert b.children = none := by simpa [firstFit, hp] using hfit
    simp only [insertLoop_eq_none b.children n e [] hnone]

end Loop

section Add

variable (env : Env) (checkSize : Batch → Option ℕ)

/-- The locked part of `add_account_to_batch`, which is `none` where it never ends. -/
def addAccount (account : Account) (self : Batcher) : Option Batcher :=
  self.addToBatches (Batch.insertAccount checkSize account) self.children.length

/-- `add_transaction_to_batch`, which is `none` where it never ends. -/
def addTransaction (transaction : Transaction) (self : Batcher) : Option Batcher :=
  self.addToBatches (Batch.insertTransaction env checkSize transaction) self.children.length

/-- Accounts can be added one after another : each of them finds a batch that has room for
it, after those before it were added. -/
def HasRoom : List Account → Batcher → Prop
  | [], _ => True
  | account :: rest, b =>
    (∃ batch ∈ b.batches, batch.accountWouldExceedCapacity checkSize account = some false) ∧
      ∀ b', b.addAccount checkSize account = some b' → HasRoom rest b'

end Add

section Added

variable {env : Env} {checkSize : Batch → Option ℕ} {b b' : Batcher} {account : Account}
  {transaction : Transaction}

theorem addAccount_isSome_iff : (b.addAccount checkSize account).isSome ↔
    ∃ batch ∈ b.batches, batch.accountWouldExceedCapacity checkSize account = some false := by
  have heq : (b.addAccount checkSize account).map batches =
      firstFit (Batch.insertAccount checkSize account) b.batches := addToBatches_eq b le_rfl
  rw [← Option.isSome_map (f := batches), heq, firstFit_isSome_iff]
  simp only [Batch.insertAccount_eq_ok_iff, exists_and_left, exists_eq, and_true]

theorem firstFit_of_addAccount (h : b.addAccount checkSize account = some b') :
    firstFit (Batch.insertAccount checkSize account) b.batches = some b'.batches := by
  rw [← addToBatches_eq b le_rfl]
  exact congrArg (Option.map batches) h

theorem firstFit_of_addTransaction (h : b.addTransaction env checkSize transaction = some b') :
    firstFit (Batch.insertTransaction env checkSize transaction) b.batches = some b'.batches := by
  rw [← addToBatches_eq b le_rfl]
  exact congrArg (Option.map batches) h

/-- A batch of the batcher holds the account. -/
def Holds (self : Batcher) (account : Account) : Prop :=
  ∃ batch ∈ self.batches, batch.Holds account

theorem holds_addAccount (h : b.addAccount checkSize account = some b') : b'.Holds account :=
  exists_of_firstFit (fun _ _ => Batch.holds_insertAccount) (firstFit_of_addAccount h)

theorem Holds.addAccount {other : Account} (hb : b.Holds other)
    (hne : other.address ≠ account.address) (h : b.addAccount checkSize account = some b') :
    b'.Holds other :=
  exists_firstFit_of_exists (fun _ _ hins hold => hold.insertAccount hne hins)
    (firstFit_of_addAccount h) hb

theorem Holds.addTransaction (hb : b.Holds account)
    (h : b.addTransaction env checkSize transaction = some b') : b'.Holds account :=
  exists_firstFit_of_exists (fun _ _ hins hold => hold.insertTransaction hins)
    (firstFit_of_addTransaction h) hb

end Added

end Batcher

/-! ## A future alone, on the cache and the batches -/

/-- What the futures of the batcher write to : the account cache, and the batches behind the
batcher's lock. -/
structure BatcherState where
  cache : AccountStore
  batcher : Batcher

/-- The answer to an operation, and the state after it. An insertion that never ends has no
answer. -/
def batchHandler (env : Env) (checkSize : Batch → Option ℕ) (storage : AccountStore) :
    PartialHandler effects BatcherState
  | .insertAccount account, s =>
    (s.batcher.addAccount checkSize account).map fun b => ((), { s with batcher := b })
  | .insertTransaction transaction, s =>
    (s.batcher.addTransaction env checkSize transaction).map fun b => ((), { s with batcher := b })
  | o, s => some ((answer storage o s.cache).1, { s with cache := (answer storage o s.cache).2 })

/-- Run a future alone on the cache and the batches. -/
def runBatched {ε α : Type} (env : Env) (checkSize : Batch → Option ℕ) (storage : AccountStore)
    (p : Async ε α) (s : BatcherState) : Outcome effects ε α × BatcherState :=
  Prog.attempt (batchHandler env checkSize storage) p s

section RunBatched

variable {ε α β : Type} {env : Env} {checkSize : Batch → Option ℕ} {storage : AccountStore}
  {s s' : BatcherState}

@[simp] theorem runBatched_getAccount_bind (a : Address) (f : Option Account → Async ε β) :
    runBatched env checkSize storage (getAccount a >>= f) s =
      runBatched env checkSize storage (f (accounts storage s.cache a)) s := rfl

/-- A future that ends has done the same on the account cache alone. -/
theorem runAlone_of_runBatched {p : Async ε α} {x : Except ε α}
    (h : runBatched env checkSize storage p s = (.done x, s')) :
    runAlone storage p s.cache = (x, s'.cache) := by
  refine Prog.run_of_attempt (c := BatcherState.cache) (fun o t r t' ho => ?_) h
  cases o with
  | insertAccount account =>
    obtain ⟨b, -, hb⟩ := Option.map_eq_some_iff.1 ho
    cases hb
    rfl
  | insertTransaction transaction =>
    obtain ⟨b, -, hb⟩ := Option.map_eq_some_iff.1 ho
    cases hb
    rfl
  | _ =>
    cases ho
    rfl

/-- A program that only reads ends where it started, with what it comes to on the cache. -/
theorem runBatched_of_reads {R : Set Address} {Q : α → Prop} {p : Async ε α}
    (h : p.Meets (Op.Reads R) Q) :
    runBatched env checkSize storage p s = (.done (runAlone storage p s.cache).1, s) := by
  refine Prog.attempt_of_reads (c := BatcherState.cache) ?_ p s h
  rintro o t ⟨a, -, rfl⟩
  exact ⟨rfl, rfl⟩

/-- So a sequence goes on from there, or ends with its error. -/
theorem runBatched_reads_bind {R : Set Address} {Q : α → Prop} {p : Async ε α}
    (h : p.Meets (Op.Reads R) Q) (f : α → Async ε β) :
    runBatched env checkSize storage (p >>= f) s =
      match (runAlone storage p s.cache).1 with
      | .ok a => runBatched env checkSize storage (f a) s
      | .error e => (.done (.error e), s) := by
  have hp : runBatched env checkSize storage p s = (.done (runAlone storage p s.cache).1, s) :=
    runBatched_of_reads h
  unfold runBatched at hp ⊢
  rw [Prog.attempt_bind, hp]
  cases (runAlone storage p s.cache).1 <;> rfl

/-- An account is written to the cache, and then the future stays where no batch has room. -/
theorem runBatched_addAccountToBatch_bind {account : Account} (f : Unit → BatcherM β) :
    runBatched env checkSize storage (addAccountToBatch account >>= f) s =
      match s.batcher.addAccount checkSize account with
      | some b => runBatched env checkSize storage (f ()) ⟨handleCacheWrite s.cache account, b⟩
      | none => (.stuck (.insertAccount account),
          ⟨handleCacheWrite s.cache account, s.batcher⟩) := by
  change Prog.attempt _ (.op (E := effects) (.insertAccount account) _)
    (⟨handleCacheWrite s.cache account, s.batcher⟩ : BatcherState) = _
  cases hb : s.batcher.addAccount checkSize account with
  | some b =>
    have ho : batchHandler env checkSize storage (.insertAccount account)
        ⟨handleCacheWrite s.cache account, s.batcher⟩ =
          some ((), ⟨handleCacheWrite s.cache account, b⟩) := by
      simp only [batchHandler, hb, Option.map_some]
    exact Prog.attempt_op_some ho
  | none =>
    have ho : batchHandler env checkSize storage (.insertAccount account)
        ⟨handleCacheWrite s.cache account, s.batcher⟩ = none := by
      simp only [batchHandler, hb, Option.map_none]
    exact Prog.attempt_op_none ho

theorem runBatched_addTransactionToBatch_bind {transaction : Transaction} (f : Unit → Async ε β) :
    runBatched env checkSize storage (addTransactionToBatch transaction >>= f) s =
      match s.batcher.addTransaction env checkSize transaction with
      | some b => runBatched env checkSize storage (f ()) ⟨s.cache, b⟩
      | none => (.stuck (.insertTransaction transaction), s) := by
  change Prog.attempt _ (.op (E := effects) (.insertTransaction transaction) _) s = _
  cases hb : s.batcher.addTransaction env checkSize transaction with
  | some b =>
    have ho : batchHandler env checkSize storage (.insertTransaction transaction) s =
        some ((), ⟨s.cache, b⟩) := by
      simp only [batchHandler, hb, Option.map_some]
    exact Prog.attempt_op_some ho
  | none =>
    have ho : batchHandler env checkSize storage (.insertTransaction transaction) s = none := by
      simp only [batchHandler, hb, Option.map_none]
    exact Prog.attempt_op_none ho

/-- Accounts that find room are all written, to the cache and to the batches. -/
theorem runBatched_addAccountsToBatch_of_hasRoom (f : Unit → BatcherM β) :
    ∀ {l : List Account} {s : BatcherState}, s.batcher.HasRoom checkSize l →
      (l.map Account.address).Nodup →
      ∃ b, runBatched env checkSize storage (addAccountsToBatch l >>= f) s =
          runBatched env checkSize storage (f ()) ⟨l.foldl handleCacheWrite s.cache, b⟩ ∧
        (∀ account ∈ l, b.Holds account) ∧
        ∀ other, other.address ∉ l.map Account.address → s.batcher.Holds other → b.Holds other
  | [], s, _, _ => ⟨s.batcher, rfl, (fun _ h => nomatch h), fun _ _ h => h⟩
  | account :: l, s, hroom, hnd => by
    obtain ⟨b, hb⟩ := Option.isSome_iff_exists.1 (Batcher.addAccount_isSome_iff.2 hroom.1)
    rw [List.map_cons, List.nodup_cons] at hnd
    obtain ⟨b', hrun, hall, hkeep⟩ := runBatched_addAccountsToBatch_of_hasRoom f
      (s := ⟨handleCacheWrite s.cache account, b⟩) (hroom.2 b hb) hnd.2
    refine ⟨b', ?_, ?_, ?_⟩
    · change runBatched env checkSize storage (addAccountToBatch account >>= fun _ => _) s = _
      rw [runBatched_addAccountToBatch_bind, hb]
      exact hrun
    · intro other hother
      rcases List.mem_cons.1 hother with rfl | hother
      · exact hkeep other hnd.1 (Batcher.holds_addAccount hb)
      · exact hall other hother
    · intro other hother hold
      rw [List.map_cons, List.mem_cons, not_or] at hother
      exact hkeep other hother.2 (hold.addAccount hother.1 hb)

/-- Where one of them finds no room, the future stays at its insertion. -/
theorem runBatched_addAccountsToBatch_of_not_hasRoom (f : Unit → BatcherM β) :
    ∀ {l : List Account} {s : BatcherState}, ¬s.batcher.HasRoom checkSize l →
      ∃ account s', runBatched env checkSize storage (addAccountsToBatch l >>= f) s =
        (.stuck (.insertAccount account), s')
  | [], _, h => absurd trivial h
  | account :: l, s, h => by
    change ∃ account' s', runBatched env checkSize storage
      (addAccountToBatch account >>= fun _ => _) s = _
    rw [runBatched_addAccountToBatch_bind]
    cases hb : s.batcher.addAccount checkSize account with
    | none => exact ⟨account, _, rfl⟩
    | some b =>
      have hrest : ¬b.HasRoom checkSize l := by
        refine fun hl => h ⟨Batcher.addAccount_isSome_iff.1 (by rw [hb]; rfl), fun b' hb' => ?_⟩
        cases hb.symm.trans hb'
        exact hl
      exact runBatched_addAccountsToBatch_of_not_hasRoom f
        (s := ⟨handleCacheWrite s.cache account, b⟩) hrest

end RunBatched

end Lasr
