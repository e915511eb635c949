import Lasr.Batches

/-!
# The capacity of the batches

Two things hang on the size of an encoded batch.

An insertion looks for a batch with room. It ends with the item in that batch, and where the
parent and all children are full it goes on for ever, although an empty batch would have room
(`insertion_ends_iff`).

A batch takes an item if a trial batch with the item in it stays below 512 KiB. The trial puts
an account under the address of its owner, the batch takes it under its own address. So the
size stays below the bound, whatever the encoder, for those sequences of items where every
program account is its own owner (`size_bounded_iff`).
-/

set_option linter.unusedSectionVars false

namespace Lasr

/-! ## Room -/

section Room

variable {env : Env} {checkSize : Batch → Option ℕ} {b b' : Batch} {transaction : Transaction}

/-- A transaction that fits goes under its hash. -/
theorem Batch.insertTransaction_eq_ok_iff : b.insertTransaction env checkSize transaction = .ok b' ↔
    b.transactionWouldExceedCapacity env checkSize transaction = some false ∧
      b' = { b with
        transactions := b.transactions.insert (env.hashString transaction) transaction } := by
  unfold insertTransaction
  cases hcap : b.transactionWouldExceedCapacity env checkSize transaction with
  | none => simp
  | some full => cases full <;> simp [eq_comm]

/-- The batch holds the transaction, under its hash. -/
def Batch.HoldsTransaction (env : Env) (self : Batch) (transaction : Transaction) : Prop :=
  self.transactions.lookup (env.hashString transaction) = some transaction

theorem Batch.holdsTransaction_insertTransaction
    (h : b.insertTransaction env checkSize transaction = .ok b') :
    b'.HoldsTransaction env transaction := by
  obtain ⟨-, rfl⟩ := insertTransaction_eq_ok_iff.1 h
  exact AList.lookup_insert _

/-- For any insertion : it ends, with what it establishes in one of the batches, exactly if a
batch takes the item. -/
theorem Batcher.addToBatches_ends_iff {insert : Batch → Except BatcherError Batch}
    {p : Batch → Prop} (hp : ∀ bin bin', insert bin = .ok bin' → p bin') (self : Batcher) :
    (∃ rounds self', self.addToBatches insert rounds = some self' ∧
        ∃ batch ∈ self'.batches, p batch) ↔
      ∃ batch ∈ self.batches, ∃ batch', insert batch = .ok batch' := by
  constructor
  · rintro ⟨rounds, self', hadd, -⟩
    have hfit : self.addToBatches insert self.children.length ≠ none := by
      intro hnone
      rw [addToBatches_eq_none self hnone rounds] at hadd
      exact nomatch hadd
    rw [← firstFit_isSome_iff, ← addToBatches_eq self le_rfl, Option.isSome_map]
    exact Option.isSome_iff_ne_none.2 hfit
  · intro h
    have hsome := firstFit_isSome_iff.2 h
    rw [← addToBatches_eq self le_rfl, Option.isSome_map] at hsome
    obtain ⟨self', hself'⟩ := Option.isSome_iff_exists.1 hsome
    have hfit : firstFit insert self.batches = some self'.batches := by
      rw [← addToBatches_eq self le_rfl, hself']
      rfl
    exact ⟨self.children.length, self', hself', exists_of_firstFit hp hfit⟩

end Room

/-- The insertion of a transaction or an account ends, and leaves it in one of the batches,
exactly if the parent or a child has room for it. -/
theorem insertion_ends_iff (env : Env) (checkSize : Batch → Option ℕ) (b : Batcher) :
    (∀ transaction,
      (∃ rounds b', b.addToBatches (Batch.insertTransaction env checkSize transaction) rounds =
          some b' ∧ ∃ batch ∈ b'.batches, batch.HoldsTransaction env transaction) ↔
        ∃ batch ∈ b.batches,
          batch.transactionWouldExceedCapacity env checkSize transaction = some false) ∧
    ∀ account,
      (∃ rounds b', b.addToBatches (Batch.insertAccount checkSize account) rounds = some b' ∧
          ∃ batch ∈ b'.batches, batch.Holds account) ↔
        ∃ batch ∈ b.batches, batch.accountWouldExceedCapacity checkSize account = some false := by
  refine ⟨fun transaction => ?_, fun account => ?_⟩
  · rw [Batcher.addToBatches_ends_iff (fun _ _ => Batch.holdsTransaction_insertTransaction)]
    simp only [Batch.insertTransaction_eq_ok_iff, exists_and_left, exists_eq, and_true]
  · rw [Batcher.addToBatches_ends_iff (fun _ _ => Batch.holds_insertAccount)]
    simp only [Batch.insertAccount_eq_ok_iff, exists_and_left, exists_eq, and_true]

/-- An encoder that needs 300 KiB for an entry. -/
def largeEntries (b : Batch) : ℕ :=
  300 * 1024 * (b.transactions.entries.length + b.accounts.entries.length)

/-- The parent has one account and there is no child. Another account fits into a batch of its
own, and its insertion never ends. -/
theorem insertion_of_full_parent :
    ¬∀ (b : Batcher) (account : Account),
      Batch.new.accountWouldExceedCapacity (fun b => some (largeEntries b)) account = some false →
      ∃ rounds b', b.addToBatches (Batch.insertAccount (fun b => some (largeEntries b)) account)
        rounds = some b' ∧ ∃ batch ∈ b'.batches, batch.Holds account := by
  intro h
  obtain ⟨rounds, b', hadd, -⟩ := h
    ⟨⟨∅, AList.singleton (Address.toFullString 5#160) (Account.build .user 5#160)⟩, []⟩
    (Account.build .user 7#160) (by decide +kernel)
  rw [Batcher.addToBatches_eq_none _ (by decide +kernel) rounds] at hadd
  exact nomatch hadd

/-! ## The size bound -/

/-- What is inserted into a batch. -/
inductive BatchItem where
  | transaction (transaction : Transaction)
  | account (account : Account)

section Size

variable (env : Env)

/-- `insert_transaction` or `insert_account`. -/
def BatchItem.insert (checkSize : Batch → Option ℕ) (b : Batch) :
    BatchItem → Except BatcherError Batch
  | .transaction tx => b.insertTransaction env checkSize tx
  | .account acc => b.insertAccount checkSize acc

/-- The batch with the item in it, without a look at the size. -/
def BatchItem.put (b : Batch) : BatchItem → Batch
  | .transaction tx => { b with transactions := b.transactions.insert (env.hashString tx) tx }
  | .account acc => { b with
      accounts := b.accounts.insert (Address.toFullString acc.address) acc }

/-- The trial batch, whose size decides. -/
def BatchItem.trial (b : Batch) : BatchItem → Batch
  | .transaction tx => { b with transactions := b.transactions.insert (env.hashString tx) tx }
  | .account acc => { b with
      accounts := b.accounts.insert (Address.toFullString acc.ownerAddress) acc }

/-- Insert items one after another. A batch refuses an item and stays as it was. -/
def Batch.insertAll (checkSize : Batch → Option ℕ) (l : List BatchItem) : Batch :=
  l.foldl (fun b item =>
    match item.insert env checkSize b with
    | .ok b' => b'
    | .error _ => b) Batch.new

/-- Put items one after another, without a look at the size. -/
def Batch.putAll (l : List BatchItem) : Batch :=
  l.foldl (BatchItem.put env) Batch.new

end Size

/-- The item is tried under the key it is stored under. -/
def BatchItem.OwnKey : BatchItem → Prop
  | .transaction _ => True
  | .account acc => acc.address = acc.ownerAddress

instance : DecidablePred BatchItem.OwnKey
  | .transaction _ => .isTrue trivial
  | .account acc => inferInstanceAs (Decidable (acc.address = acc.ownerAddress))

section Bound

variable {env : Env} {size : Batch → ℕ} {item : BatchItem} {l : List BatchItem}

/-- An item is taken exactly if its trial batch is below the bound. -/
theorem BatchItem.insert_eq_ok_iff {b b' : Batch} :
    item.insert env (fun b => some (size b)) b = .ok b' ↔
      size (item.trial env b) < 512 * 1024 ∧ b' = item.put env b := by
  cases item with
  | transaction tx =>
    refine Batch.insertTransaction_eq_ok_iff.trans (and_congr_left fun _ => ?_)
    simp [Batch.transactionWouldExceedCapacity, Batch.atCapacity, trial]
  | account acc =>
    refine Batch.insertAccount_eq_ok_iff.trans (and_congr_left fun _ => ?_)
    simp [Batch.accountWouldExceedCapacity, Batch.atCapacity, trial]

theorem Batch.insertAll_append_singleton :
    insertAll env (fun b => some (size b)) (l ++ [item]) =
      if size (item.trial env (insertAll env (fun b => some (size b)) l)) < 512 * 1024
      then item.put env (insertAll env (fun b => some (size b)) l)
      else insertAll env (fun b => some (size b)) l := by
  have hstep : insertAll env (fun b => some (size b)) (l ++ [item]) =
      match item.insert env (fun b => some (size b)) (insertAll env (fun b => some (size b)) l) with
      | .ok b' => b'
      | .error _ => insertAll env (fun b => some (size b)) l := by
    simp only [insertAll, List.foldl_append, List.foldl_cons, List.foldl_nil]
  rw [hstep]
  split
  · rename_i b' hok
    obtain ⟨hlt, rfl⟩ := BatchItem.insert_eq_ok_iff.1 hok
    rw [if_pos hlt]
  · rename_i e herr
    refine (if_neg fun hlt => ?_).symm
    rw [BatchItem.insert_eq_ok_iff.2 ⟨hlt, rfl⟩] at herr
    exact nomatch herr

theorem BatchItem.OwnKey.trial_eq (h : item.OwnKey) (b : Batch) :
    item.trial env b = item.put env b := by
  cases item with
  | transaction tx => rfl
  | account acc =>
    have haddr : acc.address = acc.ownerAddress := h
    simp only [trial, put, haddr]

/-- Items under their own keys keep the size below the bound. -/
theorem Batch.size_insertAll_lt (hnew : size Batch.new < 512 * 1024) (l : List BatchItem)
    (h : ∀ item ∈ l, item.OwnKey) :
    size (insertAll env (fun b => some (size b)) l) < 512 * 1024 := by
  induction l using List.reverseRecOn with
  | nil => exact hnew
  | append_singleton l item ih =>
    have hl := ih fun i hi => h i (by simp [hi])
    rw [insertAll_append_singleton, (h item (by simp)).trial_eq]
    split_ifs with hput
    · exact hput
    · exact hl

/-- The accounts of a batch are among the items put into it. -/
theorem Batch.mem_of_lookup_putAll (l : List BatchItem) {k : String} {acc : Account}
    (h : (putAll env l).accounts.lookup k = some acc) : .account acc ∈ l := by
  induction l using List.reverseRecOn with
  | nil => exact nomatch h
  | append_singleton l item ih =>
    have hstep : putAll env (l ++ [item]) = item.put env (putAll env l) := by simp [putAll]
    rw [hstep] at h
    cases item with
    | transaction tx => exact List.mem_append_left _ (ih h)
    | account new =>
      rcases HashMap.lookup_insert_cases h with rfl | h
      · simp
      · exact List.mem_append_left _ (ih h)

/-- An encoder that is small on the batches of some items takes them all. -/
theorem Batch.insertAll_eq_putAll (l : List BatchItem) (h : ∀ item ∈ l, item.OwnKey)
    (hsize : ∀ l', l' <+: l → size (putAll env l') < 512 * 1024) :
    insertAll env (fun b => some (size b)) l = putAll env l := by
  induction l using List.reverseRecOn with
  | nil => rfl
  | append_singleton l item ih =>
    have hl := ih (fun i hi => h i (by simp [hi]))
      fun l' hl' => hsize l' (hl'.trans (List.prefix_append _ _))
    have hstep : putAll env (l ++ [item]) = item.put env (putAll env l) := by simp [putAll]
    rw [insertAll_append_singleton, hl, (h item (by simp)).trial_eq, ← hstep,
      if_pos (hsize _ List.prefix_rfl)]

/-- After such items, a program account that has another owner : some encoder lets it in and
has the batch at the bound. -/
theorem Batch.exists_size_eq_bound (env : Env) {l : List BatchItem} (h : ∀ item ∈ l, item.OwnKey)
    {acc : Account} (hacc : acc.address ≠ acc.ownerAddress) :
    ∃ size : Batch → ℕ, size Batch.new < 512 * 1024 ∧
      size (insertAll env (fun b => some (size b)) (l ++ [.account acc])) = 512 * 1024 := by
  classical
  have hlacks : ∀ l', l' <+: l → ∀ k, (putAll env l').accounts.lookup k ≠ some acc :=
    fun l' hl' k hk => hacc (h _ (hl'.subset (mem_of_lookup_putAll l' hk)))
  let target : Batch := BatchItem.put env (putAll env l) (.account acc)
  have htarget : target.accounts.lookup (Address.toFullString acc.address) = some acc :=
    AList.lookup_insert _
  -- the encoder that is at the bound for this one batch
  let size : Batch → ℕ := fun b => if b = target then 512 * 1024 else 0
  have hsmall : ∀ b : Batch, b.accounts.lookup (Address.toFullString acc.address) ≠ some acc →
      size b < 512 * 1024 := by
    intro b hb
    have hne : b ≠ target := fun he => hb (he ▸ htarget)
    simp [size, hne]
  have hall : insertAll env (fun b => some (size b)) l = putAll env l :=
    insertAll_eq_putAll l h fun l' hl' => hsmall _ (hlacks l' hl' _)
  have htrial : size (BatchItem.trial env (putAll env l) (.account acc)) < 512 * 1024 := by
    refine hsmall _ ?_
    have hkey : Address.toFullString acc.address ≠ Address.toFullString acc.ownerAddress :=
      fun he => hacc (Address.toFullString_injective he)
    have hlook := hlacks l List.prefix_rfl (Address.toFullString acc.address)
    rwa [← AList.lookup_insert_ne hkey] at hlook
  refine ⟨size, hsmall _ (hlacks [] List.nil_prefix _), ?_⟩
  rw [insertAll_append_singleton, hall, if_pos htrial]
  exact if_pos rfl

end Bound

/-- Whatever the encoder, a sequence of items keeps the size of the batch below the bound all
along, exactly if every account in it has its own address for its owner's : so every user
account, and of the program accounts those that own themselves. -/
theorem size_bounded_iff (env : Env) (l : List BatchItem) :
    (∀ size : Batch → ℕ, size Batch.new < 512 * 1024 → ∀ pre, pre <+: l →
      size (Batch.insertAll env (fun b => some (size b)) pre) < 512 * 1024) ↔
    ∀ account, .account account ∈ l → account.address = account.ownerAddress := by
  constructor
  · intro h account hmem
    by_contra hne
    -- the first account of the sequence that is tried under another key
    have hbad : (l.find? fun item => ¬item.OwnKey).isSome :=
      List.find?_isSome.2 ⟨.account account, hmem, decide_eq_true hne⟩
    obtain ⟨item, hitem⟩ := Option.isSome_iff_exists.1 hbad
    obtain ⟨hout, pre, post, rfl, hpre⟩ := List.find?_eq_some_iff_append.1 hitem
    cases item with
    | transaction tx => simp [BatchItem.OwnKey] at hout
    | account acc =>
      have hown : ∀ i ∈ pre, i.OwnKey := fun i hi => by simpa using hpre i hi
      obtain ⟨size, hnew, hsize⟩ := Batch.exists_size_eq_bound env hown (of_decide_eq_true hout)
      have hlt := h size hnew (pre ++ [.account acc]) (by simp)
      exact absurd hsize hlt.ne
  · intro h size hnew pre hpre
    refine Batch.size_insertAll_lt hnew pre fun item hitem => ?_
    cases item with
    | transaction tx => trivial
    | account acc => exact h acc (hpre.subset hitem)

/-- An encoder that needs 300 KiB for an account, and nothing else. -/
def largeAccounts (b : Batch) : ℕ := 300 * 1024 * b.accounts.entries.length

/-- A user's account, and then a program of that user. The program is tried in the place of
the user's account, and the batch has both. -/
theorem size_of_user_and_program :
    ¬∀ (size : Batch → ℕ) (l : List BatchItem), size Batch.new < 512 * 1024 →
      size (Batch.insertAll Env.small (fun b => some (size b)) l) < 512 * 1024 := by
  intro h
  have hlt := h largeAccounts [.account (Account.build .user 5#160),
    .account (Account.build (.program 7#160) 5#160)] (by decide)
  exact absurd hlt (by decide +kernel)

end Lasr
