import Lasr.Serde
import Lasr.Capacity
import Lasr.JsonGrammar
import Mathlib

/-!
# The batch codec

`encode_batch` of `actors/src/batcher.rs` writes a batch as JSON, compresses it, pads it for the
DA layer and writes the bytes in base64; `decode_batch` goes the other way. What the batcher
takes from other crates for that is a `BatchFormat`, with the law that each step is lossless.

A batch is decoded as it was encoded, whatever is in it, up to the order of its maps
(`decodeBatch_encodeBatch`). So the getters find on the decoded batch what was inserted last
under a key (`decoded_batch_eq_inserted`) : an account under its address, a transaction under
its hash. The hash does not cover the signature, and of two transactions that differ in it alone
only the second one is found (`transaction_replaced`).
-/

set_option linter.unusedSectionVars false

namespace Lasr

/-! ## Maps from lists -/

section Maps

variable {V W : Type}

/-- The map of a list of entries, the later ones winning. -/
def HashMap.ofPairs (l : List (String × V)) : HashMap String V :=
  l.foldl (fun m e => m.insert e.1 e.2) ∅

/-- The entries in the order the map hands them out. -/
def HashMap.pairs (order : HashOrder) (m : HashMap String V) : List (String × V) :=
  (order.iter m.entries).map fun e => (e.1, e.2)

theorem HashMap.lookup_foldl_of_not_mem {k : String} : ∀ {l : List (String × V)}
    {m : HashMap String V}, k ∉ l.map Prod.fst →
      (l.foldl (fun m e => m.insert e.1 e.2) m).lookup k = m.lookup k
  | [], _, _ => rfl
  | e :: l, m, h => by
    rw [List.map_cons, List.mem_cons, not_or] at h
    rw [List.foldl_cons, lookup_foldl_of_not_mem h.2, AList.lookup_insert_ne h.1]

theorem HashMap.lookup_foldl_of_mem {k : String} {v : V} : ∀ {l : List (String × V)}
    {m : HashMap String V}, (l.map Prod.fst).Nodup → (k, v) ∈ l →
      (l.foldl (fun m e => m.insert e.1 e.2) m).lookup k = some v
  | e :: l, m, hnodup, hmem => by
    rw [List.map_cons, List.nodup_cons] at hnodup
    rw [List.foldl_cons]
    rcases List.mem_cons.1 hmem with rfl | hmem
    · rw [lookup_foldl_of_not_mem hnodup.1, AList.lookup_insert]
    · exact lookup_foldl_of_mem hnodup.2 hmem

/-- A map is made up of what it hands out, in whatever order. -/
theorem HashMap.lookup_ofPairs_pairs (order : HashOrder) (m : HashMap String V) (k : String) :
    (HashMap.ofPairs (m.pairs order)).lookup k = m.lookup k := by
  have hkeys : (m.pairs order).map Prod.fst = (order.iter m.entries).map Sigma.fst := by
    simp [pairs, List.map_map, Function.comp_def]
  have hperm : ((m.pairs order).map Prod.fst).Perm m.entries.keys :=
    hkeys ▸ (order.perm m.entries).map Sigma.fst
  cases hk : m.lookup k with
  | none =>
    have hnot : k ∉ (m.pairs order).map Prod.fst := fun hmem =>
      AList.lookup_eq_none.1 hk (hperm.mem_iff.1 hmem)
    rw [ofPairs, lookup_foldl_of_not_mem hnot, AList.lookup_empty]
  | some v =>
    have hmem : (⟨k, v⟩ : Sigma fun _ : String => V) ∈ order.iter m.entries :=
      (order.perm m.entries).mem_iff.2 (AList.mem_lookup_iff.1 hk)
    exact lookup_foldl_of_mem (hperm.nodup_iff.2 m.nodupKeys)
      (List.mem_map_of_mem (f := fun e => (e.1, e.2)) hmem)

/-- Change every value of a map, also to another type. -/
def HashMap.mapTo (f : V → W) (m : HashMap String V) : HashMap String W where
  entries := m.entries.map fun e => ⟨e.1, f e.2⟩
  nodupKeys := by
    have hkeys : (m.entries.map fun e => (⟨e.1, f e.2⟩ : Sigma fun _ : String => W)).keys =
        m.entries.keys := by
      simp [List.keys, List.map_map, Function.comp_def]
    rw [List.NodupKeys, hkeys]
    exact m.nodupKeys

theorem HashMap.mapTo_insert (f : V → W) (m : HashMap String V) (k : String) (v : V) :
    HashMap.mapTo f (m.insert k v) = (HashMap.mapTo f m).insert k (f v) := by
  refine AList.ext ?_
  rw [AList.entries_insert]
  simp only [mapTo, AList.entries_insert, List.map_cons, List.kerase, List.eraseP_map]
  rfl

theorem HashMap.mapTo_injective {f : V → W} (hf : Function.Injective f) :
    Function.Injective (HashMap.mapTo f) := by
  intro m m' h
  refine AList.ext (List.map_injective_iff.2 ?_ (congrArg AList.entries h))
  rintro ⟨k, v⟩ ⟨k', v'⟩ he
  obtain ⟨rfl, hv⟩ := Sigma.mk.inj he
  exact congrArg (Sigma.mk k) (hf (eq_of_heq hv))

end Maps

/-! ## Batches -/

/-- `Batch`, with the entries of its accounts. -/
structure SerdeBatch where
  transactions : HashMap String SerdeTransaction
  accounts : HashMap String SerdeAccount

/-- What the batcher takes from other crates to encode a batch. -/
structure BatchFormat where
  /-- What `from_utf8_lossy` makes of bytes that are not UTF-8. -/
  lossy : ByteArray → String
  /-- `ZlibEncoder`. -/
  compress : ByteArray → Option ByteArray
  /-- `ZlibDecoder`. -/
  decompress : ByteArray → Option ByteArray
  decompress_compress : ∀ bytes, ∃ compressed,
    compress bytes = some compressed ∧ decompress compressed = some bytes
  /-- `kzgpad_rs::convert_by_padding_empty_byte`. -/
  pad : ByteArray → ByteArray
  /-- `kzgpad_rs::remove_empty_byte_from_padded_bytes`. -/
  unpad : ByteArray → ByteArray
  unpad_pad : ∀ bytes, unpad (pad bytes) = bytes
  /-- `base64::encode`. -/
  base64Encode : ByteArray → String
  /-- `base64::decode`. -/
  base64Decode : String → Option ByteArray
  base64Decode_base64Encode : ∀ bytes, base64Decode (base64Encode bytes) = some bytes

namespace SerdeBatch

/-- `Batch::new`. -/
def new : SerdeBatch := ⟨∅, ∅⟩

/-- `get_user_account`. -/
def getUserAccount (self : SerdeBatch) (address : Address) : Option SerdeAccount :=
  self.accounts.lookup (Address.toFullString address)

/-- `get_transaction`. -/
def getTransaction (self : SerdeBatch) (id : String) : Option SerdeTransaction :=
  self.transactions.lookup id

/-- `get_program_account`. -/
def getProgramAccount (self : SerdeBatch) : AccountType → Option SerdeAccount
  | .program programAddress => self.accounts.lookup (Address.toFullString programAddress)
  | .user => none

/-- `transactions`, by their hashes. -/
def transactionsCodec : Codec SerdeError (List (String × SerdeTransaction)) :=
  Codec.members TextCodec.string transactionCodec

/-- `accounts`, by their addresses. -/
def accountsCodec : Codec SerdeError (List (String × SerdeAccount)) :=
  Codec.members TextCodec.string accountCodec

/-- `Batch::serialize`. -/
def serialize (order : HashOrder) (self : SerdeBatch) : Json :=
  .obj [("transactions", transactionsCodec.ser (self.transactions.pairs order)),
    ("accounts", accountsCodec.ser (self.accounts.pairs order))]

/-- `Batch::deserialize`. -/
def deserialize (j : Json) : SerdeResult SerdeBatch := do
  let transactions ← transactionsCodec.field ["transactions"] j
  let accounts ← accountsCodec.field ["accounts"] j
  return ⟨HashMap.ofPairs transactions, HashMap.ofPairs accounts⟩

section Encode

variable (fmt : BatchFormat) (order : HashOrder)

/-- `serialize_batch`. -/
def serializeBatch (self : SerdeBatch) : Option ByteArray :=
  some (String.ofList (self.serialize order).print).toUTF8

/-- `compress_batch`. -/
def compressBatch (self : SerdeBatch) : Option ByteArray :=
  (self.serializeBatch order).bind fmt.compress

/-- `encode_batch`. -/
def encodeBatch (self : SerdeBatch) : Option String :=
  (self.compressBatch fmt order).map fun compressed => fmt.base64Encode (fmt.pad compressed)

/-- `String::from_utf8_lossy`. -/
def fromUtf8Lossy (bytes : ByteArray) : String :=
  (String.fromUTF8? bytes).getD (fmt.lossy bytes)

/-- `deserialize_batch`. -/
def deserializeBatch (bytes : ByteArray) : Option SerdeBatch := do
  let decompressed ← fmt.decompress bytes
  let j ← Json.fromStr (fromUtf8Lossy fmt decompressed)
  (deserialize j).toOption

/-- `decode_batch`. -/
def decodeBatch (batch : String) : Option SerdeBatch := do
  let bytes ← fmt.base64Decode batch
  deserializeBatch fmt (fmt.unpad bytes)

/-- `check_size`. -/
def checkSize (self : SerdeBatch) : Option ℕ :=
  (self.encodeBatch fmt order).map String.utf8ByteSize

/-- `at_capacity`. -/
def atCapacity (self : SerdeBatch) : Option Bool :=
  (self.checkSize fmt order).map fun size => decide (512 * 1024 ≤ size)

variable (env : Env)

/-- `transaction_would_exceed_capacity`. -/
def transactionWouldExceedCapacity (self : SerdeBatch) (transaction : SerdeTransaction) :
    Option Bool :=
  atCapacity fmt order { self with
    transactions := self.transactions.insert (env.hashString transaction.1) transaction }

/-- `account_would_exceed_capacity`. -/
def accountWouldExceedCapacity (self : SerdeBatch) (account : SerdeAccount) : Option Bool :=
  atCapacity fmt order { self with
    accounts := self.accounts.insert (Address.toFullString account.ownerAddress) account }

/-- `insert_transaction`. -/
def insertTransaction (transaction : SerdeTransaction) (self : SerdeBatch) :
    Except BatcherError SerdeBatch :=
  if (self.transactionWouldExceedCapacity fmt order env transaction).any (!·) then
    .ok { self with
      transactions := self.transactions.insert (env.hashString transaction.1) transaction }
  else .error (.custom "transactions at capacity")

/-- `insert_account`. -/
def insertAccount (account : SerdeAccount) (self : SerdeBatch) : Except BatcherError SerdeBatch :=
  if (self.accountWouldExceedCapacity fmt order account).any (!·) then
    match account.accountType with
    | .program address => .ok { self with
        accounts := self.accounts.insert (Address.toFullString address) account }
    | .user => .ok { self with
        accounts := self.accounts.insert (Address.toFullString account.ownerAddress) account }
  else .error (.custom "accounts at capacity")

end Encode

end SerdeBatch

/-! ## The round trip -/

section RoundTrip

variable {fmt : BatchFormat} {order : HashOrder} {b b' : SerdeBatch}

/-- The two batches are the same, as maps. -/
structure SerdeBatch.Same (b b' : SerdeBatch) : Prop where
  transactions : ∀ k, b.transactions.lookup k = b'.transactions.lookup k
  accounts : ∀ k, b.accounts.lookup k = b'.accounts.lookup k

theorem SerdeBatch.fromUtf8Lossy_toUTF8 (s : String) : fromUtf8Lossy fmt s.toUTF8 = s := by
  have hread : String.fromUTF8? s.toUTF8 = some s := by
    unfold String.fromUTF8?
    exact dif_pos s.isValidUTF8
  rw [fromUtf8Lossy, hread]
  rfl

theorem SerdeBatch.deserialize_serialize (order : HashOrder) (b : SerdeBatch) :
    deserialize (b.serialize order) =
      .ok ⟨HashMap.ofPairs (b.transactions.pairs order),
        HashMap.ofPairs (b.accounts.pairs order)⟩ := by
  simp [deserialize, serialize, Codec.field, Json.field, Json.named, bind, Except.bind, pure,
    Except.pure]

/-- Every batch is encoded, and decoded as it was. -/
theorem SerdeBatch.decodeBatch_encodeBatch (fmt : BatchFormat) (order : HashOrder)
    (b : SerdeBatch) :
    ∃ text b', b.encodeBatch fmt order = some text ∧ decodeBatch fmt text = some b' ∧
      b'.Same b := by
  obtain ⟨compressed, hc, hd⟩ :=
    fmt.decompress_compress (String.ofList (b.serialize order).print).toUTF8
  have hencode : b.encodeBatch fmt order = some (fmt.base64Encode (fmt.pad compressed)) := by
    simp only [encodeBatch, compressBatch, serializeBatch, Option.bind_some, hc, Option.map_some]
  refine ⟨_, ⟨HashMap.ofPairs (b.transactions.pairs order),
    HashMap.ofPairs (b.accounts.pairs order)⟩, hencode, ?_,
    ⟨HashMap.lookup_ofPairs_pairs order b.transactions,
      HashMap.lookup_ofPairs_pairs order b.accounts⟩⟩
  simp only [decodeBatch, fmt.base64Decode_base64Encode, deserializeBatch, fmt.unpad_pad, hd,
    fromUtf8Lossy_toUTF8, Json.fromStr_print, deserialize_serialize, Option.bind_eq_bind,
    Option.bind_some, Except.toOption]

end RoundTrip

/-! ## Insertions -/

/-- The address an account is stored under. -/
def SerdeAccount.address (self : SerdeAccount) : Address := self.account.address

/-- What is inserted. -/
inductive SerdeItem where
  | transaction (transaction : SerdeTransaction)
  | account (account : SerdeAccount)

/-- The account, if it is stored under the address. -/
def SerdeItem.accountAt (a : Address) : SerdeItem → Option SerdeAccount
  | .account acc => if acc.address = a then some acc else none
  | .transaction _ => none

/-- The transaction, if it has the hash. -/
def SerdeItem.transactionAt (env : Env) (id : String) : SerdeItem → Option SerdeTransaction
  | .transaction tx => if env.hashString tx.1 = id then some tx else none
  | .account _ => none

/-- The last item of a sequence that is something. -/
def lastOf {α : Type} (f : SerdeItem → Option α) : List SerdeItem → Option α
  | [] => none
  | item :: items => (lastOf f items).or (f item)

section Insertions

variable (fmt : BatchFormat) (order : HashOrder) (env : Env)

/-- `insert_transaction` or `insert_account`. -/
def SerdeItem.insert (b : SerdeBatch) : SerdeItem → Except BatcherError SerdeBatch
  | .transaction tx => b.insertTransaction fmt order env tx
  | .account acc => b.insertAccount fmt order acc

/-- Insert items one after another, as long as each insertion succeeds. -/
def SerdeBatch.insertAll (b : SerdeBatch) (items : List SerdeItem) :
    Except BatcherError SerdeBatch :=
  items.foldlM (fun b item => item.insert fmt order env b) b

variable {fmt order env} {b b' : SerdeBatch}

theorem SerdeBatch.insertAccount_eq {account : SerdeAccount}
    (h : b.insertAccount fmt order account = .ok b') :
    b' = { b with
      accounts := b.accounts.insert (Address.toFullString account.address) account } := by
  unfold insertAccount at h
  split_ifs at h with hroom
  cases htype : account.accountType with
  | user =>
    have haddress : account.address = account.ownerAddress := by
      simp [SerdeAccount.address, SerdeAccount.account, Account.address, htype]
    simp only [htype, Except.ok.injEq] at h
    rw [← h, haddress]
  | program programAddress =>
    have haddress : account.address = programAddress := by
      simp [SerdeAccount.address, SerdeAccount.account, Account.address, htype]
    simp only [htype, Except.ok.injEq] at h
    rw [← h, haddress]

theorem SerdeBatch.insertTransaction_eq {tx : SerdeTransaction}
    (h : b.insertTransaction fmt order env tx = .ok b') :
    b' = { b with transactions := b.transactions.insert (env.hashString tx.1) tx } := by
  unfold insertTransaction at h
  split_ifs at h with hroom
  exact (Except.ok.inj h).symm

/-- One insertion changes the lookups of its key, and no other. -/
theorem SerdeItem.lookup_insert {item : SerdeItem} (h : item.insert fmt order env b = .ok b') :
    (∀ a, b'.accounts.lookup (Address.toFullString a) =
        (item.accountAt a).or (b.accounts.lookup (Address.toFullString a))) ∧
      ∀ id, b'.transactions.lookup id =
        (item.transactionAt env id).or (b.transactions.lookup id) := by
  cases item with
  | transaction tx =>
    obtain rfl := SerdeBatch.insertTransaction_eq h
    refine ⟨fun a => rfl, fun id => ?_⟩
    by_cases hid : env.hashString tx.1 = id
    · subst hid
      simp [transactionAt]
    · simp [transactionAt, hid, AList.lookup_insert_ne (Ne.symm hid)]
  | account acc =>
    obtain rfl := SerdeBatch.insertAccount_eq h
    refine ⟨fun a => ?_, fun id => rfl⟩
    by_cases ha : acc.address = a
    · subst ha
      simp [accountAt]
    · have hkey : Address.toFullString a ≠ Address.toFullString acc.address := fun he =>
        ha (Address.toFullString_injective he).symm
      simp [accountAt, ha, AList.lookup_insert_ne hkey]

theorem SerdeBatch.insertAll_cons {item : SerdeItem} {items : List SerdeItem}
    (h : item.insert fmt order env b = .ok b') :
    b.insertAll fmt order env (item :: items) = b'.insertAll fmt order env items := by
  rw [insertAll, List.foldlM_cons, h]
  rfl

/-- A sequence of insertions leaves the last item under each key. -/
theorem SerdeBatch.lookup_insertAll : ∀ {items : List SerdeItem} {b : SerdeBatch},
    b.insertAll fmt order env items = .ok b' →
      (∀ a, b'.accounts.lookup (Address.toFullString a) =
          (lastOf (SerdeItem.accountAt a) items).or
            (b.accounts.lookup (Address.toFullString a))) ∧
        ∀ id, b'.transactions.lookup id =
          (lastOf (SerdeItem.transactionAt env id) items).or (b.transactions.lookup id)
  | [], b, h => by
    cases h
    exact ⟨fun _ => rfl, fun _ => rfl⟩
  | item :: items, b, h => by
    rw [insertAll, List.foldlM_cons] at h
    obtain ⟨b₁, h₁, hrest⟩ := Except.bind_eq_ok_iff.1 h
    obtain ⟨hacc₁, htx₁⟩ := SerdeItem.lookup_insert h₁
    obtain ⟨hacc, htx⟩ := lookup_insertAll hrest
    exact ⟨fun a => by rw [hacc, hacc₁, lastOf, Option.or_assoc],
      fun id => by rw [htx, htx₁, lastOf, Option.or_assoc]⟩

end Insertions

/-! ## The batches of the other modules -/

/-- The batch, with its accounts by their lookups. -/
def SerdeBatch.batch (self : SerdeBatch) : Batch where
  transactions := HashMap.mapTo Subtype.val self.transactions
  accounts := HashMap.mapTo SerdeAccount.account self.accounts

/-- The item, by its lookups. -/
def SerdeItem.item : SerdeItem → BatchItem
  | .transaction tx => .transaction tx.1
  | .account acc => .account acc.account

/-- An insertion is the insertion of `Batch`, with the size of the encoded batch for the size it
is given. -/
theorem SerdeItem.batch_insert {fmt : BatchFormat} {order : HashOrder} {env : Env}
    {checkSize : Batch → Option ℕ}
    (hsize : ∀ b : SerdeBatch, checkSize b.batch = b.checkSize fmt order)
    (item : SerdeItem) (b : SerdeBatch) :
    (item.insert fmt order env b).map SerdeBatch.batch =
      item.item.insert env checkSize b.batch := by
  have hcap : ∀ b : SerdeBatch, Batch.atCapacity checkSize b.batch = b.atCapacity fmt order :=
    fun b => by rw [Batch.atCapacity, hsize, SerdeBatch.atCapacity]
  cases item with
  | transaction tx =>
    have hfull : b.batch.transactionWouldExceedCapacity env checkSize tx.1 =
        b.transactionWouldExceedCapacity fmt order env tx := by
      rw [SerdeBatch.transactionWouldExceedCapacity, ← hcap]
      simp only [SerdeBatch.batch, HashMap.mapTo_insert, Batch.transactionWouldExceedCapacity]
    simp only [insert, item, BatchItem.insert, SerdeBatch.insertTransaction,
      Batch.insertTransaction, hfull]
    split
    · simp only [Except.map, SerdeBatch.batch, HashMap.mapTo_insert]
    · rfl
  | account acc =>
    have hfull : b.batch.accountWouldExceedCapacity checkSize acc.account =
        b.accountWouldExceedCapacity fmt order acc := by
      rw [SerdeBatch.accountWouldExceedCapacity, ← hcap]
      simp only [SerdeBatch.batch, HashMap.mapTo_insert, Batch.accountWouldExceedCapacity]
      rfl
    have htype : acc.account.accountType = acc.accountType := rfl
    simp only [insert, item, BatchItem.insert, SerdeBatch.insertAccount, Batch.insertAccount,
      hfull, htype]
    split
    · cases acc.accountType <;> simp only [Except.map, SerdeBatch.batch, HashMap.mapTo_insert]
      rfl
    · rfl

theorem SerdeBatch.batch_injective : Function.Injective SerdeBatch.batch := by
  rintro ⟨txs, accs⟩ ⟨txs', accs'⟩ h
  rw [batch, batch, Batch.mk.injEq] at h
  obtain rfl : txs = txs' := HashMap.mapTo_injective Subtype.val_injective h.1
  obtain rfl : accs = accs' := HashMap.mapTo_injective SerdeAccount.account_injective h.2
  rfl

/-- A sequence of insertions is one of `Batch`, for a size that is the size of the encoded
batches. -/
theorem SerdeBatch.batch_insertAll (fmt : BatchFormat) (order : HashOrder) (env : Env) :
    ∃ checkSize : Batch → Option ℕ, (∀ b : SerdeBatch, checkSize b.batch = b.checkSize fmt order) ∧
      ∀ items b, SerdeBatch.new.insertAll fmt order env items = .ok b →
        Batch.insertAll env checkSize (items.map SerdeItem.item) = b.batch := by
  let checkSize : Batch → Option ℕ :=
    Function.extend SerdeBatch.batch (SerdeBatch.checkSize fmt order) fun _ => none
  have hsize : ∀ b : SerdeBatch, checkSize b.batch = b.checkSize fmt order := fun b =>
    batch_injective.extend_apply _ _ b
  refine ⟨checkSize, hsize, fun items b h => ?_⟩
  unfold Batch.insertAll
  change List.foldl _ SerdeBatch.new.batch _ = _
  generalize SerdeBatch.new = b₀ at h ⊢
  induction items generalizing b₀ with
  | nil =>
    cases h
    rfl
  | cons item items ih =>
    rw [insertAll, List.foldlM_cons] at h
    obtain ⟨b₁, h₁, hrest⟩ := Except.bind_eq_ok_iff.1 h
    have hone : (item.insert fmt order env b₀).map batch =
        item.item.insert env checkSize b₀.batch := item.batch_insert hsize b₀
    rw [h₁] at hone
    rw [List.map_cons, List.foldl_cons, ← hone]
    exact ih b₁ hrest

/-! ## The decoded batch -/

/-- The decoded batch is the batch, and its getters find what was inserted last under a key. -/
theorem decoded_batch_eq_inserted (fmt : BatchFormat) (order order' : HashOrder) (env : Env)
    {items : List SerdeItem} {b : SerdeBatch}
    (h : SerdeBatch.new.insertAll fmt order env items = .ok b) :
    ∃ text b', b.encodeBatch fmt order' = some text ∧ SerdeBatch.decodeBatch fmt text = some b' ∧
      b'.Same b ∧
      (∀ a, b'.getUserAccount a = lastOf (SerdeItem.accountAt a) items) ∧
      (∀ a, b'.getProgramAccount (.program a) = lastOf (SerdeItem.accountAt a) items) ∧
      ∀ id, b'.getTransaction id = lastOf (SerdeItem.transactionAt env id) items := by
  obtain ⟨text, b', hencode, hdecode, hsame⟩ := b.decodeBatch_encodeBatch fmt order'
  obtain ⟨haccounts, htransactions⟩ := SerdeBatch.lookup_insertAll h
  have haccount : ∀ a, b'.accounts.lookup (Address.toFullString a) =
      lastOf (SerdeItem.accountAt a) items := fun a => by
    rw [hsame.accounts, haccounts]
    exact Option.or_none
  refine ⟨text, b', hencode, hdecode, hsame, haccount, haccount, fun id => ?_⟩
  rw [SerdeBatch.getTransaction, hsame.transactions, htransactions]
  exact Option.or_none

/-! ## A few values exchanged -/

section Swaps

variable {α : Type} [DecidableEq α]

/-- The permutation that exchanges the two values of each pair. -/
def swaps : List (α × α) → Equiv.Perm α
  | [] => 1
  | e :: l => Equiv.swap e.1 e.2 * swaps l

theorem swaps_of_ne {a : α} : ∀ {l : List (α × α)},
    (∀ e ∈ l, a ≠ e.1 ∧ a ≠ e.2) → swaps l a = a
  | [], _ => rfl
  | e :: l, h => by
    obtain ⟨hfst, hsnd⟩ := h e (List.mem_cons_self ..)
    rw [swaps, Equiv.Perm.mul_apply, swaps_of_ne fun e' he' => h e' (List.mem_cons_of_mem _ he'),
      Equiv.swap_apply_of_ne_of_ne hfst hsnd]

theorem swaps_of_mem {e : α × α} : ∀ {l : List (α × α)},
    (l.map Prod.fst ++ l.map Prod.snd).Nodup → e ∈ l → swaps l e.1 = e.2
  | a :: l, h, he => by
    obtain ⟨hfst, hsnd, hne⟩ := List.nodup_append.1 h
    rw [List.map_cons, List.nodup_cons] at hfst hsnd
    rw [swaps, Equiv.Perm.mul_apply]
    rcases List.mem_cons.1 he with rfl | he
    · have hstays : swaps l e.1 = e.1 := swaps_of_ne fun e' he' =>
        ⟨fun heq => hfst.1 (heq ▸ List.mem_map_of_mem he'),
          hne _ (List.mem_cons_self ..) _ (List.mem_cons_of_mem _ (List.mem_map_of_mem he'))⟩
      rw [hstays, Equiv.swap_apply_left]
    · have htail : (l.map Prod.fst ++ l.map Prod.snd).Nodup := List.nodup_append.2
        ⟨hfst.2, hsnd.2, fun x hx y hy =>
          hne x (List.mem_cons_of_mem _ hx) y (List.mem_cons_of_mem _ hy)⟩
      have hmem : e.2 ∈ l.map Prod.snd := List.mem_map_of_mem he
      rw [swaps_of_mem htail he, Equiv.swap_apply_of_ne_of_ne]
      · exact (hne _ (List.mem_cons_self ..) _ (List.mem_cons_of_mem _ hmem)).symm
      · exact fun heq => hsnd.1 (heq ▸ hmem)

theorem swaps_map_of_mem {ι : Type} {f g : ι → α} {i : ι} {l : List ι}
    (h : (l.map f ++ l.map g).Nodup) (hi : i ∈ l) :
    swaps (l.map fun i => (f i, g i)) (f i) = g i :=
  swaps_of_mem (e := (f i, g i)) (by simpa only [List.map_map, Function.comp_def] using h)
    (List.mem_map_of_mem (f := fun i => (f i, g i)) hi)

/-- Two lists are told apart by what a function has for the one and for the other. -/
theorem nodup_append_of_mark {ι β : Type} {f g : ι → α} {l : List ι} (mark : α → β) {u v : β}
    (hf : (l.map f).Nodup) (hg : (l.map g).Nodup) (hu : ∀ i ∈ l, mark (f i) = u)
    (hv : ∀ i ∈ l, mark (g i) = v) (hne : u ≠ v) : (l.map f ++ l.map g).Nodup := by
  refine List.nodup_append.2 ⟨hf, hg, fun x hx y hy heq => hne ?_⟩
  obtain ⟨i, hi, rfl⟩ := List.mem_map.1 hx
  obtain ⟨j, hj, rfl⟩ := List.mem_map.1 hy
  rw [← hu i hi, ← hv j hj, heq]

end Swaps

/-! ## Formats known on a few batches -/

/-- One character a byte. -/
def latinEncode (bytes : ByteArray) : String :=
  String.ofList (bytes.data.toList.map fun b => Char.ofNat b.toNat)

def latinDecode (text : String) : ByteArray :=
  ⟨(text.toList.map fun c => UInt8.ofNat c.toNat).toArray⟩

theorem latinDecode_latinEncode (bytes : ByteArray) : latinDecode (latinEncode bytes) = bytes := by
  have hbyte : ∀ b : UInt8, UInt8.ofNat (Char.ofNat b.toNat).toNat = b := by
    intro b
    have hchar : ∀ n < 256, (Char.ofNat n).toNat = n := by decide +kernel
    rw [hchar b.toNat b.toNat_lt, UInt8.ofNat_toNat]
  simp [latinDecode, latinEncode, List.map_map, Function.comp_def, hbyte]

/-- A format that leaves the bytes as they are, and writes one character a byte. -/
def BatchFormat.plain : BatchFormat where
  lossy _ := ""
  compress := some
  decompress := some
  decompress_compress bytes := ⟨bytes, rfl, rfl⟩
  pad := id
  unpad := id
  unpad_pad _ := rfl
  base64Encode := latinEncode
  base64Decode text := some (latinDecode text)
  base64Decode_base64Encode bytes := congrArg some (latinDecode_latinEncode bytes)

/-- The JSON of a batch. -/
def SerdeBatch.plainBytes (b : SerdeBatch) : ByteArray :=
  (String.ofList (b.serialize Env.small.order).print).toUTF8

/-- Batches with one JSON are the same. -/
theorem SerdeBatch.same_of_plainBytes {b b' : SerdeBatch} (h : b.plainBytes = b'.plainBytes) :
    b.Same b' := by
  obtain ⟨text, b₁, hencode, hdecode, hsame⟩ := b.decodeBatch_encodeBatch .plain Env.small.order
  obtain ⟨text', b₁', hencode', hdecode', hsame'⟩ :=
    b'.decodeBatch_encodeBatch .plain Env.small.order
  have htext : some text = some text' :=
    hencode.symm.trans ((congrArg (fun bytes => some (latinEncode bytes)) h).trans hencode')
  obtain rfl := Option.some.inj htext
  obtain rfl : b₁ = b₁' := Option.some.inj (hdecode.symm.trans hdecode')
  exact ⟨fun k => (hsame.transactions k).symm.trans (hsame'.transactions k),
    fun k => (hsame.accounts k).symm.trans (hsame'.accounts k)⟩

/-- What the crates make of a batch, step by step. -/
structure BatchSample where
  batch : SerdeBatch
  compressed : ByteArray
  padded : ByteArray
  text : String

namespace BatchFormat

variable (samples : List BatchSample)

/-- The JSON of each sample for its zlib stream, and the other way. -/
def streams : Equiv.Perm ByteArray :=
  swaps (samples.map fun s => (s.batch.plainBytes, s.compressed))

def paddings : Equiv.Perm ByteArray :=
  swaps (samples.map fun s => (s.compressed, s.padded))

def texts : Equiv.Perm String :=
  swaps (samples.map fun s => (latinEncode s.padded, s.text))

/-- A format that does with the samples what the crates do, and is lossless elsewhere. -/
def ofSamples : BatchFormat where
  lossy _ := ""
  compress bytes := some (streams samples bytes)
  decompress bytes := some ((streams samples).symm bytes)
  decompress_compress bytes := ⟨_, rfl, congrArg some (Equiv.symm_apply_apply _ _)⟩
  pad := paddings samples
  unpad := (paddings samples).symm
  unpad_pad := Equiv.symm_apply_apply _
  base64Encode bytes := texts samples (latinEncode bytes)
  base64Decode text := some (latinDecode ((texts samples).symm text))
  base64Decode_base64Encode bytes := by
    rw [Equiv.symm_apply_apply, latinDecode_latinEncode]

variable {samples} {s : BatchSample}

/-- The samples are told apart at every step. -/
structure Apart (samples : List BatchSample) : Prop where
  streams : (samples.map (fun s => s.batch.plainBytes) ++ samples.map (·.compressed)).Nodup
  paddings : (samples.map (·.compressed) ++ samples.map (·.padded)).Nodup
  texts : (samples.map (fun s => latinEncode s.padded) ++ samples.map (·.text)).Nodup

theorem encodeBatch_ofSamples (h : Apart samples) (hs : s ∈ samples) :
    s.batch.encodeBatch (.ofSamples samples) Env.small.order = some s.text := by
  have hstream : streams samples s.batch.plainBytes = s.compressed :=
    swaps_map_of_mem h.streams hs
  have hpadding : paddings samples s.compressed = s.padded := swaps_map_of_mem h.paddings hs
  have htext : texts samples (latinEncode s.padded) = s.text := swaps_map_of_mem h.texts hs
  change some (texts samples (latinEncode (paddings samples
    (streams samples s.batch.plainBytes)))) = _
  rw [hstream, hpadding, htext]

end BatchFormat

/-! ## A small batch -/

/-- The account of user 5, with ten of token 9. -/
def SerdeAccount.holder : SerdeAccount :=
  ⟨.user, none, 5#160,
    ⟨[(9#160, ⟨9#160, 5#160, 10#256, .empty, [], .empty, .empty, .empty, .free⟩)],
      List.pairwise_singleton _ _⟩, 2#256, .empty, .empty, .empty⟩

/-- The account of program 9, which user 5 owns. -/
def SerdeAccount.issuer : SerdeAccount :=
  ⟨.program 9#160, none, 5#160, .empty, 0#256,
    ⟨[("supply", "10")], List.pairwise_singleton _ _⟩,
    ⟨[("symbol", "A")], List.pairwise_singleton _ _⟩, .empty⟩

/-- A transaction of user 7, signed with a number for its `s`. -/
def signedWith (s : BitVec 256) : SerdeTransaction :=
  ⟨⟨.send 1#256, 7#160, 8#160, ETH_ADDR, "", "", 3#256, 1#256, 27, 1#256, s⟩,
    (by decide : (-2 ^ 31 : Int) ≤ 27), (by decide : (27 : Int) < 2 ^ 31)⟩

namespace SerdeBatch

/-- The batch with the account added under an address. -/
def withAccount (b : SerdeBatch) (a : Address) (account : SerdeAccount) : SerdeBatch :=
  { b with accounts := b.accounts.insert (Address.toFullString a) account }

/-- The batch with the transaction added. -/
def withTransaction (b : SerdeBatch) (s : BitVec 256) : SerdeBatch :=
  { b with transactions :=
      b.transactions.insert (Env.small.hashString (signedWith s).1) (signedWith s) }

/-- The account of user 5. -/
def withHolder : SerdeBatch := new.withAccount 5#160 .holder

/-- Both accounts. -/
def withIssuer : SerdeBatch := withHolder.withAccount 9#160 .issuer

/-- Both accounts, and the transaction of user 7. -/
def small : SerdeBatch := withIssuer.withTransaction 1#256

end SerdeBatch

/-- The bytes of big-endian words of 40 bytes. -/
def bytesOfWords (size : ℕ) (words : List ℕ) : ByteArray :=
  ⟨((words.flatMap fun w =>
    (List.range 40).map fun i => UInt8.ofNat (w >>> (8 * (39 - i)))).take size).toArray⟩

/-- The batch of user 5. -/
def holderSample : BatchSample where
  batch := .withHolder
  compressed := bytesOfWords 217
    [0x78daad52c10ac2300cfd979c7710c1c3bc0dbc0c543c781b3bc4358ad8a5a3ed9c32faefb66e6cec,
      0x206c606e4df2f25ef2da82d5c8060b7b576c60dbba08b02854cd36bc60f55acd8b4de8ee91e77745,
      0xb085da9086082aad6e1acb2396642a2c7c856b2923500d934e84d0643cd512a661e6328971e8ee91,
      0xa9584219432f77192c28bda0440e4bcf87fd0af4e34ab228d062e794550fe254f83364b9f74d4ad5,
      0x74645f1b2bbfeb1365efea8832166d1d4e7ed544e07c86d59f24ae476f92ee2fec06da69fe305964,
      0x5adbdff941e234789ce5ceb90f95ceb8a40000000000000000000000000000000000000000000000]
  padded := bytesOfWords 224
    [0x0078daad52c10ac2300cfd979c7710c1c3bc0dbc0c543c781b3bc4358ad8a5a300ed9c32faefb66e,
      0x6cec206c606e4df2f25ef2da82d5c8060b7b576c60dbba0800b02854cd36bc60f55acd8b4de8ee91,
      0xe77745b085da9086082aad6e1acb239600642a2c7c856b2923500d934e84d0643cd512a661e63289,
      0x71e8ee91a958421900432f77192c28bda0440e4bcf87fd0af4e34ab228d062e794550fe254f83364,
      0x00b9f74d4ad574645f1b2bbfeb1365efea8832166d1d4e7ed544e07c86d59f2400ae476f92ee2fec,
      0x06da69fe3059645adbdff941e234789ce5ceb90f95ceb8a400000000000000000000000000000000]
  text := "AHjarVLBCsIwDP2XnHcQwcO8DbwMVDx4GzvENYrYpaMA7Zwy+u+2bmzsIGxgbk3y8l7y2oLVyAYLe1dsYNu6" ++
      "CACwKFTNNrxg9VrNi03o7pHnd0WwhdqQhggqrW4ayyOWAGQqLHyFaykjUA2TToTQZDzVEqZh5jKJcejukalY" ++
      "QhkAQy93GSwovaBEDkvPh/0K9ONKsijQYueUVQ/iVPgzZAC5901K1XRkXxsrv+sTZe/qiDIWbR1OftVE4HyG" ++
      "1Z8kAK5Hb5LuL+wG2mn+MFlkWtvf+UHiNHic5c65D5XOuKQ="

/-- The batch whose size says whether the program's account fits : it is tried under its owner's
address. -/
def issuerSample : BatchSample where
  batch := SerdeBatch.withHolder.withAccount 5#160 .issuer
  compressed := bytesOfWords 169
    [0x78da958fb10ac2301086dfe5e60e75e860b780a38a839b74389320c5f41292142d25ef6e82b10a22,
      0xc4db0ebeffbbfb67f016c921f7bd2607ed1c2a40cef5483e6d50dfebb269129d93c7c9c8b41aab2f,
      0x160768cb356b880fe4dc1e07e90cf2e8a251a90af48da4654258e9dc3fd2061667ae489a92b65cf1,
      0x73de6af62cbf418fa9bc1b8d5153bcb1aa3f3a6568273d8a17380d67ad22c8beb96d4f57290ecbef,
      0xa72e84f0001b1d7b6400000000000000000000000000000000000000000000000000000000000000]
  padded := bytesOfWords 175
    [0x0078da958fb10ac2301086dfe5e60e75e860b780a38a839b74389320c5f4129200142d25ef6e82b1,
      0x0a22c4db0ebeffbbfb67f016c921f7bd2607ed1c2a40cef500483e6d50dfebb269129d93c7c9c8b4,
      0x1aab2f160768cb356b880fe4dc1e07e9000cf2e8a251a90af48da4654258e9dc3fd2061667ae489a,
      0x92b65cf173de6af6002cbf418fa9bc1b8d5153bcb1aa3f3a6568273d8a17380d67ad22c8beb96d4f,
      0x0057290ecbefa72e84f0001b1d7b6400000000000000000000000000000000000000000000000000]
  text := "AHjalY+xCsIwEIbf5eYOdehgt4CjioObdDiTIMX0EpIAFC0l726CsQoixNsOvv+7+2fwFskh970mB+0cKkDO" ++
      "9QBIPm1Q3+uyaRKdk8fJyLQaqy8WB2jLNWuID+TcHgfpAAzy6KJRqQr0jaRlQljp3D/SBhZnrkiakrZc8XPe" ++
      "avYALL9Bj6m8G41RU7yxqj86ZWgnPYoXOA1nrSLIvrltTwBXKQ7L76cuhPAAGx17ZA=="

/-- The batch with the transaction. -/
def smallSample : BatchSample where
  batch := .small
  compressed := bytesOfWords 332
    [0x78dab554cb4ec33010fc973de79016a1b6b945e2520910076e88c336d9a2aa8e6df94189aafc3beb,
      0x242515a8a846c6477b665f33eb233883d262e5764a5a288e907fe4d79d65409fb19f5b4de1ca92ac,
      0xa1b83ecea533832e83ad514d4cb00564e0540c63c90c6dd49bc1661d57371395664648398d612db5,
      0x7776b87e47e129c52c6e389854b2a23483e5caa0982f3230a9e2d9448ab3e45855ca4b1767c65540,
      0x8fcc93114755632a5b05cf8dbc476cc86a0c33975e0816fb20c994756dc846b57b3b392c34d52594,
      0x329f429743f377e8b0df42afb56839c72c3feb69043d90c3fa046c9b8d120c2c7fe2ee77724ff5d3,
      0x57ed2faf0c89e8fbbb26e02d19f8f70947dae64fdbbf82b1dc385aa874830213e98f1cae99c4ecc2,
      0xe7b727b9ae7bb1789784508721597844cdbdf2a734da70625987ce87916f0d51bf85c92c3abf64d1,
      0xdf5c798d13bbee13e9f5b0a300000000000000000000000000000000000000000000000000000000]
  padded := bytesOfWords 343
    [0x0078dab554cb4ec33010fc973de79016a1b6b945e2520910076e88c336d9a2aa008e6df94189aafc,
      0x3beb242515a8a846c6477b665f33eb233883d262e5764a5a00288e907fe4d79d65409fb19f5b4de1,
      0xca92aca1b83ecea533832e83ad514d4c00b00564e0540c63c90c6dd49bc1661d5737139566464839,
      0x8d612db57776b87e0047e129c52c6e389854b2a23483e5caa0982f3230a9e2d9448ab3e45855ca4b,
      0x001767c655408fcc93114755632a5b05cf8dbc476cc86a0c33975e0816fb20c90094756dc846b57b,
      0x3b392c34d52594329f429743f377e8b0df42afb56839c72c003feb69043d90c3fa046c9b8d120c2c,
      0x7fe2ee77724ff5d357ed2faf0c89e8fb00bb26e02d19f8f70947dae64fdbbf82b1dc385aa8748302,
      0x13e98f1cae99c4ec00c2e7b727b9ae7bb1789784508721597844cdbdf2a734da70625987ce87916f,
      0x000d51bf85c92c3abf64d1df5c798d13bbee13e9f5b0a30000000000000000000000000000000000]
  text := "AHjatVTLTsMwEPyXPeeQFqG2uUXiUgkQB26IwzbZoqoAjm35QYmq/DvrJCUVqKhGxkd7Zl8z6yM4g9Ji5XZK" ++
      "WgAojpB/5NedZUCfsZ9bTeHKkqyhuD7OpTODLoOtUU1MALAFZOBUDGPJDG3Um8FmHVc3E5VmRkg5jWEttXd2" ++
      "uH4AR+EpxSxuOJhUsqI0g+XKoJgvMjCp4tlEirPkWFXKSwAXZ8ZVQI/MkxFHVWMqWwXPjbxHbMhqDDOXXggW" ++
      "+yDJAJR1bchGtXs7OSw01SWUMp9Cl0Pzd+iw30KvtWg5xywAP+tpBD2Qw/oEbJuNEgwsf+Lud3JP9dNX7S+v" ++
      "DIno+wC7JuAtGfj3CUfa5k/bv4Kx3DhaqHSDAhPpjxyumcTsAMLntye5rnuxeJeEUIchWXhEzb3ypzTacGJZ" ++
      "h86HkW8ADVG/hcksOr9k0d9ceY0Tu+4T6fWwow=="

/-- A transaction goes into a batch that has a short text. -/
theorem insertTransaction_of_text {fmt : BatchFormat} {b : SerdeBatch} {s : BitVec 256}
    {text : String} (htext : (b.withTransaction s).encodeBatch fmt Env.small.order = some text)
    (h : text.utf8ByteSize < 512 * 1024) :
    b.insertTransaction fmt Env.small.order Env.small (signedWith s) =
      .ok (b.withTransaction s) := by
  have hroom : b.transactionWouldExceedCapacity fmt Env.small.order Env.small (signedWith s) =
      some false := by
    change (b.withTransaction s).atCapacity fmt Env.small.order = some false
    rw [SerdeBatch.atCapacity, SerdeBatch.checkSize, htext, Option.map_some, Option.map_some]
    exact congrArg some (decide_eq_false (by omega))
  rw [SerdeBatch.insertTransaction, hroom]
  rfl

/-- An account goes into a batch that has a short text with it. -/
theorem insertAccount_of_text {fmt : BatchFormat} {b : SerdeBatch} {account : SerdeAccount}
    {text : String} (htext : (b.withAccount account.ownerAddress account).encodeBatch fmt
      Env.small.order = some text) (h : text.utf8ByteSize < 512 * 1024) :
    b.insertAccount fmt Env.small.order account = .ok (b.withAccount account.address account) := by
  have hroom : b.accountWouldExceedCapacity fmt Env.small.order account = some false := by
    change (b.withAccount account.ownerAddress account).atCapacity fmt Env.small.order = some false
    rw [SerdeBatch.atCapacity, SerdeBatch.checkSize, htext, Option.map_some, Option.map_some]
    exact congrArg some (decide_eq_false (by omega))
  rw [SerdeBatch.insertAccount, hroom]
  rcases account with ⟨_ | a, _, _, _, _, _, _, _⟩ <;> rfl

section Samples

/-- The batches that are encoded on the way to the small one. -/
def samples : List BatchSample := [holderSample, issuerSample, smallSample]

theorem samples_sizes : samples.map (·.compressed.size) = [217, 169, 332] ∧
    samples.map (·.padded.size) = [224, 175, 343] ∧
    samples.map (·.text.utf8ByteSize) = [300, 236, 460] := by decide +kernel

/-- The first byte. -/
def headOf (bytes : ByteArray) : Option UInt8 := bytes.data.toList.head?

theorem samples_heads : ∀ s ∈ samples, headOf s.compressed = some 0x78 ∧
    headOf s.padded = some 0 ∧ headOf s.text.toUTF8 = some 0x41 := by decide +kernel

theorem headOf_toUTF8 {c : Char} {b : UInt8} (h : String.utf8EncodeChar c = [b])
    (l : List Char) : headOf (String.ofList (c :: l)).toUTF8 = some b := by
  have hbytes : (String.ofList (c :: l)).toUTF8 = (c :: l).utf8Encode := rfl
  rw [hbytes, List.utf8Encode, List.flatMap_cons, h, headOf]
  simp

/-- A JSON object starts with a brace. -/
theorem SerdeBatch.headOf_plainBytes (b : SerdeBatch) : headOf b.plainBytes = some 0x7b :=
  headOf_toUTF8 (by decide) _

theorem headOf_latinEncode {bytes : ByteArray} (h : headOf bytes = some 0) :
    headOf (latinEncode bytes).toUTF8 = some 0 := by
  obtain ⟨l, hl⟩ := List.head?_eq_some_iff.1 h
  unfold latinEncode
  rw [hl]
  exact headOf_toUTF8 (by decide) _

theorem samples_differ : samples.Pairwise fun s s' => ¬s.batch.Same s'.batch := by
  have haccounts : ¬SerdeBatch.withHolder.Same (SerdeBatch.withHolder.withAccount 5#160 .issuer) :=
    fun hsame => by
      have haccount := hsame.accounts (Address.toFullString 5#160)
      simp only [SerdeBatch.withHolder, SerdeBatch.withAccount, AList.lookup_insert] at haccount
      exact absurd (congrArg SerdeAccount.accountType (Option.some.inj haccount)) (by decide)
  have htransactions : ∀ b : SerdeBatch, b.transactions = ∅ → ¬b.Same .small := fun b hb hsame => by
    have htransaction := hsame.transactions (Env.small.hashString (signedWith 1#256).1)
    rw [hb, AList.lookup_empty, SerdeBatch.small, SerdeBatch.withTransaction,
      AList.lookup_insert] at htransaction
    cases htransaction
  -- the samples' bytes stay folded
  have hholder : holderSample.batch = .withHolder := rfl
  have hissuer : issuerSample.batch = .withAccount .withHolder 5#160 .issuer := rfl
  have hsmall : smallSample.batch = .small := rfl
  have hfirst := htransactions .withHolder rfl
  have hsecond := htransactions (SerdeBatch.withHolder.withAccount 5#160 .issuer) rfl
  simp [samples, hholder, hissuer, hsmall, haccounts, hfirst, hsecond]

theorem samples_apart : BatchFormat.Apart samples := by
  obtain ⟨hcompressed, hpadded, htext⟩ := samples_sizes
  have hcompressed' : (samples.map (·.compressed)).Nodup :=
    .of_map ByteArray.size (by rw [List.map_map]; exact hcompressed ▸ by decide)
  have hpadded' : (samples.map (·.padded)).Nodup :=
    .of_map ByteArray.size (by rw [List.map_map]; exact hpadded ▸ by decide)
  have htext' : (samples.map (·.text)).Nodup :=
    .of_map String.utf8ByteSize (by rw [List.map_map]; exact htext ▸ by decide)
  have hlatin : (samples.map fun s => latinEncode s.padded).Nodup := by
    have hinj : Function.Injective latinEncode :=
      Function.LeftInverse.injective latinDecode_latinEncode
    simpa only [List.map_map, Function.comp_def] using hpadded'.map hinj
  have hplain : (samples.map fun s => s.batch.plainBytes).Nodup :=
    List.pairwise_map.2 (samples_differ.imp fun hne h => hne (SerdeBatch.same_of_plainBytes h))
  constructor
  · exact nodup_append_of_mark headOf hplain hcompressed'
      (fun s _ => s.batch.headOf_plainBytes) (fun s hs => (samples_heads s hs).1) (by decide)
  · exact nodup_append_of_mark headOf hcompressed' hpadded'
      (fun s hs => (samples_heads s hs).1) (fun s hs => (samples_heads s hs).2.1) (by decide)
  · exact nodup_append_of_mark (fun t : String => headOf t.toUTF8) hlatin htext'
      (fun s hs => headOf_latinEncode (samples_heads s hs).2.1)
      (fun s hs => (samples_heads s hs).2.2) (by decide)

/-- The text of a sample is short. -/
theorem samples_room : ∀ s ∈ samples, s.text.utf8ByteSize < 512 * 1024 := by
  intro s hs
  have hmem : s.text.utf8ByteSize ∈ samples.map (·.text.utf8ByteSize) :=
    List.mem_map_of_mem (f := fun s => s.text.utf8ByteSize) hs
  rw [samples_sizes.2.2] at hmem
  have hle : ∀ n ∈ [300, 236, 460], n < 512 * 1024 := by decide
  exact hle _ hmem

/-- The account of user 5, her program, and a transaction go into the batch. -/
theorem insertAll_small : SerdeBatch.new.insertAll (.ofSamples samples) Env.small.order Env.small
    [.account .holder, .account .issuer, .transaction (signedWith 1#256)] = .ok .small := by
  have htext : ∀ s ∈ samples, s.batch.encodeBatch (.ofSamples samples) Env.small.order =
      some s.text := fun s hs => BatchFormat.encodeBatch_ofSamples samples_apart hs
  have hholder : SerdeItem.insert (.ofSamples samples) Env.small.order Env.small .new
      (.account .holder) = .ok .withHolder :=
    insertAccount_of_text (htext holderSample (by simp [samples]))
      (samples_room _ (by simp [samples]))
  have hissuer : SerdeItem.insert (.ofSamples samples) Env.small.order Env.small .withHolder
      (.account .issuer) = .ok .withIssuer :=
    insertAccount_of_text (htext issuerSample (by simp [samples]))
      (samples_room _ (by simp [samples]))
  have hsmall : SerdeItem.insert (.ofSamples samples) Env.small.order Env.small .withIssuer
      (.transaction (signedWith 1#256)) = .ok .small :=
    insertTransaction_of_text (htext smallSample (by simp [samples]))
      (samples_room _ (by simp [samples]))
  rw [SerdeBatch.insertAll_cons hholder, SerdeBatch.insertAll_cons hissuer,
    SerdeBatch.insertAll_cons hsmall]
  rfl

end Samples

/-- Everything is found on the decoded batch. -/
theorem decoded_batch_of_small :
    ∃ text b', SerdeBatch.small.encodeBatch (.ofSamples samples) Env.small.order = some text ∧
      SerdeBatch.decodeBatch (.ofSamples samples) text = some b' ∧ b'.Same .small ∧
      b'.getUserAccount 5#160 = some .holder ∧
      b'.getProgramAccount (.program 9#160) = some .issuer ∧
      b'.getTransaction (Address.toFullString 8#160) = some (signedWith 1#256) ∧
      b'.getTransaction "" = none := by
  obtain ⟨text, b', hencode, hdecode, hsame, huser, hprogram, htransaction⟩ :=
    decoded_batch_eq_inserted (.ofSamples samples) Env.small.order Env.small.order Env.small
      insertAll_small
  have hhash : Env.small.hashString (signedWith 1#256).1 = Address.toFullString 8#160 := rfl
  have hne : Address.toFullString 8#160 ≠ "" := by decide +kernel
  refine ⟨text, b', hencode, hdecode, hsame, huser 5#160, hprogram 9#160, ?_, ?_⟩
  · rw [htransaction]
    simp [lastOf, SerdeItem.transactionAt, hhash]
  · rw [htransaction]
    simp [lastOf, SerdeItem.transactionAt, hhash, hne]

/-- The hash is that of the payload, without the signature. -/
def Env.HashesPayload (env : Env) : Prop :=
  ∀ (tx : Transaction) (v : Int) (r s : BitVec 256),
    env.hashString { tx with v := v, r := r, s := s } = env.hashString tx

/-- The format with one text of our own for the padded bytes. -/
def BatchFormat.withText (fmt : BatchFormat) (padded : ByteArray) (text : String) :
    BatchFormat where
  __ := fmt
  base64Encode bytes := Equiv.swap (fmt.base64Encode padded) text (fmt.base64Encode bytes)
  base64Decode t := fmt.base64Decode (Equiv.swap (fmt.base64Encode padded) text t)
  base64Decode_base64Encode bytes := by
    rw [Equiv.swap_apply_self, fmt.base64Decode_base64Encode]

/-- A format with short texts for two batches. -/
def BatchFormat.brief (b b' : SerdeBatch) : BatchFormat :=
  (BatchFormat.plain.withText b.plainBytes "1").withText b'.plainBytes "2"

theorem encodeBatch_brief (b b' : SerdeBatch) :
    b'.encodeBatch (.brief b b') Env.small.order = some "2" :=
  congrArg some (Equiv.swap_apply_left _ _)

theorem encodeBatch_brief_first (b b' : SerdeBatch) : ∃ text,
    b.encodeBatch (.brief b b') Env.small.order = some text ∧ text.utf8ByteSize < 512 * 1024 := by
  have hone : (BatchFormat.plain.withText b.plainBytes "1").base64Encode b.plainBytes = "1" :=
    Equiv.swap_apply_left _ _
  refine ⟨_, rfl, ?_⟩
  change (Equiv.swap _ "2"
    ((BatchFormat.plain.withText b.plainBytes "1").base64Encode b.plainBytes)).utf8ByteSize < _
  rw [hone, Equiv.swap_apply_def]
  split_ifs with h₁ h₂
  · decide
  · exact absurd h₂ (by decide)
  · decide

/-- Of two transactions with one hash only one is found. -/
theorem transaction_replaced :
    ¬∀ (fmt : BatchFormat) (env : Env) (items : List SerdeItem) (b : SerdeBatch),
      env.HashesPayload → SerdeBatch.new.insertAll fmt env.order env items = .ok b →
        ∃ text b', b.encodeBatch fmt env.order = some text ∧
          SerdeBatch.decodeBatch fmt text = some b' ∧
          ∀ tx, .transaction tx ∈ items →
            b'.getTransaction (env.hashString tx.1) = some tx := by
  intro h
  let b₁ := SerdeBatch.new.withTransaction 1#256
  let b₂ := b₁.withTransaction 2#256
  obtain ⟨text, htext, hsize⟩ := encodeBatch_brief_first b₁ b₂
  have hfirst : SerdeItem.insert (.brief b₁ b₂) Env.small.order Env.small .new
      (.transaction (signedWith 1#256)) = .ok b₁ := insertTransaction_of_text htext hsize
  have hsecond : SerdeItem.insert (.brief b₁ b₂) Env.small.order Env.small b₁
      (.transaction (signedWith 2#256)) = .ok b₂ :=
    insertTransaction_of_text (encodeBatch_brief b₁ b₂) (by decide)
  have hall : SerdeBatch.new.insertAll (.brief b₁ b₂) Env.small.order Env.small
      [.transaction (signedWith 1#256), .transaction (signedWith 2#256)] = .ok b₂ := by
    rw [SerdeBatch.insertAll_cons hfirst, SerdeBatch.insertAll_cons hsecond]
    rfl
  obtain ⟨text, b', -, -, hget⟩ := h _ Env.small _ b₂ (fun _ _ _ _ => rfl) hall
  have hone := hget (signedWith 1#256) (by simp)
  have htwo := hget (signedWith 2#256) (by simp)
  have hsame : signedWith 1#256 = signedWith 2#256 := Option.some.inj (hone.symm.trans htwo)
  exact absurd (congrArg (fun tx => tx.1.s) hsame) (by decide)

end Lasr
