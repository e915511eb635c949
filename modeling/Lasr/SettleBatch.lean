import Lasr.AddressText
import Lasr.Settlement
import Mathlib.Data.Finset.Sort

/-!
# The addresses of a settlement

`settle_batch` of `actors/src/eo_client.rs` gets the keys of a batch's accounts. It turns each
into an address, the address into the text with the case of the checksum, and that into the
address of an Ethereum crate, and passes these to `settleBlobIndex`. A key that fails on the way
is left out without an error.

Upper and lower case spell the same digits, whatever the hash (`hexAddress_of_digits`), so every
key of a batch arrives as the address it was made of (`EoClient.ethAddress_toFullString`). A
batch has its accounts under the texts of their addresses (`Settlement.Keyed`), and a settlement
has each of them once (`settlement_covers_batch`).
-/

set_option linter.unusedSectionVars false

namespace Lasr

/-! ## Outside the repository -/

/-- The reader of Ethereum addresses. It takes hex digits of either case after `0x`. -/
structure EthereumParser where
  parse : String → Option Address
  parse_hex : ∀ digits a, HexAddress digits a →
    parse (String.ofList ('0' :: 'x' :: digits)) = some a

/-- The order in which a `HashSet` hands out its elements. -/
structure SetOrder where
  iter : Finset String → List String
  nodup : ∀ s, (iter s).Nodup
  toFinset : ∀ s, (iter s).toFinset = s

/-! ## The conversions -/

namespace EoClient

/-- `web3::Error`, as far as it is made here. -/
inductive Web3Error where
  | internal

/-- `char_indices`. -/
def charIndices : ℕ → List Char → List (ℕ × Char)
  | _, [] => []
  | i, c :: l => (i, c) :: charIndices (i + c.utf8Size) l

/-- A hex digit in the case that the hash has for its position. -/
def checksumDigit {ε : Type} (hash : List (BitVec 8)) (ic : ℕ × Char) : Except (Fault ε) Char :=
  if ic.2.isDigit then .ok ic.2
  else do
    let byte ← orPanic hash[ic.1 / 2]?
    if 8#8 ≤ byte >>> 4 ∧ ic.1 % 2 = 0 ∨ 8#8 ≤ byte &&& 0x0f#8 ∧ ic.1 % 2 ≠ 0 then
      return ic.2.toUpper
    else return ic.2.toLower

section Conversions

variable (env : Env) (eth : EthereumParser)

/-- `to_checksum_address`. -/
def toChecksumAddress {ε : Type} (bytes : List (BitVec 8)) : Except (Fault ε) String := do
  let hexAddress := (hexEncode bytes).map Char.toLower
  let hash := wordBytes 32 (env.keccak256 (String.ofList hexAddress))
  let checksumAddress ← (charIndices 0 hexAddress).mapM (checksumDigit hash)
  return String.ofList ('0' :: 'x' :: checksumAddress)

/-- `parse_checksum_address`. -/
def parseChecksumAddress (address : Address) : Except (Fault Web3Error) Address := do
  let checksum ← toChecksumAddress env (wordBytes 20 address)
  match eth.parse checksum with
  | some a => return a
  | none => returned (.error .internal)

/-- `ok()`. A panic (`none`) stays one. -/
def okOrPanic {ε α : Type} : Except (Fault ε) α → Option (Option α)
  | .ok a => some (some a)
  | .error (.err _) => some none
  | .error .panic => none

/-- What `settle_batch` makes of one key. -/
def ethAddress (a : String) : Option (Option Address) := do
  match ← okOrPanic (Address.fromHex a) with
  | some addr => okOrPanic (parseChecksumAddress env eth addr)
  | none => return none

/-- A call of `settleBlobIndex`, with the gas that is provided for it. -/
structure SettleBlobIndex where
  accounts : List Address
  batchHeaderHash : List UInt8
  blobIndex : ℕ
  gas : ℕ

/-- The call that `settle_batch` makes. It is `none` where it panics. -/
def settleBatch (order : SetOrder) (msg : Settle) : Option SettleBlobIndex := do
  let ethAddresses ← (order.iter msg.accounts).mapM (ethAddress env eth)
  let addresses := ethAddresses.reduceOption
  return {
    accounts := addresses
    batchHeaderHash := msg.batchHeaderHash
    blobIndex := msg.blobIndex
    gas := 50000 * addresses.length + 100000 }

end Conversions

end EoClient

/-! ## The case of the digits -/

/-- Digits of the same values mean the same address. -/
theorem hexAddress_of_digits {l l' : List Char} {a : Address}
    (h : l'.map Json.hexDigitValue = l.map Json.hexDigitValue) (ha : HexAddress l a) :
    HexAddress l' a := by
  have hnumber : ∀ l, hexNumber l =
      (l.map Json.hexDigitValue).foldl (fun n d => 16 * n + d.getD 0) 0 := by
    intro l
    rw [List.foldl_map]
    rfl
  have hdigits : ∀ l : List Char, (∀ c ∈ l, IsHexDigit c) ↔
      ∀ d ∈ l.map Json.hexDigitValue, d.isSome := by
    intro l
    rw [List.forall_mem_map]
    rfl
  have hlength := congrArg List.length h
  rw [List.length_map, List.length_map] at hlength
  rw [HexAddress, hdigits, hnumber] at ha ⊢
  rwa [h, hlength]

namespace EoClient

/-- One of the digits that are written. -/
def IsLowerDigit (c : Char) : Prop := ∃ n < 16, c = hexDigit n

theorem isLowerDigit_of_mem_hexEncode {bytes : List (BitVec 8)} :
    ∀ c ∈ hexEncode bytes, IsLowerDigit c := by
  intro c hc
  obtain ⟨b, -, hc⟩ := List.mem_flatMap.1 hc
  have hb := b.isLt
  simp only [List.mem_cons, List.not_mem_nil, or_false] at hc
  rcases hc with rfl | rfl
  · exact ⟨b.toNat / 16, by omega, rfl⟩
  · exact ⟨b.toNat % 16, by omega, rfl⟩

theorem IsLowerDigit.toLower_eq {c : Char} (h : IsLowerDigit c) : c.toLower = c := by
  have hall : ∀ n < 16, (hexDigit n).toLower = hexDigit n := by decide
  obtain ⟨n, hn, rfl⟩ := h
  exact hall n hn

theorem IsLowerDigit.value_toUpper {c : Char} (h : IsLowerDigit c) :
    Json.hexDigitValue c.toUpper = Json.hexDigitValue c := by
  have hall : ∀ n < 16, Json.hexDigitValue (hexDigit n).toUpper =
      Json.hexDigitValue (hexDigit n) := by decide
  obtain ⟨n, hn, rfl⟩ := h
  exact hall n hn

theorem IsLowerDigit.utf8Size_eq {c : Char} (h : IsLowerDigit c) : c.utf8Size = 1 := by
  obtain ⟨n, hn, rfl⟩ := h
  exact utf8Size_hexDigit n hn

variable {ε : Type}

/-- A digit keeps its value, whatever the hash has for it. -/
theorem checksumDigit_value {hash : List (BitVec 8)} {i : ℕ} {c : Char} (hc : IsLowerDigit c)
    (hi : i / 2 < hash.length) :
    ∃ c', (checksumDigit hash (i, c) : Except (Fault ε) Char) = .ok c' ∧
      Json.hexDigitValue c' = Json.hexDigitValue c := by
  unfold checksumDigit
  split_ifs with hdigit
  · exact ⟨c, rfl, rfl⟩
  · simp only [List.getElem?_eq_getElem hi, orPanic, ok_bind]
    split_ifs
    · exact ⟨c.toUpper, rfl, hc.value_toUpper⟩
    · exact ⟨c.toLower, rfl, by rw [hc.toLower_eq]⟩

theorem mapM_checksumDigit {hash : List (BitVec 8)} : ∀ {l : List Char} {i : ℕ},
    (∀ c ∈ l, IsLowerDigit c) → i + l.length ≤ 2 * hash.length →
    ∃ l', ((charIndices i l).mapM (checksumDigit hash) : Except (Fault ε) (List Char)) = .ok l' ∧
      l'.map Json.hexDigitValue = l.map Json.hexDigitValue
  | [], _, _, _ => ⟨[], rfl, rfl⟩
  | c :: l, i, hl, hi => by
    rw [List.length_cons] at hi
    have hc := hl c List.mem_cons_self
    have hposition : i / 2 < hash.length := by omega
    have hrest : i + 1 + l.length ≤ 2 * hash.length := by omega
    obtain ⟨c', hc', hval⟩ := checksumDigit_value hc hposition
    obtain ⟨l', hl', hvals⟩ :=
      mapM_checksumDigit (fun d hd => hl d (List.mem_cons_of_mem _ hd)) hrest
    refine ⟨c' :: l', ?_, by rw [List.map_cons, List.map_cons, hval, hvals]⟩
    rw [charIndices, hc.utf8Size_eq, List.mapM_cons, hc', ok_bind, hl', ok_bind]
    rfl

variable {env : Env} {eth : EthereumParser}

/-- The checksummed text of an address means the address, for every hash. -/
theorem toChecksumAddress_eq_ok (a : Address) :
    ∃ digits, (toChecksumAddress env (wordBytes 20 a) : Except (Fault ε) String) =
      .ok (String.ofList ('0' :: 'x' :: digits)) ∧ HexAddress digits a := by
  have hlower : (hexEncode (wordBytes 20 a)).map Char.toLower = hexEncode (wordBytes 20 a) := by
    conv_rhs => rw [← List.map_id (hexEncode (wordBytes 20 a))]
    exact List.map_congr_left fun c hc => (isLowerDigit_of_mem_hexEncode c hc).toLower_eq
  have hhex := hexAddress_hexEncode a
  have hfit : 0 + (hexEncode (wordBytes 20 a)).length ≤ 2 *
      (wordBytes 32 (env.keccak256 (String.ofList (hexEncode (wordBytes 20 a))))).length := by
    rw [hhex.2.1, length_wordBytes]
    omega
  obtain ⟨digits, hdigits, hvals⟩ :=
    mapM_checksumDigit isLowerDigit_of_mem_hexEncode hfit
  refine ⟨digits, ?_, hexAddress_of_digits hvals hhex⟩
  unfold toChecksumAddress
  simp only [hlower]
  rw [hdigits]
  rfl

/-- A key of a batch arrives as the address it was made of. -/
theorem ethAddress_toFullString (a : Address) :
    ethAddress env eth a.toFullString = some (some a) := by
  have hfrom : Address.fromHex a.toFullString = .ok a := by
    rw [Address.fromHex_eq_ok_iff, Address.toList_toFullString]
    exact hexAddress_hexEncode a
  obtain ⟨digits, hchecksum, hhex⟩ : ∃ digits, toChecksumAddress env (wordBytes 20 a) =
      .ok (String.ofList ('0' :: 'x' :: digits)) ∧ HexAddress digits a := toChecksumAddress_eq_ok a
  have hparse : parseChecksumAddress env eth a = .ok a := by
    unfold parseChecksumAddress
    rw [hchecksum, ok_bind, eth.parse_hex digits a hhex]
    rfl
  unfold ethAddress
  rw [hfrom]
  change okOrPanic (parseChecksumAddress env eth a) = _
  rw [hparse]
  rfl

/-- A settlement of the keys of addresses is one of these addresses. -/
theorem settleBatch_eq_some (order : SetOrder) {as : List Address} (has : as.Nodup) {msg : Settle}
    (hmsg : msg.accounts = (as.map Address.toFullString).toFinset) :
    ∃ call, settleBatch env eth order msg = some call ∧ call.accounts.Perm as := by
  have hperm : (order.iter msg.accounts).Perm (as.map Address.toFullString) := by
    refine List.perm_of_nodup_nodup_toFinset_eq (order.nodup _) ?_ ?_
    · exact has.map Address.toFullString_injective
    · rw [order.toFinset, hmsg]
  obtain ⟨as', hiter, has'⟩ : Relation.Comp (· = List.map Address.toFullString ·) List.Perm
      (order.iter msg.accounts) as := by
    rw [List.eq_map_comp_perm]
    exact hperm
  have hmapM : ((order.iter msg.accounts).mapM (ethAddress env eth)) = some (as'.map some) := by
    rw [hiter]
    clear hiter has'
    induction as' with
    | nil => rfl
    | cons a as' ih =>
      rw [List.map_cons, List.mapM_cons, ethAddress_toFullString, ih]
      rfl
  have hall : (as'.map some).reduceOption = as' := by
    change (as'.map some).filterMap id = as'
    simp
  refine ⟨_, by rw [settleBatch, hmapM]; rfl, ?_⟩
  rwa [hall]

end EoClient

/-! ## The batches of a run -/

/-- The accounts of a batch are under the texts of their addresses. -/
def Batch.Keyed (b : Batch) : Prop := TextKeyed b.accounts

/-- Every batch, in the queue or sent, has its accounts under their addresses. -/
structure Settlement.Keyed (s : Settlement) : Prop where
  queue : ∀ batch ∈ s.queue.batches, batch.Keyed
  cache : ∀ requestId batch, s.queue.cache.lookup requestId = some batch → batch.Keyed

theorem Batch.keyed_new : Batch.new.Keyed := fun _ _ h => nomatch h

theorem Batch.Keyed.insertAccount {checkSize : Batch → Option ℕ} {account : Account} {b b' : Batch}
    (h : b.insertAccount checkSize account = .ok b') (hb : b.Keyed) : b'.Keyed := by
  obtain ⟨-, rfl⟩ := insertAccount_eq_ok_iff.1 h
  exact TextKeyed.insert hb rfl

theorem Batch.Keyed.insertTransaction {env : Env} {checkSize : Batch → Option ℕ}
    {transaction : Transaction} {b b' : Batch}
    (h : b.insertTransaction env checkSize transaction = .ok b') (hb : b.Keyed) : b'.Keyed := by
  unfold Keyed
  rw [insertTransaction_accounts h]
  exact hb

/-- The addresses of the accounts, whose texts are the keys. -/
theorem Batch.Keyed.keys_eq {b : Batch} (hb : b.Keyed) :
    b.accounts.keys = (b.accounts.entries.map fun e => e.2.address).map Address.toFullString := by
  rw [List.map_map]
  refine List.map_congr_left fun e he => ?_
  exact (hb e.1 e.2 (AList.mem_lookup_iff.2 he)).symm

theorem Batch.Keyed.nodup_addresses {b : Batch} (hb : b.Keyed) :
    (b.accounts.entries.map fun e => e.2.address).Nodup := by
  have hkeys := b.accounts.keys_nodup
  rw [hb.keys_eq] at hkeys
  exact hkeys.of_map _

/-- The batch was the parent at a request of the run that was answered with the request id. -/
def Settlement.SentWith (env : Env) (encodeBatch : Batch → Option String) (start : Settlement)
    (ops : List BatchOp) (requestId : String) (batch : Batch) : Prop :=
  ∃ pre world post t, ops = pre ++ .nextBatch world :: post ∧
    start.run env encodeBatch pre = some t ∧ t.queue.parent = batch ∧
    (t.queue.handleNextBatchRequest env.order encodeBatch world).answered = some requestId

section Run

variable {env : Env} {encodeBatch : Batch → Option String} {s s' : Settlement}

theorem Settlement.Keyed.step {op : BatchOp} (hs : s.Keyed)
    (h : s.step env encodeBatch op = some s') : s'.Keyed := by
  have hcache : ∀ requestId batch, s'.queue.cache.lookup requestId = some batch → batch.Keyed := by
    intro requestId batch hlook
    rcases cache_step h with hcache | ⟨id, -, hcache⟩
    · rw [hcache] at hlook
      exact hs.cache requestId batch hlook
    · rw [hcache] at hlook
      rcases HashMap.lookup_insert_cases hlook with rfl | hlook
      · exact hs.queue _ List.mem_cons_self
      · exact hs.cache requestId batch hlook
  refine ⟨?_, hcache⟩
  cases op with
  | addTransaction transaction =>
    obtain ⟨b, hb, rfl⟩ := Option.map_eq_some_iff.1 h
    exact forall_firstFit (fun _ _ => Batch.Keyed.insertTransaction)
      (Batcher.firstFit_of_addTransaction hb) hs.queue
  | addAccount account =>
    obtain ⟨b, hb, rfl⟩ := Option.map_eq_some_iff.1 h
    exact forall_firstFit (fun _ _ => Batch.Keyed.insertAccount)
      (Batcher.firstFit_of_addAccount hb) hs.queue
  | nextBatch world =>
    cases h
    change ∀ batch ∈ (s.queue.handleNextBatchRequest env.order encodeBatch world).queue.batches,
      batch.Keyed
    rcases s.queue.handleNextBatchRequest_cases env.order encodeBatch world with
      ⟨-, hr⟩ | ⟨-, -, hr⟩ | ⟨requestId, -, hr⟩
    · rw [hr]
      exact hs.queue
    · rw [hr]
      exact hs.queue
    · intro batch hbatch
      rcases hr.mem_batches.1 hbatch with hchild | ⟨-, rfl⟩
      · exact hs.queue batch (List.mem_cons_of_mem _ hchild)
      · exact Batch.keyed_new

theorem Settlement.Keyed.run {ops : List BatchOp} (hs : s.Keyed)
    (h : s.run env encodeBatch ops = some s') : s'.Keyed :=
  run_keeps (fun _ _ _ _ ht hstep => ht.step hstep) hs h

/-- A batch of the cache was sent with its request id. -/
theorem Settlement.sentWith_of_lookup {start : Settlement} (hstart : start.queue.cache = ∅)
    {requestId : String} {batch : Batch} {ops : List BatchOp}
    (h : start.run env encodeBatch ops = some s)
    (hlook : s.queue.cache.lookup requestId = some batch) :
    SentWith env encodeBatch start ops requestId batch := by
  induction ops using List.reverseRecOn generalizing s with
  | nil =>
    cases h
    rw [hstart] at hlook
    exact nomatch hlook
  | append_singleton ops op ih =>
    rw [run_append] at h
    obtain ⟨t, ht, hop⟩ := Option.bind_eq_some_iff.1 h
    obtain ⟨s', hstep, hend⟩ := Option.bind_eq_some_iff.1 hop
    cases hend
    have hearlier : t.queue.cache.lookup requestId = some batch →
        SentWith env encodeBatch start (ops ++ [op]) requestId batch := by
      intro hlook
      obtain ⟨pre, world, post, t', rfl, hrest⟩ := ih ht hlook
      exact ⟨pre, world, post ++ [op], t', by simp, hrest⟩
    rcases cache_step_answered hstep with hcache | ⟨world, id, rfl, -, hid, hcache⟩
    · rw [hcache] at hlook
      exact hearlier hlook
    · rw [hcache] at hlook
      by_cases hne : requestId = id
      · subst hne
        rw [AList.lookup_insert] at hlook
        exact ⟨ops, world, [], t, rfl, ht, Option.some.inj hlook, hid⟩
      · rw [AList.lookup_insert_ne hne] at hlook
        exact hearlier hlook

/-- A settlement message has the keys of the batch that the cache has under the request id. -/
theorem BatchQueue.handleBlobVerificationProof_eq {q : BatchQueue} {eoClient : Bool}
    {decode : String → Except String (List UInt8)} {requestId : String}
    {proof : BlobVerificationProof} {msg : Settle}
    (h : q.handleBlobVerificationProof eoClient decode requestId proof = some (.ok (some msg))) :
    ∃ batch, q.cache.lookup requestId = some batch ∧
      msg.accounts = batch.accounts.keys.toFinset := by
  unfold handleBlobVerificationProof at h
  split at h
  · split at h
    · cases h
    · rename_i batch hbatch
      split at h
      · cases h
      · split at h
        · cases h
          exact ⟨batch, hbatch, rfl⟩
        · cases h
  · cases h

end Run

/-- In every run from an empty batcher, a proof that is settled settles a batch that was sent
with its request id, and the last one if the id is not given again. `settleBlobIndex` gets the
address of each account of that batch once, and no other. -/
theorem settlement_covers_batch (env : Env) (encodeBatch : Batch → Option String)
    (eth : EthereumParser) (order : SetOrder) {decode : String → Except String (List UInt8)}
    {ops : List BatchOp} {s : Settlement} {requestId : String} {proof : BlobVerificationProof}
    {msg : Settle} (hrun : (Settlement.start Batch.new []).run env encodeBatch ops = some s)
    (hproof : s.queue.handleBlobVerificationProof true decode requestId proof =
      some (.ok (some msg))) :
    ∃ batch, Settlement.SentWith env encodeBatch (.start Batch.new []) ops requestId batch ∧
      (∀ pre world post t, ops = pre ++ .nextBatch world :: post →
        (Settlement.start Batch.new []).run env encodeBatch pre = some t →
        (t.queue.handleNextBatchRequest env.order encodeBatch world).answered = some requestId →
        (∀ op ∈ post, op.requestId ≠ some requestId) → t.queue.parent = batch) ∧
      ∃ call, EoClient.settleBatch env eth order msg = some call ∧ call.accounts.Nodup ∧
        call.accounts.Perm (batch.accounts.entries.map fun e => e.2.address) := by
  obtain ⟨batch, hbatch, hmsg⟩ := BatchQueue.handleBlobVerificationProof_eq hproof
  have hstart : (Settlement.start Batch.new []).Keyed := by
    refine ⟨fun b hb => ?_, fun id b hb => nomatch hb⟩
    rw [List.mem_singleton.1 hb]
    exact Batch.keyed_new
  have hkeyed : batch.Keyed := (hstart.run hrun).cache requestId batch hbatch
  refine ⟨batch, Settlement.sentWith_of_lookup rfl hrun hbatch, ?_, ?_⟩
  · rintro pre world post t rfl ht hanswer hpost
    rw [Settlement.run_append, ht] at hrun
    have hlook := Settlement.lookup_cache_run hpost (Settlement.lookup_cache_request hanswer) hrun
    exact Option.some.inj (hlook.symm.trans hbatch)
  · rw [hkeyed.keys_eq] at hmsg
    obtain ⟨call, hcall, hperm⟩ := EoClient.settleBatch_eq_some order hkeyed.nodup_addresses hmsg
    exact ⟨call, hcall, hperm.nodup_iff.2 hkeyed.nodup_addresses, hperm⟩

/-- A reader of addresses that is as strict as `from_hex`. -/
def EthereumParser.hex : EthereumParser where
  parse s := (Address.fromHex s).toOption
  parse_hex digits a h := by
    have hfrom : Address.fromHex (String.ofList ('0' :: 'x' :: digits)) = .ok a := by
      rw [Address.fromHex_eq_ok_iff, String.toList_ofList]
      exact h
    rw [hfrom]
    rfl

/-- The elements in the order of their texts. -/
def SetOrder.sorted : SetOrder where
  iter s := s.sort (· ≤ ·)
  nodup s := s.sort_nodup _
  toFinset s := s.sort_toFinset _

/-- The small environment, with the Keccak hashes of two addresses. -/
def Env.hashing : Env where
  __ := Env.small
  keccak256 text :=
    if text = "5aaeb6053f3e94c9b9a09f33669435e7ef1beaed" then
      0xd385650ce8fdc6db7ee3a091d34814dbc4ce18219ffae52182efff4034d707e5#256
    else if text = "d1220a0cf47c7b9be7a2e6ba89f429762e7b9adb" then
      0xc8bc5d10249238b92acb838a86d883bb9253c4b02ceb1b3f927d0c3ec09eef6c#256
    else Env.small.keccak256 text

example : EoClient.toChecksumAddress (ε := EoClient.Web3Error) Env.hashing
    (wordBytes 20 0x5aaeb6053f3e94c9b9a09f33669435e7ef1beaed#160) =
      .ok "0x5aAeb6053F3E94C9b9A09f33669435E7Ef1BeAed" := by rfl

/-- The first of two batches is settled, with an owner and her program. -/
theorem settlement_covers_batch_of_two_accounts :
    ∃ msg call, EoClient.settleBatch Env.hashing .hex .sorted msg = some call ∧
      call.accounts.Perm [0xd1220a0cf47c7b9be7a2e6ba89f429762e7b9adb#160,
        0x5aaeb6053f3e94c9b9a09f33669435e7ef1beaed#160] := by
  let owner := Account.build .user 0x5aaeb6053f3e94c9b9a09f33669435e7ef1beaed#160
  let program := Account.build (.program 0xd1220a0cf47c7b9be7a2e6ba89f429762e7b9adb#160)
    0x5aaeb6053f3e94c9b9a09f33669435e7ef1beaed#160
  obtain ⟨s, hrun⟩ : ∃ s, (Settlement.start Batch.new []).run Env.hashing (fun _ => some "")
      [.addAccount owner, .addAccount program, .nextBatch (.answering "7"),
        .addAccount (.build .user 5#160), .nextBatch (.answering "8")] = some s := ⟨_, rfl⟩
  obtain ⟨msg, hproof⟩ : ∃ msg, s.queue.handleBlobVerificationProof true
      (fun _ => .ok (List.replicate 32 0)) "7" ⟨"", 0⟩ = some (.ok (some msg)) := by
    cases hrun
    exact ⟨_, rfl⟩
  obtain ⟨batch, -, hlast, call, hcall, -, hperm⟩ :=
    settlement_covers_batch Env.hashing (fun _ => some "") .hex .sorted hrun hproof
  have hbatch := hlast [.addAccount owner, .addAccount program] (.answering "7")
    [.addAccount (.build .user 5#160), .nextBatch (.answering "8")] _ rfl rfl rfl (by decide)
  have haddresses : batch.accounts.entries.map (fun e => e.2.address) =
      [0xd1220a0cf47c7b9be7a2e6ba89f429762e7b9adb#160,
        0x5aaeb6053f3e94c9b9a09f33669435e7ef1beaed#160] := by
    rw [← hbatch]
    decide +kernel
  rw [haddresses] at hperm
  exact ⟨msg, call, hcall, hperm⟩

end Lasr
