import Lasr.Supply

/-!
# What an instruction does

While a call runs, the accounts it sees are its buffer over the account cache (`seen`).
An instruction reads them, and every account it changes goes back into the buffer under
its own address, which is a `put` on what the call sees (`seen_addAccountToBatchBuffer`).
So each batcher function has one lemma : run alone, it leaves the cache, and the account
it returns credits or debits what the call saw at the resolved address.

A transfer computes both of its sides from the same buffer. When they are one account
the credited copy replaces the debited one, and the supply grows by the amount
(`transfer_supply_iff`).
-/

set_option linter.unusedSectionVars false

namespace Lasr

/-! ## What a call sees -/

/-- The accounts a call sees : its buffer over the account cache. -/
def seen (storage cache : AccountStore) (batchBuffer : BatchBuffer) : AccountMap := fun a =>
  (batchBuffer.lookup a).or (accounts storage cache a)

/-- Every buffered account is kept under its own address. -/
def BatchBuffer.Keyed (batchBuffer : BatchBuffer) : Prop :=
  ∀ a account, batchBuffer.lookup a = some account → account.address = a

theorem BatchBuffer.keyed_empty : BatchBuffer.Keyed ∅ := by
  intro a account h
  simp at h

theorem BatchBuffer.Keyed.insert {batchBuffer : BatchBuffer} (hk : BatchBuffer.Keyed batchBuffer)
    {a : Address} {account : Account} (ha : account.address = a) :
    BatchBuffer.Keyed (batchBuffer.insert a account) := by
  intro b acct h
  by_cases hb : b = a
  · subst hb
    rw [AList.lookup_insert] at h
    cases h
    exact ha
  · rw [AList.lookup_insert_ne hb] at h
    exact hk b acct h

theorem BatchBuffer.Keyed.addAccountToBatchBuffer {batchBuffer : BatchBuffer}
    (hk : BatchBuffer.Keyed batchBuffer) (account : Account) :
    BatchBuffer.Keyed (addAccountToBatchBuffer batchBuffer account) :=
  hk.insert rfl

section Seen

variable {storage cache cache' : AccountStore} {batchBuffer : BatchBuffer} {tx : Transaction}

theorem seen_empty : seen storage cache ∅ = accounts storage cache := by
  funext a
  simp [seen]

theorem seen_insert (a : Address) (account : Account) :
    seen storage cache (batchBuffer.insert a account) =
      Function.update (seen storage cache batchBuffer) a (some account) := by
  funext b
  by_cases hb : b = a
  · subst hb
    simp [seen]
  · simp [seen, AList.lookup_insert_ne hb, hb]

/-- Buffering an account puts it. -/
theorem seen_addAccountToBatchBuffer (account : Account) :
    seen storage cache (addAccountToBatchBuffer batchBuffer account) =
      (seen storage cache batchBuffer).put account :=
  seen_insert _ _

theorem BatchBuffer.Keyed.address_of_seen (hk : BatchBuffer.Keyed batchBuffer) {a : Address}
    {account : Account} (h : seen storage cache batchBuffer a = some account) :
    account.address = a := by
  unfold seen at h
  cases hb : batchBuffer.lookup a with
  | some acct =>
    rw [hb] at h
    cases h
    exact hk a account hb
  | none =>
    rw [hb] at h
    exact address_of_accounts h

@[simp] theorem runAlone_fetchAccount_bind {β : Type} (a : Address)
    (f : Option Account → BatcherM β) :
    runAlone storage (fetchAccount a batchBuffer >>= f) cache =
      runAlone storage (f (seen storage cache batchBuffer a)) cache := by
  unfold fetchAccount seen
  cases batchBuffer.lookup a <;> rfl

theorem orCustom_ok {α : Type} {x : AccountResult α} {a : α}
    (h : runAlone storage (orCustom x) cache = (.ok a, cache')) : x = .ok a ∧ cache' = cache := by
  unfold orCustom at h
  rw [runAlone_ofExcept] at h
  cases x with
  | error e => simp [Except.mapError] at h
  | ok b =>
    cases h
    exact ⟨rfl, rfl⟩

theorem orFailed_ok {α : Type} {x : AccountResult α} {a : α}
    (h : runAlone storage (orFailed tx x) cache = (.ok a, cache')) :
    x = .ok a ∧ cache' = cache := by
  unfold orFailed at h
  rw [runAlone_ofExcept] at h
  cases x with
  | error e => simp [Except.mapError] at h
  | ok b =>
    cases h
    exact ⟨rfl, rfl⟩

theorem asFailed_ok {α : Type} {p : BatcherM α} {a : α}
    (h : runAlone storage (asFailed tx p) cache = (.ok a, cache')) :
    runAlone storage p cache = (.ok a, cache') :=
  Prog.run_mapErr_ok h

theorem accountOf_ok {x : AccountResult (Account × Token)} {account : Account}
    (h : accountOf x = .ok account) : ∃ token, x = .ok (account, token) := by
  cases x with
  | error e => cases h
  | ok r =>
    cases h
    exact ⟨r.2, rfl⟩

end Seen

/-! ## Transfers and burns -/

section Transfer

variable {storage cache cache' : AccountStore} {batchBuffer : BatchBuffer} {tx : Transaction}
  {account account' : Account}

theorem getTransferFromAccount_ok {ref : AddressOrNamespace}
    (h : runAlone storage (getTransferFromAccount tx ref batchBuffer) cache =
      (.ok account, cache')) :
    cache' = cache ∧
      ∃ x, ref.resolve tx = some x ∧ seen storage cache batchBuffer x = some account := by
  unfold getTransferFromAccount at h
  split at h
  · next x hx =>
    rw [runAlone_fetchAccount_bind] at h
    split at h
    · next a ha =>
      cases h
      exact ⟨rfl, x, hx, ha⟩
    · cases h
  · cases h

/-- The receiving side may be an account that does not exist yet. -/
theorem runAlone_getTransferToAccount_bind {β : Type} {ref : AddressOrNamespace}
    {f : Option Account → BatcherM β} :
    runAlone storage (getTransferToAccount tx ref batchBuffer >>= f) cache =
      runAlone storage
        (f ((ref.resolve tx).bind fun x => seen storage cache batchBuffer x)) cache := by
  unfold getTransferToAccount
  cases hx : ref.resolve tx with
  | none => rfl
  | some x => simp

theorem applyTransferFrom_ok {transfer : TransferInstruction}
    (hk : BatchBuffer.Keyed batchBuffer)
    (h : runAlone storage (applyTransferFrom tx transfer batchBuffer) cache =
      (.ok account, cache')) :
    cache' = cache ∧ ∃ x, transfer.from.resolve tx = some x ∧
      Debits (seen storage cache batchBuffer) x account transfer.token
        (amountOf transfer.amount) := by
  obtain ⟨a, c, ha, h'⟩ := runAlone_bind_ok h
  obtain ⟨rfl, x, hx, hseen⟩ := getTransferFromAccount_ok ha
  obtain ⟨hok, rfl⟩ := orCustom_ok h'
  obtain ⟨token, hok⟩ := accountOf_ok hok
  obtain ⟨hh, hd⟩ := Account.applyTransferFromInstruction_ok hok
  exact ⟨rfl, x, hx, (Stands.of_some hseen (hk.address_of_seen hseen)).debits hh hd⟩

theorem creditTransfer_ok {transfer : TransferInstruction} {v : AccountMap} {x : Address}
    (hs : Stands v x account)
    (h : runAlone storage (creditTransfer transfer account) cache = (.ok account', cache')) :
    cache' = cache ∧ Credits v x account' transfer.token (amountOf transfer.amount) := by
  unfold creditTransfer at h
  rw [runAlone_getAccount_bind] at h
  split at h
  · obtain ⟨hok, rfl⟩ := orCustom_ok h
    obtain ⟨token, hok⟩ := accountOf_ok hok
    obtain ⟨hh, hc⟩ := Account.applyTransferToInstruction_ok hok
    exact ⟨rfl, hs.credits hh hc⟩
  · split_ifs at h with heth
    · obtain ⟨hok, rfl⟩ := orCustom_ok h
      obtain ⟨token, hok⟩ := accountOf_ok hok
      obtain ⟨hh, hc⟩ := Account.applyTransferToInstruction_ok hok
      exact ⟨rfl, hs.credits hh hc⟩
    · cases h

theorem applyTransferTo_ok {transfer : TransferInstruction}
    (hk : BatchBuffer.Keyed batchBuffer)
    (h : runAlone storage (applyTransferTo tx transfer batchBuffer) cache =
      (.ok account, cache')) :
    cache' = cache ∧ ∃ x, transfer.to.resolve tx = some x ∧
      Credits (seen storage cache batchBuffer) x account transfer.token
        (amountOf transfer.amount) := by
  unfold applyTransferTo at h
  rw [runAlone_getTransferToAccount_bind] at h
  split at h
  · next a ha =>
    obtain ⟨x, hx, hseen⟩ := Option.bind_eq_some_iff.1 ha
    obtain ⟨rfl, hc⟩ := creditTransfer_ok (Stands.of_some hseen (hk.address_of_seen hseen)) h
    exact ⟨rfl, x, hx, hc⟩
  · next hnone =>
    split at h
    · next x hto =>
      have hseen : seen storage cache batchBuffer x = none := by
        simpa [hto, AddressOrNamespace.resolve] using hnone
      obtain ⟨rfl, hc⟩ := creditTransfer_ok (Stands.of_none hseen rfl) h
      exact ⟨rfl, x, by rw [hto]; rfl, hc⟩
    · cases h

/-- A transfer debits what it saw at one address and credits what it saw at another,
which may be the same one. -/
theorem applyTransferInstruction_ok {transfer : TransferInstruction} {r : Account × Account}
    (hk : BatchBuffer.Keyed batchBuffer)
    (h : runAlone storage (applyTransferInstruction tx transfer batchBuffer) cache =
      (.ok r, cache')) :
    cache' = cache ∧ ∃ x y, transfer.from.resolve tx = some x ∧ transfer.to.resolve tx = some y ∧
      Debits (seen storage cache batchBuffer) x r.1 transfer.token (amountOf transfer.amount) ∧
      Credits (seen storage cache batchBuffer) y r.2 transfer.token
        (amountOf transfer.amount) := by
  obtain ⟨a, c, ha, h'⟩ := runAlone_bind_ok h
  obtain ⟨b, c', hb, hr⟩ := runAlone_bind_ok h'
  obtain ⟨rfl, x, hx, hd⟩ := applyTransferFrom_ok hk ha
  obtain ⟨rfl, y, hy, hc⟩ := applyTransferTo_ok hk hb
  cases hr
  exact ⟨rfl, x, y, hx, hy, hd, hc⟩

theorem applyBurnInstruction_ok {burn : BurnInstruction} (hk : BatchBuffer.Keyed batchBuffer)
    (h : runAlone storage (applyBurnInstruction tx burn batchBuffer) cache =
      (.ok account, cache')) :
    cache' = cache ∧ ∃ x, Debits (seen storage cache batchBuffer) x account burn.token
      (amountOf burn.amount) := by
  obtain ⟨a, c, ha, h'⟩ := runAlone_bind_ok h
  obtain ⟨rfl, x, hx, hseen⟩ := getTransferFromAccount_ok ha
  obtain ⟨hok, rfl⟩ := orCustom_ok h'
  obtain ⟨token, hok⟩ := accountOf_ok hok
  obtain ⟨hh, hd⟩ := Account.applyBurnInstruction_ok hok
  exact ⟨rfl, x, (Stands.of_some hseen (hk.address_of_seen hseen)).debits hh hd⟩

/-- The step of a call for a transfer puts the debited copy, then the credited one. -/
theorem applyInstruction_transfer_ok {transfer : TransferInstruction} {batchBuffer' : BatchBuffer}
    (hk : BatchBuffer.Keyed batchBuffer)
    (h : runAlone storage (applyInstruction tx (.transfer transfer) batchBuffer) cache =
      (.ok batchBuffer', cache')) :
    cache' = cache ∧ BatchBuffer.Keyed batchBuffer' ∧
      ∃ x y a b, transfer.from.resolve tx = some x ∧ transfer.to.resolve tx = some y ∧
        Debits (seen storage cache batchBuffer) x a transfer.token (amountOf transfer.amount) ∧
        Credits (seen storage cache batchBuffer) y b transfer.token (amountOf transfer.amount) ∧
        seen storage cache batchBuffer' = ((seen storage cache batchBuffer).put a).put b := by
  obtain ⟨r, c, hr, h'⟩ := runAlone_bind_ok h
  obtain ⟨rfl, x, y, hx, hy, hd, hc⟩ := applyTransferInstruction_ok hk (asFailed_ok hr)
  cases h'
  refine ⟨rfl, (hk.addAccountToBatchBuffer r.1).addAccountToBatchBuffer r.2, x, y, r.1, r.2, hx,
    hy, hd, hc, ?_⟩
  rw [seen_addAccountToBatchBuffer, seen_addAccountToBatchBuffer]

/-- A transfer moves every balance by what its two sides say. -/
theorem Debits.put_credits {v : AccountMap} {x y tok : Address} {a b : Account} {amt : ℕ}
    (hd : Debits v x a tok amt) (hc : Credits v y b tok amt) (hne : x ≠ y) (k : Address) :
    ((v.put a).put b).supply k = v.supply k := by
  have hc' : Credits (v.put a) y b tok amt := hc.put_of_ne (by rw [hd.address]; exact hne.symm)
  have hb := hc'.supply k
  have ha := hd.supply k
  omega

theorem Debits.put_credits_self {v : AccountMap} {x tok : Address} {a b : Account} {amt : ℕ}
    (hd : Debits v x a tok amt) (hc : Credits v x b tok amt) (k : Address) :
    ((v.put a).put b).supply k = v.supply k + if k = tok then amt else 0 := by
  rw [v.put_put (hd.address.trans hc.address.symm), hc.supply k]

/-- Balances of other tokens stay, on both sides. -/
theorem Debits.put_credits_balanceAt {v : AccountMap} {x y tok : Address} {a b : Account}
    {amt : ℕ} (hd : Debits v x a tok amt) (hc : Credits v y b tok amt) (p : Address)
    {k : Address} (hk : k ≠ tok) : ((v.put a).put b).balanceAt p k = v.balanceAt p k := by
  rw [AccountMap.balanceAt_put, hc.address]
  have ha := hd.balanceAt p k
  have hb := hc.balance k
  simp only [hk, and_false, if_false, add_zero] at ha hb
  split_ifs with hp
  · rw [hb, hp]
  · exact ha

/-- A transfer between one account and itself mints its amount. -/
theorem transfer_supply_self {transfer : TransferInstruction} {batchBuffer' : BatchBuffer}
    (hk : BatchBuffer.Keyed batchBuffer)
    (h : runAlone storage (applyInstruction tx (.transfer transfer) batchBuffer) cache =
      (.ok batchBuffer', cache'))
    (hself : transfer.from.resolve tx = transfer.to.resolve tx) :
    (seen storage cache' batchBuffer').supply transfer.token =
      (seen storage cache batchBuffer).supply transfer.token + amountOf transfer.amount := by
  obtain ⟨rfl, -, x, y, a, b, hx, hy, hd, hc, hseen⟩ := applyInstruction_transfer_ok hk h
  rw [hx, hy, Option.some.injEq] at hself
  subst hself
  rw [hseen, hd.put_credits_self hc, if_pos rfl]

/-- A transfer keeps the supply of its token and every balance of the others exactly
when its two sides resolve to different accounts or it moves nothing. -/
theorem transfer_supply_iff {transfer : TransferInstruction} {batchBuffer' : BatchBuffer}
    (hk : BatchBuffer.Keyed batchBuffer)
    (h : runAlone storage (applyInstruction tx (.transfer transfer) batchBuffer) cache =
      (.ok batchBuffer', cache')) :
    ((seen storage cache' batchBuffer').supply transfer.token =
        (seen storage cache batchBuffer).supply transfer.token ∧
      ∀ a k, k ≠ transfer.token → (seen storage cache' batchBuffer').balanceAt a k =
        (seen storage cache batchBuffer).balanceAt a k) ↔
      (transfer.from.resolve tx ≠ transfer.to.resolve tx ∨ amountOf transfer.amount = 0) := by
  obtain ⟨rfl, -, x, y, a, b, hx, hy, hd, hc, hseen⟩ := applyInstruction_transfer_ok hk h
  rw [hseen, hx, hy, ne_eq, Option.some.injEq]
  constructor
  · rintro ⟨hsupply, -⟩
    by_cases hxy : x = y
    · subst hxy
      rw [hd.put_credits_self hc, if_pos rfl] at hsupply
      exact Or.inr (by omega)
    · exact Or.inl hxy
  · intro hcond
    refine ⟨?_, fun p k hkt => hd.put_credits_balanceAt hc p hkt⟩
    by_cases hxy : x = y
    · subst hxy
      have hzero : amountOf transfer.amount = 0 := hcond.resolve_left (fun hn => hn rfl)
      rw [hd.put_credits_self hc, hzero]
      simp
    · exact hd.put_credits hc hxy transfer.token

end Transfer

/-- A call of the program at `to` by `from`, signed. -/
def callOf («from» «to» : Address) (nonce : U256) : Transaction where
  transactionType := .call nonce
  «from» := «from»
  «to» := «to»
  programId := «to»
  op := ""
  inputs := ""
  value := 0#256
  nonce := nonce
  v := 27
  r := 0#256
  s := 0#256

/-- A transfer of ETH. -/
def ethTransfer («from» «to» : AddressOrNamespace) (amount : U256) : TransferInstruction where
  token := ETH_ADDR
  «from» := «from»
  «to» := «to»
  amount := some amount
  ids := []

/-- One user with 10 ETH. -/
def tenEth : AccountStore :=
  storeOf [Account.holding 7#160 ETH_ADDR 10#256]

/-- A transfer of 4 ETH inside a call, run on this state. -/
def ethTransferRun («from» «to» : Address) :
    Except (Fault BatcherError) BatchBuffer × AccountStore :=
  runAlone (fun _ => none) (applyInstruction (callOf 9#160 9#160 1#256)
    (.transfer (ethTransfer (.address «from») (.address «to») 4#256)) ∅) tenEth

theorem transfer_supply_iff_seven_to_eight :
    ∃ batchBuffer, ethTransferRun 7#160 8#160 = (.ok batchBuffer, tenEth) ∧
      (seen (fun _ => none) tenEth batchBuffer).supply ETH_ADDR =
        (seen (fun _ => none) tenEth ∅).supply ETH_ADDR := by
  obtain ⟨batchBuffer, hrun⟩ :
      ∃ batchBuffer, ethTransferRun 7#160 8#160 = (.ok batchBuffer, tenEth) := ⟨_, rfl⟩
  have hiff := transfer_supply_iff BatchBuffer.keyed_empty hrun
  exact ⟨batchBuffer, hrun, (hiff.2 (Or.inl (by decide))).1⟩

/-- An account that transfers 4 to itself ends up with 14 out of 10. -/
theorem transfer_to_self_mints :
    ∃ batchBuffer, ethTransferRun 7#160 7#160 = (.ok batchBuffer, tenEth) ∧
      (seen (fun _ => none) tenEth batchBuffer).supply ETH_ADDR ≠
        (seen (fun _ => none) tenEth ∅).supply ETH_ADDR := by
  obtain ⟨batchBuffer, hrun⟩ :
      ∃ batchBuffer, ethTransferRun 7#160 7#160 = (.ok batchBuffer, tenEth) := ⟨_, rfl⟩
  have hmint := transfer_supply_self BatchBuffer.keyed_empty hrun rfl
  refine ⟨batchBuffer, hrun, fun heq => ?_⟩
  have hzero := Nat.add_eq_left.1 (hmint.symm.trans heq)
  exact absurd hzero (by decide)

end Lasr
