import Lasr.Instructions

/-!
# Sends and bridge-ins

`add_transaction_to_account` keeps the accounts it changes in a map keyed by the text of
their addresses. Distinct addresses have distinct texts (`toFullString_injective`), so the
two sides of a send do not overwrite each other, and a send that returns has put the
sender's account and the receiver's into the cache (`addTransactionToAccount_ok`).

`apply_send_transaction` is one body for the debit and the credit and tells them apart by
the owner of the token. Where every token is owned by its account (`TokensOwned`) it picks
the right one, and a send moves its value from the sender to the receiver
(`send_conservation`).
-/

set_option linter.unusedSectionVars false

namespace Lasr

/-! ## Addresses as text -/

theorem hexDigit_injective : ∀ m < 16, ∀ n < 16, hexDigit m = hexDigit n → m = n := by
  decide

/-- Chunks of equal lengths can be read off their concatenation. -/
theorem eq_of_flatMap_eq {α β : Type} {f g : α → List β} (hlen : ∀ x, (f x).length = (g x).length) :
    ∀ {l : List α}, l.flatMap f = l.flatMap g → ∀ x ∈ l, f x = g x
  | y :: l, h, x, hx => by
    rw [List.flatMap_cons, List.flatMap_cons] at h
    obtain ⟨hy, hl⟩ := List.append_inj h (hlen y)
    rcases List.mem_cons.1 hx with rfl | hx
    · exact hy
    · exact eq_of_flatMap_eq hlen hl x hx

theorem Address.byte_ext {a b : Address} (h : ∀ i < 20, Address.byte a i = Address.byte b i) :
    a = b := by
  refine BitVec.eq_of_getLsbD_eq fun j hj => ?_
  have hbyte := congrArg (fun w => w.getLsbD (j % 8)) (h (19 - j / 8) (by omega))
  have hpos : 8 * (19 - (19 - j / 8)) + j % 8 = j := by omega
  simpa [Address.byte, BitVec.getLsbD_extractLsb', Nat.mod_lt, hpos] using hbyte

/-- A byte can be read off its two digits. -/
theorem Address.byte_of_hexByte {a b : Address} {i j : ℕ}
    (h : Address.hexByte a i = Address.hexByte b j) : Address.byte a i = Address.byte b j := by
  rw [Address.hexByte, Address.hexByte, List.cons.injEq, List.cons.injEq] at h
  have ha := (Address.byte a i).isLt
  have hb := (Address.byte b j).isLt
  have hhigh := hexDigit_injective _ (by omega) _ (by omega) h.1
  have hlow := hexDigit_injective _ (by omega) _ (by omega) h.2.1
  refine BitVec.eq_of_toNat_eq ?_
  omega

theorem Address.toFullString_injective : Function.Injective Address.toFullString := by
  intro a b h
  unfold Address.toFullString at h
  have hlist : (List.range 20).flatMap (Address.hexByte a) =
      (List.range 20).flatMap (Address.hexByte b) := by
    simpa only [List.cons.injEq, true_and] using String.ofList_injective h
  have hchunks := eq_of_flatMap_eq (f := Address.hexByte a) (g := Address.hexByte b)
    (fun _ => rfl) hlist
  exact Address.byte_ext fun i hi => Address.byte_of_hexByte (hchunks i (List.mem_range.2 hi))

/-! ## The body of a send -/

namespace Account

variable {a a' : Account} {tx : Transaction} {programAccount : Option Account}
  {token token' : Token}

/-- A held token goes through `TryFrom` and is put back under its program id. -/
theorem updateHeldToken_ok (h : a.updateHeldToken token tx programAccount = .ok (a', token')) :
    ∃ newToken, token.tryFrom tx = .ok newToken ∧ token'.balance = newToken.balance ∧
      a' = a.insertProgram token.programId token' := by
  obtain ⟨newToken, hnew, hr⟩ := Except.bind_eq_ok_iff.1 h
  have hpid : newToken.programId = token.programId := by rw [(Token.tryFrom_ok hnew).1]
  cases programAccount <;> (cases hr; exact ⟨newToken, hnew, rfl, by rw [← hpid]⟩)

theorem createToken_ok (h : a.createToken tx programAccount = .ok (a', token')) :
    token'.balance = tx.value ∧ a' = a.insertProgram tx.programId token' := by
  cases programAccount <;> (cases h; exact ⟨rfl, rfl⟩)

/-- A send puts at most one entry into the account it is applied to. -/
theorem applySendTransaction_inserts
    (h : a.applySendTransaction tx programAccount = .ok (a', token')) :
    a' = a ∨ ∃ k, a' = a.insertProgram k token' := by
  have hheld : ∀ t, a.updateHeldToken t tx programAccount = .ok (a', token') →
      ∃ k, a' = a.insertProgram k token' := by
    intro t ht
    obtain ⟨-, -, -, ha⟩ := updateHeldToken_ok ht
    exact ⟨_, ha⟩
  have hnew : a.createToken tx programAccount = .ok (a', token') →
      ∃ k, a' = a.insertProgram k token' :=
    fun ht => ⟨_, (createToken_ok ht).2⟩
  unfold applySendTransaction at h
  split at h
  · split at h
    · cases h
      exact Or.inr ⟨_, rfl⟩
    · exact Or.inr (hheld _ h)
  · split at h
    · split at h
      · cases h
        exact Or.inl rfl
      · cases h
    · split at h
      · exact Or.inr (hheld _ h)
      · split at h
        · exact Or.inr (hnew h)
        · split at h
          · split at h
            · exact Or.inr (hnew h)
            · cases h
          · cases h

/-- A send keeps the header of the account it is applied to. -/
theorem applySendTransaction_sameHeader
    (h : a.applySendTransaction tx programAccount = .ok (a', token')) : SameHeader a a' := by
  rcases applySendTransaction_inserts h with rfl | ⟨k, rfl⟩
  · exact .refl a'
  · exact sameHeader_insertProgram _ _ _

/-- Every token of the account is filed under its program and owned by the account. -/
def TokensOwned (a : Account) : Prop :=
  ∀ k t, a.programs k = some t → t.programId = k ∧ t.ownerId = a.address

theorem tokensOwned_build (accountType : AccountType) (owner : Address) :
    (Account.build accountType owner).TokensOwned :=
  fun _ _ h => nomatch h

theorem debited_of_held (howned : a.TokensOwned) (hheld : a.programs tx.programId = some token)
    (hfrom : tx.from = a.address) (hb : tx.transactionType.isBridgeIn = false)
    (h : a.updateHeldToken token tx programAccount = .ok (a', token')) :
    Debited a a' tx.programId tx.value.toNat := by
  obtain ⟨hpid, howner⟩ := howned _ _ hheld
  obtain ⟨newToken, hnew, hbal, rfl⟩ := updateHeldToken_ok h
  obtain ⟨-, hd | ⟨hc, -⟩⟩ := Token.tryFrom_ok hnew
  · rw [hpid]
    refine debited_insertProgram ?_
    rw [hbal, balance_of_some hheld]
    exact hd.2.2
  · rcases hc with hc | hc
    · rw [hb] at hc
      exact absurd hc.2 (by simp)
    · exact absurd (hfrom.trans howner.symm) hc.1

theorem credited_of_held (howned : a.TokensOwned) (hheld : a.programs tx.programId = some token)
    (hto : tx.from = a.address → tx.transactionType.isBridgeIn = true)
    (h : a.updateHeldToken token tx programAccount = .ok (a', token')) :
    Credited a a' tx.programId tx.value.toNat := by
  obtain ⟨hpid, howner⟩ := howned _ _ hheld
  obtain ⟨newToken, hnew, hbal, rfl⟩ := updateHeldToken_ok h
  obtain ⟨-, hd | ⟨-, hc⟩⟩ := Token.tryFrom_ok hnew
  · have hb := hto (hd.1.trans howner)
    rw [hd.2.1] at hb
    cases hb
  · rw [hpid]
    refine credited_insertProgram ?_
    rw [hbal, balance_of_some hheld]
    exact hc

theorem credited_of_new (hnone : a.programs tx.programId = none) (hbal : token.balance = tx.value) :
    Credited a (a.insertProgram tx.programId token) tx.programId tx.value.toNat := by
  refine credited_insertProgram ?_
  rw [hbal, balance_of_none hnone]
  simp

/-- On the sender's account, a user's, a send to another account is a debit. -/
theorem applySendTransaction_sender (howned : a.TokensOwned) (huser : a.accountType = .user)
    (hfrom : a.address = tx.from) (hne : tx.to ≠ tx.from)
    (hb : tx.transactionType.isBridgeIn = false)
    (h : a.applySendTransaction tx programAccount = .ok (a', token')) :
    Debited a a' tx.programId tx.value.toNat := by
  have howner : a.ownerAddress = tx.from := by simpa [address, huser] using hfrom
  unfold applySendTransaction at h
  rw [hb, if_neg (by simp), if_neg hne] at h
  split at h
  · next t ht => exact debited_of_held howned ht hfrom.symm hb h
  · rw [if_neg (by rw [howner]; exact hne), huser] at h
    cases h

/-- On the receiver's account a send credits, and fails only in a panic. -/
theorem applySendTransaction_receiver (howned : a.TokensOwned) (hto : a.address = tx.to)
    (hne : tx.to ≠ tx.from) (hb : tx.transactionType.isBridgeIn = false) :
    a.applySendTransaction tx programAccount = .error .panic ∨
      ∃ r, a.applySendTransaction tx programAccount = .ok r ∧
        Credited a r.1 tx.programId tx.value.toNat := by
  have hfrom : tx.from = a.address → tx.transactionType.isBridgeIn = true := fun h =>
    absurd (hto.symm.trans h.symm) hne
  unfold applySendTransaction
  rw [hb, if_neg (by simp), if_neg hne]
  split
  · next t ht =>
    cases hr : a.updateHeldToken t tx programAccount with
    | ok r => exact Or.inr ⟨r, rfl, credited_of_held howned ht hfrom hr⟩
    | error e =>
      -- The owner of the token is the receiver, so `TryFrom` can only overflow.
      left
      have hne' : tx.from ≠ t.ownerId := by
        rw [(howned _ _ ht).2, hto]
        exact hne.symm
      have hto' : tx.to = t.ownerId := by rw [(howned _ _ ht).2, hto]
      simp only [updateHeldToken, Token.tryFrom, if_neg hne', if_pos hto', U256.add] at hr
      split_ifs at hr
      · cases hr
      · cases hr
        rfl
  · next hnone =>
    right
    have hnew : ∃ r, a.createToken tx programAccount = .ok r ∧
        Credited a r.1 tx.programId tx.value.toNat := by
      cases hc : a.createToken tx programAccount with
      | error e => cases hc
      | ok r =>
        obtain ⟨hbal, hins⟩ := createToken_ok hc
        exact ⟨r, rfl, hins ▸ credited_of_new hnone hbal⟩
    split_ifs with hown
    · exact hnew
    · cases htype : a.accountType with
      | user => exact absurd (by simpa [address, htype] using hto.symm) hown
      | program p =>
        have hp : tx.to = p := by simpa [address, htype] using hto.symm
        simp only [if_pos hp]
        exact hnew

/-- A send to oneself changes nothing. -/
theorem applySendTransaction_self (hself : tx.to = tx.from)
    (hb : tx.transactionType.isBridgeIn = false)
    (h : a.applySendTransaction tx programAccount = .ok (a', token')) : a' = a := by
  unfold applySendTransaction at h
  rw [hb, if_neg (by simp), if_pos hself] at h
  split at h
  · cases h
    rfl
  · cases h

/-- On the account it names as sender, a bridge-in credits. -/
theorem applySendTransaction_bridgeIn (howned : a.TokensOwned)
    (hb : tx.transactionType.isBridgeIn = true)
    (h : a.applySendTransaction tx programAccount = .ok (a', token')) :
    Credited a a' tx.programId tx.value.toNat := by
  unfold applySendTransaction at h
  rw [if_pos hb] at h
  split at h
  · next hnone =>
    cases h
    exact credited_of_new hnone rfl
  · next t ht => exact credited_of_held howned ht (fun _ => hb) h

end Account

/-! ## The two sides of a send -/

section Send

variable {env : Env} {storage cache cache' : AccountStore} {tx : Transaction}

/-- The receiver's side applies the send to the account, or leaves it where the account
rejects it. -/
theorem creditReceiver_ok {account account' : Account}
    (h : runAlone storage (creditReceiver tx account) cache = (.ok account', cache')) :
    cache' = cache ∧ ∃ programAccount,
      (∃ token, account.applySendTransaction tx programAccount = .ok (account', token)) ∨
        (∃ e, account.applySendTransaction tx programAccount = .error (.err e)) ∧
          account' = account := by
  have happly : ∀ programAccount,
      runAlone storage (creditWith tx account programAccount) cache = (.ok account', cache') →
      cache' = cache ∧ ∃ programAccount,
        (∃ token, account.applySendTransaction tx programAccount = .ok (account', token)) ∨
          (∃ e, account.applySendTransaction tx programAccount = .error (.err e)) ∧
            account' = account := by
    intro programAccount hrun
    unfold creditWith at hrun
    split at hrun
    · next token heq =>
      cases hrun
      exact ⟨rfl, programAccount, Or.inl ⟨token, heq⟩⟩
    · next e heq =>
      cases hrun
      exact ⟨rfl, programAccount, Or.inr ⟨⟨e, heq⟩, rfl⟩⟩
    · cases hrun
  unfold creditReceiver at h
  rw [runAlone_getAccount_bind] at h
  split at h
  · exact happly _ h
  · split at h
    · exact happly _ h
    · split at h
      · exact happly _ h
      · cases h

theorem creditReceiver_sameHeader {account account' : Account}
    (h : runAlone storage (creditReceiver tx account) cache = (.ok account', cache')) :
    account.SameHeader account' := by
  obtain ⟨-, programAccount, ⟨token, hok⟩ | ⟨-, rfl⟩⟩ := creditReceiver_ok h
  · exact Account.applySendTransaction_sameHeader hok
  · exact .refl _

/-- The sender's side : an existing account moves its nonce and is sent from; a missing
one is built, for a bridge-in only. -/
theorem debitSender_ok {r : Account × Token}
    (h : runAlone storage (debitSender tx) cache = (.ok r, cache')) :
    cache' = cache ∧
      ((∃ account account₁, accounts storage cache tx.from = some account ∧
          account.incrementNonce = .ok account₁ ∧
          account₁.applySendTransaction tx none = .ok r) ∨
        (accounts storage cache tx.from = none ∧ tx.transactionType.isBridgeIn = true ∧
          ∃ programAccount,
            (Account.build .user tx.from).applySendTransaction tx programAccount = .ok r)) := by
  unfold debitSender at h
  rw [runAlone_getAccount_bind] at h
  split at h
  · next account hacc =>
    obtain ⟨account₁, c, hinc, h'⟩ := runAlone_bind_ok h
    obtain ⟨hinc', rfl⟩ := orFailed_ok hinc
    obtain ⟨hsend, rfl⟩ := orFailed_ok h'
    exact ⟨rfl, Or.inl ⟨account, account₁, hacc, hinc', hsend⟩⟩
  · next hnone =>
    split at h
    · cases h
    · next hb =>
      rw [runAlone_getAccount_bind] at h
      obtain ⟨hsend, rfl⟩ := orFailed_ok h
      exact ⟨rfl, Or.inr ⟨hnone, by simpa using hb, _, hsend⟩⟩

theorem debitSender_address {r : Account × Token}
    (h : runAlone storage (debitSender tx) cache = (.ok r, cache')) : r.1.address = tx.from := by
  obtain ⟨-, ⟨account, account₁, hacc, hinc, hsend⟩ | ⟨-, -, pa, hsend⟩⟩ := debitSender_ok h
  · rw [(Account.applySendTransaction_sameHeader hsend).address,
      (Account.incrementNonce_keeps hinc).1, address_of_accounts hacc]
  · exact (Account.applySendTransaction_sameHeader hsend).address

/-- The account a send credits : the receiver's, or one built for it. -/
def receiverOf (storage cache : AccountStore) (tx : Transaction) : Account :=
  (accounts storage cache tx.to).getD (Account.build .user tx.to)

theorem receiverOf_address : (receiverOf storage cache tx).address = tx.to := by
  unfold receiverOf
  cases h : accounts storage cache tx.to with
  | none => rfl
  | some account => exact address_of_accounts h

/-- What the receiver's side leaves in the buffer, over the sender's account. -/
theorem creditSide_ok {fromAccount : Account} {buffer : HashMap String Account}
    (h : runAlone storage (creditSide tx ((∅ : HashMap String Account).insert
      (Address.toFullString tx.from) fromAccount)) cache = (.ok buffer, cache')) :
    cache' = cache ∧
      ((tx.to ≠ tx.from ∧ ∃ toAccount,
          runAlone storage (creditReceiver tx (receiverOf storage cache tx)) cache =
            (.ok toAccount, cache) ∧
          buffer = ((∅ : HashMap String Account).insert
            (Address.toFullString tx.from) fromAccount).insert
              (Address.toFullString tx.to) toAccount) ∨
        (tx.to = tx.from ∧ tx.transactionType.isBridgeIn = false ∧ ∃ toAccount,
          runAlone storage (creditReceiver tx fromAccount) cache = (.ok toAccount, cache) ∧
          buffer = (∅ : HashMap String Account).insert
            (Address.toFullString tx.from) toAccount) ∨
        (tx.to = tx.from ∧ tx.transactionType.isBridgeIn = true ∧
          buffer = (∅ : HashMap String Account).insert
            (Address.toFullString tx.from) fromAccount)) := by
  unfold creditSide at h
  split at h
  · next hne =>
    rw [runAlone_getAccount_bind] at h
    split at h
    · next account hacc =>
      obtain ⟨toAccount, c, hcr, h'⟩ := runAlone_bind_ok h
      obtain ⟨rfl, -⟩ := creditReceiver_ok hcr
      cases h'
      refine ⟨rfl, Or.inl ⟨hne, toAccount, ?_, rfl⟩⟩
      simpa [receiverOf, hacc] using hcr
    · next hacc =>
      obtain ⟨toAccount, c, hcr, h'⟩ := runAlone_bind_ok h
      obtain ⟨rfl, -⟩ := creditReceiver_ok hcr
      cases h'
      refine ⟨rfl, Or.inl ⟨hne, toAccount, ?_, rfl⟩⟩
      simpa [receiverOf, hacc] using hcr
  · next hself =>
    have hself' : tx.to = tx.from := by simpa using hself
    split at h
    · next hb =>
      rw [hself', AList.lookup_insert] at h
      obtain ⟨toAccount, c, hcr, h'⟩ := runAlone_bind_ok h
      obtain ⟨rfl, -⟩ := creditReceiver_ok hcr
      cases h'
      refine ⟨rfl, Or.inr (Or.inl ⟨hself', by simpa using hb, toAccount, hcr, ?_⟩)⟩
      rw [AList.insert_insert]
    · next hb =>
      cases h
      exact ⟨rfl, Or.inr (Or.inr ⟨hself', by simpa using hb, rfl⟩)⟩

/-- Every account of the buffer is kept under the text of its address. -/
def TextKeyed (buffer : HashMap String Account) : Prop :=
  ∀ k account, buffer.lookup k = some account → Address.toFullString account.address = k

theorem TextKeyed.insert {buffer : HashMap String Account} (hb : TextKeyed buffer)
    {account : Account} {a : Address} (ha : account.address = a) :
    TextKeyed (buffer.insert (Address.toFullString a) account) := by
  intro k acct h
  by_cases hk : k = Address.toFullString a
  · subst hk
    rw [AList.lookup_insert] at h
    cases h
    rw [ha]
  · rw [AList.lookup_insert_ne hk] at h
    exact hb k acct h

/-- The buffer of a send has the accounts of both sides, each under the text of its address. -/
theorem creditSide_sides {r : Account × Token} {buffer : HashMap String Account}
    (hr : runAlone storage (debitSender tx) cache = (.ok r, cache))
    (hbuf : runAlone storage (creditSide tx ((∅ : HashMap String Account).insert
      (Address.toFullString tx.from) r.1)) cache = (.ok buffer, cache')) :
    TextKeyed buffer ∧ ∀ a, a = tx.from ∨ a = tx.to →
      ∃ account, buffer.lookup (Address.toFullString a) = some account := by
  have hempty : TextKeyed ∅ := fun k account hk => by simp at hk
  have haddr := debitSender_address hr
  obtain ⟨-, ⟨hne, toAccount, hcr, rfl⟩ | ⟨hself, -, toAccount, hcr, rfl⟩ | ⟨hself, -, rfl⟩⟩ :=
    creditSide_ok hbuf
  · have hto : toAccount.address = tx.to :=
      (creditReceiver_sameHeader hcr).address.trans receiverOf_address
    have hkey : Address.toFullString tx.from ≠ Address.toFullString tx.to :=
      fun h => hne (Address.toFullString_injective h).symm
    refine ⟨(hempty.insert haddr).insert hto, ?_⟩
    rintro a (rfl | rfl)
    · exact ⟨r.1, by rw [AList.lookup_insert_ne hkey, AList.lookup_insert]⟩
    · exact ⟨toAccount, AList.lookup_insert _⟩
  · have hto : toAccount.address = tx.from :=
      (creditReceiver_sameHeader hcr).address.trans haddr
    refine ⟨hempty.insert hto, ?_⟩
    rintro a (rfl | rfl)
    · exact ⟨toAccount, AList.lookup_insert _⟩
    · exact ⟨toAccount, by rw [hself, AList.lookup_insert]⟩
  · refine ⟨hempty.insert haddr, ?_⟩
    rintro a (rfl | rfl)
    · exact ⟨r.1, AList.lookup_insert _⟩
    · exact ⟨r.1, by rw [hself, AList.lookup_insert]⟩

/-- The accounts part of a send returns when both of its sides do. -/
theorem sendAccounts_ok {r : HashMap String Account × Token}
    (h : runAlone storage (sendAccounts tx) cache = (.ok r, cache')) :
    cache' = cache ∧ ∃ sender, runAlone storage (debitSender tx) cache = (.ok sender, cache) ∧
      runAlone storage (creditSide tx ((∅ : HashMap String Account).insert
        (Address.toFullString tx.from) sender.1)) cache = (.ok r.1, cache) := by
  obtain ⟨sender, c, hsender, h₁⟩ := runAlone_bind_ok h
  obtain ⟨rfl, -⟩ := debitSender_ok hsender
  obtain ⟨buffer, c', hbuffer, h₂⟩ := runAlone_bind_ok h₁
  obtain ⟨rfl, -⟩ := creditSide_ok hbuffer
  cases h₂
  exact ⟨rfl, sender, hsender, hbuffer⟩

/-- The accounts of a buffer over the account cache. -/
def seenByText (storage cache : AccountStore) (buffer : HashMap String Account) :
    AccountMap := fun a =>
  (buffer.lookup (Address.toFullString a)).or (accounts storage cache a)

theorem seenByText_empty : seenByText storage cache ∅ = accounts storage cache := by
  funext a
  simp [seenByText]

theorem seenByText_insert {buffer : HashMap String Account} {account : Account}
    {a : Address} (ha : account.address = a) :
    seenByText storage cache (buffer.insert (Address.toFullString a) account) =
      (seenByText storage cache buffer).put account := by
  subst ha
  funext b
  by_cases hb : b = account.address
  · subst hb
    simp [seenByText, AccountMap.put_apply]
  · have hne : Address.toFullString b ≠ Address.toFullString account.address :=
      fun h => hb (Address.toFullString_injective h)
    simp [seenByText, AccountMap.put_apply, hb, AList.lookup_insert_ne hne]

theorem accounts_flush_text (order : HashOrder) {buffer : HashMap String Account}
    (hb : TextKeyed buffer) :
    accounts storage (((order.iter buffer.entries).map Sigma.snd).foldl
      handleCacheWrite cache) = seenByText storage cache buffer := by
  funext a
  rw [accounts_foldl_handleCacheWrite]
  exact AccountMap.putAll_entries order Address.toFullString_injective hb _ a

/-- A send that returns has put the sender's account and then the receiver's, or the one
account of a transaction with itself. -/
theorem addTransactionToAccount_ok
    (h : runAlone storage (addTransactionToAccount env tx) cache = (.ok (), cache')) :
    ∃ r, runAlone storage (debitSender tx) cache = (.ok r, cache) ∧
      ((tx.to ≠ tx.from ∧ ∃ toAccount,
          runAlone storage (creditReceiver tx (receiverOf storage cache tx)) cache =
            (.ok toAccount, cache) ∧
          accounts storage cache' = ((accounts storage cache).put r.1).put toAccount) ∨
        (tx.to = tx.from ∧ tx.transactionType.isBridgeIn = false ∧ ∃ toAccount,
          runAlone storage (creditReceiver tx r.1) cache = (.ok toAccount, cache) ∧
          accounts storage cache' = (accounts storage cache).put toAccount) ∨
        (tx.to = tx.from ∧ tx.transactionType.isBridgeIn = true ∧
          accounts storage cache' = (accounts storage cache).put r.1)) := by
  rw [addTransactionToAccount_eq] at h
  obtain ⟨⟨buffer, token⟩, c, hsent, h₁⟩ := runAlone_bind_ok h
  obtain ⟨rfl, r, hr, hbuf⟩ := sendAccounts_ok hsent
  rw [runAlone_finishSend] at h₁
  cases h₁
  obtain ⟨-, hside⟩ := creditSide_ok hbuf
  have hfrom := debitSender_address hr
  refine ⟨r, hr, ?_⟩
  have hempty : TextKeyed ∅ := fun k account hk => by simp at hk
  rcases hside with ⟨hne, toAccount, hcr, rfl⟩ | ⟨hself, hb, toAccount, hcr, rfl⟩ |
    ⟨hself, hb, rfl⟩
  · have hto : toAccount.address = tx.to :=
      (creditReceiver_sameHeader hcr).address.trans receiverOf_address
    refine Or.inl ⟨hne, toAccount, hcr, ?_⟩
    rw [accounts_flush_text env.order ((hempty.insert hfrom).insert hto), seenByText_insert hto,
      seenByText_insert hfrom, seenByText_empty]
  · have hto : toAccount.address = tx.from :=
      (creditReceiver_sameHeader hcr).address.trans hfrom
    refine Or.inr (Or.inl ⟨hself, hb, toAccount, hcr, ?_⟩)
    rw [accounts_flush_text env.order (hempty.insert hto), seenByText_insert hto,
      seenByText_empty]
  · refine Or.inr (Or.inr ⟨hself, hb, ?_⟩)
    rw [accounts_flush_text env.order (hempty.insert hfrom), seenByText_insert hfrom,
      seenByText_empty]

/-! ## Conservation -/

/-- What a send does to the accounts : its value moves from the sender to the receiver,
the sender's nonce moves by one, and the rest stays. -/
structure Sent (tx : Transaction) (v v' : AccountMap) : Prop where
  debit : tx.from ≠ tx.to →
    v'.balanceAt tx.from tx.programId + tx.value.toNat = v.balanceAt tx.from tx.programId
  credit : tx.from ≠ tx.to →
    v'.balanceAt tx.to tx.programId = v.balanceAt tx.to tx.programId + tx.value.toNat
  self : tx.from = tx.to → ∀ k, v'.balanceAt tx.from k = v.balanceAt tx.from k
  otherTokens : ∀ a k, k ≠ tx.programId → v'.balanceAt a k = v.balanceAt a k
  nonce : ∀ a, v'.nonceAt a = v.nonceAt a + if a = tx.from then 1 else 0
  otherAccounts : ∀ a, a ≠ tx.from → a ≠ tx.to → v' a = v a

/-- An account with its nonce incremented stands for the sender, one nonce further. -/
theorem Account.TokensOwned.incrementNonce {account account₁ : Account}
    (howned : account.TokensOwned) (hinc : account.incrementNonce = .ok account₁) :
    account₁.TokensOwned := by
  obtain ⟨haddr, -, -, hprograms⟩ := Account.incrementNonce_keeps hinc
  intro k t ht
  rw [hprograms] at ht
  rw [haddr]
  exact howned k t ht

theorem Account.balance_incrementNonce {account account₁ : Account}
    (hinc : account.incrementNonce = .ok account₁) (k : Address) :
    account₁.balance k = account.balance k := by
  simp only [Account.balance, (Account.incrementNonce_keeps hinc).2.2.2]

theorem receiverOf_owned
    (hto : ∀ account, accounts storage cache tx.to = some account → account.TokensOwned) :
    (receiverOf storage cache tx).TokensOwned := by
  unfold receiverOf
  cases h : accounts storage cache tx.to with
  | none => exact Account.tokensOwned_build _ _
  | some account => exact hto account h

theorem stands_receiverOf :
    Stands (accounts storage cache) tx.to (receiverOf storage cache tx) := by
  unfold receiverOf
  cases h : accounts storage cache tx.to with
  | none => exact Stands.of_none h rfl
  | some account => exact Stands.of_some h (address_of_accounts h)

/-- The receiver's copy after a send that returns. -/
theorem creditReceiver_credits {account toAccount : Account} (howned : account.TokensOwned)
    (hs : Stands (accounts storage cache) tx.to account) (hne : tx.to ≠ tx.from)
    (hb : tx.transactionType.isBridgeIn = false)
    (h : runAlone storage (creditReceiver tx account) cache = (.ok toAccount, cache')) :
    Credits (accounts storage cache) tx.to toAccount tx.programId tx.value.toNat := by
  obtain ⟨-, programAccount, hcase⟩ := creditReceiver_ok h
  have hr := @Account.applySendTransaction_receiver account tx programAccount howned hs.address
    hne hb
  rcases hcase with ⟨token, hok⟩ | ⟨⟨e, herr⟩, -⟩
  · rcases hr with hr | ⟨r, hr, hc⟩
    · rw [hok] at hr
      cases hr
    · rw [hok] at hr
      cases hr
      exact hs.credits (Account.applySendTransaction_sameHeader hok) hc
  · rcases hr with hr | ⟨r, hr, -⟩ <;> (rw [herr] at hr; cases hr)

/-- Two accounts, a debited sender one nonce further and a credited receiver, put back. -/
theorem sent_of_sides {v : AccountMap} {a b : Account} (hne : tx.from ≠ tx.to)
    (haddr : a.address = tx.from) (hnonce : a.nonce.toNat = v.nonceAt tx.from + 1)
    (hbal : ∀ k, (a.balance k).toNat + (if k = tx.programId then tx.value.toNat else 0) =
      v.balanceAt tx.from k)
    (hc : Credits v tx.to b tx.programId tx.value.toNat) : Sent tx v ((v.put a).put b) := by
  have hb : b.address = tx.to := hc.address
  refine ⟨fun _ => ?_, fun _ => ?_, fun hself => absurd hself hne, fun p k hk => ?_, fun p => ?_,
    fun p hp hp' => ?_⟩
  · rw [AccountMap.balanceAt_put, hb, if_neg hne, AccountMap.balanceAt_put, haddr, if_pos rfl]
    simpa using hbal tx.programId
  · rw [AccountMap.balanceAt_put, hb, if_pos rfl]
    simpa using hc.balance tx.programId
  · have hfrom := hbal k
    have hto := hc.balance k
    rw [if_neg hk, add_zero] at hfrom hto
    rw [AccountMap.balanceAt_put, hb, AccountMap.balanceAt_put, haddr]
    split_ifs with h₁ h₂
    · rw [h₁, hto]
    · rw [h₂, hfrom]
    · rfl
  · rw [AccountMap.nonceAt_put, hb, AccountMap.nonceAt_put, haddr]
    split_ifs with h₁ h₂ h₃
    · exact absurd (h₂.symm.trans h₁) hne
    · rw [h₁, hc.nonce, add_zero]
    · rw [h₃, hnonce]
    · rfl
  · rw [AccountMap.put_of_ne _ (by rw [hb]; exact hp'),
      AccountMap.put_of_ne _ (by rw [haddr]; exact hp)]

/-- One account, one nonce further and otherwise as it was, put back. -/
theorem sent_of_self {v : AccountMap} {a : Account} (hself : tx.from = tx.to)
    (haddr : a.address = tx.from) (hnonce : a.nonce.toNat = v.nonceAt tx.from + 1)
    (hbal : ∀ k, (a.balance k).toNat = v.balanceAt tx.from k) : Sent tx v (v.put a) := by
  have hall : ∀ p k, (v.put a).balanceAt p k = v.balanceAt p k := by
    intro p k
    rw [AccountMap.balanceAt_put, haddr]
    split_ifs with hp
    · rw [hp, hbal]
    · rfl
  refine ⟨fun hne => absurd hself hne, fun hne => absurd hself hne, fun _ k => hall _ k,
    fun p k _ => hall p k, fun p => ?_, fun p hp _ => ?_⟩
  · rw [AccountMap.nonceAt_put, haddr]
    split_ifs with hp
    · rw [hp, hnonce]
    · rfl
  · exact AccountMap.put_of_ne _ (by rw [haddr]; exact hp)

theorem send_sent
    (hfrom : ∀ account, accounts storage cache tx.from = some account → account.TokensOwned)
    (hto : ∀ account, accounts storage cache tx.to = some account → account.TokensOwned)
    (hb : tx.transactionType.isBridgeIn = false)
    (huser : ∀ account, accounts storage cache tx.from = some account →
      account.accountType = .user)
    (h : runAlone storage (addTransactionToAccount env tx) cache = (.ok (), cache')) :
    Sent tx (accounts storage cache) (accounts storage cache') := by
  obtain ⟨r, hr, hcase⟩ := addTransactionToAccount_ok h
  obtain ⟨-, ⟨account, account₁, hacc, hinc, hsend⟩ | ⟨-, hb', -⟩⟩ := debitSender_ok hr
  swap
  · rw [hb] at hb'
    cases hb'
  have hh := Account.applySendTransaction_sameHeader hsend
  obtain ⟨hinc_addr, hinc_type, -, -⟩ := Account.incrementNonce_keeps hinc
  have haddr₁ : account₁.address = tx.from := hinc_addr.trans (address_of_accounts hacc)
  have hnonce₁ : account₁.nonce.toNat = (accounts storage cache).nonceAt tx.from + 1 := by
    rw [(Account.incrementNonce_ok hinc).1, AccountMap.nonceAt_of_some hacc]
  have hbal₁ : ∀ k, (account₁.balance k).toNat = (accounts storage cache).balanceAt tx.from k :=
    fun k => by rw [Account.balance_incrementNonce hinc, AccountMap.balanceAt_of_some hacc]
  rcases hcase with ⟨hne, toAccount, hcr, heq⟩ | ⟨hself, -, toAccount, hcr, heq⟩ | ⟨-, hb', -⟩
  · have hd := Account.applySendTransaction_sender ((hfrom _ hacc).incrementNonce hinc)
      (hinc_type.trans (huser _ hacc)) haddr₁ hne hb hsend
    have hc := creditReceiver_credits (receiverOf_owned hto) stands_receiverOf hne hb hcr
    rw [heq]
    exact sent_of_sides hne.symm (hh.address.trans haddr₁) (by rw [hh.nonce, hnonce₁])
      (fun k => by rw [hd k, hbal₁ k]) hc
  · have hr₁ : r.1 = account₁ := Account.applySendTransaction_self hself hb hsend
    have hto₁ : toAccount = account₁ := by
      obtain ⟨-, programAccount, ⟨token, hok⟩ | ⟨-, hok⟩⟩ := creditReceiver_ok hcr
      · rw [Account.applySendTransaction_self hself hb hok, hr₁]
      · rw [hok, hr₁]
    rw [heq, hto₁]
    exact sent_of_self hself.symm haddr₁ hnonce₁ hbal₁
  · rw [hb] at hb'
    cases hb'

theorem bridgeIn_credits
    (hfrom : ∀ account, accounts storage cache tx.from = some account → account.TokensOwned)
    (hb : tx.transactionType.isBridgeIn = true) (hself : tx.from = tx.to)
    (h : runAlone storage (addTransactionToAccount env tx) cache = (.ok (), cache'))
    (a k : Address) :
    (accounts storage cache').balanceAt a k = (accounts storage cache).balanceAt a k +
      if a = tx.to ∧ k = tx.programId then tx.value.toNat else 0 := by
  obtain ⟨r, hr, hcase⟩ := addTransactionToAccount_ok h
  have hput : accounts storage cache' = (accounts storage cache).put r.1 := by
    rcases hcase with ⟨hne, -⟩ | ⟨-, hb', -⟩ | ⟨-, -, heq⟩
    · exact absurd hself.symm hne
    · rw [hb] at hb'
      cases hb'
    · exact heq
  have hbal : ∀ k, (r.1.balance k).toNat = (accounts storage cache).balanceAt tx.from k +
      if k = tx.programId then tx.value.toNat else 0 := by
    intro k
    obtain ⟨-, ⟨account, account₁, hacc, hinc, hsend⟩ | ⟨hnone, -, pa, hsend⟩⟩ :=
      debitSender_ok hr
    · have hc := Account.applySendTransaction_bridgeIn ((hfrom _ hacc).incrementNonce hinc) hb hsend
      rw [hc k, Account.balance_incrementNonce hinc, AccountMap.balanceAt_of_some hacc]
    · have hc := Account.applySendTransaction_bridgeIn (Account.tokensOwned_build _ _) hb hsend
      have hst : Stands (accounts storage cache) tx.from (Account.build .user tx.from) :=
        Stands.of_none hnone rfl
      rw [hc k, hst.balance k]
  rw [hput, AccountMap.balanceAt_put, debitSender_address hr, hself]
  by_cases ha : a = tx.to
  · rw [if_pos ha, hbal k, ha, hself]
    simp
  · rw [if_neg ha]
    simp [ha]

/-- A send from a user's account that returns moves its value; a bridge-in credits it. -/
theorem send_conservation
    (hfrom : ∀ account, accounts storage cache tx.from = some account → account.TokensOwned)
    (hto : ∀ account, accounts storage cache tx.to = some account → account.TokensOwned)
    (h : runAlone storage (addTransactionToAccount env tx) cache = (.ok (), cache')) :
    (tx.transactionType.isSend = true →
      (∀ account, accounts storage cache tx.from = some account → account.accountType = .user) →
      Sent tx (accounts storage cache) (accounts storage cache')) ∧
    (tx.transactionType.isBridgeIn = true → tx.from = tx.to → ∀ a k,
      (accounts storage cache').balanceAt a k = (accounts storage cache).balanceAt a k +
        if a = tx.to ∧ k = tx.programId then tx.value.toNat else 0) := by
  refine ⟨fun hsend huser => ?_, fun hb hself a k => bridgeIn_credits hfrom hb hself h a k⟩
  have hb : tx.transactionType.isBridgeIn = false := by
    cases htype : tx.transactionType <;>
      simp_all [TransactionType.isSend, TransactionType.isBridgeIn]
  exact send_sent hfrom hto hb huser h

end Send

/-- A signed send of ETH. -/
def ethSend («from» «to» : Address) (value nonce : U256) : Transaction where
  transactionType := .send nonce
  «from» := «from»
  «to» := «to»
  programId := ETH_ADDR
  op := ""
  inputs := ""
  value := value
  nonce := nonce
  v := 27
  r := 0#256
  s := 0#256

/-- A send of 4 ETH, run on one user's 10 ETH. -/
def ethSendRun : Except (Fault BatcherError) Unit × AccountStore :=
  runAlone (fun _ => none) (addTransactionToAccount .small (ethSend 7#160 8#160 4#256 1#256)) tenEth

theorem Account.tokensOwned_holding (owner tok : Address) (amt : U256) :
    (Account.holding owner tok amt).TokensOwned := by
  intro k t h
  by_cases hk : k = tok
  · subst hk
    cases (BTreeMap.insert_self _ _ _).symm.trans h
    exact ⟨rfl, rfl⟩
  · cases (BTreeMap.insert_of_ne _ _ hk).symm.trans h

theorem send_conservation_seven_to_eight :
    ethSendRun.1 = .ok () ∧ Sent (ethSend 7#160 8#160 4#256 1#256)
      (accounts (fun _ => none) tenEth) (accounts (fun _ => none) ethSendRun.2) := by
  have hseven : accounts (fun _ => none) tenEth 7#160 =
      some (Account.holding 7#160 ETH_ADDR 10#256) := rfl
  have height : accounts (fun _ => none) tenEth 8#160 = none := rfl
  have hfrom : ∀ account, accounts (fun _ => none) tenEth 7#160 = some account →
      account.TokensOwned ∧ account.accountType = .user := by
    intro account h
    cases hseven.symm.trans h
    exact ⟨Account.tokensOwned_holding _ _ _, rfl⟩
  have hto : ∀ account, accounts (fun _ => none) tenEth 8#160 = some account →
      account.TokensOwned := by
    intro account h
    cases height.symm.trans h
  have hrun : ethSendRun = (.ok (), ethSendRun.2) := rfl
  exact ⟨rfl, (send_conservation (fun account h => (hfrom account h).1) hto hrun).1 rfl
    fun account h => (hfrom account h).2⟩

end Lasr
