import Lasr.Transaction
import Mathlib.Data.Finset.Basic
import Mathlib.Data.Finset.Dedup
import Mathlib.Data.Finset.Lattice.Basic

/-!
# Accounts

`types/src/account.rs`. An account is a user's, addressed by its owner, or a program's,
addressed by the program (`Account.address`). It keeps one token entry per program.

The methods that take `&mut self` return the new account. Those the batcher calls on a
copy it drops on failure say nothing of the copy then; `apply_send_transaction`, whose
result the batcher sometimes ignores, writes to the account only right before it
returns.

Each method comes with what it does to the header of the account (`SameHeader`) and to
its balances.
-/

set_option linter.unusedSectionVars false

namespace Lasr

/-- `AccountType`. -/
inductive AccountType where
  | user
  | program (address : Address)
  deriving DecidableEq, Repr

/-- `Account`. -/
structure Account where
  accountType : AccountType
  programNamespace : Option AddressOrNamespace
  ownerAddress : Address
  programs : BTreeMap Address Token
  nonce : U256
  programAccountData : ArbitraryData
  programAccountMetadata : Metadata
  programAccountLinkedPrograms : Finset AddressOrNamespace

namespace Account

/-- The account the builders of `batcher.rs` make : no tokens, no data, nonce zero. -/
def build (accountType : AccountType) (ownerAddress : Address) : Account where
  accountType := accountType
  programNamespace := none
  ownerAddress := ownerAddress
  programs := fun _ => none
  nonce := 0#256
  programAccountData := fun _ => none
  programAccountMetadata := fun _ => none
  programAccountLinkedPrograms := ∅

/-- The address an account is stored under : the owner's for a user account, the
program's for a program account. -/
def address (self : Account) : Address :=
  match self.accountType with
  | .user => self.ownerAddress
  | .program programAddress => programAddress

/-- `balance`. -/
def balance (self : Account) (programId : Address) : U256 :=
  match self.programs programId with
  | some entry => entry.balance
  | none => 0#256

/-- `insert_program`. -/
def insertProgram (self : Account) (programId : Address) (token : Token) : Account :=
  { self with programs := self.programs.insert programId token }

/-- `increment_nonce`. -/
def incrementNonce (self : Account) : AccountResult Account := do
  return { self with nonce := ← U256.add self.nonce 1#256 }

/-! ## Sends -/

/-- The branch of `apply_send_transaction` for a token the account holds. -/
def updateHeldToken (self : Account) (token : Token) (tx : Transaction)
    (programAccount : Option Account) : AccountResult (Account × Token) := do
  let newToken ← token.tryFrom tx
  let newToken := match programAccount with
    | some account =>
      { newToken with
        metadata := newToken.metadata.extend account.programAccountMetadata
        data := newToken.data.extend account.programAccountData }
    | none => newToken
  return (self.insertProgram newToken.programId newToken, newToken)

/-- The branch of `apply_send_transaction` that gives the account its first entry. -/
def createToken (self : Account) (tx : Transaction) (programAccount : Option Account) :
    AccountResult (Account × Token) :=
  let token := Token.ofTransaction tx
  let token := match programAccount with
    | some account =>
      { token with
        metadata := account.programAccountMetadata
        data := account.programAccountData }
    | none => token
  .ok (self.insertProgram token.programId token, token)

/-- `apply_send_transaction`. -/
def applySendTransaction (self : Account) (tx : Transaction) (programAccount : Option Account) :
    AccountResult (Account × Token) :=
  if tx.transactionType.isBridgeIn then
    match self.programs tx.programId with
    | none =>
      let token := Token.ofTransaction tx
      .ok (self.insertProgram token.programId token, token)
    | some token => self.updateHeldToken token tx programAccount
  else if tx.to = tx.from then
    match self.programs tx.programId with
    | some token => .ok (self, token)
    | none => .error (toTokenError
        "user attempting to send to self, token that does not yet exist")
  else
    match self.programs tx.programId with
    | some token => self.updateHeldToken token tx programAccount
    | none =>
      if tx.to = self.ownerAddress then self.createToken tx programAccount
      else
        match self.accountType with
        | .program programAddress =>
          -- The source looks the token up once more here. It is absent in this branch.
          if tx.to = programAddress then self.createToken tx programAccount
          else .error (toTokenError "unable to convert transaction into token")
        | .user => .error (toTokenError "unable to convert transaction into token")

/-! ## Instructions -/

end Account

/-- The credit half of a transfer or a distribution : the amount, then the ids. -/
def Token.receive (self : Token) (amount : Option U256) (tokenIds : List U256) :
    AccountResult Token := do
  let self ← (match amount with
    | some amt => self.credit amt
    | none => .ok self : AccountResult Token)
  if tokenIds.isEmpty then return self else self.addTokenIds tokenIds

/-- The debit half of a transfer or a burn : the amount, then the ids. -/
def Token.give (self : Token) (amount : Option U256) (tokenIds : List U256) :
    AccountResult Token := do
  let self ← (match amount with
    | some amt => self.debit amt
    | none => .ok self : AccountResult Token)
  if tokenIds.isEmpty then return self else self.removeTokenIds tokenIds

/-- The updates of a distribution or a token update, in order. -/
def Token.applyUpdates (self : Token) (updates : List TokenUpdateField) : AccountResult Token :=
  updates.foldlM (fun token update => token.applyTokenUpdateFieldValues update.value) self

namespace Account

/-- `apply_transfer_to_instruction`. A new entry is owned by the account's
`owner_address`, also on a program account. -/
def applyTransferToInstruction (self : Account) (tokenAddress : Address)
    (amount : Option U256) (tokenIds : List U256) (programAccount : Option Account) :
    AccountResult (Account × Token) :=
  match self.programs tokenAddress with
  | some entry => do
    let entry ← entry.receive amount tokenIds
    return ({ self with programs := self.programs.insert tokenAddress entry }, entry)
  | none => do
    let tokenMetadata := match programAccount with
      | some account => account.programAccountMetadata
      | none => fun _ => none
    let tokenData := match programAccount with
      | some account => account.programAccountData
      | none => fun _ => none
    let token ← (Token.fresh tokenAddress self.ownerAddress tokenMetadata tokenData).receive
      amount tokenIds
    return ({ self with programs := self.programs.insert token.programId token }, token)

/-- `apply_transfer_from_instruction`. -/
def applyTransferFromInstruction (self : Account) (tokenAddress : Address)
    (amount : Option U256) (tokenIds : List U256) : AccountResult (Account × Token) :=
  match self.programs tokenAddress with
  | some entry => do
    let entry ← entry.give amount tokenIds
    return ({ self with programs := self.programs.insert tokenAddress entry }, entry)
  | none => .error (.err "cannot transfer a token that the caller doesn't own")

/-- `apply_burn_instruction`. -/
def applyBurnInstruction (self : Account) (tokenAddress : Address)
    (amount : Option U256) (tokenIds : List U256) : AccountResult (Account × Token) :=
  match self.programs tokenAddress with
  | some entry => do
    let entry ← entry.give amount tokenIds
    return ({ self with programs := self.programs.insert tokenAddress entry }, entry)
  | none => .error (.err "Account cannot have a token that it does not own burned")

/-- `apply_token_distribution`. -/
def applyTokenDistribution (self : Account) (programId : Address) (amount : Option U256)
    (tokenIds : List U256) (tokenUpdates : List TokenUpdateField) (programAccount : Account) :
    AccountResult (Account × Token) :=
  match self.programs programId with
  | some token => do
    let token ← token.receive amount tokenIds
    let token ← token.applyUpdates tokenUpdates
    return ({ self with programs := self.programs.insert programId token }, token)
  | none => do
    let token := Token.fresh programId self.address programAccount.programAccountMetadata
      programAccount.programAccountData
    let token ← token.receive amount tokenIds
    let token ← token.applyUpdates tokenUpdates
    return ({ self with programs := self.programs.insert token.programId token }, token)

/-- `apply_token_update`. -/
def applyTokenUpdate (self : Account) (programId : Address) (updates : List TokenUpdateField)
    (programAccount : Account) : AccountResult (Account × Token) :=
  match self.programs programId with
  | some token => do
    let token ← token.applyUpdates updates
    return ({ self with programs := self.programs.insert programId token }, token)
  | none => do
    let token := Token.fresh programId self.address programAccount.programAccountMetadata
      programAccount.programAccountData
    let token ← token.applyUpdates updates
    return ({ self with programs := self.programs.insert programId token }, token)

/-- `apply_program_update_field_values`. -/
def applyProgramUpdateFieldValues (self : Account) : ProgramFieldValue → Account
  | .linkedPrograms (.insert linkedProgram) =>
    { self with programAccountLinkedPrograms :=
        self.programAccountLinkedPrograms ∪ {.address linkedProgram} }
  | .linkedPrograms (.extend linkedPrograms) =>
    { self with programAccountLinkedPrograms :=
        self.programAccountLinkedPrograms ∪
          (linkedPrograms.map AddressOrNamespace.address).toFinset }
  | .linkedPrograms (.remove linkedProgram) =>
    { self with programAccountLinkedPrograms :=
        self.programAccountLinkedPrograms.erase (.address linkedProgram) }
  | .metadata (.insert key value) =>
    { self with programAccountMetadata := self.programAccountMetadata.insert key value }
  | .metadata (.extend iter) =>
    { self with programAccountMetadata := self.programAccountMetadata.extend iter }
  | .metadata (.remove key) =>
    { self with programAccountMetadata := self.programAccountMetadata.remove key }
  | .data (.insert key value) =>
    { self with programAccountData := self.programAccountData.insert key value }
  | .data (.extend iter) =>
    { self with programAccountData := self.programAccountData.extend iter }
  | .data (.remove key) =>
    { self with programAccountData := self.programAccountData.remove key }

/-- `apply_program_update`. -/
def applyProgramUpdate (self : Account) (update : ProgramUpdate) : AccountResult Account :=
  match self.accountType with
  | .program _ =>
    .ok (update.updates.foldl (fun a u => a.applyProgramUpdateFieldValues u.value) self)
  | .user =>
    .error (.err "Account is not a program account and cannot accept a program update")

end Account

/-! ## What the token halves do -/

/-- The amount a transfer, burn or distribution moves. -/
def amountOf (amount : Option U256) : ℕ :=
  (amount.getD 0#256).toNat

theorem Token.receive_ok {t t' : Token} {amount : Option U256} {ids : List U256}
    (h : t.receive amount ids = .ok t') :
    t'.balance.toNat = t.balance.toNat + amountOf amount ∧ t'.programId = t.programId := by
  unfold Token.receive at h
  obtain ⟨u, hu, ht⟩ := Except.bind_eq_ok_iff.1 h
  have hids : t'.balance = u.balance ∧ t'.programId = u.programId := by
    split_ifs at ht <;> (cases ht; exact ⟨rfl, rfl⟩)
  rw [hids.1, hids.2]
  cases amount with
  | none =>
    cases hu
    exact ⟨rfl, rfl⟩
  | some amt =>
    obtain ⟨hb, he⟩ := Token.credit_ok hu
    exact ⟨hb, by rw [he]⟩

theorem Token.give_ok {t t' : Token} {amount : Option U256} {ids : List U256}
    (h : t.give amount ids = .ok t') :
    t'.balance.toNat + amountOf amount = t.balance.toNat ∧ t'.programId = t.programId := by
  unfold Token.give at h
  obtain ⟨u, hu, ht⟩ := Except.bind_eq_ok_iff.1 h
  have hids : t'.balance = u.balance ∧ t'.programId = u.programId := by
    simp only [Token.removeTokenIds] at ht
    split_ifs at ht <;> (cases ht; exact ⟨rfl, rfl⟩)
  rw [hids.1, hids.2]
  cases amount with
  | none =>
    cases hu
    exact ⟨rfl, rfl⟩
  | some amt =>
    obtain ⟨hb, he⟩ := Token.debit_ok hu
    exact ⟨hb, by rw [he]⟩

theorem Token.applyAllowanceUpdate_ok {t t' : Token} {v : AllowanceValue}
    (h : t.applyAllowanceUpdate v = .ok t') :
    t'.balance = t.balance ∧ t'.programId = t.programId := by
  cases v with
  | insert key value =>
    simp only [applyAllowanceUpdate] at h
    split at h
    · obtain ⟨b, -, ht⟩ := Except.bind_eq_ok_iff.1 h
      cases ht
      exact ⟨rfl, rfl⟩
    · cases h
      exact ⟨rfl, rfl⟩
  | remove key value =>
    simp only [applyAllowanceUpdate] at h
    split at h
    · obtain ⟨b, -, ht⟩ := Except.bind_eq_ok_iff.1 h
      split_ifs at ht <;> (cases ht; exact ⟨rfl, rfl⟩)
    · cases h
      exact ⟨rfl, rfl⟩
  | extend values =>
    cases h
    exact ⟨rfl, rfl⟩
  | revoke key =>
    cases h
    exact ⟨rfl, rfl⟩

theorem Token.applyApprovalsUpdate_ok {t t' : Token} {v : ApprovalsValue}
    (h : t.applyApprovalsUpdate v = .ok t') :
    t'.balance = t.balance ∧ t'.programId = t.programId := by
  cases v with
  | insert key value =>
    simp only [applyApprovalsUpdate] at h
    split at h <;> (cases h; exact ⟨rfl, rfl⟩)
  | remove key values =>
    simp only [applyApprovalsUpdate] at h
    split at h
    · split_ifs at h <;> (cases h; exact ⟨rfl, rfl⟩)
    · cases h
      exact ⟨rfl, rfl⟩
  | extend values =>
    cases h
    exact ⟨rfl, rfl⟩
  | revoke key =>
    cases h
    exact ⟨rfl, rfl⟩

/-- An update of one field leaves the balance and the program id. -/
theorem Token.applyTokenUpdateFieldValues_ok {t t' : Token} {v : TokenFieldValue}
    (h : t.applyTokenUpdateFieldValues v = .ok t') :
    t'.balance = t.balance ∧ t'.programId = t.programId := by
  cases v with
  | data v => cases v <;> (cases h; exact ⟨rfl, rfl⟩)
  | metadata v => cases v <;> (cases h; exact ⟨rfl, rfl⟩)
  | approvals v => exact applyApprovalsUpdate_ok h
  | allowance v => exact applyAllowanceUpdate_ok h
  | status v =>
    simp only [applyTokenUpdateFieldValues, applyStatusUpdate] at h
    cases v with
    | reverse =>
      simp only at h
      split at h <;> (cases h; exact ⟨rfl, rfl⟩)
    | lock =>
      cases h
      exact ⟨rfl, rfl⟩
    | unlock =>
      cases h
      exact ⟨rfl, rfl⟩

theorem Token.applyUpdates_ok : ∀ {updates : List TokenUpdateField} {t t' : Token},
    t.applyUpdates updates = .ok t' → t'.balance = t.balance ∧ t'.programId = t.programId
  | [], t, t', h => by
    cases h
    exact ⟨rfl, rfl⟩
  | u :: us, t, t', h => by
    simp only [Token.applyUpdates, List.foldlM_cons] at h
    obtain ⟨t₁, hu, hus⟩ := Except.bind_eq_ok_iff.1 h
    obtain ⟨hb, hp⟩ := applyTokenUpdateFieldValues_ok hu
    have hrest : t₁.applyUpdates us = .ok t' := hus
    obtain ⟨hb', hp'⟩ := applyUpdates_ok hrest
    exact ⟨hb'.trans hb, hp'.trans hp⟩

/-! ## What the account methods do -/

namespace Account

/-- Two versions of an account with the same type, namespace, owner and nonce. -/
structure SameHeader (a b : Account) : Prop where
  accountType : b.accountType = a.accountType
  programNamespace : b.programNamespace = a.programNamespace
  ownerAddress : b.ownerAddress = a.ownerAddress
  nonce : b.nonce = a.nonce

theorem SameHeader.refl (a : Account) : SameHeader a a :=
  ⟨rfl, rfl, rfl, rfl⟩

theorem SameHeader.trans {a b c : Account} (h : SameHeader a b) (h' : SameHeader b c) :
    SameHeader a c :=
  ⟨h'.1.trans h.1, h'.2.trans h.2, h'.3.trans h.3, h'.4.trans h.4⟩

theorem SameHeader.address {a b : Account} (h : SameHeader a b) : b.address = a.address := by
  simp only [Account.address, h.accountType, h.ownerAddress]

theorem balance_of_some {a : Account} {k : Address} {t : Token} (h : a.programs k = some t) :
    a.balance k = t.balance := by
  simp [balance, h]

theorem balance_of_none {a : Account} {k : Address} (h : a.programs k = none) :
    a.balance k = 0#256 := by
  simp [balance, h]

theorem programs_insertProgram (a : Account) (k k' : Address) (t : Token) :
    (a.insertProgram k t).programs k' = if k' = k then some t else a.programs k' := by
  unfold insertProgram
  split_ifs with h
  · rw [h]
    exact BTreeMap.insert_self ..
  · exact BTreeMap.insert_of_ne _ _ h

theorem balance_insertProgram (a : Account) (k k' : Address) (t : Token) :
    (a.insertProgram k t).balance k' = if k' = k then t.balance else a.balance k' := by
  unfold balance insertProgram
  split_ifs with h
  · subst h
    simp
  · simp only [BTreeMap.insert_of_ne _ _ h]

theorem sameHeader_insertProgram (a : Account) (k : Address) (t : Token) :
    SameHeader a (a.insertProgram k t) :=
  ⟨rfl, rfl, rfl, rfl⟩

/-- The balances of `b` are those of `a`, with `amt` more of `tok`. -/
def Credited (a b : Account) (tok : Address) (amt : ℕ) : Prop :=
  ∀ k, (b.balance k).toNat = (a.balance k).toNat + if k = tok then amt else 0

/-- The balances of `b` are those of `a`, with `amt` less of `tok`. -/
def Debited (a b : Account) (tok : Address) (amt : ℕ) : Prop :=
  ∀ k, (b.balance k).toNat + (if k = tok then amt else 0) = (a.balance k).toNat

theorem credited_insertProgram {a : Account} {tok : Address} {t : Token} {amt : ℕ}
    (h : t.balance.toNat = (a.balance tok).toNat + amt) :
    Credited a (a.insertProgram tok t) tok amt := by
  intro k
  rw [balance_insertProgram]
  split_ifs with hk
  · rw [hk, h]
  · rfl

theorem debited_insertProgram {a : Account} {tok : Address} {t : Token} {amt : ℕ}
    (h : t.balance.toNat + amt = (a.balance tok).toNat) :
    Debited a (a.insertProgram tok t) tok amt := by
  intro k
  rw [balance_insertProgram]
  split_ifs with hk
  · rw [hk, h]
  · rfl

theorem applyTransferToInstruction_ok {a a' : Account} {tok : Address} {amount : Option U256}
    {ids : List U256} {pa : Option Account} {t : Token}
    (h : a.applyTransferToInstruction tok amount ids pa = .ok (a', t)) :
    SameHeader a a' ∧ Credited a a' tok (amountOf amount) := by
  unfold applyTransferToInstruction at h
  split at h
  · next entry he =>
    obtain ⟨u, hu, hr⟩ := Except.bind_eq_ok_iff.1 h
    cases hr
    refine ⟨sameHeader_insertProgram _ _ _, credited_insertProgram ?_⟩
    rw [balance_of_some he]
    exact (Token.receive_ok hu).1
  · next he =>
    obtain ⟨u, hu, hr⟩ := Except.bind_eq_ok_iff.1 h
    cases hr
    obtain ⟨hb, hp⟩ := Token.receive_ok hu
    rw [show t.programId = tok from hp]
    refine ⟨sameHeader_insertProgram _ _ _, credited_insertProgram ?_⟩
    rw [balance_of_none he]
    exact hb

theorem applyTransferFromInstruction_ok {a a' : Account} {tok : Address} {amount : Option U256}
    {ids : List U256} {t : Token}
    (h : a.applyTransferFromInstruction tok amount ids = .ok (a', t)) :
    SameHeader a a' ∧ Debited a a' tok (amountOf amount) := by
  unfold applyTransferFromInstruction at h
  split at h
  · next entry he =>
    obtain ⟨u, hu, hr⟩ := Except.bind_eq_ok_iff.1 h
    cases hr
    refine ⟨sameHeader_insertProgram _ _ _, debited_insertProgram ?_⟩
    rw [balance_of_some he]
    exact (Token.give_ok hu).1
  · cases h

/-- A burn is the giving side of a transfer, but for the text of one error. -/
theorem applyBurnInstruction_cases (a : Account) (tok : Address) (amount : Option U256)
    (ids : List U256) :
    a.applyBurnInstruction tok amount ids = a.applyTransferFromInstruction tok amount ids ∨
      ∃ msg msg', a.applyBurnInstruction tok amount ids = .error (.err msg) ∧
        a.applyTransferFromInstruction tok amount ids = .error (.err msg') := by
  unfold applyBurnInstruction applyTransferFromInstruction
  cases a.programs tok with
  | some entry => exact Or.inl rfl
  | none => exact Or.inr ⟨_, _, rfl, rfl⟩

theorem applyBurnInstruction_ok {a a' : Account} {tok : Address} {amount : Option U256}
    {ids : List U256} {t : Token} (h : a.applyBurnInstruction tok amount ids = .ok (a', t)) :
    SameHeader a a' ∧ Debited a a' tok (amountOf amount) := by
  rcases a.applyBurnInstruction_cases tok amount ids with hsame | ⟨_, _, herr, -⟩
  · exact applyTransferFromInstruction_ok (hsame ▸ h)
  · exact nomatch herr.symm.trans h

theorem applyTokenDistribution_ok {a a' : Account} {pid : Address} {amount : Option U256}
    {ids : List U256} {updates : List TokenUpdateField} {pa : Account} {t : Token}
    (h : a.applyTokenDistribution pid amount ids updates pa = .ok (a', t)) :
    SameHeader a a' ∧ Credited a a' pid (amountOf amount) := by
  unfold applyTokenDistribution at h
  split at h
  · next entry he =>
    obtain ⟨u, hu, h'⟩ := Except.bind_eq_ok_iff.1 h
    obtain ⟨w, hw, hr⟩ := Except.bind_eq_ok_iff.1 h'
    cases hr
    refine ⟨sameHeader_insertProgram _ _ _, credited_insertProgram ?_⟩
    rw [(Token.applyUpdates_ok hw).1, balance_of_some he]
    exact (Token.receive_ok hu).1
  · next he =>
    obtain ⟨u, hu, h'⟩ := Except.bind_eq_ok_iff.1 h
    obtain ⟨w, hw, hr⟩ := Except.bind_eq_ok_iff.1 h'
    cases hr
    obtain ⟨hb, hp⟩ := Token.receive_ok hu
    obtain ⟨hb', hp'⟩ := Token.applyUpdates_ok hw
    rw [show t.programId = pid from hp'.trans hp]
    refine ⟨sameHeader_insertProgram _ _ _, credited_insertProgram ?_⟩
    rw [hb', balance_of_none he]
    exact hb

theorem applyTokenUpdate_ok {a a' : Account} {pid : Address} {updates : List TokenUpdateField}
    {pa : Account} {t : Token} (h : a.applyTokenUpdate pid updates pa = .ok (a', t)) :
    SameHeader a a' ∧ Credited a a' pid 0 := by
  unfold applyTokenUpdate at h
  split at h
  · next entry he =>
    obtain ⟨w, hw, hr⟩ := Except.bind_eq_ok_iff.1 h
    cases hr
    refine ⟨sameHeader_insertProgram _ _ _, credited_insertProgram ?_⟩
    rw [(Token.applyUpdates_ok hw).1, balance_of_some he]
    rfl
  · next he =>
    obtain ⟨w, hw, hr⟩ := Except.bind_eq_ok_iff.1 h
    cases hr
    refine ⟨sameHeader_insertProgram _ _ _, credited_insertProgram ?_⟩
    rw [(Token.applyUpdates_ok hw).1, balance_of_none he]
    rfl

theorem applyProgramUpdateFieldValues_keeps (a : Account) (v : ProgramFieldValue) :
    SameHeader a (a.applyProgramUpdateFieldValues v) ∧
      (a.applyProgramUpdateFieldValues v).programs = a.programs := by
  cases v with
  | linkedPrograms v => cases v <;> exact ⟨⟨rfl, rfl, rfl, rfl⟩, rfl⟩
  | metadata v => cases v <;> exact ⟨⟨rfl, rfl, rfl, rfl⟩, rfl⟩
  | data v => cases v <;> exact ⟨⟨rfl, rfl, rfl, rfl⟩, rfl⟩

theorem applyProgramUpdate_ok {a a' : Account} {update : ProgramUpdate}
    (h : a.applyProgramUpdate update = .ok a') :
    SameHeader a a' ∧ a'.programs = a.programs := by
  have hfold : ∀ (us : List ProgramUpdateField) (b : Account),
      SameHeader b (us.foldl (fun a u => a.applyProgramUpdateFieldValues u.value) b) ∧
        (us.foldl (fun a u => a.applyProgramUpdateFieldValues u.value) b).programs =
          b.programs := by
    intro us
    induction us with
    | nil => exact fun b => ⟨SameHeader.refl b, rfl⟩
    | cons u us ih =>
      intro b
      obtain ⟨hh, hp⟩ := applyProgramUpdateFieldValues_keeps b u.value
      obtain ⟨hh', hp'⟩ := ih (b.applyProgramUpdateFieldValues u.value)
      exact ⟨hh.trans hh', hp'.trans hp⟩
  unfold applyProgramUpdate at h
  split at h
  · cases h
    exact hfold update.updates a
  · cases h

/-- Incrementing moves the nonce by one and nothing else. -/
theorem incrementNonce_ok {a a' : Account} (h : a.incrementNonce = .ok a') :
    a'.nonce.toNat = a.nonce.toNat + 1 ∧ a' = { a with nonce := a'.nonce } := by
  unfold incrementNonce at h
  obtain ⟨n, hn, ha⟩ := Except.bind_eq_ok_iff.1 h
  cases ha
  exact ⟨by simpa using U256.toNat_add hn, rfl⟩

theorem incrementNonce_keeps {a a' : Account} (h : a.incrementNonce = .ok a') :
    a'.address = a.address ∧ a'.accountType = a.accountType ∧
      a'.ownerAddress = a.ownerAddress ∧ a'.programs = a.programs := by
  unfold incrementNonce at h
  obtain ⟨n, -, ha⟩ := Except.bind_eq_ok_iff.1 h
  cases ha
  exact ⟨rfl, rfl, rfl, rfl⟩

theorem incrementNonce_of_lt {a : Account} (h : a.nonce.toNat + 1 < 2 ^ 256) :
    a.incrementNonce = .ok { a with nonce := a.nonce + 1#256 } := by
  have hadd : U256.add a.nonce 1#256 = .ok (a.nonce + 1#256) := if_pos h
  unfold incrementNonce
  rw [hadd]
  rfl

/-- A nonce can be incremented unless it is the largest there is. -/
theorem incrementNonce_isOk_iff {a : Account} :
    (∃ a', a.incrementNonce = .ok a') ↔ a.nonce.toNat + 1 < 2 ^ 256 := by
  refine ⟨?_, fun h => ⟨_, incrementNonce_of_lt h⟩⟩
  rintro ⟨a', h⟩
  have hlt := a'.nonce.isLt
  have hnonce := (incrementNonce_ok h).1
  omega

end Account
end Lasr
