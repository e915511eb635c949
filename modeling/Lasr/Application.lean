import Lasr.Acceptance
import Lasr.SendOutcomes

/-!
# What is accepted and what is applied

The validator looks at each instruction of a call by itself, on the accounts at the start of the
call, and at the sender's side of a send. What the batcher needs beyond that is not seen to :
two instructions that meet in one entry, amounts that do not fit into a balance, accounts that
are not there, a receiver's entry. A call that is accepted is applied exactly when it fits
(`CallFits`), and a send exactly when `SendFits` (`validated_applies_iff`).
-/

set_option linter.unusedSectionVars false

namespace Lasr

/-! ## Sends -/

/-- `TryFrom` has room : the sender's entry can pay, or the receiver's can be paid into. -/
def Token.Takes (t : Token) (tx : Transaction) : Prop :=
  t.ownerId = tx.from ∧ tx.value.toNat ≤ t.balance.toNat ∨
    t.ownerId ≠ tx.from ∧ t.ownerId = tx.to ∧ t.balance.toNat + tx.value.toNat < 2 ^ 256

/-- A send goes through on these accounts : the sender's entry takes it, the program of the
token is there, and the receiver's entry, if it is of one of the two, takes it too. -/
structure SendFits (v : AccountMap) (tx : Transaction) : Prop where
  sender : tx.to = tx.from ∨ ∃ a t, v tx.from = some a ∧ a.programs tx.programId = some t ∧
    t.Takes tx
  program : (v tx.programId).isSome ∨ tx.programId = ETH_ADDR ∨ tx.programId = VERSE_ADDR
  receiver : tx.to ≠ tx.from → ∀ a t, v tx.to = some a → a.programs tx.programId = some t →
    t.ownerId = tx.from ∨ t.ownerId = tx.to → t.Takes tx

section Send

variable {env : Env} {storage cache : AccountStore} {tx : Transaction} {t : Token}

theorem Token.takes_iff (hb : tx.transactionType.isBridgeIn = false) :
    t.Takes tx ↔ t.OfSide tx ∧ ¬t.Overflows tx := by
  unfold Takes OfSide Overflows
  rw [hb]
  by_cases hfrom : t.ownerId = tx.from
  · simp [hfrom]
  · by_cases hto : t.ownerId = tx.to
    · have hne : tx.to ≠ tx.from := fun h => hfrom (hto.trans h)
      simp [hto, hne]
    · simp [hfrom, hto]

/-- What the validator has found of the sender of a send it accepts. -/
theorem AcceptsSend.sender (hacc : AcceptsSend env storage cache tx) :
    tx.transactionType.isBridgeIn = false ∧ ∃ account account₁ t,
      accounts storage cache tx.from = some account ∧ account.incrementNonce = .ok account₁ ∧
      account.programs tx.programId = some t ∧ account₁.programs tx.programId = some t := by
  obtain ⟨hsend, account, haccount, hcheck⟩ := acceptsSend_iff.1 hacc
  refine ⟨?_, account, ?_⟩
  · cases htype : tx.transactionType <;> simp [htype, TransactionType.isSend] at hsend
    rfl
  · obtain ⟨-, hcheck⟩ := bind_unit_ok_iff.1 hcheck
    obtain ⟨hbal, hcheck⟩ := bind_unit_ok_iff.1 hcheck
    obtain ⟨hnonce, -⟩ := bind_unit_ok_iff.1 hcheck
    obtain ⟨t, ht, -⟩ := Account.validateBalance_ok_iff.1 hbal
    have hgrow : account.nonce.toNat + 1 < 2 ^ 256 := by
      have hlt := tx.nonce.isLt
      rcases validateNonce_ok_iff.1 hnonce with ⟨hzero, -⟩ | h
      · omega
      · omega
    obtain ⟨account₁, hinc⟩ := Account.incrementNonce_isOk_iff.2 hgrow
    refine ⟨account₁, t, haccount, hinc, ht, ?_⟩
    rw [(Account.incrementNonce_keeps hinc).2.2.2]
    exact ht

/-- An accepted send goes through on the accounts exactly when it fits. -/
theorem AcceptsSend.goes_iff (hacc : AcceptsSend env storage cache tx) :
    SendGoes (accounts storage cache) tx ↔ SendFits (accounts storage cache) tx := by
  obtain ⟨hb, account, account₁, t, haccount, hinc, ht, -⟩ := hacc.sender
  have hsends : account.Sends tx ↔ tx.to = tx.from ∨ t.Takes tx := by
    unfold Account.Sends
    rw [ht, Token.takes_iff hb]
    simp [hb]
  constructor
  · rintro ⟨hsender, hprogram, hreceiver⟩
    refine ⟨?_, ?_, fun hne a t' ha ht' hside => ?_⟩
    · rcases hsender with ⟨a, ha, -, hs⟩ | ⟨hnone, -⟩
      · cases haccount.symm.trans ha
        exact (hsends.1 hs).imp_right fun htakes => ⟨account, t, haccount, ht, htakes⟩
      · rw [haccount] at hnone
        cases hnone
    · rcases hprogram with ⟨-, hbridge⟩ | hprogram
      · rw [hb] at hbridge
        cases hbridge
      · exact hprogram
    · exact (Token.takes_iff hb).2 ⟨hside, hreceiver hne a t' ha ht'⟩
  · rintro ⟨hsender, hprogram, hreceiver⟩
    refine ⟨Or.inl ⟨account, haccount, Account.incrementNonce_isOk_iff.1 ⟨_, hinc⟩,
      hsends.2 ?_⟩, Or.inr hprogram, fun hne a t' ha ht' hover => ?_⟩
    · refine hsender.imp_right ?_
      rintro ⟨a, t', ha, ht', htakes⟩
      cases haccount.symm.trans ha
      cases ht.symm.trans ht'
      exact htakes
    · have hside : t'.ownerId = tx.from ∨ t'.ownerId = tx.to :=
        hover.elim (fun h => Or.inl h.1) fun h => h.1.imp And.left And.right
      exact ((Token.takes_iff hb).1 (hreceiver hne a t' ha ht' hside)).2 hover

/-- An accepted send is applied exactly when it fits. -/
theorem send_applies_iff (hacc : AcceptsSend env storage cache tx) :
    (runAlone storage (addTransactionToAccount env tx) cache).1 = .ok () ↔
      SendFits (accounts storage cache) tx :=
  addTransactionToAccount_isOk_iff_goes.trans hacc.goes_iff

end Send

/-! ## Calls -/

section Call

variable {env : Env} {storage cache : AccountStore} {tx : Transaction} {outputs : Outputs}

/-- An accepted call is applied exactly when it fits. -/
theorem call_applies_iff (hacc : AcceptsCall env storage cache outputs tx) :
    (runAlone storage (applyInstructionsToAccounts env tx outputs) cache).1 = .ok () ↔
      CallFits (accounts storage cache) tx outputs := by
  obtain ⟨caller, hcaller, -⟩ := hacc.checked
  have hrefines :
      (runAlone storage (applyInstructionsToAccounts env tx outputs) cache).1.toOption.map
        (fun _ => accounts storage
          (runAlone storage (applyInstructionsToAccounts env tx outputs) cache).2) =
      callLedger tx (accounts storage cache) outputs := call_refines
  rw [← callLedger_isSome_iff (fun _ _ => address_of_accounts) (by rw [hcaller]; rfl), ← hrefines]
  cases (runAlone storage (applyInstructionsToAccounts env tx outputs) cache).1 with
  | error e => simp [Except.toOption]
  | ok u => exact iff_of_true rfl ⟨_, rfl⟩

/-- What the validator accepts the batcher applies, a call exactly when it fits and a send
exactly when it does. -/
theorem validated_applies_iff :
    (AcceptsCall env storage cache outputs tx →
      ((runAlone storage (applyInstructionsToAccounts env tx outputs) cache).1 = .ok () ↔
        CallFits (accounts storage cache) tx outputs)) ∧
    (AcceptsSend env storage cache tx →
      ((runAlone storage (addTransactionToAccount env tx) cache).1 = .ok () ↔
        SendFits (accounts storage cache) tx)) :=
  ⟨call_applies_iff, send_applies_iff⟩

end Call

theorem validated_applies_iff_tenEth :
    AcceptsCall .small (fun _ => none) oneProgram mintAndBurn (callOf 7#160 9#160 1#256) ∧
      CallFits (accounts (fun _ => none) oneProgram) (callOf 7#160 9#160 1#256) mintAndBurn ∧
      AcceptsSend .small (fun _ => none) tenEth (ethSend 7#160 8#160 4#256 1#256) ∧
      ethSendRun.1 = .ok () := by
  have hcall : AcceptsCall .small (fun _ => none) oneProgram mintAndBurn
      (callOf 7#160 9#160 1#256) := acceptsCall_of_sent rfl
  have hsend : AcceptsSend .small (fun _ => none) tenEth (ethSend 7#160 8#160 4#256 1#256) :=
    ⟨rfl, List.mem_singleton_self _⟩
  have hfits : SendFits (accounts (fun _ => none) tenEth) (ethSend 7#160 8#160 4#256 1#256) := by
    refine ⟨Or.inr ⟨_, _, rfl, rfl, Or.inl ⟨rfl, by decide⟩⟩, Or.inr (Or.inl rfl), ?_⟩
    rintro - a t ha
    cases (show accounts (fun _ => none) tenEth 8#160 = none from rfl).symm.trans ha
  exact ⟨hcall, (validated_applies_iff.1 hcall).1 rfl, hsend,
    ((@validated_applies_iff .small _ _ _ mintAndBurn).2 hsend).2 hfits⟩

/-- Pay 6 of 10 ETH, twice. -/
def payTwice : Outputs where
  instructions := [.transfer (ethTransfer (.address 7#160) (.address 8#160) 6#256),
    .transfer (ethTransfer (.address 7#160) (.address 8#160) 6#256)]

/-- Each of two transfers can be paid for, and both together cannot. -/
theorem accepted_call_fails :
    AcceptsCall .small (fun _ => none) oneProgram payTwice (callOf 7#160 9#160 1#256) ∧
      ¬(callRun oneProgram (callOf 7#160 9#160 1#256) payTwice).1 = .ok () := by
  have hrun : (callRun oneProgram (callOf 7#160 9#160 1#256) payTwice).1 = .error _ := rfl
  refine ⟨acceptsCall_of_sent rfl, ?_⟩
  rw [hrun]
  exact fun h => nomatch h

end Lasr
