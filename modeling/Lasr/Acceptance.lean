import Lasr.Ledger
import Lasr.Validator

/-!
# What the validator accepts

The validator accepts a call by handing it to the batcher (`AcceptsCall`). The accounts it
looks at are those its reads found, so what it accepts is a condition on one map of accounts
(`acceptsCall_iff`), instruction by instruction.

Each check of an instruction comes with what it says of that map. `CallStep` is one
instruction of the call at work, with what the call sees before and after it.
-/

set_option linter.unusedSectionVars false

namespace Lasr

/-! ## Acceptance -/

section Accept

variable {ε α : Type}

/-- The account cache, with a record of the messages that are sent. -/
def recording (storage : AccountStore) : Handler effects (AccountStore × List Msg)
  | .cast m, s => ((), (s.1, s.2 ++ [m]))
  | o, s => ((answer storage o s.1).1, ((answer storage o s.1).2, s.2))

/-- The messages a future sends when it runs alone. -/
def sentAlone (storage : AccountStore) (p : Async ε α) (cache : AccountStore) : List Msg :=
  (Prog.run (recording storage) p (cache, [])).2.2

/-- The validator hands the call to the batcher. -/
def AcceptsCall (env : Env) (storage cache : AccountStore) (outputs : Outputs)
    (tx : Transaction) : Prop :=
  .batcher (.appendTransaction tx (some outputs)) ∈
    sentAlone storage (pendingCall env (some outputs) tx) cache

/-- The validator hands the send to the batcher. -/
def AcceptsSend (env : Env) (storage cache : AccountStore) (tx : Transaction) : Prop :=
  tx.transactionType.isSend = true ∧
    .batcher (.appendTransaction tx none) ∈ sentAlone storage (pendingTransaction env tx) cache

end Accept

/-- The references whose accounts `pending_call` reads. -/
def involved (outputs : Outputs) (tx : Transaction) : List AddressOrNamespace :=
  outputs.instructions.flatMap Instruction.getAccountsInvolved ++
    [.address tx.from, .address tx.to]

/-- The account map of a call, read off a map of accounts. -/
def accountLookup (v : AccountMap) (tx : Transaction) (refs : List AddressOrNamespace) :
    AccountLookup := fun ref =>
  if ref ∈ refs then some ((ref.resolve tx).bind v) else none

section Iff

variable {env : Env} {storage cache : AccountStore} {outputs : Outputs} {tx : Transaction}

theorem accountLookup_of_mem {v : AccountMap} {refs : List AddressOrNamespace}
    {ref : AddressOrNamespace} (h : ref ∈ refs) :
    accountLookup v tx refs ref = some ((ref.resolve tx).bind v) :=
  if_pos h

/-- The reads of `pending_call` leave the account map in the hands of the rest. -/
theorem run_readAccounts {β : Type} (f : AccountLookup → ValidatorM β) (out : List Msg) :
    ∀ (refs : List AddressOrNamespace) (accs : AccountLookup),
      Prog.run (recording storage) (readAccounts tx refs accs >>= f) (cache, out) =
        Prog.run (recording storage)
          (f fun ref => (accountLookup (accounts storage cache) tx refs ref).or (accs ref))
          (cache, out)
  | [], accs => rfl
  | ref :: refs, accs => by
    have hstep : ∀ accs', accs' = accs.insert ref ((ref.resolve tx).bind (accounts storage cache)) →
        (fun r => (accountLookup (accounts storage cache) tx refs r).or (accs' r)) =
          fun r => (accountLookup (accounts storage cache) tx (ref :: refs) r).or (accs r) := by
      rintro accs' rfl
      funext r
      by_cases hr : r = ref
      · subst hr
        by_cases hm : r ∈ refs <;> simp [accountLookup, hm]
      · simp [accountLookup, hr, BTreeMap.insert_of_ne _ _ hr]
    cases ref with
    | this =>
      rw [← hstep _ rfl, ← run_readAccounts f out refs]
      rfl
    | address a =>
      rw [← hstep _ rfl, ← run_readAccounts f out refs]
      rfl
    | «namespace» n =>
      rw [← hstep _ rfl, ← run_readAccounts f out refs]
      rfl

/-- The validator's report sends an accepted transaction to the batcher and a rejected one
back. -/
theorem sent_report (storage cache : AccountStore) (outs : Option Outputs)
    (x : Except String Unit) :
    Msg.batcher (.appendTransaction tx outs) ∈
      (Prog.run (recording storage) (report tx outs x) (cache, [])).2.2 ↔ x = .ok () := by
  cases x with
  | error e =>
    change Msg.batcher _ ∈ [Msg.pending _] ↔ _
    simp
  | ok u =>
    change Msg.batcher _ ∈ [Msg.batcher _] ↔ _
    simp

theorem bind_unit_ok_iff {x : Except String Unit} {f : Unit → Except String Unit} :
    (x >>= f) = .ok () ↔ x = .ok () ∧ f () = .ok () := by
  rw [Except.bind_eq_ok_iff]
  exact ⟨fun ⟨_, hx, hf⟩ => ⟨hx, hf⟩, fun ⟨hx, hf⟩ => ⟨(), hx, hf⟩⟩

theorem forM_eq_ok_iff {α : Type} {f : α → Except String Unit} :
    ∀ {l : List α}, l.forM f = .ok () ↔ ∀ x ∈ l, f x = .ok ()
  | [] => by simp [pure, Except.pure]
  | x :: l => by
    rw [List.forM_eq_forM, List.forM_cons, bind_unit_ok_iff, List.forall_mem_cons,
      ← List.forM_eq_forM, forM_eq_ok_iff]

/-- What the validator has found of a call it accepts. -/
theorem acceptsCall_iff :
    AcceptsCall env storage cache outputs tx ↔
      tx.verifySignature env = .ok () ∧ ∃ caller, accounts storage cache tx.from = some caller ∧
        caller.validateNonce tx.nonce = .ok () ∧
        ∀ i ∈ outputs.instructions, checkInstruction tx caller
          (accountLookup (accounts storage cache) tx (involved outputs tx)) i = .ok () := by
  have hmem : AddressOrNamespace.address tx.from ∈ involved outputs tx := by simp [involved]
  have hlookup : (fun ref =>
      (accountLookup (accounts storage cache) tx (involved outputs tx) ref).or none) =
        accountLookup (accounts storage cache) tx (involved outputs tx) := by
    funext ref
    simp
  unfold AcceptsCall sentAlone pendingCall
  simp only
  rw [run_readAccounts]
  refine (sent_report storage cache (some outputs) _).trans ?_
  change checkCall env (fun ref => (accountLookup _ tx (involved outputs tx) ref).or none)
    outputs tx = .ok () ↔ _
  rw [hlookup, checkCall, bind_unit_ok_iff, accountLookup_of_mem hmem]
  cases hc : accounts storage cache tx.from with
  | none => simp [AddressOrNamespace.resolve, hc]
  | some caller =>
    simp only [AddressOrNamespace.resolve, Option.bind_some, hc, bind_unit_ok_iff,
      validateInstructions, forM_eq_ok_iff, Option.some.injEq, exists_eq_left']

/-- What the validator has found of a send it accepts. -/
theorem acceptsSend_iff :
    AcceptsSend env storage cache tx ↔
      tx.transactionType.isSend = true ∧ ∃ account, accounts storage cache tx.from = some account ∧
        checkSend env tx account = .ok () := by
  unfold AcceptsSend
  refine and_congr_right fun hsend => ?_
  cases htype : tx.transactionType with
  | send n =>
    have hread : ∀ f : Option Account → ValidatorM Unit,
        sentAlone storage (getAccount tx.from >>= f) cache =
          (Prog.run (recording storage) (f (accounts storage cache tx.from)) (cache, [])).2.2 :=
      fun f => rfl
    unfold pendingTransaction
    rw [htype]
    dsimp only
    rw [hread]
    cases accounts storage cache tx.from with
    | none =>
      change Msg.batcher _ ∈ [Msg.pending _] ↔ _
      simp
    | some account =>
      refine (sent_report storage cache none (checkSend env tx account)).trans ?_
      simp
  | _ => simp [htype, TransactionType.isSend] at hsend

/-- The reads cover what the instructions name. -/
theorem mem_involved {i : Instruction} (hi : i ∈ outputs.instructions) {ref : AddressOrNamespace}
    (h : ref ∈ i.getAccountsInvolved) : ref ∈ involved outputs tx :=
  List.mem_append_left _ (List.mem_flatMap.2 ⟨i, hi, h⟩)

end Iff

/-! ## The checks of an account -/

namespace Account

variable {a : Account} {k spender : Address} {amt : U256} {ids : List U256}

theorem validateBalance_ok_iff :
    a.validateBalance k amt = .ok () ↔ ∃ t, a.programs k = some t ∧ amt ≤ t.balance := by
  unfold validateBalance
  cases a.programs k with
  | none => simp [noProgram]
  | some t =>
    simp only [Option.some.injEq, exists_eq_left']
    split_ifs with h <;> simp [h]

/-- A spender may take an amount below its allowance, anything under an empty approval, and
anything of the program's own token from the account of a program. -/
theorem validateApprovedSpend_ok (h : a.validateApprovedSpend k spender amt = .ok ()) :
    ∃ t, a.programs k = some t ∧
      ((∃ entry, t.allowance spender = some entry ∧ amt < entry) ∨
        t.allowance spender = none ∧ t.approvals spender = some [] ∨
        t.allowance spender = none ∧ t.approvals spender = none ∧ a.accountType = .program k) := by
  unfold validateApprovedSpend at h
  split at h
  · next t ht =>
    refine ⟨t, ht, ?_⟩
    split at h
    · next entry he =>
      split_ifs at h with hlt
      exact Or.inl ⟨entry, he, hlt⟩
    · next hnone =>
      split at h
      · next entry he =>
        split_ifs at h with hempty
        rw [List.isEmpty_iff] at hempty
        exact Or.inr (Or.inl ⟨hnone, hempty ▸ he⟩)
      · next hno =>
        split at h
        · next programAddr htype =>
          split_ifs at h with hp
          · exact Or.inr (Or.inr ⟨hnone, hno, by rw [htype, hp]⟩)
          · simp [noProgram] at h
        · cases h
  · simp [noProgram] at h

/-- No approval lets a spender take ids : only the account of a program gives ids away, of
its own token. -/
theorem validateApprovedTokenTransfer_ok
    (h : a.validateApprovedTokenTransfer k spender ids = .ok ()) : a.accountType = .program k := by
  unfold validateApprovedTokenTransfer at h
  split at h
  · split at h
    · split_ifs at h
      split at h
      · split_ifs at h
        simp [noProgram] at h
      · simp [noProgram] at h
    · split at h
      · next programAddr htype =>
        split_ifs at h with hp
        · rw [htype, hp]
        · simp [noProgram] at h
      · simp [noProgram] at h
  · simp [noProgram] at h

end Account

/-! ## The checks of an instruction -/

section Checks

variable {tx : Transaction} {caller : Account} {m : AccountLookup}

@[simp]
theorem eitherApproval_ok_iff {x y : Except String Unit} :
    eitherApproval x y = .ok () ↔ x = .ok () ∨ y = .ok () := by
  cases x with
  | ok u => exact iff_of_true rfl (Or.inl rfl)
  | error e => exact (or_iff_right (by simp)).symm

/-- What the validator has checked of an instruction that takes `amount` and `ids` of `token`
from an account. `program` is the program that it takes for the one that was called, and
an account of `exempt` needs no approval for an amount. -/
structure TakeChecked (caller : Account) (m : AccountLookup) (program : Address)
    (exempt : Account → Prop) («from» : AddressOrNamespace) (token : Address)
    (amount : Option U256) (ids : List U256) : Prop where
  own : «from» = .address caller.ownerAddress →
    (∀ amt, amount = some amt → caller.validateBalance token amt = .ok ()) ∧
      (amount = none → caller.validateTokenOwnership program ids = .ok ())
  other : «from» ≠ .address caller.ownerAddress → ∃ account, m «from» = some (some account) ∧
    (account.programs token).isSome ∧
    (∀ amt, amount = some amt → account.validateBalance token amt = .ok () ∧
      (exempt account ∨ account.validateApprovedSpend token caller.ownerAddress amt = .ok () ∨
        account.validateApprovedSpend token program amt = .ok ())) ∧
    (amount = none → account.validateTokenOwnership token ids = .ok () ∧
      (account.validateApprovedTokenTransfer token caller.ownerAddress ids = .ok () ∨
        account.validateApprovedTokenTransfer token program ids = .ok ()))

section Take

variable {program token : Address} {exempt : Account → Prop} {«from» : AddressOrNamespace}
  {amount : Option U256} {ids : List U256}

theorem takeChecked_own (hown : «from» = .address caller.ownerAddress) :
    TakeChecked caller m program exempt «from» token amount ids ↔
      (match amount with
        | some amt => caller.validateBalance token amt
        | none => caller.validateTokenOwnership program ids) = .ok () := by
  constructor
  · intro h
    obtain ⟨hamount, hids⟩ := h.own hown
    cases amount with
    | none => exact hids rfl
    | some amt => exact hamount amt rfl
  · refine fun h => ⟨fun _ => ?_, fun hne => absurd hown hne⟩
    cases amount with
    | none => exact ⟨(fun _ hn => nomatch hn), fun _ => h⟩
    | some amt => exact ⟨fun _ hs => Option.some.inj hs ▸ h, (fun hn => nomatch hn)⟩

theorem takeChecked_other (hother : «from» ≠ .address caller.ownerAddress) :
    TakeChecked caller m program exempt «from» token amount ids ↔
      ∃ account, m «from» = some (some account) ∧ (account.programs token).isSome ∧
        match amount with
        | some amt => account.validateBalance token amt = .ok () ∧
          (exempt account ∨
            eitherApproval (account.validateApprovedSpend token caller.ownerAddress amt)
              (account.validateApprovedSpend token program amt) = .ok ())
        | none => account.validateTokenOwnership token ids = .ok () ∧
          eitherApproval (account.validateApprovedTokenTransfer token caller.ownerAddress ids)
            (account.validateApprovedTokenTransfer token program ids) = .ok () := by
  constructor
  · intro h
    obtain ⟨account, hm, hheld, hamount, hids⟩ := h.other hother
    refine ⟨account, hm, hheld, ?_⟩
    cases amount with
    | none => simpa using hids rfl
    | some amt => simpa using hamount amt rfl
  · rintro ⟨account, hm, hheld, h⟩
    refine ⟨fun hown => absurd hown hother, fun _ => ⟨account, hm, hheld, ?_⟩⟩
    cases amount with
    | none => exact ⟨(fun _ hn => nomatch hn), fun _ => by simpa using h⟩
    | some amt =>
      refine ⟨fun amt' hs => ?_, (fun hn => nomatch hn)⟩
      cases hs
      simpa using h

end Take

/-- A transfer is checked for the called program, whose own account needs no approval. -/
theorem checkTransfer_ok_iff {transfer : TransferInstruction} :
    checkTransfer tx caller m transfer = .ok () ↔
      TakeChecked caller m tx.to (fun account => account.accountType = .program tx.to)
        transfer.from transfer.token transfer.amount transfer.ids := by
  unfold checkTransfer
  by_cases hown : transfer.from = .address caller.ownerAddress
  · rw [if_pos hown]
    exact (takeChecked_own hown).symm
  · simp only [takeChecked_other hown, if_neg hown]
    rcases m transfer.from with _ | _ | account
    · simp
    · simp
    · cases hheld : account.programs transfer.token with
      | none => simp [hheld]
      | some t =>
        cases transfer.amount with
        | none => simp [hheld, bind_unit_ok_iff]
        | some amt =>
          cases hbal : account.validateBalance transfer.token amt with
          | error e => simp [hheld, hbal]
          | ok u =>
            by_cases hex : account.accountType = .program tx.to
            · simp [hheld, hbal, hex]
            · simp [hheld, hbal, hex]

/-- A burn is checked for the program it names. -/
theorem checkBurn_ok_iff {burn : BurnInstruction} :
    checkBurn tx caller m burn = .ok () ↔ ∃ program, burn.programId.resolve tx = some program ∧
      TakeChecked caller m program (fun _ => False) burn.from burn.token burn.amount
        burn.tokenIds := by
  have hbody : ∀ program, checkBurn tx caller m { burn with programId := .address program } =
      .ok () ↔ TakeChecked caller m program (fun _ => False) burn.from burn.token burn.amount
        burn.tokenIds := by
    intro program
    unfold checkBurn
    dsimp only
    by_cases hown : burn.from = .address caller.ownerAddress
    · rw [if_pos hown]
      exact (takeChecked_own hown).symm
    · simp only [takeChecked_other hown, if_neg hown]
      rcases m burn.from with _ | _ | account
      · simp
      · simp
      · cases hheld : account.programs burn.token with
        | none => simp [hheld]
        | some t => cases burn.amount <;> simp [hheld, bind_unit_ok_iff]
  have hnamed : ∀ program, burn.programId.resolve tx = some program →
      checkBurn tx caller m burn =
        checkBurn tx caller m { burn with programId := .address program } := by
    intro program hprogram
    unfold checkBurn
    cases hid : burn.programId with
    | «namespace» n => simp [hid, AddressOrNamespace.resolve] at hprogram
    | address a =>
      obtain rfl : a = program := by simpa [hid, AddressOrNamespace.resolve] using hprogram
      rfl
    | this =>
      obtain rfl : tx.to = program := by simpa [hid, AddressOrNamespace.resolve] using hprogram
      rfl
  cases hresolve : burn.programId.resolve tx with
  | none =>
    cases hid : burn.programId with
    | «namespace» n => simp [checkBurn, hid]
    | address a => simp [hid, AddressOrNamespace.resolve] at hresolve
    | this => simp [hid, AddressOrNamespace.resolve] at hresolve
  | some program =>
    rw [hnamed program hresolve, hbody program]
    simp

/-- A program update names an account that the sender owns, that was called, or that is linked
to the called program. -/
theorem checkProgramUpdate_ok {u : ProgramUpdate} (h : checkProgramUpdate tx m u = .ok ()) :
    ∃ account, m u.account = some (some account) ∧
      (account.ownerAddress = tx.from ∨ u.account = .address tx.to ∨
        .address tx.to ∈ account.programAccountLinkedPrograms) := by
  unfold checkProgramUpdate at h
  split at h
  · next account hm =>
    refine ⟨account, hm, ?_⟩
    split_ifs at h with hdenied
    · simp [failedProgramUpdate] at h
    · simp only [ProgramUpdate.isSelf, not_and, not_not, decide_eq_true_eq] at hdenied
      by_cases howner : account.ownerAddress = tx.from
      · exact Or.inl howner
      · by_cases hself : u.account = .address tx.to
        · exact Or.inr (Or.inl hself)
        · exact Or.inr (Or.inr (hdenied howner hself))
  · simp [failedProgramUpdate] at h

theorem checkOwned_ok {found : Option (Option Account)} {field : String}
    (h : checkOwned caller found field = .ok ()) :
    ∃ account, found = some (some account) ∧ account.ownerAddress = caller.ownerAddress := by
  unfold checkOwned at h
  split at h
  · next account =>
    split_ifs at h with hne
    exact ⟨account, rfl, not_not.1 hne⟩
  · cases h

/-- The two fields of an entry that say who may spend from it. -/
def TokenFieldValue.isGrant : TokenFieldValue → Bool
  | .allowance _ => true
  | .approvals _ => true
  | _ => false

/-- An update of a grant is made by the owner of the account. -/
theorem checkTokenField_grant {u : TokenUpdate} {f : TokenFieldValue} (hf : f.isGrant = true)
    (h : checkTokenField tx caller m u f = .ok ()) :
    ∃ account, m u.account = some (some account) ∧
      account.ownerAddress = caller.ownerAddress := by
  cases f with
  | allowance v => exact checkOwned_ok h
  | approvals v => exact checkOwned_ok h
  | _ => cases hf

end Checks

/-! ## The instructions of an accepted call -/

section Accepted

variable {env : Env} {storage cache : AccountStore} {outputs : Outputs} {tx : Transaction}
  {caller : Account}

/-- The checks of the instructions, on one map of accounts. -/
def Checked (v : AccountMap) (tx : Transaction) (outputs : Outputs) (caller : Account) : Prop :=
  ∀ i ∈ outputs.instructions,
    checkInstruction tx caller (accountLookup v tx (involved outputs tx)) i = .ok ()

variable {v : AccountMap}

/-- The account a checked reference leads to. -/
theorem Checked.account_of_lookup {i : Instruction} {ref : AddressOrNamespace} {account : Account}
    (hi : i ∈ outputs.instructions) (href : ref ∈ i.getAccountsInvolved)
    (h : accountLookup v tx (involved outputs tx) ref = some (some account)) :
    ∃ x, ref.resolve tx = some x ∧ v x = some account := by
  rw [accountLookup_of_mem (mem_involved hi href), Option.some.injEq] at h
  exact Option.bind_eq_some_iff.1 h

theorem Checked.programUpdate (hc : Checked v tx outputs caller) {i : UpdateInstruction}
    (hi : .update i ∈ outputs.instructions) {u : ProgramUpdate}
    (hu : .programUpdate u ∈ i.updates) :
    ∃ x account, u.account.resolve tx = some x ∧ v x = some account ∧
      (account.ownerAddress = tx.from ∨ x = tx.to ∨
        .address tx.to ∈ account.programAccountLinkedPrograms) := by
  have hall := forM_eq_ok_iff.1 (hc _ hi) _ hu
  obtain ⟨account, hm, hauth⟩ := checkProgramUpdate_ok hall
  have href : u.account ∈ (Instruction.update i).getAccountsInvolved :=
    List.mem_map.2 ⟨_, hu, rfl⟩
  obtain ⟨x, hx, hv⟩ := Checked.account_of_lookup hi href hm
  refine ⟨x, account, hx, hv, ?_⟩
  rcases hauth with ho | hself | hlinked
  · exact Or.inl ho
  · rw [hself] at hx
    cases hx
    exact Or.inr (Or.inl rfl)
  · exact Or.inr (Or.inr hlinked)

/-- A grant of an existing account is only updated by its owner. -/
theorem Checked.grant (hc : Checked v tx outputs caller) {i : UpdateInstruction}
    (hi : .update i ∈ outputs.instructions) {u : TokenUpdate} (hu : .tokenUpdate u ∈ i.updates)
    {f : TokenUpdateField} (hf : f ∈ u.updates) (hgrant : f.value.isGrant = true) :
    ∃ x account, u.account.resolve tx = some x ∧ v x = some account ∧
      account.ownerAddress = caller.ownerAddress := by
  have hall := forM_eq_ok_iff.1 (hc _ hi) _ hu
  obtain ⟨account, hm, ho⟩ := checkTokenField_grant hgrant (forM_eq_ok_iff.1 hall f hf)
  have href : u.account ∈ (Instruction.update i).getAccountsInvolved :=
    List.mem_map.2 ⟨_, hu, rfl⟩
  obtain ⟨x, hx, hv⟩ := Checked.account_of_lookup hi href hm
  exact ⟨x, account, hx, hv, ho⟩

theorem AcceptsCall.checked (h : AcceptsCall env storage cache outputs tx) :
    ∃ caller, accounts storage cache tx.from = some caller ∧
      Checked (accounts storage cache) tx outputs caller := by
  obtain ⟨-, caller, hcaller, -, hall⟩ := acceptsCall_iff.1 h
  exact ⟨caller, hcaller, hall⟩

end Accepted

end Lasr
