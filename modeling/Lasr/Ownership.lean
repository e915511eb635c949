import Lasr.Identity

/-!
# Who owns an entry

An entry is to belong to the account it is in (`Account.TokensOwned`) : `TryFrom` compares the
sender and the receiver of a send with the owner of the entry. A new entry of a distribution or
of an update is given the address of its account. One of a transfer is given its
`owner_address`, which on the account of a program is somebody else's, and one of a send is
given the receiver, on the sender's account as well.

A run from the empty node keeps every entry with its account as long as its steps avoid these
two cases (`tokens_owned`). A transfer to a program is enough to leave the run
(`transfer_to_program_disowned`).
-/

set_option linter.unusedSectionVars false

namespace Lasr

/-- Every account is filed under its address and owns its entries. -/
def Owned (v : AccountMap) : Prop :=
  ∀ x a, v x = some a → a.address = x ∧ a.TokensOwned

namespace Account

variable {a a' : Account}

theorem TokensOwned.filed (h : a.TokensOwned) : a.Filed :=
  fun k t ht => (h k t ht).1

theorem tokensOwned_of_empty (h : a.programs = fun _ => none) : a.TokensOwned := by
  intro k t ht
  rw [h] at ht
  cases ht

/-- New entries of the account's own address keep it the owner. -/
theorem TokensOwned.succeeds (howned : a.TokensOwned) (h : a.Succeeds a.address a') :
    a'.TokensOwned := by
  intro k t' ht'
  rw [h.address]
  cases ht : a.programs k with
  | none => exact h.added k t' ht ht'
  | some t =>
    obtain ⟨u, hu, hp, ho⟩ := h.entries k t ht
    cases ht'.symm.trans hu
    exact ⟨hp.trans (howned k t ht).1, ho.trans (howned k t ht).2⟩

end Account

theorem Owned.put {v : AccountMap} (h : Owned v) {b : Account} (hb : b.TokensOwned) :
    Owned (v.put b) := by
  intro x a ha
  rw [AccountMap.put_apply] at ha
  split_ifs at ha with hx
  · cases ha
    exact ⟨hx.symm, hb⟩
  · exact h x a ha

/-! ## Sends -/

/-- The sender's side of a send gets no entry that is the receiver's : between two accounts,
one without the token is neither bridged into nor a program of the receiver. -/
def SendsHome (v : AccountMap) (tx : Transaction) : Prop :=
  tx.to ≠ tx.from → ∀ a, (v tx.from = some a ∨ v tx.from = none ∧ a = Account.build .user tx.from) →
    a.programs tx.programId = none →
    tx.transactionType.isBridgeIn = false ∧ tx.to ≠ a.ownerAddress

section Sends

variable {storage cache : AccountStore} {tx : Transaction} {v : AccountMap} {b : Account}

theorem SendWrites.owned (h : SendWrites v tx b) (hv : Owned v) (hhome : SendsHome v tx) :
    b.TokensOwned := by
  obtain ⟨hside, a, a₁, ha, hinc, hsend⟩ := h
  have hgood : a.address = b.address ∧ a.TokensOwned := by
    rcases ha with ha | ⟨-, rfl⟩
    · exact hv _ a ha
    · exact ⟨rfl, Account.tokensOwned_build _ _⟩
  obtain ⟨haddr, howned⟩ := hgood
  have h₁ : a.Succeeds a.address a₁ := by
    rcases hinc with rfl | hinc
    · exact .refl _ _
    · exact Account.succeeds_incrementNonce hinc
  have howned₁ := howned.succeeds h₁
  have haddr₁ := h₁.address.trans haddr
  rcases hsend with rfl | ⟨programAccount, token, hsend⟩
  · exact howned₁
  · rcases Account.applySendTransaction_succeeds howned₁.filed hsend with hany |
      ⟨hsucc, hnone, hcase⟩
    · exact howned₁.succeeds (hany _)
    · -- A new entry, which is the receiver's.
      have hto : tx.to = a₁.address := by
        by_cases hself : tx.to = tx.from
        · rcases hside with hside | hside
          · rw [haddr₁, hside, hself]
          · rw [haddr₁, hside]
        rcases hside with hside | hside
        · have hnone' : a.programs tx.programId = none := by
            cases hp : a.programs tx.programId with
            | none => rfl
            | some t =>
              obtain ⟨t', ht', -⟩ := h₁.entries _ t hp
              rw [hnone] at ht'
              cases ht'
          obtain ⟨hb, howner⟩ := hhome hself a (by rw [← hside]; exact ha) hnone'
          rcases hcase with hbridge | ⟨-, hown | htype⟩
          · rw [hb] at hbridge
            cases hbridge
          · rw [h₁.ownerAddress] at hown
            exact absurd hown howner
          · simp [Account.address, htype]
        · rw [haddr₁, hside]
      rw [hto] at hsucc
      exact howned₁.succeeds hsucc

theorem owned_send (env : Env) (h : Owned (accounts storage cache))
    (hhome : SendsHome (accounts storage cache) tx) :
    Owned (accounts storage (runAlone storage (addTransactionToAccount env tx) cache).2) :=
  send_induction env h fun _ _ hs _ hwrites => hs.put (hwrites.owned h hhome)

end Sends

/-! ## Calls -/

/-- The account a transfer credits has the token already, or is its own owner. -/
def Instruction.CreditsHome (tx : Transaction) (s : AccountMap) : Instruction → Prop
  | .transfer i => ∀ y a, i.to.resolve tx = some y → s y = some a → a.programs i.token = none →
      a.ownerAddress = y
  | _ => True

section Calls

variable {storage cache : AccountStore} {tx : Transaction} {outputs : Outputs}
  {v s s' : AccountMap} {i : Instruction}

/-- A credit of an entry that is there keeps its owner. -/
theorem receive_succeeds_of_held {a a' : Account} {k : Address} {amount : Option U256}
    {ids : List U256} {programAccount : Option Account} {t : Token} (ht : a.programs k = some t)
    (h : (Edit.receive k amount ids programAccount).apply a = some a') (owner : Address) :
    a.Succeeds owner a' := by
  obtain ⟨u, u', hs, hreceive, rfl⟩ := Edit.receive_apply h
  have heq := Token.receive_eq hreceive
  rcases hs with hu | ⟨hn, -⟩
  · exact Account.succeeds_insertProgram (Or.inl hu) (by rw [heq]) (by rw [heq])
  · rw [ht] at hn
    cases hn

/-- Every change but the credit of a transfer keeps the account the owner of its entries. -/
theorem Instruction.Plans.owned {c : AccountChange} {a a' : Account} (h : i.Plans tx v c)
    (howned : a.TokensOwned) (happ : c.edit.apply a = some a')
    (hcredit : ∀ t, i = .transfer t → c.key = a.address → t.to.resolve tx = some c.key →
      a.programs t.token = none → a.ownerAddress = c.key) (hkey : a.address = c.key) :
    a'.TokensOwned := by
  have hsucc := Edit.apply_succeeds happ
  cases h with
  | @receive t y programAccount hy hp =>
    cases hentry : a.programs t.token with
    | some u => exact howned.succeeds (receive_succeeds_of_held hentry happ _)
    | none =>
      have howner : a.ownerAddress = a.address :=
        (hcredit t rfl hkey.symm hy hentry).trans hkey.symm
      rw [Edit.newOwner, howner] at hsucc
      exact howned.succeeds hsucc
  | _ => exact howned.succeeds hsucc

/-- The account built for the receiver of a transfer is its own owner. -/
theorem Instruction.Plans.fresh_owner {t : TransferInstruction} {c : AccountChange} {a : Account}
    (h : (Instruction.transfer t).Plans tx v c) (ha : c.fresh = some a) :
    a.ownerAddress = c.key := by
  cases h with
  | give hx => cases ha
  | receive hy hp =>
    cases hto : t.to with
    | address b =>
      rw [hto] at hy
      cases hy
      simp only [hto, AddressOrNamespace.newAccount] at ha
      cases ha
      rfl
    | this =>
      simp only [hto, AddressOrNamespace.newAccount] at ha
      cases ha
    | «namespace» n =>
      simp only [hto, AddressOrNamespace.newAccount] at ha
      cases ha

theorem owned_step (hstep : CallStep storage cache tx outputs i s s')
    (hcredit : i.CreditsHome tx s) (hs : Owned s) : Owned s' := by
  obtain ⟨-, w, ms, hms, hrun⟩ := hstep.plan
  have hplans := fun m hm c hc => @Instruction.plans_of_mem tx w i ms m c hms hm hc
  have hfresh : ∀ m ∈ ms, ∀ c ∈ m.changes, ∀ a, c.fresh = some a →
      a.address = c.key ∧ a.TokensOwned := fun m hm c hc a ha =>
    ⟨(hplans m hm c hc).freshKeyed a ha,
      Account.tokensOwned_of_empty ((hplans m hm c hc).fresh_programs ha)⟩
  by_cases htransfer : ∃ t, i = .transfer t
  · obtain ⟨t, rfl⟩ := htransfer
    obtain ⟨m, -, rfl⟩ := Option.map_eq_some_iff.1 hms
    obtain ⟨u, hu, hr⟩ := Option.bind_eq_some_iff.1 hrun
    cases hr
    -- Before the move the receiver's account is as the hypothesis says, or was built for it.
    refine Move.run_maps (P := fun x a => (a.address = x ∧ a.TokensOwned) ∧
      (t.to.resolve tx = some x → a.programs t.token = none → a.ownerAddress = x))
      (fun c hc a ha => ⟨hfresh m (List.mem_singleton_self m) c hc a ha, fun _ _ => ?_⟩)
      (fun c hc a a' ha happ => ⟨?_, ?_⟩) (fun x a ha => ha.1)
      (fun x a ha => ⟨hs x a ha, fun hy hn => hcredit x a hy ha hn⟩) hu
    · exact (hplans m (List.mem_singleton_self m) c hc).fresh_owner ha
    · exact (Edit.apply_succeeds happ).address.trans ha.1.1
    · refine (hplans m (List.mem_singleton_self m) c hc).owned ha.1.2 happ ?_ ha.1.1
      rintro t' ht' - hy hn
      cases ht'
      exact ha.2 hy hn
  · refine runMoves_keeps hfresh (fun m hm c hc a a' ha happ => ⟨?_, ?_⟩) hs hrun
    · exact (Edit.apply_succeeds happ).address.trans ha.1
    · exact (hplans m hm c hc).owned ha.2 happ
        (fun t ht => absurd ⟨t, ht⟩ htransfer) ha.1

theorem owned_call (env : Env) (h : Owned (accounts storage cache))
    (hcredit : ∀ i s s', CallStep storage cache tx outputs i s s' → i.CreditsHome tx s) :
    Owned (accounts storage
      (runAlone storage (applyInstructionsToAccounts env tx outputs) cache).2) := by
  refine call_induction env h (fun caller caller' hcaller hinc => h.put ?_)
    fun i s s' hstep hs => owned_step hstep (hcredit i s s' hstep) hs
  exact (h _ _ hcaller).2.succeeds (Account.succeeds_incrementNonce hinc)

end Calls

/-! ## Registrations -/

theorem owned_registration {storage cache : AccountStore} {tx : Transaction} (env : Env)
    (h : Owned (accounts storage cache)) :
    Owned (accounts storage (runAlone storage (applyProgramRegistration env tx) cache).2) := by
  unfold applyProgramRegistration
  rw [runAlone_getAccount_bind]
  cases hdeployer : accounts storage cache tx.from with
  | none => exact h
  | some deployer =>
    dsimp only
    split
    · exact h
    · exact h
    · exact h
    · split
      · exact h
      · next programId hid =>
        -- The new account is empty, and the deployer's only has its nonce advanced.
        rw [runAlone_addAccountToBatch_bind]
        have hprogram : ∀ metadata, Owned (accounts storage (handleCacheWrite cache
            { Account.build (.program programId) tx.from with
              programAccountMetadata := metadata })) := by
          intro metadata
          rw [accounts_handleCacheWrite]
          exact h.put (Account.tokensOwned_of_empty rfl)
        cases hinc : deployer.incrementNonce with
        | error e => exact hprogram _
        | ok deployer' =>
          have howned := (h _ _ hdeployer).2.succeeds (Account.succeeds_incrementNonce hinc)
          change Owned (accounts storage (handleCacheWrite (handleCacheWrite cache _) deployer'))
          rw [accounts_handleCacheWrite]
          exact (hprogram _).put howned

/-! ## Runs -/

/-- A step of the batcher that leaves every new entry with its account. -/
def KeepsOwned (storage cache : AccountStore) (m : Append) : Prop :=
  match m.transaction.transactionType, m.outputs with
  | .send _, _ => SendsHome (accounts storage cache) m.transaction
  | .bridgeIn _, _ => SendsHome (accounts storage cache) m.transaction
  | .call _, some outputs => ∀ i s s', CallStep storage cache m.transaction outputs i s s' →
      i.CreditsHome m.transaction s
  | _, _ => True

/-- The states of the runs from the empty node whose steps all meet `C`. -/
inductive ReachedBy (env : Env) (C : AccountStore → Append → Prop) : AccountStore → Prop
  | empty : ReachedBy env C fun _ => none
  | append {cache : AccountStore} (order : HashOrder) (m : Append) (h : ReachedBy env C cache)
      (hm : C cache m) :
      ReachedBy env C (applyAppend { env with order := order } (fun _ => none) cache m)

theorem owned_append {storage cache : AccountStore} (env : Env) {m : Append}
    (h : Owned (accounts storage cache)) (hm : KeepsOwned storage cache m) :
    Owned (accounts storage (applyAppend env storage cache m)) := by
  unfold applyAppend appendTransaction
  unfold KeepsOwned at hm
  cases htype : m.transaction.transactionType with
  | bridgeIn n =>
    rw [htype] at hm
    exact owned_send env h hm
  | send n =>
    rw [htype] at hm
    exact owned_send env h hm
  | call n =>
    rw [htype] at hm
    cases houtputs : m.outputs with
    | none => exact h
    | some outputs =>
      rw [houtputs] at hm
      exact owned_call env h hm
  | registerProgram n => exact owned_registration env h
  | bridgeOut n => exact h

/-- In every state of a run that keeps new entries with their accounts, every entry is filed
under its program and owned by its account. -/
theorem tokens_owned {env : Env} {cache : AccountStore}
    (h : ReachedBy env (KeepsOwned fun _ => none) cache) :
    ∀ x a, accounts (fun _ => none) cache x = some a → a.TokensOwned := by
  have howned : Owned (accounts (fun _ => none) cache) := by
    induction h with
    | empty => exact fun _ _ ha => nomatch ha
    | append order m _ hm ih => exact owned_append _ ih hm
  exact fun x a ha => (howned x a ha).2

/-- The batcher's future for a transaction returns. -/
def Applied (env : Env) (storage cache : AccountStore) (m : Append) : Prop :=
  ∃ p, appendTransaction env m.transaction m.outputs = some p ∧
    (runAlone storage p cache).1 = .ok ()

theorem eq_ok_of_isOk {ε : Type} {x : Except ε Unit} (h : x.isOk = true) : x = .ok () := by
  cases x with
  | error e => cases h
  | ok u => rfl

/-- A bridge-in of ETH. -/
def ethBridgeIn («to» : Address) (value : U256) : Transaction :=
  Engine.bridgeTransaction ⟨«to», ETH_ADDR, value, 0#256, "", 1#256⟩

/-- A user with 10 ETH from the bridge. -/
def bridged : AccountStore :=
  applyAppend .small (fun _ => none) (fun _ => none) ⟨ethBridgeIn 7#160 10#256, none⟩

/-- The user's registration of a program. -/
def registration : Transaction :=
  { callOf 7#160 7#160 1#256 with transactionType := .registerProgram 1#256 }

/-- The program the registration makes, under its address. -/
def registeredProgram : AccountStore :=
  applyAppend .small (fun _ => none) bridged ⟨registration, none⟩

theorem reached_registered :
    ReachedBy .small (Applied .small fun _ => none) registeredProgram := by
  have hbridged : ReachedBy .small (Applied .small fun _ => none) bridged :=
    .append Env.small.order ⟨ethBridgeIn 7#160 10#256, none⟩ .empty ⟨_, rfl, rfl⟩
  exact .append Env.small.order ⟨registration, none⟩ hbridged ⟨_, rfl, rfl⟩

/-- A send of 2 ETH to another user. -/
def shared : AccountStore :=
  applyAppend .small (fun _ => none) registeredProgram ⟨ethSend 7#160 8#160 2#256 2#256, none⟩

/-- 5 of the program's token go to its owner, and 1 of these on to the other user. -/
def mintAndPay : Outputs where
  instructions :=
    [.create ⟨.this, .this, 7#160, 5#256, 5#256, [⟨.this, .address 7#160, some 5#256, [], []⟩]⟩,
      .transfer ⟨0x1007#160, .address 7#160, .address 8#160, some 1#256, []⟩]

/-- The user's call of her program, with these outputs. -/
def minted : AccountStore :=
  applyAppend .small (fun _ => none) shared ⟨callOf 7#160 0x1007#160 3#256, some mintAndPay⟩

/-- The sender has an entry for what she sends. -/
theorem keepsOwned_shared :
    KeepsOwned (fun _ => none) registeredProgram ⟨ethSend 7#160 8#160 2#256 2#256, none⟩ := by
  have hentry : ((accounts (fun _ => none) registeredProgram 7#160).any fun a =>
      (a.programs ETH_ADDR).isSome) = true := by decide +kernel
  rintro - a (ha | ⟨hnone, -⟩) hno
  · have ha' : accounts (fun _ => none) registeredProgram 7#160 = some a := ha
    rw [ha', Option.any_some] at hentry
    have hno' : a.programs ETH_ADDR = none := hno
    rw [hno'] at hentry
    cases hentry
  · have hnone' : accounts (fun _ => none) registeredProgram 7#160 = none := hnone
    rw [hnone'] at hentry
    cases hentry

/-- The other user is paid in a token that is new to him, on his own account. -/
theorem keepsOwned_minted :
    KeepsOwned (fun _ => none) shared ⟨callOf 7#160 0x1007#160 3#256, some mintAndPay⟩ := by
  rintro i s s' ⟨caller, caller', pre, post, b, b', hcaller, hinc, hsplit, hpre, -, rfl, -⟩
  rcases pre with _ | ⟨i₁, _ | ⟨i₂, pre⟩⟩
  · cases hsplit
    trivial
  · cases hsplit
    rintro y a hy ha -
    cases hy
    cases hcaller
    cases hinc
    cases hpre
    cases ha
    rfl
  · have hlength := congrArg List.length hsplit
    simp [mintAndPay] at hlength
/-- A bridge-in, a registration, a send and a call are applied, and the last two make entries on
another account than the sender's. -/
theorem tokens_owned_minted :
    ReachedBy .small (Applied .small fun _ => none) minted ∧
      ((accounts (fun _ => none) minted 8#160).any fun a =>
        (a.programs ETH_ADDR).isSome && (a.programs 0x1007#160).isSome) = true ∧
      ∀ x a, accounts (fun _ => none) minted x = some a → a.TokensOwned := by
  have hkept : ReachedBy .small (KeepsOwned fun _ => none) minted :=
    .append Env.small.order _ (.append Env.small.order _
      (.append Env.small.order ⟨registration, none⟩
        (.append Env.small.order ⟨ethBridgeIn 7#160 10#256, none⟩ .empty
          fun hne => absurd rfl hne) trivial) keepsOwned_shared) keepsOwned_minted
  have hsend : Applied .small (fun _ => none) registeredProgram
      ⟨ethSend 7#160 8#160 2#256 2#256, none⟩ := ⟨_, rfl, eq_ok_of_isOk (by decide +kernel)⟩
  have hcall : Applied .small (fun _ => none) shared
      ⟨callOf 7#160 0x1007#160 3#256, some mintAndPay⟩ :=
    ⟨_, rfl, eq_ok_of_isOk (by decide +kernel)⟩
  exact ⟨.append Env.small.order _ (.append Env.small.order _ reached_registered hsend) hcall,
    by decide +kernel, tokens_owned hkept⟩

/-- Pay the program 3 ETH. -/
def payProgram : Outputs where
  instructions := [.transfer (ethTransfer (.address 7#160) .this 3#256)]

/-- The user's call of her program. -/
def paid : AccountStore :=
  applyAppend .small (fun _ => none) registeredProgram
    ⟨callOf 7#160 0x1007#160 1#256, some payProgram⟩

/-- The state is reached by transactions that are applied. -/
theorem reached_paid : ReachedBy .small (Applied .small fun _ => none) paid := by
  have hcall : Applied .small (fun _ => none) registeredProgram
      ⟨callOf 7#160 0x1007#160 1#256, some payProgram⟩ :=
    ⟨_, rfl, eq_ok_of_isOk (by decide +kernel)⟩
  exact .append Env.small.order _ reached_registered hcall

/-- A program that is paid by a call holds an entry that is its owner's. -/
theorem transfer_to_program_disowned :
    ReachedBy .small (Applied .small fun _ => none) paid ∧
      ¬∀ x a, accounts (fun _ => none) paid x = some a → a.TokensOwned := by
  refine ⟨reached_paid, fun hall => ?_⟩
  have hentry : ((accounts (fun _ => none) paid 0x1007#160).bind fun a =>
      (a.programs ETH_ADDR).map fun t => (t.ownerId, a.address)) = some (7#160, 0x1007#160) := by
    decide +kernel
  obtain ⟨a, ha, hentry⟩ := Option.bind_eq_some_iff.1 hentry
  obtain ⟨t, ht, hpair⟩ := Option.map_eq_some_iff.1 hentry
  have howned := (hall _ a ha _ t ht).2
  rw [Prod.mk.injEq] at hpair
  rw [hpair.1, hpair.2] at howned
  exact absurd howned (by decide)

end Lasr
