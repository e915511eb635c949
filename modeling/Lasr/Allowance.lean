import Lasr.Spending

/-!
# What an allowance lets go

An instruction draws on an allowance when the validator lets it pass because of it : without
the allowance it would not (`Instruction.drawn`). It passes for an amount below the allowance
(`drawn_lt`). Nothing takes the amount off the allowance afterwards, so that the next
instruction is measured against the whole of it again : over a run of calls the allowance
bounds what is drawn when only one instruction draws (`allowance_bound`), and two are enough
to draw more (`allowance_drawn_twice`).
-/

set_option linter.unusedSectionVars false

namespace Lasr

/-! ## An entry without an allowance -/

/-- The entry without its allowance for `spender`. -/
def Token.revoke (t : Token) (spender : Address) : Token :=
  { t with allowance := t.allowance.remove spender }

/-- The account, its entry for `k` being without its allowance for `spender`. -/
def Account.revoke (a : Account) (k spender : Address) : Account :=
  match a.programs k with
  | some t => a.insertProgram k (t.revoke spender)
  | none => a

/-- The accounts, the one at `x` being without its allowance. -/
def AccountMap.revoke (v : AccountMap) (x k spender : Address) : AccountMap := fun y =>
  if y = x then (v y).map fun a => a.revoke k spender else v y

section Revoke

variable {a : Account} {k spender k' spender' : Address} {amt : U256} {ids : List U256}

namespace Account

@[simp]
theorem revoke_ownerAddress : (a.revoke k spender).ownerAddress = a.ownerAddress := by
  unfold revoke
  split <;> rfl

@[simp]
theorem revoke_accountType : (a.revoke k spender).accountType = a.accountType := by
  unfold revoke
  split <;> rfl

theorem revoke_programs (a : Account) (k spender k' : Address) :
    (a.revoke k spender).programs k' =
      if k' = k then (a.programs k).map fun t => t.revoke spender else a.programs k' := by
  unfold revoke
  cases ha : a.programs k with
  | none =>
    split_ifs with hk
    · rw [hk]
      simpa using ha
    · rfl
  | some t =>
    split_ifs with hk
    · rw [hk]
      simp [insertProgram]
    · simp [insertProgram, BTreeMap.insert_of_ne _ _ hk]

/-- Every entry is as it was but for its allowances. -/
theorem revoke_entry (a : Account) (k spender k' : Address) :
    (a.revoke k spender).programs k' = none ∧ a.programs k' = none ∨
      ∃ t t', (a.revoke k spender).programs k' = some t' ∧ a.programs k' = some t ∧
        t'.balance = t.balance ∧ t'.tokenIds = t.tokenIds ∧ t'.approvals = t.approvals ∧
        ∀ s, ¬(k' = k ∧ s = spender) → t'.allowance s = t.allowance s := by
  rw [revoke_programs]
  split_ifs with hk
  · subst hk
    cases ha : a.programs k' with
    | none => exact Or.inl ⟨rfl, rfl⟩
    | some t =>
      refine Or.inr ⟨t, t.revoke spender, rfl, rfl, rfl, rfl, rfl, fun s hs => ?_⟩
      exact BTreeMap.remove_of_ne _ fun h => hs ⟨rfl, h⟩
  · cases ha : a.programs k' with
    | none => exact Or.inl ⟨rfl, rfl⟩
    | some t => exact Or.inr ⟨t, t, rfl, rfl, rfl, rfl, rfl, fun _ _ => rfl⟩

@[simp]
theorem validateBalance_revoke :
    (a.revoke k spender).validateBalance k' amt = a.validateBalance k' amt := by
  unfold validateBalance
  obtain ⟨h, h'⟩ | ⟨t, t', h, h', hbal, -⟩ := a.revoke_entry k spender k'
  · rw [h, h']
  · simp [h, h', hbal]

@[simp]
theorem validateTokenOwnership_revoke :
    (a.revoke k spender).validateTokenOwnership k' ids = a.validateTokenOwnership k' ids := by
  unfold validateTokenOwnership
  obtain ⟨h, h'⟩ | ⟨t, t', h, h', -, hids, -⟩ := a.revoke_entry k spender k'
  · rw [h, h']
  · simp [h, h', hids]

@[simp]
theorem validateApprovedTokenTransfer_revoke :
    (a.revoke k spender).validateApprovedTokenTransfer k' spender' ids =
      a.validateApprovedTokenTransfer k' spender' ids := by
  unfold validateApprovedTokenTransfer
  obtain ⟨h, h'⟩ | ⟨t, t', h, h', -, -, happ, -⟩ := a.revoke_entry k spender k'
  · rw [h, h']
  · simp [h, h', happ]

/-- Only the allowance itself lets a spend pass that does not pass without it. -/
theorem validateApprovedSpend_revoke (h : a.validateApprovedSpend k' spender' amt = .ok ()) :
    (a.revoke k spender).validateApprovedSpend k' spender' amt = .ok () ∨
      ∃ t entry, a.programs k = some t ∧ t.allowance spender = some entry ∧ amt < entry := by
  obtain ⟨hn, hn'⟩ | ⟨t, t', ht', ht, -, -, happ, hall⟩ := a.revoke_entry k spender k'
  · simp [validateApprovedSpend, hn', noProgram] at h
  · by_cases hself : k' = k ∧ spender' = spender
    · obtain ⟨rfl, rfl⟩ := hself
      cases hentry : t.allowance spender' with
      | some entry =>
        refine Or.inr ⟨t, entry, ht, hentry, ?_⟩
        simpa [validateApprovedSpend, ht, hentry] using h
      | none =>
        refine Or.inl ?_
        have hnone : t'.allowance spender' = none := by
          rw [revoke_programs, if_pos rfl, ht] at ht'
          cases ht'
          simp [Token.revoke]
        simpa [validateApprovedSpend, ht, ht', hentry, hnone, happ] using h
    · refine Or.inl ?_
      simpa [validateApprovedSpend, ht, ht', hall _ hself, happ] using h

end Account

theorem accountLookup_revoke {v : AccountMap} {tx : Transaction} {refs : List AddressOrNamespace}
    {ref : AddressOrNamespace} {x : Address} (h : accountLookup v tx refs ref = some (some a)) :
    accountLookup (v.revoke x k spender) tx refs ref = some (some a) ∨
      v x = some a ∧
        accountLookup (v.revoke x k spender) tx refs ref = some (some (a.revoke k spender)) := by
  unfold accountLookup at h ⊢
  split_ifs at h ⊢ with href
  obtain ⟨y, hy, hv⟩ := Option.bind_eq_some_iff.1 (Option.some.inj h)
  rw [hy, Option.bind_some, AccountMap.revoke]
  split_ifs with hyx
  · subst hyx
    exact Or.inr ⟨hv, by rw [hv]; rfl⟩
  · exact Or.inl (by rw [hv])

end Revoke

/-! ## Drawing on an allowance -/

/-- The validator lets an instruction of a call pass, on the accounts `v`. -/
def Instruction.passes (i : Instruction) (v : AccountMap) (tx : Transaction) (outputs : Outputs) :
    Bool :=
  match v tx.from with
  | some caller =>
    (checkInstruction tx caller (accountLookup v tx (involved outputs tx)) i).isOk
  | none => false

/-- What an instruction takes of token `k` from the account at `x` on the strength of the
allowance for `spender` alone : without it the instruction would not pass. -/
def Instruction.drawn (i : Instruction) (v : AccountMap) (tx : Transaction) (outputs : Outputs)
    (x k spender : Address) : Option ℕ :=
  match i.taking tx with
  | some w =>
    if w.account = x ∧ w.token = k ∧ i.passes (v.revoke x k spender) tx outputs = false then
      some (amountOf w.amount)
    else none
  | none => none

/-- The allowance of the account at `x` for token `k` and `spender`. -/
def AccountMap.allowanceAt (v : AccountMap) (x k spender : Address) : Option U256 := do
  let a ← v x
  let t ← a.programs k
  t.allowance spender

section Drawn

variable {v : AccountMap} {tx : Transaction} {outputs : Outputs} {caller : Account}
  {x k spender : Address}

/-- An approved spend is approved without the allowance, or is less than the allowance. -/
theorem approvedSpend_revoke {a : Account} {token s : Address} {amt : U256} (hv : v x = some a)
    (h : a.validateApprovedSpend token s amt = .ok ()) :
    (a.revoke k spender).validateApprovedSpend token s amt = .ok () ∨
      ∃ entry, v.allowanceAt x k spender = some entry ∧ amt.toNat < entry.toNat := by
  refine (Account.validateApprovedSpend_revoke h).imp_right ?_
  rintro ⟨t, entry, ht, hentry, hlt⟩
  exact ⟨entry, by simp [AccountMap.allowanceAt, hv, ht, hentry], hlt⟩

/-- A checked taking stays checked without the allowance, or takes less than the allowance. -/
theorem TakeChecked.revoke {program : Address} {exempt : Account → Prop}
    {ref : AddressOrNamespace} {token : Address} {amount : Option U256} {ids : List U256}
    {refs : List AddressOrNamespace} {caller' : Account}
    (h : TakeChecked caller (accountLookup v tx refs) program exempt ref token amount ids)
    (hcaller : caller' = caller ∨ caller' = caller.revoke k spender)
    (hexempt : ∀ a, exempt a → exempt (a.revoke k spender)) :
    TakeChecked caller' (accountLookup (v.revoke x k spender) tx refs) program exempt ref token
        amount ids ∨
      ∃ entry, v.allowanceAt x k spender = some entry ∧ amountOf amount < entry.toNat := by
  have howner : caller'.ownerAddress = caller.ownerAddress := by
    rcases hcaller with rfl | rfl
    · rfl
    · simp
  by_cases hown : ref = .address caller.ownerAddress
  · refine Or.inl ⟨fun _ => ?_, fun hne => absurd (howner ▸ hown) hne⟩
    rcases hcaller with rfl | rfl
    · exact h.own hown
    · simpa using h.own hown
  · obtain ⟨a, ha, hheld, hamount, hids⟩ := h.other hown
    rcases accountLookup_revoke (k := k) (x := x) ha with ha' | ⟨hv, ha'⟩
    · refine Or.inl ⟨fun h => absurd (howner ▸ h) hown, fun _ => ⟨a, ha', hheld, ?_⟩⟩
      rw [howner]
      exact ⟨hamount, hids⟩
    · have hheld' : ((a.revoke k spender).programs token).isSome := by
        obtain ⟨-, hn⟩ | ⟨t, t', ht', -⟩ := a.revoke_entry k spender token
        · simp [hn] at hheld
        · simp [ht']
      have hleft : (∀ amt, amount = some amt → exempt (a.revoke k spender) ∨
          (a.revoke k spender).validateApprovedSpend token caller.ownerAddress amt = .ok () ∨
          (a.revoke k spender).validateApprovedSpend token program amt = .ok ()) →
          TakeChecked caller' (accountLookup (v.revoke x k spender) tx refs) program exempt ref
            token amount ids := by
        intro happ
        refine ⟨fun h => absurd (howner ▸ h) hown, fun _ => ⟨_, ha', hheld', fun amt hamt => ?_,
          fun hnone => ?_⟩⟩
        · rw [howner, Account.validateBalance_revoke]
          exact ⟨(hamount amt hamt).1, happ amt hamt⟩
        · simpa [howner] using hids hnone
      cases amount with
      | none => exact Or.inl (hleft (fun _ hn => nomatch hn))
      | some amt =>
        -- One of the three reasons to let the amount go survives, or the allowance is it.
        obtain ⟨-, hex | hfrom | hto⟩ := hamount amt rfl
        · exact Or.inl (hleft fun _ _ => Or.inl (hexempt a hex))
        · refine (approvedSpend_revoke hv hfrom).imp_left fun h => hleft fun amt' hs => ?_
          cases hs
          exact Or.inr (Or.inl h)
        · refine (approvedSpend_revoke hv hto).imp_left fun h => hleft fun amt' hs => ?_
          cases hs
          exact Or.inr (Or.inr h)

theorem Instruction.passes_iff {i : Instruction} :
    i.passes v tx outputs = true ↔ ∃ caller, v tx.from = some caller ∧
      checkInstruction tx caller (accountLookup v tx (involved outputs tx)) i = .ok () := by
  unfold passes
  cases v tx.from with
  | none => simp
  | some caller =>
    cases hc : checkInstruction tx caller (accountLookup v tx (involved outputs tx)) i <;>
      simp [hc, Except.isOk, Except.toBool]

/-- The sender's account, after an allowance is withdrawn. -/
theorem caller_revoke (hcaller : v tx.from = some caller) :
    ∃ caller', v.revoke x k spender tx.from = some caller' ∧
      (caller' = caller ∨ caller' = caller.revoke k spender) := by
  unfold AccountMap.revoke
  split_ifs
  · exact ⟨_, by rw [hcaller]; rfl, Or.inr rfl⟩
  · exact ⟨caller, hcaller, Or.inl rfl⟩

/-- What is drawn is below the allowance. -/
theorem drawn_lt {i : Instruction} {n : ℕ} (hpass : i.passes v tx outputs = true)
    (h : i.drawn v tx outputs x k spender = some n) :
    ∃ entry, v.allowanceAt x k spender = some entry ∧ n < entry.toNat := by
  obtain ⟨caller, hcaller, hcheck⟩ := Instruction.passes_iff.1 hpass
  obtain ⟨caller', hcaller', hrevoke⟩ := caller_revoke (x := x) (k := k) hcaller
  unfold Instruction.drawn at h
  cases hw : i.taking tx with
  | none => simp [hw] at h
  | some w =>
    rw [hw] at h
    simp only [Option.ite_none_right_eq_some, Option.some.injEq] at h
    obtain ⟨⟨-, -, hfails⟩, rfl⟩ := h
    have hdenied : checkInstruction tx caller'
        (accountLookup (v.revoke x k spender) tx (involved outputs tx)) i ≠ .ok () := by
      intro hok
      rw [Instruction.passes_iff.2 ⟨caller', hcaller', hok⟩] at hfails
      cases hfails
    cases i with
    | transfer i =>
      obtain ⟨_, -, rfl⟩ := Instruction.taking_transfer hw
      refine ((checkTransfer_ok_iff.1 hcheck).revoke hrevoke fun a htype => ?_).resolve_left
        fun hchecked => hdenied (checkTransfer_ok_iff.2 hchecked)
      rw [Account.revoke_accountType]
      exact htype
    | burn i =>
      obtain ⟨_, -, rfl⟩ := Instruction.taking_burn hw
      obtain ⟨program, hprogram, htake⟩ := checkBurn_ok_iff.1 hcheck
      exact (htake.revoke hrevoke fun _ h => h).resolve_left
        fun hchecked => hdenied (checkBurn_ok_iff.2 ⟨program, hprogram, hchecked⟩)
    | create i => cases hw
    | update i => cases hw
    | log i => cases hw

end Drawn

/-! ## Runs of calls -/

section Runs

variable (env : Env) (storage : AccountStore)

/-- The cache after a call. -/
def afterCall (cache : AccountStore) (c : Transaction × Outputs) : AccountStore :=
  (runAlone storage (applyInstructionsToAccounts env c.1 c.2) cache).2

/-- Calls that are accepted and applied one after another. -/
inductive AcceptedRun : AccountStore → List (Transaction × Outputs) → Prop where
  | done (cache : AccountStore) : AcceptedRun cache []
  | call {cache : AccountStore} {c : Transaction × Outputs} {calls : List (Transaction × Outputs)}
      (hacc : AcceptsCall env storage cache c.2 c.1)
      (happ : (runAlone storage (applyInstructionsToAccounts env c.1 c.2) cache).1 = .ok ())
      (hrest : AcceptedRun (afterCall env storage cache c) calls) :
      AcceptedRun cache (c :: calls)

/-- The states the calls of a run start from. -/
def statesBefore : AccountStore → List (Transaction × Outputs) → List AccountStore
  | _, [] => []
  | cache, c :: calls => cache :: statesBefore (afterCall env storage cache c) calls

/-- What the instructions of a run draw on an allowance, one amount each. -/
def drawnAlong (x k spender : Address) : AccountStore → List (Transaction × Outputs) → List ℕ
  | _, [] => []
  | cache, c :: calls =>
    c.2.instructions.filterMap
        (fun i => i.drawn (accounts storage cache) c.1 c.2 x k spender) ++
      drawnAlong x k spender (afterCall env storage cache c) calls

variable {env storage} {x k spender : Address} {allowed : U256}

theorem AcceptsCall.passes {cache : AccountStore} {outputs : Outputs} {tx : Transaction}
    (h : AcceptsCall env storage cache outputs tx) {i : Instruction}
    (hi : i ∈ outputs.instructions) : i.passes (accounts storage cache) tx outputs = true := by
  obtain ⟨caller, hcaller, hc⟩ := h.checked
  exact Instruction.passes_iff.2 ⟨caller, hcaller, hc i hi⟩

/-- Every amount drawn in a run is below the allowance. -/
theorem drawnAlong_lt : ∀ {cache : AccountStore} {calls : List (Transaction × Outputs)},
    AcceptedRun env storage cache calls →
    (∀ c ∈ statesBefore env storage cache calls,
      (accounts storage c).allowanceAt x k spender = some allowed) →
    ∀ n ∈ drawnAlong env storage x k spender cache calls, n < allowed.toNat
  | _, [], _, _ => (fun _ hn => nomatch hn)
  | cache, c :: calls, .call hacc _ hrest, hkept => by
    intro n hn
    rcases List.mem_append.1 hn with hn | hn
    · obtain ⟨i, hi, hdrawn⟩ := List.mem_filterMap.1 hn
      obtain ⟨entry, hentry, hlt⟩ := drawn_lt (hacc.passes hi) hdrawn
      have hallowed := hkept cache (List.mem_cons_self ..)
      rw [hallowed] at hentry
      cases hentry
      exact hlt
    · exact drawnAlong_lt hrest (fun c hc => hkept c (List.mem_cons_of_mem _ hc)) n hn

/-- As long as a single instruction draws on it, an allowance bounds what a run of accepted
calls takes on its strength. -/
theorem allowance_bound {cache : AccountStore} {calls : List (Transaction × Outputs)}
    (hrun : AcceptedRun env storage cache calls)
    (hkept : ∀ c ∈ statesBefore env storage cache calls,
      (accounts storage c).allowanceAt x k spender = some allowed)
    (hone : (drawnAlong env storage x k spender cache calls).length ≤ 1) :
    (drawnAlong env storage x k spender cache calls).sum ≤ allowed.toNat := by
  have hlt := drawnAlong_lt hrun hkept
  match hdrawn : drawnAlong env storage x k spender cache calls, hone with
  | [], _ => exact Nat.zero_le _
  | [n], _ =>
    rw [List.sum_singleton]
    exact Nat.le_of_lt (hlt n (by simp [hdrawn]))

end Runs

theorem allowance_bound_drawAllowance :
    AcceptedRun .small (fun _ => none) granting [(callOf 7#160 5#160 1#256, drawAllowance)] ∧
      drawnAlong .small (fun _ => none) 8#160 ETH_ADDR 5#160 granting
        [(callOf 7#160 5#160 1#256, drawAllowance)] = [10] ∧
      (drawnAlong .small (fun _ => none) 8#160 ETH_ADDR 5#160 granting
        [(callOf 7#160 5#160 1#256, drawAllowance)]).sum ≤ (20#256).toNat := by
  have hrun : AcceptedRun .small (fun _ => none) granting
      [(callOf 7#160 5#160 1#256, drawAllowance)] :=
    .call (acceptsCall_of_sent rfl) rfl (.done _)
  refine ⟨hrun, rfl, allowance_bound hrun (fun c hc => ?_) (by decide)⟩
  cases List.mem_singleton.1 hc
  rfl

/-- Send 15 of the user's ETH to the caller, and 15 more. -/
def drawTwice : Outputs where
  instructions := [.transfer ⟨ETH_ADDR, .address 8#160, .address 7#160, some 15#256, []⟩,
    .transfer ⟨ETH_ADDR, .address 8#160, .address 7#160, some 15#256, []⟩]

/-- An accepted call draws 30 on an allowance of 20. -/
theorem allowance_drawn_twice :
    AcceptedRun .small (fun _ => none) granting [(callOf 7#160 5#160 1#256, drawTwice)] ∧
      (∀ c ∈ statesBefore .small (fun _ => none) granting
          [(callOf 7#160 5#160 1#256, drawTwice)],
        (accounts (fun _ => none) c).allowanceAt 8#160 ETH_ADDR 5#160 = some 20#256) ∧
      ¬(drawnAlong .small (fun _ => none) 8#160 ETH_ADDR 5#160 granting
        [(callOf 7#160 5#160 1#256, drawTwice)]).sum ≤ (20#256).toNat := by
  refine ⟨.call (acceptsCall_of_sent rfl) rfl (.done _), fun c hc => ?_, by decide⟩
  cases List.mem_singleton.1 hc
  rfl

end Lasr
