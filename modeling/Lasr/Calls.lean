import Lasr.Instructions

/-!
# Calls

`apply_instructions_to_accounts` as a whole. Each instruction leaves the nonces of what
the call sees, and moves the supply of a token by what it mints and burns
(`applyInstruction_ok`); by induction so does the instruction list, and writing the buffer
to the cache makes the cache what the call saw (`accounts_flush`).

Two consequences. The supply after a call is the supply before it, with the
distributions added and the burns taken away (`call_supply`). The nonce a call advances
is the one at `transaction.to()`, not the sender's (`call_nonceAt`).
-/

set_option linter.unusedSectionVars false

namespace Lasr

/-! ## Distributions and updates -/

section Instructions

variable {storage cache cache' : AccountStore} {batchBuffer batchBuffer' : BatchBuffer}
  {tx : Transaction} {account account' : Account}

theorem creditDistribution_ok {distribution : TokenDistribution} {programId x : Address}
    {v : AccountMap} (hs : Stands v x account)
    (h : runAlone storage (creditDistribution programId distribution account) cache =
      (.ok account', cache')) :
    cache' = cache ∧ Credits v x account' programId (amountOf distribution.amount) := by
  unfold creditDistribution at h
  rw [runAlone_getAccount_bind] at h
  split at h
  · obtain ⟨hok, rfl⟩ := orCustom_ok h
    obtain ⟨token, hok⟩ := accountOf_ok hok
    obtain ⟨hh, hc⟩ := Account.applyTokenDistribution_ok hok
    exact ⟨rfl, hs.credits hh hc⟩
  · cases h

/-- A distribution credits its amount of its program's token somewhere. -/
theorem applyDistribution_ok {distribution : TokenDistribution}
    (hk : BatchBuffer.Keyed batchBuffer)
    (h : runAlone storage (applyDistribution tx distribution batchBuffer) cache =
      (.ok account, cache')) :
    cache' = cache ∧ ∃ x programId, distribution.programId.resolve tx = some programId ∧
      Credits (seen storage cache batchBuffer) x account programId
        (amountOf distribution.amount) := by
  unfold applyDistribution at h
  split at h
  · cases h
  next programId hp =>
  split at h
  · next hto =>
    rw [runAlone_getTransferToAccount_bind, hto] at h
    split at h
    · next a ha =>
      have hseen : seen storage cache batchBuffer tx.to = some a := ha
      obtain ⟨rfl, hc⟩ :=
        creditDistribution_ok (Stands.of_some hseen (hk.address_of_seen hseen)) h
      exact ⟨rfl, tx.to, programId, hp, hc⟩
    · next hnone =>
      have hseen : seen storage cache batchBuffer tx.to = none := hnone
      obtain ⟨rfl, hc⟩ := creditDistribution_ok (Stands.of_none hseen rfl) h
      exact ⟨rfl, tx.to, programId, hp, hc⟩
  · next toAddr hto =>
    rw [runAlone_getTransferToAccount_bind, hto] at h
    split at h
    · next a ha =>
      have hseen : seen storage cache batchBuffer toAddr = some a := ha
      obtain ⟨rfl, hc⟩ :=
        creditDistribution_ok (Stands.of_some hseen (hk.address_of_seen hseen)) h
      exact ⟨rfl, toAddr, programId, hp, hc⟩
    · next hnone =>
      have hseen : seen storage cache batchBuffer toAddr = none := hnone
      obtain ⟨rfl, hc⟩ := creditDistribution_ok (Stands.of_none hseen rfl) h
      exact ⟨rfl, toAddr, programId, hp, hc⟩
  · cases h

theorem updateToken_ok {tokenUpdate : TokenUpdate} {programId x : Address} {v : AccountMap}
    (hs : Stands v x account)
    (h : runAlone storage (updateToken programId tokenUpdate account) cache =
      (.ok account', cache')) :
    cache' = cache ∧ Credits v x account' programId 0 := by
  unfold updateToken at h
  rw [runAlone_getAccount_bind] at h
  split at h
  · obtain ⟨hok, rfl⟩ := orCustom_ok h
    obtain ⟨token, hok⟩ := accountOf_ok hok
    obtain ⟨hh, hc⟩ := Account.applyTokenUpdate_ok hok
    exact ⟨rfl, hs.credits hh hc⟩
  · cases h

/-- What an update returns : an account that moved no balance, and a buffer that at most
has that account in it already. -/
def Updates (v : AccountMap) (batchBuffer : BatchBuffer) (r : BatchBuffer × Account) : Prop :=
  ∃ x tok, Credits v x r.2 tok 0 ∧ (r.1 = batchBuffer ∨ r.1 = batchBuffer.insert x r.2)

theorem applyTokenUpdate_ok {tokenUpdate : TokenUpdate} {r : BatchBuffer × Account}
    (hk : BatchBuffer.Keyed batchBuffer)
    (h : runAlone storage (applyTokenUpdate tx tokenUpdate batchBuffer) cache =
      (.ok r, cache')) :
    cache' = cache ∧ Updates (seen storage cache batchBuffer) batchBuffer r := by
  unfold applyTokenUpdate at h
  split at h
  · cases h
  next programId hp =>
  split at h
  · cases h
  next x hx =>
  split at h
  · next a ha =>
    have hseen : seen storage cache batchBuffer x = some a := by simp [seen, ha]
    obtain ⟨b, c, hb, h'⟩ := runAlone_bind_ok h
    obtain ⟨rfl, hc⟩ := updateToken_ok (Stands.of_some hseen (hk.address_of_seen hseen)) hb
    cases h'
    exact ⟨rfl, x, programId, hc, Or.inr rfl⟩
  · next ha =>
    rw [runAlone_getAccount_bind] at h
    split at h
    · next a hacc =>
      have hseen : seen storage cache batchBuffer x = some a := by simp [seen, ha, hacc]
      obtain ⟨b, c, hb, h'⟩ := runAlone_bind_ok h
      obtain ⟨rfl, hc⟩ := updateToken_ok (Stands.of_some hseen (hk.address_of_seen hseen)) hb
      cases h'
      exact ⟨rfl, x, programId, hc, Or.inl rfl⟩
    · next hacc =>
      have hseen : seen storage cache batchBuffer x = none := by simp [seen, ha, hacc]
      split at h
      · cases h
      · obtain ⟨b, c, hb, h'⟩ := runAlone_bind_ok h
        obtain ⟨rfl, hc⟩ := updateToken_ok (Stands.of_none hseen rfl) hb
        cases h'
        exact ⟨rfl, x, programId, hc, Or.inl rfl⟩

/-- A program update moves no balance, so any token serves to say so. -/
theorem updateProgram_ok {programUpdate : ProgramUpdate} {x : Address} {v : AccountMap}
    (hs : Stands v x account)
    (h : runAlone storage (orCustom (account.applyProgramUpdate programUpdate)) cache =
      (.ok account', cache')) :
    cache' = cache ∧ Credits v x account' ETH_ADDR 0 := by
  obtain ⟨hok, rfl⟩ := orCustom_ok h
  obtain ⟨hh, hp⟩ := Account.applyProgramUpdate_ok hok
  exact ⟨rfl, hs.credits_zero hh hp⟩

theorem applyProgramUpdate_ok {programUpdate : ProgramUpdate} {r : BatchBuffer × Account}
    (hk : BatchBuffer.Keyed batchBuffer)
    (h : runAlone storage (applyProgramUpdate tx programUpdate batchBuffer) cache =
      (.ok r, cache')) :
    cache' = cache ∧ Updates (seen storage cache batchBuffer) batchBuffer r := by
  unfold applyProgramUpdate at h
  split at h
  · cases h
  next x hx =>
  split at h
  · next a ha =>
    have hseen : seen storage cache batchBuffer x = some a := by simp [seen, ha]
    obtain ⟨b, c, hb, h'⟩ := runAlone_bind_ok h
    obtain ⟨rfl, hc⟩ := updateProgram_ok (Stands.of_some hseen (hk.address_of_seen hseen)) hb
    cases h'
    exact ⟨rfl, x, ETH_ADDR, hc, Or.inr rfl⟩
  · next ha =>
    rw [runAlone_getAccount_bind] at h
    split at h
    · next a hacc =>
      have hseen : seen storage cache batchBuffer x = some a := by simp [seen, ha, hacc]
      obtain ⟨b, c, hb, h'⟩ := runAlone_bind_ok h
      obtain ⟨rfl, hc⟩ := updateProgram_ok (Stands.of_some hseen (hk.address_of_seen hseen)) hb
      cases h'
      exact ⟨rfl, x, ETH_ADDR, hc, Or.inl rfl⟩
    · next hacc =>
      have hseen : seen storage cache batchBuffer x = none := by simp [seen, ha, hacc]
      split at h
      · cases h
      · obtain ⟨b, c, hb, h'⟩ := runAlone_bind_ok h
        obtain ⟨rfl, hc⟩ := updateProgram_ok (Stands.of_none hseen rfl) hb
        cases h'
        exact ⟨rfl, x, ETH_ADDR, hc, Or.inl rfl⟩

theorem tryCreateProgramAccount_ok (hk : BatchBuffer.Keyed batchBuffer)
    (h : runAlone storage (tryCreateProgramAccount tx batchBuffer) cache =
      (.ok account, cache')) :
    cache' = cache ∧ Stands (seen storage cache batchBuffer) tx.to account := by
  unfold tryCreateProgramAccount at h
  split at h
  · next a ha =>
    have hseen : seen storage cache batchBuffer tx.to = some a := by simp [seen, ha]
    cases h
    exact ⟨rfl, Stands.of_some hseen (hk.address_of_seen hseen)⟩
  · next ha =>
    rw [runAlone_getAccount_bind] at h
    split at h
    · next a hacc =>
      have hseen : seen storage cache batchBuffer tx.to = some a := by simp [seen, ha, hacc]
      cases h
      exact ⟨rfl, Stands.of_some hseen (hk.address_of_seen hseen)⟩
    · next hacc =>
      have hseen : seen storage cache batchBuffer tx.to = none := by simp [seen, ha, hacc]
      cases h
      exact ⟨rfl, Stands.of_none hseen rfl⟩

end Instructions

/-! ## One instruction -/

/-- What a distribution adds to the supply of token `k`. -/
def TokenDistribution.minted (tx : Transaction) (distribution : TokenDistribution)
    (k : Address) : ℕ :=
  if distribution.programId.resolve tx = some k then amountOf distribution.amount else 0

/-- What an instruction adds to the supply of token `k`. -/
def Instruction.minted (tx : Transaction) (k : Address) : Instruction → ℕ
  | .create i => (i.distribution.map fun d => d.minted tx k).sum
  | _ => 0

/-- What an instruction takes from the supply of token `k`. -/
def Instruction.burned (k : Address) : Instruction → ℕ
  | .burn i => if k = i.token then amountOf i.amount else 0
  | _ => 0

/-- The two sides of a transfer are different accounts. -/
def Instruction.Separate (tx : Transaction) : Instruction → Prop
  | .transfer i => i.from.resolve tx ≠ i.to.resolve tx
  | _ => True

section Effect

variable {storage cache cache' : AccountStore} {batchBuffer batchBuffer' : BatchBuffer}
  {tx : Transaction}

theorem applyDistributions_ok :
    ∀ {dists : List TokenDistribution} {batchBuffer : BatchBuffer} {cache : AccountStore},
      BatchBuffer.Keyed batchBuffer →
      runAlone storage (applyDistributions tx dists batchBuffer) cache =
        (.ok batchBuffer', cache') →
      cache' = cache ∧ BatchBuffer.Keyed batchBuffer' ∧
        (∀ a, (seen storage cache batchBuffer').nonceAt a =
          (seen storage cache batchBuffer).nonceAt a) ∧
        ∀ k, (seen storage cache batchBuffer').supply k =
          (seen storage cache batchBuffer).supply k + (dists.map fun d => d.minted tx k).sum
  | [], batchBuffer, cache, hk, h => by
    cases h
    exact ⟨rfl, hk, fun _ => rfl, fun _ => by simp⟩
  | dist :: rest, batchBuffer, cache, hk, h => by
    obtain ⟨account, c, ha, h'⟩ := runAlone_bind_ok h
    obtain ⟨rfl, x, programId, hp, hc⟩ := applyDistribution_ok hk (asFailed_ok ha)
    obtain ⟨rfl, hk', hn, hs⟩ := applyDistributions_ok (hk.addAccountToBatchBuffer account) h'
    refine ⟨rfl, hk', fun a => ?_, fun k => ?_⟩
    · rw [hn a, seen_addAccountToBatchBuffer, hc.nonceAt]
    · rw [hs k, seen_addAccountToBatchBuffer, hc.supply k, List.map_cons, List.sum_cons,
        add_assoc]
      simp only [TokenDistribution.minted, hp, Option.some.injEq, eq_comm]

theorem applyUpdate_ok {update : TokenOrProgramUpdate} {r : BatchBuffer × Account}
    (hk : BatchBuffer.Keyed batchBuffer)
    (h : runAlone storage (applyUpdate tx update batchBuffer) cache = (.ok r, cache')) :
    cache' = cache ∧ Updates (seen storage cache batchBuffer) batchBuffer r := by
  cases update with
  | tokenUpdate u => exact applyTokenUpdate_ok hk h
  | programUpdate u => exact applyProgramUpdate_ok hk h

/-- Once the account is buffered it no longer matters that it was written in place. -/
theorem Updates.buffered {r : BatchBuffer × Account} (hk : BatchBuffer.Keyed batchBuffer)
    (h : Updates (seen storage cache batchBuffer) batchBuffer r) :
    BatchBuffer.Keyed (addAccountToBatchBuffer r.1 r.2) ∧
      ∃ x tok, Credits (seen storage cache batchBuffer) x r.2 tok 0 ∧
        seen storage cache (addAccountToBatchBuffer r.1 r.2) =
          (seen storage cache batchBuffer).put r.2 := by
  obtain ⟨x, tok, hc, hb | hb⟩ := h
  · rw [hb]
    exact ⟨hk.addAccountToBatchBuffer r.2, x, tok, hc, seen_addAccountToBatchBuffer r.2⟩
  · rw [hb, addAccountToBatchBuffer, hc.address, AList.insert_insert]
    refine ⟨hk.insert hc.address, x, tok, hc, ?_⟩
    rw [seen_insert, AccountMap.put, hc.address]

theorem applyUpdates_ok :
    ∀ {updates : List TokenOrProgramUpdate} {batchBuffer : BatchBuffer} {cache : AccountStore},
      BatchBuffer.Keyed batchBuffer →
      runAlone storage (applyUpdates tx updates batchBuffer) cache =
        (.ok batchBuffer', cache') →
      cache' = cache ∧ BatchBuffer.Keyed batchBuffer' ∧
        (∀ a, (seen storage cache batchBuffer').nonceAt a =
          (seen storage cache batchBuffer).nonceAt a) ∧
        ∀ k, (seen storage cache batchBuffer').supply k =
          (seen storage cache batchBuffer).supply k
  | [], batchBuffer, cache, hk, h => by
    cases h
    exact ⟨rfl, hk, fun _ => rfl, fun _ => rfl⟩
  | update :: rest, batchBuffer, cache, hk, h => by
    obtain ⟨r, c, ha, h'⟩ := runAlone_bind_ok h
    obtain ⟨rfl, hu⟩ := applyUpdate_ok hk (asFailed_ok ha)
    obtain ⟨hk₁, x, tok, hc, hseen⟩ := hu.buffered hk
    obtain ⟨rfl, hk', hn, hs⟩ := applyUpdates_ok hk₁ h'
    refine ⟨rfl, hk', fun a => ?_, fun k => ?_⟩
    · rw [hn a, hseen, hc.nonceAt]
    · rw [hs k, hseen, hc.supply k]
      simp

/-- One instruction keeps every nonce, and moves the supply by what it mints and burns
unless it is a transfer of an account to itself. -/
theorem applyInstruction_ok {instruction : Instruction} (hk : BatchBuffer.Keyed batchBuffer)
    (h : runAlone storage (applyInstruction tx instruction batchBuffer) cache =
      (.ok batchBuffer', cache')) :
    cache' = cache ∧ BatchBuffer.Keyed batchBuffer' ∧
      (∀ a, (seen storage cache batchBuffer').nonceAt a =
        (seen storage cache batchBuffer).nonceAt a) ∧
      (instruction.Separate tx → ∀ k,
        (seen storage cache batchBuffer').supply k + instruction.burned k =
          (seen storage cache batchBuffer).supply k + instruction.minted tx k) := by
  cases instruction with
  | transfer transfer =>
    obtain ⟨rfl, hk', x, y, a, b, hx, hy, hd, hc, hseen⟩ := applyInstruction_transfer_ok hk h
    refine ⟨rfl, hk', fun p => ?_, fun hsep k => ?_⟩
    · rw [hseen, AccountMap.nonceAt_put, hd.nonceAt]
      split_ifs with hp
      · rw [hp, hc.address, hc.nonce]
      · rfl
    · have hxy : x ≠ y := by simpa [Instruction.Separate, hx, hy] using hsep
      rw [hseen, hd.put_credits hc hxy]
      simp [Instruction.burned, Instruction.minted]
  | burn burn =>
    obtain ⟨account, c, ha, h'⟩ := runAlone_bind_ok h
    obtain ⟨rfl, x, hd⟩ := applyBurnInstruction_ok hk (asFailed_ok ha)
    cases h'
    refine ⟨rfl, hk.addAccountToBatchBuffer account, fun p => ?_, fun _ k => ?_⟩
    · rw [seen_addAccountToBatchBuffer, hd.nonceAt]
    · rw [seen_addAccountToBatchBuffer, Instruction.burned, hd.supply k]
      simp [Instruction.minted]
  | create create =>
    obtain ⟨batchBuffer₁, c, hb, h'⟩ := runAlone_bind_ok h
    obtain ⟨account, c', ha, h''⟩ := runAlone_bind_ok h'
    obtain ⟨rfl, hk₁, hn, hs⟩ := applyDistributions_ok hk hb
    obtain ⟨rfl, hst⟩ := tryCreateProgramAccount_ok hk₁ (asFailed_ok ha)
    have hc : Credits _ _ account ETH_ADDR 0 := hst.credits_zero (.refl account) rfl
    cases h''
    refine ⟨rfl, hk₁.addAccountToBatchBuffer account, fun p => ?_, fun _ k => ?_⟩
    · rw [seen_addAccountToBatchBuffer, hc.nonceAt, hn p]
    · rw [seen_addAccountToBatchBuffer, hc.supply k, hs k]
      simp [Instruction.burned, Instruction.minted]
  | update update =>
    obtain ⟨rfl, hk', hn, hs⟩ := applyUpdates_ok hk h
    refine ⟨rfl, hk', hn, fun _ k => ?_⟩
    rw [hs k]
    simp [Instruction.burned, Instruction.minted]
  | log i =>
    cases h
    refine ⟨rfl, hk, fun _ => rfl, fun _ k => ?_⟩
    simp [Instruction.burned, Instruction.minted]

/-- The instruction loop. -/
theorem applyInstructions_ok :
    ∀ {instructions : List Instruction} {batchBuffer : BatchBuffer} {cache : AccountStore},
      BatchBuffer.Keyed batchBuffer →
      runAlone storage (applyInstructions tx instructions batchBuffer) cache =
        (.ok batchBuffer', cache') →
      cache' = cache ∧ BatchBuffer.Keyed batchBuffer' ∧
        (∀ a, (seen storage cache batchBuffer').nonceAt a =
          (seen storage cache batchBuffer).nonceAt a) ∧
        ((∀ i ∈ instructions, i.Separate tx) → ∀ k,
          (seen storage cache batchBuffer').supply k +
              (instructions.map fun i => i.burned k).sum =
            (seen storage cache batchBuffer).supply k +
              (instructions.map fun i => i.minted tx k).sum)
  | [], batchBuffer, cache, hk, h => by
    cases h
    exact ⟨rfl, hk, fun _ => rfl, fun _ _ => by simp⟩
  | i :: rest, batchBuffer, cache, hk, h => by
    obtain ⟨batchBuffer₁, c, hi, h'⟩ := runAlone_bind_ok h
    obtain ⟨rfl, hk₁, hn, hs⟩ := applyInstruction_ok hk hi
    obtain ⟨rfl, hk', hn', hs'⟩ := applyInstructions_ok hk₁ h'
    refine ⟨rfl, hk', fun a => (hn' a).trans (hn a), fun hsep k => ?_⟩
    have h₁ := hs (hsep i (List.mem_cons_self ..)) k
    have h₂ := hs' (fun j hj => hsep j (List.mem_cons_of_mem i hj)) k
    simp only [List.map_cons, List.sum_cons]
    omega

end Effect

/-! ## The whole call -/

section Call

variable {env : Env} {storage cache cache' : AccountStore} {tx : Transaction} {outputs : Outputs}

/-- Writing the buffer out makes the cache what the call saw. -/
theorem accounts_flush (order : HashOrder) {batchBuffer : BatchBuffer}
    (hk : BatchBuffer.Keyed batchBuffer) :
    accounts storage (((order.iter batchBuffer.entries).map Sigma.snd).foldl
      handleCacheWrite cache) = seen storage cache batchBuffer := by
  funext a
  rw [accounts_foldl_handleCacheWrite]
  exact AccountMap.putAll_entries order Function.injective_id hk _ a

/-- A call that returns has advanced the nonce of the account at `to`, run its
instructions from there, and left in the cache what they saw at the end. -/
theorem applyInstructionsToAccounts_ok
    (h : runAlone storage (applyInstructionsToAccounts env tx outputs) cache = (.ok (), cache')) :
    ∃ caller caller' batchBuffer, accounts storage cache tx.to = some caller ∧
      caller.incrementNonce = .ok caller' ∧
      runAlone storage (applyInstructions tx outputs.instructions ∅)
        (handleCacheWrite cache caller') = (.ok batchBuffer, handleCacheWrite cache caller') ∧
      accounts storage cache' = seen storage (handleCacheWrite cache caller') batchBuffer := by
  unfold applyInstructionsToAccounts at h
  rw [runAlone_getAccount_bind] at h
  split at h
  · cases h
  next caller hcaller =>
  obtain ⟨caller', c, hrun₀, h₁⟩ := runAlone_bind_ok h
  obtain ⟨hinc, rfl⟩ := orFailed_ok hrun₀
  rw [runAlone_addAccountToBatch_bind] at h₁
  obtain ⟨batchBuffer, c', hrun, h₂⟩ := runAlone_bind_ok h₁
  obtain ⟨rfl, hk, -, -⟩ := applyInstructions_ok BatchBuffer.keyed_empty hrun
  refine ⟨caller, caller', batchBuffer, hcaller, hinc, hrun, ?_⟩
  rw [← accounts_flush env.order hk]
  rw [runAlone_addAccountsToBatch_bind, runAlone_addTransactionToBatch_bind,
    runAlone_cast_bind, runAlone_getAccount_bind] at h₂
  split at h₂
  · cases h₂
  · cases h₂
    rfl

/-- Incrementing the nonce of an account and putting it back. -/
theorem accounts_incremented {caller caller' : Account}
    (hcaller : accounts storage cache tx.to = some caller)
    (hinc : caller.incrementNonce = .ok caller') :
    (∀ k, (accounts storage (handleCacheWrite cache caller')).supply k =
        (accounts storage cache).supply k) ∧
      ∀ a, (accounts storage (handleCacheWrite cache caller')).nonceAt a =
        (accounts storage cache).nonceAt a + if a = tx.to then 1 else 0 := by
  obtain ⟨hn, -⟩ := Account.incrementNonce_ok hinc
  obtain ⟨haddr, -, -, hprograms⟩ := Account.incrementNonce_keeps hinc
  rw [address_of_accounts hcaller] at haddr
  have hbal : ∀ k, caller'.balance k = caller.balance k := fun k => by
    simp only [Account.balance, hprograms]
  rw [accounts_handleCacheWrite]
  refine ⟨fun k => ?_, fun a => ?_⟩
  · have hput := (accounts storage cache).supply_put caller' k
    rw [haddr, AccountMap.balanceAt_of_some hcaller, hbal k] at hput
    omega
  · rw [AccountMap.nonceAt_put, haddr]
    split_ifs with ha
    · rw [ha, AccountMap.nonceAt_of_some hcaller, hn]
    · rfl

/-- The supply after a call is the supply before it, plus the distributions and minus the
burns. -/
theorem call_supply (hsep : ∀ i ∈ outputs.instructions, i.Separate tx)
    (h : runAlone storage (applyInstructionsToAccounts env tx outputs) cache = (.ok (), cache'))
    (k : Address) :
    (accounts storage cache').supply k + (outputs.instructions.map fun i => i.burned k).sum =
      (accounts storage cache).supply k +
        (outputs.instructions.map fun i => i.minted tx k).sum := by
  obtain ⟨caller, caller', batchBuffer, hcaller, hinc, hrun, hacc⟩ :=
    applyInstructionsToAccounts_ok h
  obtain ⟨-, -, -, hs⟩ := applyInstructions_ok BatchBuffer.keyed_empty hrun
  rw [hacc, hs hsep k, seen_empty, (accounts_incremented hcaller hinc).1 k]

end Call

/-- A user with 10 ETH, and a program. -/
def oneProgram : AccountStore :=
  storeOf [Account.holding 7#160 ETH_ADDR 10#256, Account.build (.program 9#160) 7#160]

/-- Distribute 5 of the program's token, then burn 3 ETH. -/
def mintAndBurn : Outputs where
  instructions :=
    [.create ⟨.this, .this, 7#160, 5#256, 5#256, [⟨.this, .address 8#160, some 5#256, [], []⟩]⟩,
      .burn ⟨7#160, .this, ETH_ADDR, .address 7#160, some 3#256, []⟩]

/-- The user's call of the program, with these outputs, run on this state. -/
def mintAndBurnRun : Except (Fault BatcherError) Unit × AccountStore :=
  runAlone (fun _ => none)
    (applyInstructionsToAccounts .small (callOf 7#160 9#160 1#256) mintAndBurn) oneProgram

theorem call_supply_mintAndBurn :
    mintAndBurnRun.1 = .ok () ∧
      (accounts (fun _ => none) mintAndBurnRun.2).supply 9#160 + 0 =
        (accounts (fun _ => none) oneProgram).supply 9#160 + 5 := by
  have hsep : ∀ i ∈ mintAndBurn.instructions, i.Separate (callOf 7#160 9#160 1#256) := by
    simp [mintAndBurn, Instruction.Separate]
  have hrun : mintAndBurnRun = (.ok (), mintAndBurnRun.2) := rfl
  exact ⟨rfl, call_supply hsep hrun 9#160⟩

section Nonce

variable {env : Env} {storage cache cache' : AccountStore} {tx : Transaction} {outputs : Outputs}

/-- A call advances the nonce at `transaction.to()` and no other. -/
theorem call_nonceAt
    (h : runAlone storage (applyInstructionsToAccounts env tx outputs) cache = (.ok (), cache'))
    (a : Address) :
    (accounts storage cache').nonceAt a =
      (accounts storage cache).nonceAt a + if a = tx.to then 1 else 0 := by
  obtain ⟨caller, caller', batchBuffer, hcaller, hinc, hrun, hacc⟩ :=
    applyInstructionsToAccounts_ok h
  obtain ⟨-, -, hn, -⟩ := applyInstructions_ok BatchBuffer.keyed_empty hrun
  rw [hacc, hn a, seen_empty, (accounts_incremented hcaller hinc).2 a]

/-- No call to another account advances the nonce of its sender alone. -/
theorem call_nonce_not_caller (hne : tx.from ≠ tx.to)
    (h : runAlone storage (applyInstructionsToAccounts env tx outputs) cache = (.ok (), cache')) :
    ¬((accounts storage cache').nonceAt tx.from = (accounts storage cache).nonceAt tx.from + 1 ∧
      ∀ a, a ≠ tx.from →
        (accounts storage cache').nonceAt a = (accounts storage cache).nonceAt a) := by
  rintro ⟨hfrom, -⟩
  rw [call_nonceAt h, if_neg hne] at hfrom
  omega

end Nonce

theorem call_nonce_not_caller_mintAndBurn :
    mintAndBurnRun.1 = .ok () ∧
      ¬((accounts (fun _ => none) mintAndBurnRun.2).nonceAt 7#160 =
          (accounts (fun _ => none) oneProgram).nonceAt 7#160 + 1 ∧
        ∀ a, a ≠ 7#160 → (accounts (fun _ => none) mintAndBurnRun.2).nonceAt a =
          (accounts (fun _ => none) oneProgram).nonceAt a) := by
  have hne : (callOf 7#160 9#160 1#256).from ≠ (callOf 7#160 9#160 1#256).to := by decide
  have hrun : mintAndBurnRun = (.ok (), mintAndBurnRun.2) := rfl
  exact ⟨rfl, call_nonce_not_caller hne hrun⟩

/-- The sender of an accepted call keeps its nonce, and the program's moves. -/
theorem call_keeps_caller_nonce :
    mintAndBurnRun.1 = .ok () ∧
      (accounts (fun _ => none) oneProgram).nonceAt 7#160 = 0 ∧
      (accounts (fun _ => none) mintAndBurnRun.2).nonceAt 7#160 = 0 ∧
      (accounts (fun _ => none) oneProgram).nonceAt 9#160 = 0 ∧
      (accounts (fun _ => none) mintAndBurnRun.2).nonceAt 9#160 = 1 :=
  ⟨rfl, by decide, by decide, by decide, by decide⟩

end Lasr
