import Lasr.Authenticity
import Lasr.Ownership

/-!
# Program registrations

A registration writes two accounts (`registration_ok`) : that of the new program, built from
scratch, and that of the sender with its nonce advanced. The program's address is computed
from the content id and the address that signed.

The sender named by the transaction need not be the signer, who is never compared with it
(`registration_authentic_iff`). An account that is already at the program's address is lost
(`registration_preserves_iff`). And the text that is hashed shows four digits at each end of the
signer's address, so that other signers have the same programs (`programId_unique_iff`).
-/

set_option linter.unusedSectionVars false

namespace Lasr

/-- The account of a new program. -/
def newProgram (tx : Transaction) (contentId : String) (programId : Address) : Account :=
  { Account.build (.program programId) tx.from with
    programAccountMetadata := BTreeMap.insert (fun _ => none) "content_id" contentId }

section Registration

variable {env : Env} {storage cache cache' : AccountStore} {tx : Transaction}

/-- What a registration that returns has found and written. -/
theorem registration_ok
    (h : runAlone storage (applyProgramRegistration env tx) cache = (.ok (), cache')) :
    ∃ deployer deployer' contentId programId,
      accounts storage cache tx.from = some deployer ∧ deployer.incrementNonce = .ok deployer' ∧
      env.contentId tx.inputs = .ok (some (some contentId)) ∧
      createProgramId env contentId tx = .ok programId ∧
      cache' = handleCacheWrite (handleCacheWrite cache (newProgram tx contentId programId))
        deployer' ∧
      writesAlone storage (applyProgramRegistration env tx) cache =
        [newProgram tx contentId programId, deployer'] := by
  unfold applyProgramRegistration at h ⊢
  rw [runAlone_getAccount_bind] at h
  rw [writesAlone_getAccount_bind]
  cases hdeployer : accounts storage cache tx.from with
  | none =>
    rw [hdeployer] at h
    cases h
  | some deployer =>
    rw [hdeployer] at h
    dsimp only at h ⊢
    split at h
    · cases h
    · cases h
    · cases h
    next contentId hcontent =>
    split at h
    · cases h
    next programId hid =>
    cases hinc : deployer.incrementNonce with
    | error e =>
      rw [hinc] at h
      cases h
    | ok deployer' =>
      rw [hinc] at h
      cases h
      exact ⟨deployer, deployer', contentId, programId, rfl, hinc, hcontent, hid, rfl, rfl⟩

/-! ## Who a program is registered for -/

/-- The signer registers : the program's account is the signer's and has the address that is
made of the signer's, and the nonce that moves is the signer's. -/
structure SignerRegisters (env : Env) (storage cache : AccountStore) (tx : Transaction)
    (signer : Address) : Prop where
  recovered : env.recover tx = .ok signer
  written : ∃ contentId program deployer deployer',
    env.contentId tx.inputs = .ok (some (some contentId)) ∧
    writesAlone storage (applyProgramRegistration env tx) cache = [program, deployer'] ∧
    program.accountType = .program (env.programIdOf contentId signer) ∧
    program.ownerAddress = signer ∧ accounts storage cache signer = some deployer ∧
    deployer.incrementNonce = .ok deployer'

/-- A program is registered for the one who signed exactly when the sender did. -/
theorem registration_authentic_iff
    (h : runAlone storage (applyProgramRegistration env tx) cache = (.ok (), cache')) :
    (∃ signer, SignerRegisters env storage cache tx signer) ↔ env.recover tx = .ok tx.from := by
  obtain ⟨deployer, deployer', contentId, programId, hdeployer, hinc, hcontent, hid, -, hwrites⟩ :=
    registration_ok h
  constructor
  · rintro ⟨signer, hrec, contentId', program, _, _, -, hwrites', -, howner, -⟩
    have hprogram : newProgram tx contentId programId = program :=
      (List.cons.inj (hwrites.symm.trans hwrites')).1
    have hfrom : tx.from = signer := by
      rw [← howner, ← hprogram]
      rfl
    rw [hrec, hfrom]
  · intro hrec
    have hprogram : programId = env.programIdOf contentId tx.from := by
      unfold createProgramId at hid
      rw [hrec] at hid
      exact (Except.ok.inj hid).symm
    exact ⟨tx.from, hrec, contentId, _, deployer, deployer', hcontent, hwrites,
      congrArg AccountType.program hprogram, rfl, hdeployer, hinc⟩

end Registration

theorem registration_authentic_iff_bridged :
    (runAlone (fun _ => none) (applyProgramRegistration .small registration) bridged).1 = .ok () ∧
      ∃ signer, SignerRegisters .small (fun _ => none) bridged registration signer := by
  have hrun : runAlone (fun _ => none) (applyProgramRegistration .small registration) bridged =
      (.ok (), registeredProgram) := rfl
  exact ⟨rfl, (registration_authentic_iff hrun).2 rfl⟩

/-- A registration in the name of 0x07, signed by 0x09. -/
def forgedRegistration : Transaction :=
  { registration with v := 28 }

/-- A request `registerProgram` for it, followed to its end. -/
def forgedRegistrationRun : List NodeChoice :=
  [.inject (.scheduler (.registerProgram forgedRegistration 0)),
    .deliver .scheduler .plain, .deliver .engine .plain] ++ polls 2 ++
  [.deliver .executor .plain] ++ polls 2 ++
  [.deliver .batcher .plain] ++ polls 7

/-- The program at the address made of 0x09 belongs to 0x07, whose nonce moved. -/
theorem forged_registration_applied :
    Env.withNine.recover forgedRegistration = .ok 9#160 ∧
      (∃ c, (node .withNine fun _ => none).run (NodeConfig.start tenEth) forgedRegistrationRun =
          some c ∧
        c.world.ledger.map (fun e => e.2.transaction) = [forgedRegistration] ∧
        c.world.journal.map (fun e => (e.2.accountType, e.2.ownerAddress, e.2.nonce)) =
          [(.program 0x1009#160, 7#160, 0#256), (.user, 7#160, 1#256)]) ∧
      ¬∃ signer, SignerRegisters .withNine (fun _ => none) tenEth forgedRegistration signer := by
  have hrun : ((node .withNine fun _ => none).run (NodeConfig.start tenEth)
      forgedRegistrationRun).map (fun c => (c.world.ledger.map (fun e => e.2.transaction),
        c.world.journal.map (fun e => (e.2.accountType, e.2.ownerAddress, e.2.nonce)))) =
      some ([forgedRegistration],
        [(.program 0x1009#160, 7#160, 0#256), (.user, 7#160, 1#256)]) := by decide
  obtain ⟨c, hc, hval⟩ := Option.map_eq_some_iff.1 hrun
  obtain ⟨hledger, hjournal⟩ := Prod.mk.inj hval
  refine ⟨rfl, ⟨c, hc, hledger, hjournal⟩, ?_⟩
  rintro ⟨signer, hrec, _, program, _, _, -, hwrites, -, howner, -⟩
  cases hrec
  have hfirst := congrArg (fun l => l.map Account.ownerAddress) hwrites
  rw [List.map_cons, howner] at hfirst
  cases hfirst

/-! ## What a registration overwrites -/

/-- Every account is as before, but for the nonce of the sender's. -/
def RegistrationPreserves (tx : Transaction) (v v' : AccountMap) : Prop :=
  ∀ x a, v x = some a → ∃ a', v' x = some a' ∧
    a' = if x = tx.from then { a with nonce := a'.nonce } else a

/-- The accounts after the writes of a registration. -/
theorem accounts_registered {storage cache : AccountStore} {tx : Transaction} {contentId : String}
    {programId : Address} {deployer' : Account} (haddr : deployer'.address = tx.from)
    (x : Address) :
    accounts storage (handleCacheWrite
        (handleCacheWrite cache (newProgram tx contentId programId)) deployer') x =
      if x = tx.from then some deployer'
      else if x = programId then some (newProgram tx contentId programId)
      else accounts storage cache x := by
  rw [accounts_handleCacheWrite, accounts_handleCacheWrite, AccountMap.put_apply,
    AccountMap.put_apply, haddr]
  rfl

/-- A registration preserves the accounts exactly when there is none at the program's address,
or it is as a registration leaves it, or it is the sender's own. -/
theorem registration_preserves_iff {env : Env} {storage cache cache' : AccountStore}
    {tx : Transaction} {contentId : String} {programId : Address}
    (hcontent : env.contentId tx.inputs = .ok (some (some contentId)))
    (hid : createProgramId env contentId tx = .ok programId)
    (h : runAlone storage (applyProgramRegistration env tx) cache = (.ok (), cache')) :
    RegistrationPreserves tx (accounts storage cache) (accounts storage cache') ↔
      (accounts storage cache programId = none ∨
        accounts storage cache programId = some (newProgram tx contentId programId) ∨
        programId = tx.from) := by
  obtain ⟨deployer, deployer', contentId', programId', hdeployer, hinc, hcontent', hid', rfl, -⟩ :=
    registration_ok h
  cases hcontent.symm.trans hcontent'
  cases hid.symm.trans hid'
  have haddr : deployer'.address = tx.from :=
    (Account.incrementNonce_keeps hinc).1.trans (address_of_accounts hdeployer)
  constructor
  · intro hpres
    by_cases hself : programId = tx.from
    · exact Or.inr (Or.inr hself)
    · cases hold : accounts storage cache programId with
      | none => exact Or.inl rfl
      | some a =>
        obtain ⟨a', ha', heq⟩ := hpres programId a hold
        rw [accounts_registered haddr, if_neg hself, if_pos rfl] at ha'
        rw [if_neg hself] at heq
        exact Or.inr (Or.inl (by rw [← heq, ha']))
  · intro hsafe x a ha
    rw [accounts_registered haddr]
    by_cases hx : x = tx.from
    · subst hx
      cases hdeployer.symm.trans ha
      refine ⟨deployer', if_pos rfl, ?_⟩
      rw [if_pos rfl]
      exact (Account.incrementNonce_ok hinc).2
    · refine ⟨a, ?_, (if_neg hx).symm⟩
      rw [if_neg hx]
      by_cases hp : x = programId
      · subst hp
        rcases hsafe with hnone | hnew | hself
        · rw [hnone] at ha
          cases ha
        · rw [if_pos rfl, ← hnew, ha]
        · exact absurd hself hx
      · rw [if_neg hp, ha]

theorem registration_preserves_iff_bridged :
    RegistrationPreserves registration (accounts (fun _ => none) bridged)
      (accounts (fun _ => none) registeredProgram) := by
  have hrun : runAlone (fun _ => none) (applyProgramRegistration .small registration) bridged =
      (.ok (), registeredProgram) := rfl
  have hid : createProgramId .small "" registration = .ok 0x1007#160 := by decide
  exact (registration_preserves_iff rfl hid hrun).2 (Or.inl (by rfl))

/-- The same program, registered once more by the same user. -/
def secondRegistration : Transaction :=
  { registration with transactionType := .registerProgram 2#256, nonce := 2#256 }

/-- The state after it. -/
def registeredTwice : AccountStore :=
  applyAppend .small (fun _ => none) paid ⟨secondRegistration, none⟩

/-- The ETH that the program holds. -/
def programEth (cache : AccountStore) : Option U256 :=
  (accounts (fun _ => none) cache 0x1007#160).bind fun a => (a.programs ETH_ADDR).map Token.balance

/-- The 3 ETH that the program was paid are gone with the second registration. -/
theorem second_registration_destroys :
    ReachedBy .small (Applied .small fun _ => none) paid ∧
      Applied .small (fun _ => none) paid ⟨secondRegistration, none⟩ ∧
      programEth paid = some 3#256 ∧ programEth registeredTwice = none ∧
      ¬RegistrationPreserves secondRegistration (accounts (fun _ => none) paid)
        (accounts (fun _ => none) registeredTwice) := by
  have hbefore : programEth paid = some 3#256 := by decide +kernel
  have hafter : programEth registeredTwice = none := by decide +kernel
  refine ⟨reached_paid, ⟨_, rfl, eq_ok_of_isOk (by decide +kernel)⟩, hbefore, hafter, ?_⟩
  intro hpres
  obtain ⟨a, ha, hentry⟩ := Option.bind_eq_some_iff.1 hbefore
  obtain ⟨a', ha', heq⟩ := hpres _ a ha
  rw [if_neg (by decide)] at heq
  rw [programEth, ha', heq, Option.bind_some, hentry] at hafter
  cases hafter

/-! ## Program ids -/

/-- The display of an address shows its first two and its last two bytes. -/
theorem Address.toText_eq_iff {a b : Address} :
    Address.toText a = Address.toText b ↔
      ∀ i ∈ [0, 1, 18, 19], Address.byte a i = Address.byte b i := by
  have hform : ∀ c : Address, Address.toText c = String.ofList (['0', 'x'] ++
      (Address.hexByte c 0 ++ Address.hexByte c 1) ++ ['.', '.', '.'] ++
      (Address.hexByte c 18 ++ Address.hexByte c 19)) := by
    intro c
    simp [Address.toText, Address.hexByte, List.range_succ]
  constructor
  · intro h
    rw [hform, hform] at h
    have hlen : ∀ (c : Address) (i : ℕ), (Address.hexByte c i).length = 2 := fun _ _ => rfl
    obtain ⟨hhead, htail⟩ := List.append_inj (String.ofList_injective h) (by simp [hlen])
    obtain ⟨hhead, -⟩ := List.append_inj hhead (by simp [hlen])
    obtain ⟨-, hhead⟩ := List.append_inj hhead rfl
    obtain ⟨h₀, h₁⟩ := List.append_inj hhead (by simp [hlen])
    obtain ⟨h₁₈, h₁₉⟩ := List.append_inj htail (by simp [hlen])
    simp only [List.forall_mem_cons]
    exact ⟨Address.byte_of_hexByte h₀, Address.byte_of_hexByte h₁, Address.byte_of_hexByte h₁₈,
      Address.byte_of_hexByte h₁₉, fun _ h => absurd h List.not_mem_nil⟩
  · intro h
    have hbyte : ∀ i ∈ [0, 1, 18, 19], Address.hexByte a i = Address.hexByte b i := by
      intro i hi
      rw [Address.hexByte, Address.hexByte, h i hi]
    rw [hform, hform, hbyte 0 (by simp), hbyte 1 (by simp), hbyte 18 (by simp), hbyte 19 (by simp)]

/-- Content id and display can be read off the text that is hashed, as every display has the
same length. -/
theorem programIdText_eq_iff {c c' : String} {a a' : Address} :
    programIdText c a = programIdText c' a' ↔ c = c' ∧ Address.toText a = Address.toText a' := by
  constructor
  · intro h
    have hlist := congrArg String.toList h
    simp only [programIdText, String.toList_append] at hlist
    have hlen : (Address.toText a).toList.length = (Address.toText a').toList.length := by
      simp [Address.toText, Address.hexByte]
    obtain ⟨hc, ha⟩ := List.append_inj' hlist hlen
    exact ⟨String.toList_inj.1 hc, String.toList_inj.1 ha⟩
  · rintro ⟨rfl, ha⟩
    rw [programIdText, ha, programIdText]

/-- Where Keccak keeps the two texts apart, two registrations have different programs for
different contents and signers, unless the same content is registered by two signers whose
addresses begin and end with the same two bytes. -/
theorem programId_unique_iff {env : Env} {c c' : String} {tx tx' : Transaction} {a a' : Address}
    (ha : env.recover tx = .ok a) (ha' : env.recover tx' = .ok a')
    (hkeccak : env.programIdOf c a = env.programIdOf c' a' →
      programIdText c a = programIdText c' a') :
    (createProgramId env c tx = createProgramId env c' tx' → c = c' ∧ a = a') ↔
      ¬(c = c' ∧ a ≠ a' ∧ ∀ i ∈ [0, 1, 18, 19], Address.byte a i = Address.byte a' i) := by
  have hsame : createProgramId env c tx = createProgramId env c' tx' ↔
      c = c' ∧ ∀ i ∈ [0, 1, 18, 19], Address.byte a i = Address.byte a' i := by
    unfold createProgramId
    rw [ha, ha', ← Address.toText_eq_iff, ← programIdText_eq_iff]
    refine ⟨fun h => hkeccak (Except.ok.inj h), fun h => ?_⟩
    simp only [Env.programIdOf, h]
  rw [hsame]
  constructor
  · rintro h ⟨hc, hne, hbytes⟩
    exact hne (h ⟨hc, hbytes⟩).2
  · rintro h ⟨hc, hbytes⟩
    refine ⟨hc, ?_⟩
    by_contra hne
    exact h ⟨hc, hne, hbytes⟩

theorem programId_unique_iff_seven_eight :
    createProgramId .small "a" registration ≠
      createProgramId .small "a" { registration with «from» := 8#160 } := by
  intro h
  have hiff : (createProgramId .small "a" registration =
      createProgramId .small "a" { registration with «from» := 8#160 } →
      "a" = "a" ∧ 7#160 = 8#160) ↔ _ :=
    programId_unique_iff rfl rfl fun h => absurd h (by decide)
  exact absurd (hiff.2 (by decide) h).2 (by decide)

/-- Two users that differ in the ninth byte only have the same program. -/
theorem programId_shared :
    (1#160 <<< 88) ≠ (2#160 <<< 88) ∧
      programIdText "a" (1#160 <<< 88) = programIdText "a" (2#160 <<< 88) ∧
      createProgramId .small "a" { registration with «from» := 1#160 <<< 88 } =
        createProgramId .small "a" { registration with «from» := 2#160 <<< 88 } :=
  ⟨by decide, by decide, by decide⟩

end Lasr
