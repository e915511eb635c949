import Lasr.Authority
import Lasr.Isolation

/-!
# What an account stays

Every operation of the batcher rewrites whole accounts. What it writes over an account is a
successor of it (`Account.Succeeds`) : the type, the namespace and the owner are the same, every
entry is still there with its program and its owner, and a new entry is filed under its program.
Over any history of sends, bridge-ins and calls an account therefore stays what it is, and no
entry gets lost (`identity_immutable`).
-/

set_option linter.unusedSectionVars false

namespace Lasr

/-! ## Successors of an account -/

/-- A later version of an account, with the same identity and the same entries. -/
structure Account.Persists (a a' : Account) : Prop where
  accountType : a'.accountType = a.accountType
  ownerAddress : a'.ownerAddress = a.ownerAddress
  programNamespace : a'.programNamespace = a.programNamespace
  entries : ∀ k t, a.programs k = some t →
    ∃ t', a'.programs k = some t' ∧ t'.programId = t.programId ∧ t'.ownerId = t.ownerId

/-- A later version of an account whose new entries are filed under their program, and
belong to `owner`. -/
structure Account.Succeeds (owner : Address) (a a' : Account) : Prop extends
    Account.Persists a a' where
  added : ∀ k t', a.programs k = none → a'.programs k = some t' →
    t'.programId = k ∧ t'.ownerId = owner

/-- Every entry of the account is filed under its program. -/
def Account.Filed (a : Account) : Prop :=
  ∀ k t, a.programs k = some t → t.programId = k

namespace Account

variable {a a' a'' : Account} {owner : Address}

theorem Persists.refl (a : Account) : a.Persists a :=
  ⟨rfl, rfl, rfl, fun _ t ht => ⟨t, ht, rfl, rfl⟩⟩

theorem Persists.trans (h : a.Persists a') (h' : a'.Persists a'') : a.Persists a'' := by
  refine ⟨h'.1.trans h.1, h'.2.trans h.2, h'.3.trans h.3, fun k t ht => ?_⟩
  obtain ⟨t', ht', hp, ho⟩ := h.entries k t ht
  obtain ⟨t'', ht'', hp', ho'⟩ := h'.entries k t' ht'
  exact ⟨t'', ht'', hp'.trans hp, ho'.trans ho⟩

theorem Persists.address (h : a.Persists a') : a'.address = a.address := by
  simp only [Account.address, h.accountType, h.ownerAddress]

theorem Succeeds.refl (a : Account) (owner : Address) : a.Succeeds owner a :=
  ⟨.refl a, fun k t' hn ht => absurd (hn.symm.trans ht) (by simp)⟩

theorem Succeeds.filed (h : a.Succeeds owner a') (hf : a.Filed) : a'.Filed := by
  intro k t' ht'
  cases ht : a.programs k with
  | none => exact (h.added k t' ht ht').1
  | some t =>
    obtain ⟨u, hu, hp, -⟩ := h.entries k t ht
    cases ht'.symm.trans hu
    exact hp.trans (hf k t ht)

theorem filed_of_empty (h : a.programs = fun _ => none) : a.Filed := by
  intro k t ht
  rw [h] at ht
  cases ht

/-- Replacing an entry by one of the same program and owner, or adding one. -/
theorem succeeds_insertProgram {k : Address} {t t' : Token} (hs : a.Starts k owner t)
    (hp : t'.programId = t.programId) (ho : t'.ownerId = t.ownerId) :
    a.Succeeds owner (a.insertProgram k t') := by
  refine ⟨⟨rfl, rfl, rfl, fun j u hu => ?_⟩, fun j u hn hu => ?_⟩
  · rw [programs_insertProgram]
    split_ifs with hj
    · subst hj
      rcases hs with ht | ⟨hn, -⟩
      · cases ht.symm.trans hu
        exact ⟨t', rfl, hp, ho⟩
      · rw [hn] at hu
        cases hu
    · exact ⟨u, hu, rfl, rfl⟩
  · rw [programs_insertProgram] at hu
    split_ifs at hu with hj
    · subst hj
      cases hu
      rcases hs with ht | ⟨-, metadata, data, rfl⟩
      · rw [hn] at ht
        cases ht
      · exact ⟨hp, ho⟩
    · rw [hn] at hu
      cases hu

theorem succeeds_incrementNonce (h : a.incrementNonce = .ok a') : a.Succeeds owner a' := by
  rw [(incrementNonce_ok h).2]
  exact ⟨⟨rfl, rfl, rfl, fun _ t ht => ⟨t, ht, rfl, rfl⟩⟩,
    fun k t' hn ht => absurd (hn.symm.trans ht) (by simp)⟩

end Account

/-! ## What a call writes over an account -/

/-- The owner of an entry that an edit makes. A transfer takes the `owner_address`. -/
def Edit.newOwner : Edit → Account → Address
  | .receive .., a => a.ownerAddress
  | _, a => a.address

theorem Edit.apply_succeeds {e : Edit} {a a' : Account} (h : e.apply a = some a') :
    a.Succeeds (e.newOwner a) a' := by
  cases e with
  | give k amount ids =>
    obtain ⟨t, t', ht, hgive, rfl⟩ := Edit.give_apply h
    have heq := Token.give_eq hgive
    exact Account.succeeds_insertProgram (Or.inl ht) (by rw [heq]) (by rw [heq])
  | receive k amount ids programAccount =>
    obtain ⟨t, t', hs, hreceive, rfl⟩ := Edit.receive_apply h
    have heq := Token.receive_eq hreceive
    exact Account.succeeds_insertProgram hs (by rw [heq]) (by rw [heq])
  | distribute k amount ids updates programAccount =>
    obtain ⟨t, u, t', hs, hreceive, hupdates, rfl⟩ := Edit.distribute_apply h
    have heq := Token.receive_eq hreceive
    have hsame := Token.applyUpdates_sameHolding hupdates
    exact Account.succeeds_insertProgram hs (by rw [hsame.programId, heq])
      (by rw [hsame.ownerId, heq])
  | updateToken k updates programAccount =>
    obtain ⟨t, t', hs, hupdates, rfl⟩ := Edit.updateToken_apply h
    have hsame := Token.applyUpdates_sameHolding hupdates
    exact Account.succeeds_insertProgram hs hsame.programId hsame.ownerId
  | updateProgram update =>
    obtain ⟨-, hh, hp⟩ := Edit.updateProgram_apply h
    refine ⟨⟨hh.accountType, hh.ownerAddress, hh.programNamespace, fun k t ht => ?_⟩,
      fun k t' hn ht => ?_⟩
    · exact ⟨t, by rw [hp]; exact ht, rfl, rfl⟩
    · rw [hp, hn] at ht
      cases ht
  | keep =>
    cases h
    exact .refl a _

/-! ## What a send writes over an account -/

namespace Account

variable {a a' : Account} {tx : Transaction} {programAccount : Option Account} {token : Token}

theorem updateHeldToken_succeeds {t : Token} {owner : Address} (hf : a.Filed)
    (ht : a.programs tx.programId = some t)
    (h : a.updateHeldToken t tx programAccount = .ok (a', token)) : a.Succeeds owner a' := by
  obtain ⟨newToken, hnew, hr⟩ := Except.bind_eq_ok_iff.1 h
  have heq := (Token.tryFrom_ok hnew).1
  have hp : newToken.programId = t.programId := by rw [heq]
  have ho : newToken.ownerId = t.ownerId := by rw [heq]
  have hs : a.Starts newToken.programId owner t :=
    Or.inl (by rw [hp, hf _ _ ht]; exact ht)
  cases programAccount <;> (cases hr; exact succeeds_insertProgram hs hp ho)

theorem createToken_succeeds (hn : a.programs tx.programId = none)
    (h : a.createToken tx programAccount = .ok (a', token)) : a.Succeeds tx.to a' := by
  have hs : a.Starts tx.programId tx.to
      (Token.fresh tx.programId tx.to (fun _ => none) (fun _ => none)) :=
    Or.inr ⟨hn, _, _, rfl⟩
  cases programAccount <;> (cases h; exact succeeds_insertProgram hs rfl rfl)

/-- A new entry of a send belongs to the receiver. It is put into an account that has none,
by a bridge-in or between two accounts, where the receiver owns this one or is its program. -/
theorem applySendTransaction_succeeds (hf : a.Filed)
    (h : a.applySendTransaction tx programAccount = .ok (a', token)) :
    (∀ owner, a.Succeeds owner a') ∨
      a.Succeeds tx.to a' ∧ a.programs tx.programId = none ∧
        (tx.transactionType.isBridgeIn = true ∨
          tx.to ≠ tx.from ∧ (tx.to = a.ownerAddress ∨ a.accountType = .program tx.to)) := by
  unfold applySendTransaction at h
  split at h
  · next hb =>
    split at h
    · next hn =>
      cases h
      refine Or.inr ⟨succeeds_insertProgram
          (Or.inr ⟨hn, fun _ => none, fun _ => none, rfl⟩) rfl rfl,
        hn, Or.inl hb⟩
    · next t ht => exact Or.inl fun _ => updateHeldToken_succeeds hf ht h
  · split at h
    · split at h
      · cases h
        exact Or.inl fun _ => .refl a _
      · cases h
    · next hne =>
      split at h
      · next t ht => exact Or.inl fun _ => updateHeldToken_succeeds hf ht h
      · next hn =>
        split at h
        · next hown =>
          exact Or.inr ⟨createToken_succeeds hn h, hn, Or.inr ⟨hne, Or.inl hown⟩⟩
        · split at h
          · next p hp =>
            split at h
            · next hto =>
              refine Or.inr ⟨createToken_succeeds hn h, hn, Or.inr ⟨hne, Or.inr ?_⟩⟩
              rw [hp, hto]
            · cases h
          · cases h

end Account

/-! ## Accounts that stay -/

/-- The accounts `v` have become `v'` : each is filed under its address and its entries under
their programs, and every account of `v` persists. -/
structure Kept (v v' : AccountMap) : Prop where
  keyed : ∀ x a, v' x = some a → a.address = x
  filed : ∀ x a, v' x = some a → a.Filed
  persists : ∀ x a, v x = some a → ∃ a', v' x = some a' ∧ a.Persists a'

section Kept

variable {v s s' : AccountMap} {tx : Transaction}

theorem Kept.put {b : Account} (h : Kept v s) (hf : b.Filed)
    (hb : ∀ a, s b.address = some a → a.Persists b) : Kept v (s.put b) := by
  refine ⟨fun x a ha => ?_, fun x a ha => ?_, fun x a ha => ?_⟩
  · rw [AccountMap.put_apply] at ha
    split_ifs at ha with hx
    · cases ha
      exact hx.symm
    · exact h.keyed x a ha
  · rw [AccountMap.put_apply] at ha
    split_ifs at ha with hx
    · cases ha
      exact hf
    · exact h.filed x a ha
  · obtain ⟨a', ha', hp⟩ := h.persists x a ha
    rw [AccountMap.put_apply]
    split_ifs with hx
    · subst hx
      exact ⟨b, rfl, hp.trans (hb a' ha')⟩
    · exact ⟨a', ha', hp⟩

/-- The changes an instruction plans keep the accounts. -/
theorem Kept.runMoves {ms : List AccountMove} (h : Kept v s)
    (hms : ∀ m ∈ ms, ∀ c ∈ m.changes, ∃ w i, Instruction.Plans tx w i c)
    (hrun : runMoves Edit.apply ms s = some s') : Kept v s' := by
  have hkeep := runMoves_keeps (P := fun x a => a.address = x ∧ a.Filed)
    (fun m hm c hc a ha => by
      obtain ⟨w, i, hplans⟩ := hms m hm c hc
      exact ⟨hplans.freshKeyed a ha, Account.filed_of_empty (hplans.fresh_programs ha)⟩)
    (fun m hm c hc a a' ha happ => by
      have hs := Edit.apply_succeeds happ
      exact ⟨hs.address.trans ha.1, hs.filed ha.2⟩)
    (fun x a ha => ⟨h.keyed x a ha, h.filed x a ha⟩) hrun
  refine ⟨fun x a ha => (hkeep x a ha).1, fun x a ha => (hkeep x a ha).2, fun x a ha => ?_⟩
  obtain ⟨b, hb, hab⟩ := h.persists x a ha
  obtain ⟨a', ha', hba'⟩ := runMoves_related (R := Account.Persists) Account.Persists.refl
    (fun _ _ _ => .trans)
    (fun m hm c hc _ u w hw => (Edit.apply_succeeds hw).toPersists) hrun hb
  exact ⟨a', ha', hab.trans hba'⟩

end Kept

/-! ## Histories -/

/-- What a send writes : a side of it, which was there or was built, has had its nonce
advanced or not, and was sent to or not. -/
def SendWrites (v : AccountMap) (tx : Transaction) (b : Account) : Prop :=
  (b.address = tx.from ∨ b.address = tx.to) ∧ ∃ a a₁,
    (v b.address = some a ∨ v b.address = none ∧ a = Account.build .user b.address) ∧
    (a₁ = a ∨ a.incrementNonce = .ok a₁) ∧
    (b = a₁ ∨ ∃ programAccount token,
      a₁.applySendTransaction tx programAccount = .ok (b, token))

section History

variable {env : Env} {storage cache cache' : AccountStore} {tx : Transaction}

theorem debitSender_writes {r : Account × Token}
    (h : runAlone storage (debitSender tx) cache = (.ok r, cache')) :
    SendWrites (accounts storage cache) tx r.1 := by
  have haddr := debitSender_address h
  refine ⟨Or.inl haddr, ?_⟩
  rw [haddr]
  obtain ⟨-, ⟨a, a₁, ha, hinc, hsend⟩ | ⟨hn, -, programAccount, hsend⟩⟩ := debitSender_ok h
  · exact ⟨a, a₁, Or.inl ha, Or.inr hinc, Or.inr ⟨none, r.2, hsend⟩⟩
  · exact ⟨_, _, Or.inr ⟨hn, rfl⟩, Or.inl rfl, Or.inr ⟨programAccount, r.2, hsend⟩⟩

theorem creditReceiver_writes {toAccount : Account}
    (h : runAlone storage (creditReceiver tx (receiverOf storage cache tx)) cache =
      (.ok toAccount, cache')) : SendWrites (accounts storage cache) tx toAccount := by
  have haddr := (creditReceiver_sameHeader h).address.trans receiverOf_address
  refine ⟨Or.inr haddr, receiverOf storage cache tx, _, ?_, Or.inl rfl, ?_⟩
  · rw [haddr, receiverOf]
    cases accounts storage cache tx.to with
    | none => exact Or.inr ⟨rfl, rfl⟩
    | some a => exact Or.inl rfl
  · obtain ⟨-, programAccount, ⟨token, hok⟩ | ⟨-, heq⟩⟩ := creditReceiver_ok h
    · exact Or.inr ⟨programAccount, token, hok⟩
    · exact Or.inl heq

/-- The two sides of a self-send write what the sender's side does. -/
theorem creditReceiver_self {a toAccount : Account} (hself : tx.to = tx.from)
    (hb : tx.transactionType.isBridgeIn = false)
    (h : runAlone storage (creditReceiver tx a) cache = (.ok toAccount, cache')) :
    toAccount = a := by
  obtain ⟨-, programAccount, ⟨token, hok⟩ | ⟨-, heq⟩⟩ := creditReceiver_ok h
  · exact Account.applySendTransaction_self hself hb hok
  · exact heq

/-- What the writes of a send keep holds after it, whether it returned or not. -/
theorem send_induction (env : Env) {I : AccountMap → Prop} (hstart : I (accounts storage cache))
    (hput : ∀ s b, I s → s b.address = accounts storage cache b.address →
      SendWrites (accounts storage cache) tx b → I (s.put b)) :
    I (accounts storage (runAlone storage (addTransactionToAccount env tx) cache).2) := by
  rcases hrun : runAlone storage (addTransactionToAccount env tx) cache with ⟨e | u, cache'⟩
  · rw [addTransactionToAccount_error hrun]
    exact hstart
  · obtain ⟨r, hr, ⟨hne, toAccount, hto, heq⟩ | ⟨hself, hb, toAccount, hto, heq⟩ |
      ⟨hself, hb, heq⟩⟩ := addTransactionToAccount_ok hrun
    · have hI := hput _ r.1 hstart rfl (debitSender_writes hr)
      rw [heq]
      refine hput _ toAccount hI ?_ (creditReceiver_writes hto)
      rw [AccountMap.put_of_ne]
      rw [(creditReceiver_sameHeader hto).address, receiverOf_address, debitSender_address hr]
      exact hne
    · rw [heq, creditReceiver_self hself hb hto]
      exact hput _ r.1 hstart rfl (debitSender_writes hr)
    · rw [heq]
      exact hput _ r.1 hstart rfl (debitSender_writes hr)

/-- What a send writes over an account persists it. -/
theorem SendWrites.kept {v : AccountMap} {b : Account} (h : SendWrites v tx b)
    (hf : ∀ x a, v x = some a → a.Filed) :
    b.Filed ∧ ∀ a, v b.address = some a → a.Persists b := by
  obtain ⟨-, a, a₁, ha, hinc, hsend⟩ := h
  have hfa : a.Filed := by
    rcases ha with ha | ⟨-, rfl⟩
    · exact hf _ a ha
    · exact Account.filed_of_empty rfl
  have h₁ : a.Succeeds tx.to a₁ := by
    rcases hinc with rfl | hinc
    · exact .refl _ _
    · exact Account.succeeds_incrementNonce hinc
  have h₂ : a₁.Succeeds tx.to b := by
    rcases hsend with rfl | ⟨programAccount, token, hsend⟩
    · exact .refl _ _
    · rcases Account.applySendTransaction_succeeds (h₁.filed hfa) hsend with hany | ⟨hto, -⟩
      · exact hany tx.to
      · exact hto
  refine ⟨h₂.filed (h₁.filed hfa), fun c hc => ?_⟩
  rcases ha with ha | ⟨hn, -⟩
  · cases ha.symm.trans hc
    exact h₁.toPersists.trans h₂.toPersists
  · rw [hn] at hc
    cases hc

theorem kept_send {v : AccountMap} (env : Env) (h : Kept v (accounts storage cache)) :
    Kept v (accounts storage (runAlone storage (addTransactionToAccount env tx) cache).2) := by
  refine send_induction env h fun s b hs hsame hwrites => ?_
  obtain ⟨hf, hp⟩ := hwrites.kept h.filed
  refine hs.put hf fun a ha => hp a ?_
  rw [← hsame]
  exact ha

theorem kept_call {v : AccountMap} {outputs : Outputs} (env : Env)
    (h : Kept v (accounts storage cache)) :
    Kept v (accounts storage
      (runAlone storage (applyInstructionsToAccounts env tx outputs) cache).2) := by
  refine call_induction env h (fun caller caller' hcaller hinc => ?_) fun i s s' hstep hs => ?_
  · have hsucc : caller.Succeeds tx.to caller' := Account.succeeds_incrementNonce hinc
    refine h.put (hsucc.filed (h.filed _ _ hcaller)) fun a ha => ?_
    rw [(Account.incrementNonce_keeps hinc).1, address_of_accounts hcaller, hcaller] at ha
    cases ha
    exact hsucc.toPersists
  · obtain ⟨hi, w, ms, hms, hrun⟩ := hstep.plan
    exact hs.runMoves (fun m hm c hc => ⟨w, i, Instruction.plans_of_mem hms hm hc⟩) hrun

/-- A transaction that registers no program keeps the accounts. -/
theorem kept_append {v : AccountMap} (env : Env) {m : Append}
    (hm : ∀ n, m.transaction.transactionType ≠ .registerProgram n)
    (h : Kept v (accounts storage cache)) :
    Kept v (accounts storage (applyAppend env storage cache m)) := by
  unfold applyAppend appendTransaction
  cases htype : m.transaction.transactionType with
  | bridgeIn n => exact kept_send env h
  | send n => exact kept_send env h
  | call n =>
    cases m.outputs with
    | none => exact h
    | some outputs => exact kept_call env h
  | registerProgram n => exact absurd htype (hm n)
  | bridgeOut n => exact h

theorem kept_serially {v : AccountMap} : ∀ {ledger : List (HashOrder × Append)}
    {cache : AccountStore},
    (∀ e ∈ ledger, ∀ n, e.2.transaction.transactionType ≠ .registerProgram n) →
    Kept v (accounts storage cache) → Kept v (accounts storage (serially env storage cache ledger))
  | [], _, _, h => h
  | e :: ledger, cache, hledger, h => by
    have hrest : ∀ e' ∈ ledger, ∀ n, e'.2.transaction.transactionType ≠ .registerProgram n :=
      fun e' he' => hledger e' (List.mem_cons_of_mem _ he')
    have hstep := kept_append { env with order := e.1 } (hledger e (List.mem_cons_self ..)) h
    have hdone := kept_serially hrest hstep
    exact hdone

/-- Over any history without registrations every account keeps its type, its owner and its
namespace, and every entry its program and its owner; none of them disappears. -/
theorem identity_immutable {ledger : List (HashOrder × Append)}
    (hfiled : ∀ x a, accounts storage cache x = some a → a.Filed)
    (hledger : ∀ e ∈ ledger, ∀ n, e.2.transaction.transactionType ≠ .registerProgram n) :
    Kept (accounts storage cache) (accounts storage (serially env storage cache ledger)) :=
  kept_serially hledger
    ⟨fun _ _ => address_of_accounts, hfiled, fun _ a ha => ⟨a, ha, .refl a⟩⟩

end History

theorem AccountMap.mem_of_putAll : ∀ {l : List Account} {v : AccountMap} {x : Address}
    {a : Account}, v.putAll l x = some a → a ∈ l ∨ v x = some a
  | [], _, _, _, h => Or.inr h
  | b :: l, v, x, a, h => by
    rcases mem_of_putAll (v := v.put b) h with hmem | hput
    · exact Or.inl (List.mem_cons_of_mem _ hmem)
    · rw [AccountMap.put_apply] at hput
      split_ifs at hput with hx
      · cases hput
        exact Or.inl (List.mem_cons_self ..)
      · exact Or.inr hput

/-- Every account of a written cache is one of those written. -/
theorem mem_of_storeOf {l : List Account} {x : Address} {a : Account}
    (h : accounts (fun _ => none) (storeOf l) x = some a) : a ∈ l := by
  unfold storeOf at h
  rw [accounts_foldl_handleCacheWrite] at h
  exact (AccountMap.mem_of_putAll h).resolve_right (fun hn => nomatch hn)

theorem identity_immutable_mintAndBurn :
    Kept (accounts (fun _ => none) oneProgram) (accounts (fun _ => none)
      (serially .small (fun _ => none) oneProgram
        [(Env.small.order, ⟨callOf 7#160 9#160 1#256, some mintAndBurn⟩),
          (Env.small.order, ⟨ethSend 7#160 8#160 4#256 1#256, none⟩)])) := by
  refine identity_immutable (fun x a ha => ?_) fun e he n => ?_
  · rcases List.mem_cons.1 (mem_of_storeOf ha) with rfl | ha
    · exact fun k t ht => (Account.tokensOwned_holding _ _ _ k t ht).1
    · rw [List.mem_singleton.1 ha]
      exact Account.filed_of_empty rfl
  · rcases List.mem_cons.1 he with rfl | he
    · simp [callOf]
    · rw [List.mem_singleton.1 he]
      simp [ethSend]

end Lasr
