import Lasr.Application
import Lasr.CallOutcomes
import Lasr.SendOutcomes

/-!
# Transactions that touch different accounts

The pending graph computes from a transaction and its outputs the accounts it touches
(`Vertex.extractAccountsTouched`). A send, a bridge-in or a call writes no other account
(`footprint_sound`). It reads others though : the program account of a token is looked at for
its metadata and data, and for whether it exists at all.

So two transactions that touch different accounts may still depend on their order, when one
makes or changes a program account that the other looks at. What one can tell of the other is
`Acts`, and the two commute exactly when each leaves the other alone
(`commute_iff_leavesAlone`).
-/

set_option linter.unusedSectionVars false

namespace Lasr

/-! ## The footprint -/

theorem Instruction.accountsTouched_eq (tx : Transaction) (i : Instruction) :
    i.accountsTouched tx = i.getAccountsInvolved.filterMap (AddressOrNamespace.resolve tx) := by
  unfold Instruction.accountsTouched
  congr 1

theorem Instruction.mem_accountsTouched {tx : Transaction} {i : Instruction}
    {ref : AddressOrNamespace} {a : Address} (href : ref ∈ i.getAccountsInvolved)
    (ha : a ∈ (ref.resolve tx).toList) : a ∈ i.accountsTouched tx := by
  rw [accountsTouched_eq]
  exact List.mem_filterMap.2 ⟨ref, href, Option.mem_toList.1 ha⟩

/-- An instruction names the accounts it may change, but for the called program's. -/
theorem Instruction.written_touched {tx : Transaction} {i : Instruction} {a : Address}
    (h : a ∈ i.written tx) : a = tx.to ∨ a ∈ i.accountsTouched tx := by
  cases i with
  | transfer i =>
    rcases List.mem_append.1 h with h | h
    · exact Or.inr (mem_accountsTouched (List.mem_cons_self ..) h)
    · exact Or.inr (mem_accountsTouched (List.mem_cons_of_mem _ (List.mem_cons_self ..)) h)
  | burn i => exact Or.inr (mem_accountsTouched (List.mem_cons_self ..) h)
  | create i =>
    rcases List.mem_cons.1 h with h | h
    · exact Or.inl h
    · obtain ⟨d, hd, ha⟩ := List.mem_flatMap.1 h
      exact Or.inr (mem_accountsTouched
        (List.mem_append_right _ (List.mem_map.2 ⟨d, hd, rfl⟩)) ha)
  | update i =>
    obtain ⟨u, hu, ha⟩ := List.mem_flatMap.1 h
    cases u with
    | tokenUpdate u => exact Or.inr (mem_accountsTouched (List.mem_map.2 ⟨_, hu, rfl⟩) ha)
    | programUpdate u => exact Or.inr (mem_accountsTouched (List.mem_map.2 ⟨_, hu, rfl⟩) ha)
  | log i => cases h

namespace Append

/-- `extract_accounts_touched`, of what is handed to the batcher. -/
def touched (m : Append) : List Address :=
  Vertex.extractAccountsTouched m.transaction m.outputs

/-- A send, a bridge-in or a call. -/
def isOrdinary (m : Append) : Bool :=
  m.transaction.transactionType.isSend || m.transaction.transactionType.isBridgeIn ||
    m.transaction.transactionType.isCall

theorem writes_touched {env : Env} {m : Append} (hm : m.isOrdinary) {a : Address}
    (ha : a ∈ m.writes env) : a ∈ m.touched := by
  obtain ⟨tx, outputs⟩ := m
  unfold touched Vertex.extractAccountsTouched
  rw [List.mem_dedup, List.mem_append]
  cases htype : tx.transactionType with
  | send n =>
    simp only [writes, htype] at ha
    exact Or.inl ha
  | bridgeIn n =>
    simp only [writes, htype] at ha
    exact Or.inl ha
  | call n =>
    cases outputs with
    | none => simp [writes, htype] at ha
    | some outputs =>
      simp only [writes, htype] at ha
      have hto : tx.to ∈ tx.getAccountsInvolved := by simp [Transaction.getAccountsInvolved]
      rcases List.mem_cons.1 ha with rfl | ha
      · exact Or.inl hto
      · obtain ⟨i, hi, ha⟩ := List.mem_flatMap.1 ha
        rcases Instruction.written_touched ha with rfl | ha
        · exact Or.inl hto
        · exact Or.inr (List.mem_flatMap.2 ⟨i, hi, ha⟩)
  | registerProgram n => simp [isOrdinary, htype, TransactionType.isSend,
      TransactionType.isBridgeIn, TransactionType.isCall] at hm
  | bridgeOut n => simp [writes, htype] at ha

end Append

/-- Whether it returns or fails, the batcher's future for a send, a bridge-in or a call writes
no account that its transaction does not touch; neither does it when it runs among others, and
reads whatever they have left. -/
theorem footprint_sound (env : Env) (order : HashOrder) {m : Append} (hm : m.isOrdinary) :
    (∀ storage cache, ∀ account ∈ writesAlone storage (m.future env order) cache,
        account.address ∈ Vertex.extractAccountsTouched m.transaction m.outputs) ∧
      (m.future env order).Meets (fun o : Op => ∀ account, o = .cacheAccount account →
        account.address ∈ Vertex.extractAccountsTouched m.transaction m.outputs)
        fun _ => True := by
  have hmeets : (m.future env order).Meets (fun o : Op => ∀ account, o = .cacheAccount account →
      account.address ∈ Vertex.extractAccountsTouched m.transaction m.outputs) fun _ => True := by
    refine m.within.mono (fun o ho account hacc => ?_) fun _ h => h
    subst hacc
    exact Append.writes_touched hm ho
  refine ⟨fun storage cache account hacc => ?_, hmeets⟩
  obtain ⟨o, ho, hsome⟩ := List.mem_filterMap.1 hacc
  have htouched := hmeets.of_mem_trace ho
  cases o with
  | cacheAccount account' =>
    cases hsome
    exact htouched account rfl
  | _ => cases hsome

/-- The accounts that the call of `mintAndBurn` writes. -/
def mintAndBurnWrites : List Account :=
  writesAlone (fun _ => none)
    (applyInstructionsToAccounts .small (callOf 7#160 9#160 1#256) mintAndBurn) oneProgram

theorem footprint_sound_mintAndBurn :
    mintAndBurnWrites.map Account.address = [9#160, 7#160, 9#160, 8#160] ∧
      ∀ account ∈ mintAndBurnWrites, account.address ∈
        Vertex.extractAccountsTouched (callOf 7#160 9#160 1#256) (some mintAndBurn) := by
  have hsound := footprint_sound .small Env.small.order
    (m := ⟨callOf 7#160 9#160 1#256, some mintAndBurn⟩) rfl
  exact ⟨by decide, hsound.1 (fun _ => none) oneProgram⟩

/-! ## Futures side by side -/

/-- What another transaction can tell of a future that touches the accounts of `F` and writes
those of `W`. -/
structure Acts (p : BatcherM Unit) (F W : List Address) (Goes Stays : AccountMap → Prop)
    (updates : Address → List ProgramUpdateField)
    (Copies : AccountMap → (Address → Template) → Prop) : Prop where
  /-- It returns where it goes through and the sender is there. -/
  isOk : ∀ {storage cache}, (runAlone storage p cache).1.isOk ↔
    Goes (accounts storage cache) ∧ Stays (accounts storage cache)
  /-- Where it goes through it has written the accounts of `W`, and updated programs. -/
  goes : ∀ {storage cache}, Goes (accounts storage cache) →
    SameTypes (accounts storage (runAlone storage p cache).2) ((accounts storage cache).opened W) ∧
      (∀ k, templateOf (accounts storage (runAlone storage p cache).2 k) =
        reviseProgram (updates k) (templateOf (accounts storage cache k))) ∧
      ∀ x ∈ W, ((runAlone storage p cache).2 x).isSome
  /-- Elsewhere it does nothing of the kind. -/
  fails : ∀ {storage cache}, ¬Goes (accounts storage cache) →
    SameTypes (accounts storage (runAlone storage p cache).2) (accounts storage cache) ∧
      ∀ k, templateOf (accounts storage (runAlone storage p cache).2 k) =
        templateOf (accounts storage cache k)
  /-- Whether it does is seen by the accounts it touches, and by which others there are. -/
  congr : ∀ {v v' : AccountMap}, SameTypes v' v → (∀ x ∈ F, v' x = v x) → (Goes v' ↔ Goes v)
  /-- Whether the sender is there is seen by the accounts it touches. -/
  stays : ∀ {v v' : AccountMap}, (∀ x ∈ F, v' x = v x) → (Stays v' ↔ Stays v)
  /-- More accounts do not hurt. -/
  mono : ∀ {v : AccountMap} {l : List Address}, (∀ x ∈ F, x ∉ l) → Goes v → Goes (v.opened l)
  /-- Where it fails, it leaves what the touched accounts say. -/
  same : ∀ {storage cache cache'}, (∀ x ∈ F, cache' x = cache x) → ¬Goes (accounts storage cache) →
    ¬Goes (accounts storage cache') →
    ∀ x ∈ F, (runAlone storage p cache').2 x = (runAlone storage p cache).2 x
  /-- Where it goes through, that is so up to what it copies. -/
  copies : ∀ {storage cache cache'}, (∀ x ∈ F, cache' x = cache x) →
    Goes (accounts storage cache) → Goes (accounts storage cache') →
    ((∀ x ∈ W, accounts storage (runAlone storage p cache').2 x =
        accounts storage (runAlone storage p cache).2 x) ↔
      Copies (accounts storage cache) fun k => templateOf (accounts storage cache' k))

section Acts

variable {storage cache : AccountStore} {p q : BatcherM Unit} {F F' W W' : List Address}
  {Goes Goes' Stays Stays' : AccountMap → Prop}
  {updates updates' : Address → List ProgramUpdateField}
  {Copies Copies' : AccountMap → (Address → Template) → Prop}

/-- The second future goes on as if the first had not been there : if it goes through with the
accounts that the first makes, it does without them, and copies the same metadata and data. -/
def GoesOn (v : AccountMap) (W : List Address) (Goes : AccountMap → Prop)
    (updates : Address → List ProgramUpdateField) (Goes' : AccountMap → Prop)
    (Copies' : AccountMap → (Address → Template) → Prop) : Prop :=
  Goes v → Goes' (v.opened W) →
    Goes' v ∧ Copies' v fun k => reviseProgram (updates k) (templateOf (v k))

/-- What is copied without any change is copied alike. -/
theorem Acts.copies_self (hp : Acts p F W Goes Stays updates Copies)
    (h : Goes (accounts storage cache)) :
    Copies (accounts storage cache) fun k => templateOf (accounts storage cache k) :=
  (hp.copies (fun _ _ => rfl) h h).1 fun _ _ => rfl

/-- Where a future goes through both times, the cells are the same as far as the accounts are. -/
theorem Acts.cells_iff {cache' : AccountStore} (hp : Acts p F W Goes Stays updates Copies)
    (hW : ∀ x ∈ W, x ∈ F) (hconfined : p.Confined (cacheHandler storage) {x | x ∈ W})
    (hF : ∀ x ∈ F, cache' x = cache x) (h : Goes (accounts storage cache))
    (h' : Goes (accounts storage cache')) :
    (∀ x ∈ F, (runAlone storage p cache').2 x = (runAlone storage p cache).2 x) ↔
      Copies (accounts storage cache) fun k => templateOf (accounts storage cache' k) := by
  have hcell : ∀ {s : AccountStore} {x : Address}, x ∉ W → (runAlone storage p s).2 x = s x :=
    fun hx => Prog.run_confined hconfined hx
  rw [← hp.copies hF h h']
  refine ⟨fun hall x hx => ?_, fun hall x hx => ?_⟩
  · unfold accounts
    rw [hall x (hW x hx)]
  · by_cases hxW : x ∈ W
    · exact eq_of_accounts ((hp.goes h).2.2 x hxW) ((hp.goes h').2.2 x hxW) (hall x hxW)
    · rw [hcell hxW, hcell hxW, hF x hx]

/-- After another future that leaves its accounts alone, a future goes on as before, if it is
not disturbed; and if the sender is there, only then. -/
theorem Acts.after (hp : Acts p F W Goes Stays updates Copies)
    (hq : Acts q F' W' Goes' Stays' updates' Copies') (hW : ∀ x ∈ W, x ∈ F)
    (hdisjoint : ∀ x ∈ F, x ∉ W') (hconfined : p.Confined (cacheHandler storage) {x | x ∈ W})
    (hleft : ∀ x ∈ F, (runAlone storage q cache).2 x = cache x) :
    (GoesOn (accounts storage cache) W' Goes' updates' Goes Copies →
      (runAlone storage p (runAlone storage q cache).2).1.isOk =
          (runAlone storage p cache).1.isOk ∧
        ∀ x ∈ F, (runAlone storage p (runAlone storage q cache).2).2 x =
          (runAlone storage p cache).2 x) ∧
      (Stays (accounts storage cache) →
        (runAlone storage p (runAlone storage q cache).2).1.isOk =
          (runAlone storage p cache).1.isOk →
        (∀ x ∈ F, (runAlone storage p (runAlone storage q cache).2).2 x =
          (runAlone storage p cache).2 x) →
        GoesOn (accounts storage cache) W' Goes' updates' Goes Copies) := by
  set cache' := (runAlone storage q cache).2 with hcache'
  have hsame : ∀ x ∈ F, accounts storage cache' x = accounts storage cache x := fun x hx => by
    unfold accounts
    rw [hleft x hx]
  have hopened : ∀ x ∈ F, accounts storage cache' x = (accounts storage cache).opened W' x :=
    fun x hx => by rw [opened_of_not_mem (hdisjoint x hx), hsame x hx]
  have hstays := hp.stays hsame
  have hcells := fun h h' => hp.cells_iff hW hconfined hleft h h'
  by_cases hgo : Goes' (accounts storage cache)
  · obtain ⟨htypes, htemplate, -⟩ := hq.goes hgo
    have hiff := hp.congr htypes hopened
    have hT : (fun k => templateOf (accounts storage cache' k)) = fun k =>
        reviseProgram (updates' k) (templateOf (accounts storage cache k)) := funext htemplate
    constructor
    · intro hon
      by_cases hgoes : Goes (accounts storage cache')
      · obtain ⟨hgoes₀, hcopies⟩ := hon hgo (hiff.1 hgoes)
        rw [← hT] at hcopies
        refine ⟨?_, (hcells hgoes₀ hgoes).2 hcopies⟩
        rw [Bool.eq_iff_iff, hp.isOk, hp.isOk, hstays]
        exact and_congr_left' (iff_of_true hgoes hgoes₀)
      · have hgoes₀ : ¬Goes (accounts storage cache) := fun h =>
          hgoes (hiff.2 (hp.mono hdisjoint h))
        refine ⟨?_, hp.same hleft hgoes₀ hgoes⟩
        rw [Bool.eq_iff_iff, hp.isOk, hp.isOk]
        exact iff_of_false (fun h => hgoes h.1) fun h => hgoes₀ h.1
    · intro hst hok hall _ hgoes
      have hgoes' := hiff.2 hgoes
      have hok' := hp.isOk.2 ⟨hgoes', hstays.2 hst⟩
      rw [hok] at hok'
      have hgoes₀ := (hp.isOk.1 hok').1
      refine ⟨hgoes₀, ?_⟩
      rw [← hT]
      exact (hcells hgoes₀ hgoes').1 hall
  · obtain ⟨htypes, htemplate⟩ := hq.fails hgo
    have hiff := hp.congr htypes hsame
    refine ⟨fun _ => ?_, fun _ _ _ h => absurd h hgo⟩
    refine ⟨by rw [Bool.eq_iff_iff, hp.isOk, hp.isOk, hiff, hstays], ?_⟩
    by_cases hgoes : Goes (accounts storage cache)
    · refine (hcells hgoes (hiff.2 hgoes)).2 ?_
      rw [show (fun k => templateOf (accounts storage cache' k)) = fun k =>
        templateOf (accounts storage cache k) from funext htemplate]
      exact hp.copies_self hgoes
    · exact hp.same hleft hgoes fun h => hgoes (hiff.1 h)

end Acts

/-! ## Sends and calls as futures side by side -/

/-- The receiver's entry comes out the same with the metadata and data `T` of the token's program
account. -/
def SendCopiesAlike (tx : Transaction) (v : AccountMap) (T : Address → Template) : Prop :=
  tx.to ≠ tx.from →
    sentTemplate tx ((v tx.to).bind fun a => a.programs tx.programId)
        (templateOf (v tx.programId)) =
      sentTemplate tx ((v tx.to).bind fun a => a.programs tx.programId) (T tx.programId)

/-- Every entry that the instructions start comes out the same with the metadata and data `T` of
its program account : what differs is overwritten by the updates of the entry that come along. -/
def CallCopiesAlike (tx : Transaction) (outputs : Outputs) (v : AccountMap)
    (T : Address → Template) : Prop :=
  ∀ x k, ¬v.Holds x k → (outputs.instructions.flatMap fun i => i.effects tx x k) ≠ [] →
    reviseEntry (entryUpdates (outputs.instructions.flatMap fun i => i.effects tx x k))
        (templateOf (v k)) =
      reviseEntry (entryUpdates (outputs.instructions.flatMap fun i => i.effects tx x k)) (T k)

section Kinds

variable {env : Env} {tx : Transaction} {outputs : Outputs} {F : List Address}

theorem isOk_iff_eq_ok {ε : Type} {y : Except ε Unit} : y.isOk ↔ y = .ok () := by
  cases y with
  | error e => simp [Except.isOk, Except.toBool]
  | ok u => simp [Except.isOk, Except.toBool]

theorem SendGoes.congr {v v' : AccountMap} (hprogram : (v tx.programId).isSome →
    (v' tx.programId).isSome) (hfrom : v' tx.from = v tx.from) (hto : v' tx.to = v tx.to)
    (h : SendGoes v tx) : SendGoes v' tx where
  sender := by
    rw [hfrom]
    exact h.sender
  program := h.program.imp_right (Or.imp_left hprogram)
  receiver := by
    rw [hto]
    exact h.receiver

/-- A send or a bridge-in. -/
theorem acts_send (hf : tx.from ∈ F) (ht : tx.to ∈ F) :
    Acts (addTransactionToAccount env tx) F [tx.from, tx.to] (fun v => SendGoes v tx)
      (fun _ => True) (fun _ => []) (SendCopiesAlike tx) where
  isOk := by
    intro storage cache
    rw [isOk_iff_eq_ok, addTransactionToAccount_isOk_iff_goes, and_true]
  goes := by
    intro storage cache h
    have hrun : runAlone storage (addTransactionToAccount env tx) cache =
        (.ok (), (runAlone storage (addTransactionToAccount env tx) cache).2) :=
      Prod.ext (addTransactionToAccount_isOk_iff_goes.2 h) rfl
    obtain ⟨htypes, htemplate⟩ := send_leaves hrun
    exact ⟨htypes, htemplate, fun x hx => send_written hrun (by simpa using hx)⟩
  fails := by
    intro storage cache h
    rcases hrun : runAlone storage (addTransactionToAccount env tx) cache with ⟨e | u, c⟩
    · rw [addTransactionToAccount_error hrun]
      exact ⟨fun _ => rfl, fun _ => rfl⟩
    · exact absurd (addTransactionToAccount_isOk_iff_goes.1 (by rw [hrun])) h
  congr := by
    intro v v' htypes hF
    exact ⟨SendGoes.congr (by rw [htypes.isSome]; exact id) (hF _ hf).symm (hF _ ht).symm,
      SendGoes.congr (by rw [htypes.isSome]; exact id) (hF _ hf) (hF _ ht)⟩
  stays := fun _ => Iff.rfl
  mono := by
    intro v l hl h
    refine SendGoes.congr (fun hsome => ?_) (opened_of_not_mem (hl _ hf))
      (opened_of_not_mem (hl _ ht)) h
    exact (isSome_opened v l _).2 (Or.inl hsome)
  same := by
    intro storage cache cache' hF h h' x hx
    have hfail : ∀ {s : AccountStore}, ¬SendGoes (accounts storage s) tx →
        (runAlone storage (addTransactionToAccount env tx) s).2 = s := by
      intro s hs
      rcases hrun : runAlone storage (addTransactionToAccount env tx) s with ⟨e | u, c⟩
      · exact addTransactionToAccount_error hrun
      · exact absurd (addTransactionToAccount_isOk_iff_goes.1 (by rw [hrun])) hs
    rw [hfail h, hfail h', hF x hx]
  copies := by
    intro storage cache cache' hF h h'
    have hof : ∀ {s : AccountStore}, SendGoes (accounts storage s) tx →
        runAlone storage (addTransactionToAccount env tx) s =
          (.ok (), (runAlone storage (addTransactionToAccount env tx) s).2) :=
      fun h => Prod.ext (addTransactionToAccount_isOk_iff_goes.2 h) rfl
    refine Iff.trans (forall_congr' fun x => ?_) (send_eq_iff (accounts_congr (hF _ hf))
      (accounts_congr (hF _ ht)) (hof h) (hof h'))
    simp only [List.mem_cons, List.not_mem_nil, or_false]

theorem CallFits.congr {v v' : AccountMap} (hresolved : ∀ i ∈ outputs.instructions,
      i.Resolved tx v → i.Resolved tx v') (ht : tx.to ∈ F)
    (hw : ∀ x ∈ outputs.instructions.flatMap (Instruction.written tx), x ∈ F)
    (hF : ∀ x ∈ F, v' x = v x) (h : CallFits v tx outputs) : CallFits v' tx outputs where
  program := by
    rw [hF _ ht]
    exact h.program
  resolved i hi := hresolved i hi (h.resolved i hi)
  entries x k := by
    by_cases hx : x ∈ F
    · have hsame : v'.holdingAt x k = v.holdingAt x k := by
        unfold AccountMap.holdingAt
        rw [hF x hx]
      rw [hsame]
      exact h.entries x k
    · have hnil : (outputs.instructions.flatMap fun i => i.effects tx x k) = [] :=
        List.flatMap_eq_nil_iff.2 fun i hi => Instruction.effects_eq_nil
          (fun hmem => hx (hw x (List.mem_flatMap.2 ⟨i, hi, hmem⟩))) k
      rw [hnil]
      rfl

theorem call_isOk_iff {storage cache : AccountStore} :
    (runAlone storage (applyInstructionsToAccounts env tx outputs) cache).1.isOk ↔
      CallFits (accounts storage cache) tx outputs ∧ ((accounts storage cache tx.from).isSome ∨
        tx.from ∈ outputs.instructions.flatMap (Instruction.written tx)) := by
  have hrefines :
      (runAlone storage (applyInstructionsToAccounts env tx outputs) cache).1.toOption.map
        (fun _ => accounts storage
          (runAlone storage (applyInstructionsToAccounts env tx outputs) cache).2) =
      callLedger tx (accounts storage cache) outputs := call_refines
  rw [← callLedger_isSome_iff_fits fun _ _ => address_of_accounts, ← hrefines]
  cases (runAlone storage (applyInstructionsToAccounts env tx outputs) cache).1 with
  | error e => simp [Except.isOk, Except.toBool, Except.toOption]
  | ok u => simp [Except.isOk, Except.toBool, Except.toOption]

/-- A call that does not go through changes the nonce of its program or nothing, as the program's
account has it. -/
theorem call_same {storage cache cache' : AccountStore} (hF : ∀ x ∈ F, cache' x = cache x)
    (ht : tx.to ∈ F) (h : ¬CallFits (accounts storage cache) tx outputs)
    (h' : ¬CallFits (accounts storage cache') tx outputs) {x : Address} (hx : x ∈ F) :
    (runAlone storage (applyInstructionsToAccounts env tx outputs) cache').2 x =
      (runAlone storage (applyInstructionsToAccounts env tx outputs) cache).2 x := by
  have hto : accounts storage cache' tx.to = accounts storage cache tx.to :=
    accounts_congr (hF _ ht)
  rcases call_of_not_fits env h with ⟨e, he, hno⟩ | ⟨caller, caller', e, hcaller, hinc, he⟩
  · rcases call_of_not_fits env h' with ⟨e', he', -⟩ |
      ⟨caller, caller', e', hcaller, hinc, -⟩
    · rw [he, he']
      exact hF x hx
    · rw [hto] at hcaller
      exact absurd ⟨caller, hcaller, Account.incrementNonce_isOk_iff.1 ⟨_, hinc⟩⟩ hno
  · rcases call_of_not_fits env h' with ⟨e', he', hno⟩ |
      ⟨caller₁, caller₁', e', hcaller₁, hinc₁, he'⟩
    · rw [hto] at hno
      exact absurd ⟨caller, hcaller, Account.incrementNonce_isOk_iff.1 ⟨_, hinc⟩⟩ hno
    · rw [hto, hcaller] at hcaller₁
      cases hcaller₁
      cases hinc.symm.trans hinc₁
      rw [he, he']
      unfold handleCacheWrite
      by_cases hxc : x = caller'.address
      · subst hxc
        simp
      · simp [hxc, hF x hx]

/-- A call. -/
theorem acts_call (hf : tx.from ∈ F) (ht : tx.to ∈ F)
    (hw : ∀ x ∈ outputs.instructions.flatMap (Instruction.written tx), x ∈ F) :
    Acts (applyInstructionsToAccounts env tx outputs) F
      (tx.to :: outputs.instructions.flatMap (Instruction.written tx))
      (fun v => CallFits v tx outputs)
      (fun v => (v tx.from).isSome ∨
        tx.from ∈ outputs.instructions.flatMap (Instruction.written tx))
      (fun k => outputs.instructions.flatMap (Instruction.programUpdates tx k))
      (CallCopiesAlike tx outputs) where
  isOk := call_isOk_iff
  goes := by
    intro storage cache h
    obtain ⟨caller, caller', t, hcaller, hinc, hmoves⟩ := h.goes
    obtain ⟨hleft, -, hwritten⟩ := call_goes env hcaller hinc hmoves
    obtain ⟨htypes, htemplate⟩ := call_leaves (fun _ _ => address_of_accounts) hcaller hinc hmoves
    rw [hleft]
    exact ⟨htypes, htemplate, fun x hx => hwritten x (List.mem_cons.1 hx)⟩
  fails := by
    intro storage cache h
    rcases call_of_not_fits env h with ⟨e, he, -⟩ | ⟨caller, caller', e, hcaller, hinc, he⟩
    · rw [he]
      exact ⟨fun _ => rfl, fun _ => rfl⟩
    · rw [he, accounts_handleCacheWrite]
      exact ⟨(put_incremented (fun _ _ => address_of_accounts) hcaller hinc).1,
        (entryAt_put_incremented (fun _ _ => address_of_accounts) hcaller hinc).2⟩
  congr := by
    intro v v' htypes hF
    exact ⟨CallFits.congr (fun _ _ => Instruction.resolved_congr htypes) ht hw
        fun x hx => (hF x hx).symm,
      CallFits.congr (fun _ _ => Instruction.resolved_congr htypes.symm) ht hw hF⟩
  stays := fun hF => by rw [hF _ hf]
  mono := fun hl => CallFits.congr (fun _ _ hi => hi.mono fun _ _ ha => opened_of_some ha _) ht hw
    fun x hx => opened_of_not_mem (hl x hx)
  same := fun hF h h' _ hx => call_same hF ht h h' hx
  copies := by
    intro storage cache cache' hF h h'
    obtain ⟨caller, caller', t, hcaller, hinc, hmoves⟩ := h.goes
    obtain ⟨caller₁, caller₁', t', hcaller₁, hinc₁, hmoves'⟩ := h'.goes
    have hcaller' := hcaller₁
    rw [accounts_congr (hF _ ht), hcaller] at hcaller₁
    cases hcaller₁
    cases hinc.symm.trans hinc₁
    rw [(call_goes env hcaller hinc hmoves).1,
      (call_goes env hcaller' hinc hmoves').1]
    exact call_eq_iff
      (F := {x | x ∈ tx.to :: outputs.instructions.flatMap (Instruction.written tx)})
      (fun _ _ => address_of_accounts) (fun _ _ => address_of_accounts)
      (fun x hx => accounts_congr (hF x ((List.mem_cons.1 hx).elim (fun h => h ▸ ht) (hw x))))
      (List.mem_cons_self ..) (fun x hx => List.mem_cons_of_mem _ hx) hcaller hinc hmoves hmoves'

/-- A call without outputs. -/
theorem acts_nothing :
    Acts (pure ()) F [] (fun _ => True) (fun _ => True) (fun _ => []) fun _ _ => True where
  isOk := iff_of_true rfl ⟨trivial, trivial⟩
  goes := fun _ => ⟨by rw [opened_nil]; exact fun _ => rfl, fun _ => rfl,
    fun _ hx => absurd hx List.not_mem_nil⟩
  fails := fun h => absurd trivial h
  congr := fun _ _ => Iff.rfl
  stays := fun _ => Iff.rfl
  mono := fun _ _ => trivial
  same := fun _ h => absurd trivial h
  copies := fun _ _ _ => iff_of_true (fun _ hx => absurd hx List.not_mem_nil) trivial

end Kinds

namespace Append

variable {env : Env} {order order' : HashOrder} {storage cache : AccountStore} {m m' : Append}

/-- The transaction goes through on these accounts. -/
def Goes (v : AccountMap) (m : Append) : Prop :=
  match m.transaction.transactionType, m.outputs with
  | .send _, _ => SendGoes v m.transaction
  | .bridgeIn _, _ => SendGoes v m.transaction
  | .call _, some outputs => CallFits v m.transaction outputs
  | _, _ => True

/-- The sender of a call is there, or the call makes its account. -/
def SenderStays (v : AccountMap) (m : Append) : Prop :=
  match m.transaction.transactionType, m.outputs with
  | .call _, some outputs => (v m.transaction.from).isSome ∨
      m.transaction.from ∈ outputs.instructions.flatMap (Instruction.written m.transaction)
  | _, _ => True

/-- The updates of the program at `k`. -/
def programUpdates (m : Append) (k : Address) : List ProgramUpdateField :=
  match m.transaction.transactionType, m.outputs with
  | .call _, some outputs =>
    outputs.instructions.flatMap (Instruction.programUpdates m.transaction k)
  | _, _ => []

/-- The entries that copy from program accounts come out the same with the metadata and data
`T`. -/
def CopiesAlike (m : Append) (v : AccountMap) (T : Address → Template) : Prop :=
  match m.transaction.transactionType, m.outputs with
  | .send _, _ => SendCopiesAlike m.transaction v T
  | .bridgeIn _, _ => SendCopiesAlike m.transaction v T
  | .call _, some outputs => CallCopiesAlike m.transaction outputs v T
  | _, _ => True

/-- The transaction `m` leaves `m'` alone : if `m` goes through on these accounts, and `m'` does
with the accounts that `m` makes, then `m'` does without them, and copies from the program
accounts what it would copy after the updates of `m`. -/
def LeavesAlone (env : Env) (v : AccountMap) (m m' : Append) : Prop :=
  m.Goes v → m'.Goes (v.opened (m.writes env)) →
    m'.Goes v ∧ m'.CopiesAlike v fun k => reviseProgram (m.programUpdates k) (templateOf (v k))

/-- The future of a send, a bridge-in or a call, as another transaction sees it. -/
theorem acts (env : Env) (order : HashOrder) (hm : m.isOrdinary) :
    Acts (m.future env order) m.touched (m.writes env) (fun v => m.Goes v)
      (fun v => m.SenderStays v) m.programUpdates m.CopiesAlike := by
  have hf : m.transaction.from ∈ m.touched := by
    simp [touched, Vertex.extractAccountsTouched, Transaction.getAccountsInvolved]
  have ht : m.transaction.to ∈ m.touched := by
    simp [touched, Vertex.extractAccountsTouched, Transaction.getAccountsInvolved]
  have hw : ∀ a ∈ m.writes env, a ∈ m.touched := fun a => writes_touched hm
  obtain ⟨tx, outputs⟩ := m
  generalize (⟨tx, outputs⟩ : Append).touched = F at hf ht hw ⊢
  unfold future appendTransaction Goes SenderStays programUpdates CopiesAlike writes
  cases htype : tx.transactionType with
  | send n => exact acts_send hf ht
  | bridgeIn n => exact acts_send hf ht
  | call n =>
    cases outputs with
    | none => exact acts_nothing
    | some outputs =>
      refine acts_call hf ht fun x hx => hw x ?_
      simp only [writes, htype]
      exact List.mem_cons_of_mem _ hx
  | registerProgram n => simp [isOrdinary, htype, TransactionType.isSend,
      TransactionType.isBridgeIn, TransactionType.isCall] at hm
  | bridgeOut n => exact acts_nothing

/-- Two transactions applied one after the other, in either order : each succeeds in both
orders or in none, and the cache is the same at the end. -/
structure Commute (env : Env) (order order' : HashOrder) (storage cache : AccountStore)
    (m m' : Append) : Prop where
  first : (runAlone storage (m.future env order)
      (runAlone storage (m'.future env order') cache).2).1.isOk =
    (runAlone storage (m.future env order) cache).1.isOk
  second : (runAlone storage (m'.future env order')
      (runAlone storage (m.future env order) cache).2).1.isOk =
    (runAlone storage (m'.future env order') cache).1.isOk
  cache : (runAlone storage (m.future env order)
      (runAlone storage (m'.future env order') cache).2).2 =
    (runAlone storage (m'.future env order') (runAlone storage (m.future env order) cache).2).2

end Append

/-- Sends, bridge-ins and calls that touch different accounts commute exactly when each leaves
the other alone. A call whose sender has no account fails in both orders; it commutes if it is
left alone, and may commute also if it is not. -/
theorem commute_iff_leavesAlone {env : Env} {order order' : HashOrder}
    {storage cache : AccountStore} {m m' : Append} (hm : m.isOrdinary) (hm' : m'.isOrdinary)
    (hdisjoint : ∀ a ∈ Vertex.extractAccountsTouched m.transaction m.outputs,
      a ∉ Vertex.extractAccountsTouched m'.transaction m'.outputs) :
    (m.LeavesAlone env (accounts storage cache) m' ∧ m'.LeavesAlone env (accounts storage cache) m →
        Append.Commute env order order' storage cache m m') ∧
      (m.SenderStays (accounts storage cache) → m'.SenderStays (accounts storage cache) →
        Append.Commute env order order' storage cache m m' →
        m.LeavesAlone env (accounts storage cache) m' ∧
          m'.LeavesAlone env (accounts storage cache) m) := by
  have hapart : ∀ x ∈ m.touched, x ∉ m'.touched := hdisjoint
  have hapart' : ∀ x ∈ m'.touched, x ∉ m.touched := fun x hx' hx => hdisjoint x hx hx'
  have hW : ∀ x ∈ m.writes env, x ∈ m.touched := fun x => Append.writes_touched hm
  have hW' : ∀ x ∈ m'.writes env, x ∈ m'.touched := fun x => Append.writes_touched hm'
  have hconfined : (m.future env order).Confined (cacheHandler storage) {x | x ∈ m.writes env} :=
    (batcherTasks env storage).confined (order, m)
  have hconfined' : (m'.future env order').Confined (cacheHandler storage)
      {x | x ∈ m'.writes env} := (batcherTasks env storage).confined (order', m')
  have hkeep : ∀ (s : AccountStore) {x : Address}, x ∉ m.touched →
      (runAlone storage (m.future env order) s).2 x = s x :=
    fun s x hx => Prog.run_confined hconfined fun h => hx (hW x h)
  have hkeep' : ∀ (s : AccountStore) {x : Address}, x ∉ m'.touched →
      (runAlone storage (m'.future env order') s).2 x = s x :=
    fun s x hx => Prog.run_confined hconfined' fun h => hx (hW' x h)
  obtain ⟨hgo, honly⟩ := (Append.acts env order hm).after (Append.acts env order' hm') hW
    (fun x hx hx' => hapart x hx (hW' x hx')) hconfined
    (fun x hx => hkeep' cache (hapart x hx))
  obtain ⟨hgo', honly'⟩ := (Append.acts env order' hm').after (Append.acts env order hm) hW'
    (fun x hx hx' => hapart' x hx (hW x hx')) hconfined'
    (fun x hx => hkeep cache (hapart' x hx))
  refine ⟨?_, fun hstays hstays' hcomm => ⟨?_, ?_⟩⟩
  · rintro ⟨halone, halone'⟩
    obtain ⟨hok, hcells⟩ := hgo halone'
    obtain ⟨hok', hcells'⟩ := hgo' halone
    refine ⟨hok, hok', funext fun x => ?_⟩
    by_cases hx : x ∈ m.touched
    · rw [hcells x hx, hkeep' _ (hapart x hx)]
    · rw [hkeep _ hx]
      by_cases hx' : x ∈ m'.touched
      · rw [hcells' x hx']
      · rw [hkeep' _ hx', hkeep' _ hx', hkeep _ hx]
  · refine honly' hstays' hcomm.second fun x hx => ?_
    rw [← hcomm.cache, hkeep _ (hapart' x hx)]
  · refine honly hstays hcomm.first fun x hx => ?_
    rw [hcomm.cache, hkeep' _ (hapart x hx)]

/-- A program, its owner, and a user who holds 10 of its token. -/
def tokenHolder : AccountStore :=
  storeOf [Account.holding 7#160 9#160 10#256, Account.build (.program 9#160) 5#160,
    Account.build .user 5#160]

/-- The user sends 4 of the token to someone new. -/
def tokenSend : Append :=
  ⟨{ ethSend 7#160 8#160 4#256 1#256 with programId := 9#160 }, none⟩

/-- The owner calls the program, which sets a symbol and takes it back again. -/
def symbolRestored : Append :=
  ⟨callOf 5#160 9#160 1#256,
    some ⟨[.update ⟨[.programUpdate ⟨.this, [⟨.metadata (.insert "symbol" "N")⟩,
      ⟨.metadata (.remove "symbol")⟩]⟩]⟩]⟩⟩

/-- It commutes with the send, which would carry the symbol to the new holder. -/
theorem commute_iff_leavesAlone_symbolRestored :
    Append.Commute .small Env.small.order Env.small.order (fun _ => none) tokenHolder
      symbolRestored tokenSend := by
  refine (commute_iff_leavesAlone rfl rfl (@of_decide_eq_true _ (List.decidableBAll _ _) rfl)).1
    ⟨fun _ _ => ⟨⟨Or.inl ⟨_, rfl, by decide, Or.inr ⟨Or.inl rfl, ?_⟩⟩, Or.inr (Or.inl rfl), ?_⟩,
      fun _ => ?_⟩, fun _ _ => ⟨⟨⟨_, rfl, by decide⟩, ?_, fun _ _ => rfl⟩, fun _ _ _ hes =>
        absurd rfl hes⟩⟩
  · rintro (⟨-, -, hlt⟩ | ⟨hside, -⟩)
    · exact absurd hlt (by decide)
    · exact hside.elim (fun h => absurd h.2 (by decide)) fun h => h.1 rfl
  · intro _ a t ha
    cases (show accounts (fun _ => none) tokenHolder 8#160 = none from rfl).symm.trans ha
  · -- The metadata is empty before and after.
    have hback : (BTreeMap.insert (fun _ => none) "symbol" "N" : Metadata).remove "symbol" =
        fun _ => none := by
      funext key
      by_cases hkey : key = "symbol" <;> simp [BTreeMap.insert, BTreeMap.remove, hkey]
    exact congrArg (fun metadata => (metadata, fun _ => none)) hback.symm
  · intro i hi
    cases List.mem_singleton.1 hi
    intro u hu
    cases List.mem_singleton.1 hu
    exact ⟨9#160, _, 9#160, rfl, rfl, rfl⟩

/-- The owner calls the program, which changes its metadata. -/
def symbolUpdate : Append :=
  ⟨callOf 5#160 9#160 1#256,
    some ⟨[.update ⟨[.programUpdate ⟨.this, [⟨.metadata (.insert "symbol" "N")⟩]⟩]⟩]⟩⟩

/-- The metadata that the new holder's entry carries. -/
def newEntry (cache : AccountStore) : Option String :=
  (accounts (fun _ => none) cache 8#160).bind fun a =>
    (a.programs 9#160).bind fun t => t.metadata "symbol"

/-- The two transactions touch different accounts and succeed, and yet the new entry is another
one in the other order. -/
theorem symbolUpdate_order_matters :
    (∀ a ∈ Vertex.extractAccountsTouched symbolUpdate.transaction symbolUpdate.outputs,
        a ∉ Vertex.extractAccountsTouched tokenSend.transaction tokenSend.outputs) ∧
      ¬Append.Commute .small Env.small.order Env.small.order (fun _ => none) tokenHolder
        symbolUpdate tokenSend := by
  refine ⟨@of_decide_eq_true _ (List.decidableBAll _ _) rfl, fun h => ?_⟩
  have hentry := congrArg newEntry h.cache
  revert hentry
  decide

end Lasr
