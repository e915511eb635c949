import Lasr.Identity
import Lasr.Revisions

/-!
# When a send goes through, and what it leaves

A send or a bridge-in returns exactly when it goes through on the accounts (`SendGoes`,
`addTransactionToAccount_isOk_iff_goes`). Its program account is asked whether it exists, and
gives its metadata and data to the receiver's entry (`sentTemplate`), and that is all that the
outcome depends on besides the accounts of the two sides (`send_eq_iff`).
-/

set_option linter.unusedSectionVars false

namespace Lasr

/-! ## When a send goes through -/

/-- `TryFrom` panics on the entry : the sender's cannot pay, or the one that is credited is
full. -/
def Token.Overflows (t : Token) (tx : Transaction) : Prop :=
  t.ownerId = tx.from ∧ tx.transactionType.isBridgeIn = false ∧
      t.balance.toNat < tx.value.toNat ∨
    (t.ownerId = tx.from ∧ tx.transactionType.isBridgeIn = true ∨
        t.ownerId ≠ tx.from ∧ t.ownerId = tx.to) ∧
      2 ^ 256 ≤ t.balance.toNat + tx.value.toNat

/-- The entry is the sender's or the receiver's. -/
def Token.OfSide (t : Token) (tx : Transaction) : Prop :=
  t.ownerId = tx.from ∨ t.ownerId = tx.to

/-- An account can be sent from, or to. -/
def Account.Sends (a : Account) (tx : Transaction) : Prop :=
  match a.programs tx.programId with
  | some t =>
    tx.to = tx.from ∧ tx.transactionType.isBridgeIn = false ∨ t.OfSide tx ∧ ¬t.Overflows tx
  | none =>
    tx.transactionType.isBridgeIn = true ∨
      tx.to ≠ tx.from ∧ (tx.to = a.ownerAddress ∨ a.accountType = .program tx.to)

/-- A send or a bridge-in goes through on these accounts : the sender can send, or is missing
and bridged in, the program of the token is there, and the receiver's entry is not full. -/
structure SendGoes (v : AccountMap) (tx : Transaction) : Prop where
  sender : (∃ a, v tx.from = some a ∧ a.nonce.toNat + 1 < 2 ^ 256 ∧ a.Sends tx) ∨
    v tx.from = none ∧ tx.transactionType.isBridgeIn = true
  program : tx.to = tx.from ∧ tx.transactionType.isBridgeIn = true ∨
    (v tx.programId).isSome ∨ tx.programId = ETH_ADDR ∨ tx.programId = VERSE_ADDR
  receiver : tx.to ≠ tx.from → ∀ a t, v tx.to = some a → a.programs tx.programId = some t →
    ¬t.Overflows tx

/-- `TryFrom` panics where there is an overflow, goes on the other entries of the two sides,
and rejects the rest. -/
theorem Token.tryFrom_eq (t : Token) (tx : Transaction) :
    t.Overflows tx ∧ t.OfSide tx ∧ t.tryFrom tx = .error .panic ∨
    ¬t.Overflows tx ∧ t.OfSide tx ∧
      (∃ balance, t.tryFrom tx = .ok { t with balance := balance }) ∨
    ¬t.Overflows tx ∧ ¬t.OfSide tx ∧ ∃ e, t.tryFrom tx = .error (.err e) := by
  unfold tryFrom Overflows OfSide U256.add U256.sub
  by_cases hfrom : tx.from = t.ownerId
  · rw [if_pos hfrom]
    cases hb : tx.transactionType.isBridgeIn with
    | true =>
      by_cases hlt : t.balance.toNat + tx.value.toNat < 2 ^ 256
      · refine Or.inr (Or.inl ⟨?_, Or.inl hfrom.symm, _, by rw [if_pos hlt]; rfl⟩)
        rintro (⟨-, h, -⟩ | ⟨-, h⟩)
        · cases h
        · exact absurd hlt (Nat.not_lt.2 h)
      · refine Or.inl ⟨Or.inr ⟨Or.inl ⟨hfrom.symm, rfl⟩, Nat.not_lt.1 hlt⟩, Or.inl hfrom.symm, ?_⟩
        rw [if_neg hlt]
        rfl
    | false =>
      by_cases hle : tx.value ≤ t.balance
      · have hno : ¬t.balance.toNat < tx.value.toNat := Nat.not_lt.2 (BitVec.le_def.1 hle)
        refine Or.inr (Or.inl ⟨?_, Or.inl hfrom.symm, _, by rw [if_pos hle]; rfl⟩)
        simp [hno, hfrom.symm]
      · have hlt : t.balance.toNat < tx.value.toNat := Nat.not_le.1 fun h => hle (BitVec.le_def.2 h)
        refine Or.inl ⟨Or.inl ⟨hfrom.symm, rfl, hlt⟩, Or.inl hfrom.symm, ?_⟩
        rw [if_neg hle]
        rfl
  · have hne : t.ownerId ≠ tx.from := fun h => hfrom h.symm
    rw [if_neg hfrom]
    by_cases hto : tx.to = t.ownerId
    · rw [if_pos hto]
      by_cases hlt : t.balance.toNat + tx.value.toNat < 2 ^ 256
      · refine Or.inr (Or.inl ⟨?_, Or.inr hto.symm, _, by rw [if_pos hlt]; rfl⟩)
        rintro (⟨h, -⟩ | ⟨-, h⟩)
        · exact hne h
        · exact absurd hlt (Nat.not_lt.2 h)
      · refine Or.inl ⟨Or.inr ⟨Or.inr ⟨hne, hto.symm⟩, Nat.not_lt.1 hlt⟩, Or.inr hto.symm, ?_⟩
        rw [if_neg hlt]
        rfl
    · have hne' : t.ownerId ≠ tx.to := fun h => hto h.symm
      rw [if_neg hto]
      refine Or.inr (Or.inr ⟨by simp [hne, hne'], by simp [hne, hne'], _, rfl⟩)

namespace Account

variable {a a' : Account} {tx : Transaction} {p p' : Option Account} {token : Token}

theorem updateHeldToken_eq (a : Account) (t : Token) (tx : Transaction) (p : Option Account) :
    a.updateHeldToken t tx p = (t.tryFrom tx).map fun t' =>
      (a.insertProgram t'.programId (t'.withTemplate
          (t'.metadata.extend (templateOf p).1, t'.data.extend (templateOf p).2)),
        t'.withTemplate
          (t'.metadata.extend (templateOf p).1, t'.data.extend (templateOf p).2)) := by
  unfold updateHeldToken
  cases t.tryFrom tx with
  | error e => rfl
  | ok t' => cases p <;> rfl

theorem createToken_eq (a : Account) (tx : Transaction) (p : Option Account) :
    a.createToken tx p =
      .ok (a.insertProgram tx.programId ((Token.ofTransaction tx).withTemplate (templateOf p)),
        (Token.ofTransaction tx).withTemplate (templateOf p)) := by
  cases p <;> rfl

/-- An account goes through a send exactly when it can be sent from, or to. -/
theorem applySendTransaction_isOk_iff :
    (∃ r, a.applySendTransaction tx p = .ok r) ↔ a.Sends tx := by
  have hheld : ∀ t, (∃ r, a.updateHeldToken t tx p = .ok r) ↔ t.OfSide tx ∧ ¬t.Overflows tx := by
    intro t
    rw [updateHeldToken_eq]
    rcases Token.tryFrom_eq t tx with ⟨hover, -, h⟩ | ⟨hno, hside, b, h⟩ |
      ⟨-, hside, e, h⟩
    · rw [h]
      exact iff_of_false (fun ⟨_, hr⟩ => by cases hr) fun h => h.2 hover
    · rw [h]
      exact iff_of_true ⟨_, rfl⟩ ⟨hside, hno⟩
    · rw [h]
      exact iff_of_false (fun ⟨_, hr⟩ => by cases hr) fun h => hside h.1
  have hcreate : ∃ r, a.createToken tx p = .ok r := ⟨_, createToken_eq a tx p⟩
  unfold applySendTransaction Sends
  cases hb : tx.transactionType.isBridgeIn with
  | true =>
    cases a.programs tx.programId with
    | none => exact iff_of_true ⟨_, rfl⟩ (Or.inl rfl)
    | some t => exact (hheld t).trans (by simp)
  | false =>
    by_cases hself : tx.to = tx.from
    · cases a.programs tx.programId with
      | none => simp [hself, toTokenError]
      | some t => simp [hself]
    · cases a.programs tx.programId with
      | none =>
        simp only [hself, if_false, Bool.false_eq_true, false_or, ne_eq, not_false_iff, true_and]
        by_cases hown : tx.to = a.ownerAddress
        · rw [if_pos hown]
          exact iff_of_true hcreate (Or.inl hown)
        · rw [if_neg hown]
          cases a.accountType with
          | user => simp [hown, toTokenError]
          | program q =>
            by_cases hq : tx.to = q
            · simp only [if_pos hq]
              exact iff_of_true hcreate (Or.inr (by rw [hq]))
            · simp [hown, hq, Ne.symm hq, toTokenError]
      | some t =>
        simp only [hself, if_false, Bool.false_eq_true, false_and, false_or]
        exact hheld t

/-- A send panics only on an entry that overflows, and not to oneself. -/
theorem applySendTransaction_panic_iff : a.applySendTransaction tx p = .error .panic ↔
    (tx.to = tx.from → tx.transactionType.isBridgeIn = true) ∧
      ∃ t, a.programs tx.programId = some t ∧ t.Overflows tx := by
  have hheld : ∀ t, a.updateHeldToken t tx p = .error .panic ↔ t.Overflows tx := by
    intro t
    rw [updateHeldToken_eq]
    rcases Token.tryFrom_eq t tx with ⟨hover, -, h⟩ | ⟨hno, -, b, h⟩ |
      ⟨hno, -, e, h⟩
    · rw [h]
      exact iff_of_true rfl hover
    · rw [h]
      exact iff_of_false (fun h => by cases h) hno
    · rw [h]
      exact iff_of_false (fun h => by cases h) hno
  have hcreate : a.createToken tx p ≠ .error .panic := by
    rw [createToken_eq]
    exact fun h => by cases h
  unfold applySendTransaction
  cases hb : tx.transactionType.isBridgeIn with
  | true =>
    cases a.programs tx.programId with
    | none => simp
    | some t => simpa using hheld t
  | false =>
    by_cases hself : tx.to = tx.from
    · cases a.programs tx.programId <;> simp [hself, toTokenError]
    · rw [if_neg hself]
      cases a.programs tx.programId with
      | some t => simpa [hself] using hheld t
      | none =>
        refine iff_of_false ?_ (by simp)
        simp only [Bool.false_eq_true, if_false]
        split_ifs
        · exact hcreate
        · cases a.accountType with
          | user => simp [toTokenError]
          | program q =>
            dsimp only
            split_ifs
            · exact hcreate
            · simp [toTokenError]

end Account

/-! ## What a send leaves -/

instance (t : Token) (tx : Transaction) : Decidable (t.OfSide tx) :=
  inferInstanceAs (Decidable (_ ∨ _))

/-- The metadata and data of the receiver's entry after a send, where its program account has
`T` : a new entry copies them, and one of the two sides is extended by them. -/
def sentTemplate (tx : Transaction) (o : Option Token) (T : Template) : Template :=
  match o with
  | some t => if t.OfSide tx then (t.metadata.extend T.1, t.data.extend T.2) else t.template
  | none => if tx.transactionType.isBridgeIn then (fun _ => none, fun _ => none) else T

theorem Token.withTemplate_inj {t : Token} {T T' : Template} :
    t.withTemplate T = t.withTemplate T' ↔ T = T' :=
  ⟨fun h => congrArg Token.template h, fun h => by rw [h]⟩

theorem Account.insertProgram_inj {a : Account} {k : Address} {t t' : Token} :
    a.insertProgram k t = a.insertProgram k t' ↔ t = t' := by
  refine ⟨fun h => ?_, fun h => by rw [h]⟩
  have hk := congrFun (congrArg Account.programs h) k
  rw [programs_insertProgram, programs_insertProgram, if_pos rfl, if_pos rfl] at hk
  exact Option.some.inj hk

section Receiver

variable {tx : Transaction} {a : Account} {t : Token} {q : Option Account}

theorem Account.applySendTransaction_of_held (hne : tx.to ≠ tx.from)
    (ht : a.programs tx.programId = some t) :
    a.applySendTransaction tx q = a.updateHeldToken t tx q := by
  unfold applySendTransaction
  rw [ht, if_neg hne, ite_self]

theorem Account.applySendTransaction_of_bridgeIn (hb : tx.transactionType.isBridgeIn = true)
    (ht : a.programs tx.programId = none) :
    a.applySendTransaction tx q =
      .ok (a.insertProgram tx.programId (Token.ofTransaction tx), Token.ofTransaction tx) := by
  unfold applySendTransaction
  rw [if_pos hb, ht]
  rfl

/-- A new entry of the receiver's, whoever owns the account. -/
theorem Account.applySendTransaction_of_new (haddr : a.address = tx.to) (hne : tx.to ≠ tx.from)
    (hb : tx.transactionType.isBridgeIn = false) (ht : a.programs tx.programId = none) :
    a.applySendTransaction tx q = a.createToken tx q := by
  unfold applySendTransaction
  rw [hb, if_neg (by simp), if_neg hne, ht]
  dsimp only
  by_cases hown : tx.to = a.ownerAddress
  · rw [if_pos hown]
  · rw [if_neg hown]
    cases htype : a.accountType with
    | user => exact absurd (by simpa [Account.address, htype] using haddr.symm) hown
    | program p =>
      have hp : tx.to = p := by simpa [Account.address, htype] using haddr.symm
      simp only [if_pos hp]

end Receiver

section Send

variable {env env' : Env} {storage cache cache' c c' : AccountStore} {tx : Transaction}
  {a b b' : Account} {p p' : Option Account}

/-- Two receivers' sides that look at different program accounts leave the same account exactly
when they leave the same metadata and data. -/
theorem creditWith_eq_iff (haddr : a.address = tx.to) (hne : tx.to ≠ tx.from)
    (h : runAlone storage (creditWith tx a p) cache = (.ok b, c))
    (h' : runAlone storage (creditWith tx a p') cache' = (.ok b', c')) :
    b = b' ↔ sentTemplate tx (a.programs tx.programId) (templateOf p) =
      sentTemplate tx (a.programs tx.programId) (templateOf p') := by
  have hof : ∀ {q : Option Account} {d : Account} {s s' : AccountStore} {r : Account × Token},
      a.applySendTransaction tx q = .ok r → runAlone storage (creditWith tx a q) s = (.ok d, s') →
      d = r.1 := by
    intro q d s s' r hr hrun
    unfold creditWith at hrun
    rw [hr] at hrun
    cases hrun
    rfl
  cases ht : a.programs tx.programId with
  | some t =>
    rcases Token.tryFrom_eq t tx with ⟨-, -, htry⟩ | ⟨-, hside, balance, htry⟩ |
      ⟨-, hside, e, htry⟩
    · unfold creditWith at h
      rw [Account.applySendTransaction_of_held hne ht, Account.updateHeldToken_eq, htry] at h
      cases h
    · have hok := fun q => (Account.applySendTransaction_of_held hne ht).trans
        ((a.updateHeldToken_eq t tx q).trans (by rw [htry, Except.map]))
      rw [hof (hok p) h, hof (hok p') h', Account.insertProgram_inj, Token.withTemplate_inj,
        sentTemplate, sentTemplate, if_pos hside, if_pos hside]
    · have hleft : ∀ {q : Option Account} {d : Account} {s s' : AccountStore},
          runAlone storage (creditWith tx a q) s = (.ok d, s') → d = a := by
        intro q d s s' hrun
        unfold creditWith at hrun
        rw [Account.applySendTransaction_of_held hne ht, Account.updateHeldToken_eq,
          htry] at hrun
        cases hrun
        rfl
      rw [hleft h, hleft h', sentTemplate, sentTemplate, if_neg hside, if_neg hside]
      exact iff_of_true rfl rfl
  | none =>
    cases hb : tx.transactionType.isBridgeIn with
    | true =>
      rw [hof (Account.applySendTransaction_of_bridgeIn hb ht) h,
        hof (Account.applySendTransaction_of_bridgeIn hb ht) h', sentTemplate, sentTemplate,
        if_pos hb, if_pos hb]
      exact iff_of_true rfl rfl
    | false =>
      have hok : ∀ q, a.applySendTransaction tx q = a.createToken tx q := fun q =>
        Account.applySendTransaction_of_new haddr hne hb ht
      rw [hof ((hok p).trans (a.createToken_eq tx p)) h,
        hof ((hok p').trans (a.createToken_eq tx p')) h', Account.insertProgram_inj,
        Token.withTemplate_inj, sentTemplate, sentTemplate, hb]
      rfl

/-- The receiver's side goes on where the program of the token is there. -/
theorem runAlone_creditReceiver (h : (accounts storage cache tx.programId).isSome ∨
      tx.programId = ETH_ADDR ∨ tx.programId = VERSE_ADDR) (a : Account) :
    runAlone storage (creditReceiver tx a) cache =
      runAlone storage (creditWith tx a (accounts storage cache tx.programId)) cache := by
  unfold creditReceiver
  rw [runAlone_getAccount_bind]
  cases hp : accounts storage cache tx.programId with
  | some p => rfl
  | none =>
    rw [hp] at h
    dsimp only
    by_cases hE : tx.programId = ETH_ADDR
    · rw [if_pos hE]
    · rw [if_neg hE, if_pos (by simpa [hE] using h)]

/-- The receiver's side returns where the program is there and nothing panics. -/
theorem creditReceiver_isOk_iff :
    (∃ b, runAlone storage (creditReceiver tx a) cache = (.ok b, cache)) ↔
      ((accounts storage cache tx.programId).isSome ∨ tx.programId = ETH_ADDR ∨
        tx.programId = VERSE_ADDR) ∧
      a.applySendTransaction tx (accounts storage cache tx.programId) ≠ .error .panic := by
  by_cases hprogram : (accounts storage cache tx.programId).isSome ∨ tx.programId = ETH_ADDR ∨
      tx.programId = VERSE_ADDR
  · rw [runAlone_creditReceiver hprogram, and_iff_right hprogram]
    unfold creditWith
    rcases a.applySendTransaction tx (accounts storage cache tx.programId) with (e | _) | r
    · exact iff_of_true ⟨a, rfl⟩ (by simp)
    · exact iff_of_false (fun ⟨b, hb⟩ => by cases hb) fun h => h rfl
    · exact iff_of_true ⟨r.1, rfl⟩ (by simp)
  · refine iff_of_false ?_ fun h => hprogram h.1
    rintro ⟨b, hb⟩
    obtain ⟨hnone, hE, hV⟩ : accounts storage cache tx.programId = none ∧
        tx.programId ≠ ETH_ADDR ∧ tx.programId ≠ VERSE_ADDR := by
      simpa [not_or] using hprogram
    unfold creditReceiver at hb
    rw [runAlone_getAccount_bind, hnone] at hb
    dsimp only at hb
    rw [if_neg hE, if_neg hV] at hb
    cases hb

end Send

section Send

variable {env env' : Env} {storage cache cache' c c' : AccountStore} {tx : Transaction}

/-- A send returns when its two sides do. -/
theorem addTransactionToAccount_isOk_iff :
    (runAlone storage (addTransactionToAccount env tx) cache).1 = .ok () ↔
      ∃ r buffer, runAlone storage (debitSender tx) cache = (.ok r, cache) ∧
        runAlone storage (creditSide tx ((∅ : HashMap String Account).insert
          (Address.toFullString tx.from) r.1)) cache = (.ok buffer, cache) := by
  constructor
  · intro h
    have hrun : runAlone storage (addTransactionToAccount env tx) cache = (.ok (), _) :=
      Prod.ext h rfl
    rw [addTransactionToAccount_eq] at hrun
    obtain ⟨r, c, hr, -⟩ := runAlone_bind_ok hrun
    obtain ⟨-, sender, hsender, hbuf⟩ := sendAccounts_ok hr
    exact ⟨sender, r.1, hsender, hbuf⟩
  · rintro ⟨r, buffer, hr, hbuf⟩
    unfold addTransactionToAccount runAlone at *
    rw [Prog.run_bind, hr]
    dsimp only
    rw [Prog.run_bind, hbuf]
    change (runAlone storage (addAccountsToBatch _ >>= _) cache).1 = _
    rw [runAlone_addAccountsToBatch_bind]
    rfl

theorem runAlone_map_isOk_iff {ε α β : Type} {p : Async ε α} {f : α → β} :
    (∃ b, runAlone storage (p >>= fun a => pure (f a)) cache = (.ok b, cache)) ↔
      ∃ a, runAlone storage p cache = (.ok a, cache) := by
  unfold runAlone
  rw [Prog.run_bind]
  rcases Prog.run (cacheHandler storage).handler p cache with ⟨e | a, c⟩
  · simp
  · constructor
    · rintro ⟨b, hb⟩
      cases hb
      exact ⟨a, rfl⟩
    · rintro ⟨a', ha'⟩
      cases ha'
      exact ⟨f a, rfl⟩

/-- The sender's side returns where the sender can send, or is missing and bridged in. -/
theorem debitSender_isOk_iff_sends :
    (∃ r, runAlone storage (debitSender tx) cache = (.ok r, cache)) ↔
      (∃ a, accounts storage cache tx.from = some a ∧ a.nonce.toNat + 1 < 2 ^ 256 ∧ a.Sends tx) ∨
        accounts storage cache tx.from = none ∧ tx.transactionType.isBridgeIn = true := by
  constructor
  · rintro ⟨r, hr⟩
    obtain ⟨-, ⟨a, a₁, ha, hinc, hsend⟩ | ⟨hnone, hb, -⟩⟩ := debitSender_ok hr
    · refine Or.inl ⟨a, ha, Account.incrementNonce_isOk_iff.1 ⟨_, hinc⟩, ?_⟩
      have hsends : a₁.Sends tx := Account.applySendTransaction_isOk_iff.1 ⟨r, hsend⟩
      rw [(Account.incrementNonce_ok hinc).2] at hsends
      exact hsends
    · exact Or.inr ⟨hnone, hb⟩
  · rintro (⟨a, ha, hnonce, hsends⟩ | ⟨hnone, hb⟩)
    · obtain ⟨a₁, hinc⟩ := Account.incrementNonce_isOk_iff.2 hnonce
      have hsends₁ : a₁.Sends tx := by
        rw [(Account.incrementNonce_ok hinc).2]
        exact hsends
      obtain ⟨r, hr⟩ := Account.applySendTransaction_isOk_iff (p := none).2 hsends₁
      refine ⟨r, ?_⟩
      unfold debitSender
      rw [runAlone_getAccount_bind, ha]
      dsimp only
      rw [hinc]
      change runAlone storage (orFailed tx (a₁.applySendTransaction tx none)) cache = _
      rw [hr]
      rfl
    · have hsends : (Account.build .user tx.from).Sends tx := Or.inl hb
      obtain ⟨r, hr⟩ := Account.applySendTransaction_isOk_iff
        (p := accounts storage cache tx.programId).2 hsends
      refine ⟨r, ?_⟩
      unfold debitSender
      rw [runAlone_getAccount_bind, hnone]
      simp only [hb, not_true_eq_false, if_false]
      rw [runAlone_getAccount_bind, hr]
      rfl

/-- The receiver's side returns where the program is there and the receiver's entry is not
full. -/
theorem creditSide_isOk_iff {a : Account} :
    (∃ buffer, runAlone storage (creditSide tx ((∅ : HashMap String Account).insert
        (Address.toFullString tx.from) a)) cache = (.ok buffer, cache)) ↔
      (tx.to = tx.from ∧ tx.transactionType.isBridgeIn = true ∨
        (accounts storage cache tx.programId).isSome ∨ tx.programId = ETH_ADDR ∨
          tx.programId = VERSE_ADDR) ∧
      (tx.to ≠ tx.from → ∀ b t, accounts storage cache tx.to = some b →
        b.programs tx.programId = some t → ¬t.Overflows tx) := by
  unfold creditSide
  by_cases hself : tx.to = tx.from
  · rw [if_neg (not_not.2 hself)]
    cases hb : tx.transactionType.isBridgeIn with
    | true =>
      rw [if_neg (by simp)]
      exact iff_of_true ⟨_, rfl⟩ ⟨Or.inl ⟨hself, rfl⟩, fun hne => absurd hself hne⟩
    | false =>
      have hno : ∀ p, a.applySendTransaction tx p ≠ .error .panic := fun p h => by
        have hbridge := (Account.applySendTransaction_panic_iff.1 h).1 hself
        rw [hb] at hbridge
        cases hbridge
      rw [if_pos (by simp), hself, AList.lookup_insert]
      refine runAlone_map_isOk_iff.trans (creditReceiver_isOk_iff.trans ?_)
      simp [hno]
  · have hreceiver : ∀ b : Account, (∃ buffer, runAlone storage (creditReceiver tx b >>= fun b =>
          pure (((∅ : HashMap String Account).insert (Address.toFullString tx.from) a).insert
            (Address.toFullString tx.to) b) : BatcherM (HashMap String Account)) cache =
              (.ok buffer, cache)) ↔
        ((accounts storage cache tx.programId).isSome ∨ tx.programId = ETH_ADDR ∨
          tx.programId = VERSE_ADDR) ∧
          ∀ t, b.programs tx.programId = some t → ¬t.Overflows tx := by
      intro b
      refine runAlone_map_isOk_iff.trans (creditReceiver_isOk_iff.trans (and_congr_right' ?_))
      rw [ne_eq, Account.applySendTransaction_panic_iff]
      simp [hself]
    rw [if_pos hself, runAlone_getAccount_bind]
    cases accounts storage cache tx.to with
    | none =>
      refine (hreceiver _).trans (and_congr (by simp [hself]) ?_)
      simp [Account.build]
    | some b =>
      exact (hreceiver b).trans
        (and_congr (by simp [hself]) (by simp [hself, forall_comm (α := Account)]))

/-- A send or a bridge-in returns exactly when it goes through on the accounts. -/
theorem addTransactionToAccount_isOk_iff_goes :
    (runAlone storage (addTransactionToAccount env tx) cache).1 = .ok () ↔
      SendGoes (accounts storage cache) tx := by
  rw [addTransactionToAccount_isOk_iff]
  constructor
  · rintro ⟨r, buffer, hr, hbuf⟩
    obtain ⟨hprogram, hreceiver⟩ := creditSide_isOk_iff.1 ⟨buffer, hbuf⟩
    exact ⟨debitSender_isOk_iff_sends.1 ⟨r, hr⟩, hprogram, hreceiver⟩
  · rintro ⟨hsender, hprogram, hreceiver⟩
    obtain ⟨r, hr⟩ := debitSender_isOk_iff_sends.2 hsender
    obtain ⟨buffer, hbuf⟩ := creditSide_isOk_iff.2 ⟨hprogram, hreceiver⟩
    exact ⟨r, buffer, hr, hbuf⟩

/-- The sender's side looks at no program account that matters. -/
theorem debitSender_congr {r r' : Account × Token}
    (hfrom : accounts storage cache' tx.from = accounts storage cache tx.from)
    (h : runAlone storage (debitSender tx) cache = (.ok r, c))
    (h' : runAlone storage (debitSender tx) cache' = (.ok r', c')) : r'.1 = r.1 := by
  obtain ⟨-, ⟨a, a₁, ha, hinc, hsend⟩ | ⟨hn, hb, p, hsend⟩⟩ := debitSender_ok h
  · obtain ⟨-, ⟨b, b₁, hb, hinc', hsend'⟩ | ⟨hn', -⟩⟩ := debitSender_ok h'
    · rw [hfrom, ha] at hb
      cases hb
      cases hinc.symm.trans hinc'
      cases hsend.symm.trans hsend'
      rfl
    · rw [hfrom, ha] at hn'
      cases hn'
  · obtain ⟨-, ⟨b, b₁, hb', -, -⟩ | ⟨-, -, p', hsend'⟩⟩ := debitSender_ok h'
    · rw [hfrom, hn] at hb'
      cases hb'
    · have hbuilt : ∀ q, (Account.build .user tx.from).applySendTransaction tx q =
          .ok ((Account.build .user tx.from).insertProgram tx.programId (Token.ofTransaction tx),
            Token.ofTransaction tx) := by
        intro q
        unfold Account.applySendTransaction
        rw [if_pos hb]
        rfl
      rw [hbuilt] at hsend hsend'
      cases hsend
      cases hsend'
      rfl

/-- A send to oneself leaves the account that the sender's side computes. -/
theorem addTransactionToAccount_self (hself : tx.to = tx.from)
    (h : runAlone storage (addTransactionToAccount env tx) cache = (.ok (), c)) :
    ∃ r, runAlone storage (debitSender tx) cache = (.ok r, cache) ∧
      accounts storage c = (accounts storage cache).put r.1 := by
  obtain ⟨r, hr, ⟨hne, -⟩ | ⟨-, hb, toAccount, hcr, heq⟩ | ⟨-, -, heq⟩⟩ :=
    addTransactionToAccount_ok h
  · exact absurd hself hne
  · exact ⟨r, hr, by rw [heq, creditReceiver_self hself hb hcr]⟩
  · exact ⟨r, hr, heq⟩

/-- A send to another leaves the accounts of both sides. -/
theorem addTransactionToAccount_other (hne : tx.to ≠ tx.from)
    (h : runAlone storage (addTransactionToAccount env tx) cache = (.ok (), c)) :
    ∃ r b, runAlone storage (debitSender tx) cache = (.ok r, cache) ∧ b.address = tx.to ∧
      runAlone storage (creditWith tx (receiverOf storage cache tx)
        (accounts storage cache tx.programId)) cache = (.ok b, cache) ∧
      accounts storage c = ((accounts storage cache).put r.1).put b := by
  obtain ⟨r, hr, ⟨-, b, hcr, heq⟩ | ⟨hself, -⟩ | ⟨hself, -⟩⟩ := addTransactionToAccount_ok h
  · refine ⟨r, b, hr, (creditReceiver_sameHeader hcr).address.trans receiverOf_address, ?_, heq⟩
    rw [← runAlone_creditReceiver (creditReceiver_isOk_iff.1 ⟨b, hcr⟩).1]
    exact hcr
  · exact absurd hself hne
  · exact absurd hself hne

/-- Two sends on accounts that are the same at both sides leave the same there, exactly when the
receiver's entry gets the same metadata and data. -/
theorem send_eq_iff (hfrom : accounts storage cache' tx.from = accounts storage cache tx.from)
    (hto : accounts storage cache' tx.to = accounts storage cache tx.to)
    (h : runAlone storage (addTransactionToAccount env tx) cache = (.ok (), c))
    (h' : runAlone storage (addTransactionToAccount env' tx) cache' = (.ok (), c')) :
    (∀ x, x = tx.from ∨ x = tx.to → accounts storage c' x = accounts storage c x) ↔
      (tx.to ≠ tx.from →
        sentTemplate tx ((accounts storage cache tx.to).bind fun a => a.programs tx.programId)
            (templateOf (accounts storage cache tx.programId)) =
          sentTemplate tx ((accounts storage cache tx.to).bind fun a => a.programs tx.programId)
            (templateOf (accounts storage cache' tx.programId))) := by
  by_cases hself : tx.to = tx.from
  · refine iff_of_true (fun x hx => ?_) fun hne => absurd hself hne
    obtain ⟨r, hr, heq⟩ := addTransactionToAccount_self hself h
    obtain ⟨r', hr', heq'⟩ := addTransactionToAccount_self hself h'
    have hx : x = r.1.address := by
      rw [debitSender_address hr]
      exact hx.elim id fun hx => hx.trans hself
    rw [heq, heq', debitSender_congr hfrom hr hr', hx, AccountMap.put_self, AccountMap.put_self]
  · obtain ⟨r, b, hr, hb, hcredit, heq⟩ := addTransactionToAccount_other hself h
    obtain ⟨r', b', hr', hb', hcredit', heq'⟩ := addTransactionToAccount_other hself h'
    have hreceiver : receiverOf storage cache' tx = receiverOf storage cache tx := by
      unfold receiverOf
      rw [hto]
    have hentry : (receiverOf storage cache tx).programs tx.programId =
        (accounts storage cache tx.to).bind fun a => a.programs tx.programId := by
      unfold receiverOf
      cases accounts storage cache tx.to <;> rfl
    rw [hreceiver] at hcredit'
    rw [imp_iff_right hself, ← hentry,
      ← creditWith_eq_iff receiverOf_address hself hcredit hcredit', heq, heq',
      debitSender_congr hfrom hr hr']
    have hfound : ∀ {w : AccountMap} {d : Account},
        d.address = tx.to → w.put d tx.to = some d :=
      fun {w d} hd => hd ▸ w.put_self d
    constructor
    · intro h
      have hx := h tx.to (Or.inr rfl)
      rw [hfound hb, hfound hb'] at hx
      exact (Option.some.inj hx).symm
    · rintro rfl x (rfl | rfl)
      · have hne : tx.from ≠ b.address := fun h => hself (hb.symm.trans h.symm)
        rw [AccountMap.put_of_ne _ hne, AccountMap.put_of_ne _ hne, ← debitSender_address hr,
          AccountMap.put_self, AccountMap.put_self]
      · rw [hfound hb, hfound hb]

end Send

section Send

variable {env : Env} {storage cache c : AccountStore} {tx : Transaction}

/-- A send that goes through has written both sides. -/
theorem send_written (h : runAlone storage (addTransactionToAccount env tx) cache = (.ok (), c))
    {x : Address} (hx : x = tx.from ∨ x = tx.to) : (c x).isSome := by
  rw [addTransactionToAccount_eq] at h
  obtain ⟨⟨buffer, token⟩, c₁, hsent, h₁⟩ := runAlone_bind_ok h
  obtain ⟨rfl, r, hr, hbuf⟩ := sendAccounts_ok hsent
  rw [runAlone_finishSend] at h₁
  cases h₁
  obtain ⟨hkeyed, hsides⟩ := creditSide_sides hr hbuf
  obtain ⟨account, hlookup⟩ := hsides x hx
  refine cell_isSome ?_
  rw [accounts_flush_text env.order hkeyed, seenByText, hlookup]
  rfl

/-- A send that goes through leaves the accounts there are, new users at its two sides, and all
metadata and data. -/
theorem send_leaves (h : runAlone storage (addTransactionToAccount env tx) cache = (.ok (), c)) :
    SameTypes (accounts storage c) ((accounts storage cache).opened [tx.from, tx.to]) ∧
      ∀ k, templateOf (accounts storage c k) = templateOf (accounts storage cache k) := by
  have hc : c = (runAlone storage (addTransactionToAccount env tx) cache).2 := by rw [h]
  have hall : ∀ x, templateOf (accounts storage c x) = templateOf (accounts storage cache x) ∧
      ((accounts storage c x).map Account.accountType =
          (accounts storage cache x).map Account.accountType ∨
        (accounts storage c x).map Account.accountType =
          ((accounts storage cache).opened [tx.from, tx.to] x).map Account.accountType) := by
    rw [hc]
    refine send_induction env (I := fun s => ∀ x,
      templateOf (s x) = templateOf (accounts storage cache x) ∧
        ((s x).map Account.accountType = (accounts storage cache x).map Account.accountType ∨
          (s x).map Account.accountType =
            ((accounts storage cache).opened [tx.from, tx.to] x).map Account.accountType))
      (fun x => ⟨rfl, Or.inl rfl⟩) fun s b hs _ hwrites x => ?_
    rw [AccountMap.put_apply]
    split_ifs with hx
    · obtain ⟨hside, a, a₁, ha, hinc, hsend⟩ := hwrites
      have h₁ : a₁.accountType = a.accountType ∧ a₁.template = a.template := by
        rcases hinc with rfl | hinc
        · exact ⟨rfl, rfl⟩
        · rw [(Account.incrementNonce_ok hinc).2]
          exact ⟨rfl, rfl⟩
      have h₂ : b.accountType = a₁.accountType ∧ b.template = a₁.template := by
        rcases hsend with rfl | ⟨p, token, hsend⟩
        · exact ⟨rfl, rfl⟩
        · rcases Account.applySendTransaction_inserts hsend with rfl | ⟨k, rfl⟩ <;> exact ⟨rfl, rfl⟩
      have htype := h₂.1.trans h₁.1
      have htemplate := h₂.2.trans h₁.2
      rcases ha with ha | ⟨hnone, rfl⟩
      · rw [hx, ha]
        exact ⟨htemplate, Or.inl (congrArg some htype)⟩
      · rw [hx, hnone]
        refine ⟨htemplate, Or.inr ?_⟩
        have hmem : b.address ∈ [tx.from, tx.to] := by simpa using hside
        rw [AccountMap.opened, hnone, if_pos hmem]
        exact congrArg some htype
    · exact hs x
  refine ⟨fun x => ?_, fun k => (hall k).1⟩
  rcases (hall x).2 with hx | hx
  · rw [hx]
    unfold AccountMap.opened
    cases hv : accounts storage cache x with
    | some a => rfl
    | none =>
      -- Both sides are there afterwards.
      have hnot : x ∉ [tx.from, tx.to] := by
        intro hmem
        have hsome := send_written h (x := x) (by simpa using hmem)
        rw [hv] at hx
        unfold accounts at hx
        obtain ⟨a, ha⟩ := Option.isSome_iff_exists.1 hsome
        rw [ha] at hx
        cases hx
      rw [if_neg hnot]
      rfl
  · exact hx

end Send

end Lasr
