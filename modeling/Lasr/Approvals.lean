import Lasr.Acceptance
import Lasr.Ledger

/-!
# Approvals and updates of a token

What a spender may do is in two maps of an entry, `allowance` and `approvals`. This is about
how they are read (`validate_approved_spend`, `validate_approved_token_transfer`) and how they
are written (`apply_token_update_field_values`).

The checks are off at the edge : the whole of an allowance cannot be spent, and an approved
list of ids passes every test and then falls through to the error at the end
(`approval_checks_exact_iff`).

An update stays within its field, but for one : an allowance that is brought down to zero is
kept, and the approvals of the key are removed in its place (`token_updates_exact_iff`).
-/

set_option linter.unusedSectionVars false

namespace Lasr

/-! ## Reading -/

namespace Account

variable {a : Account} {k spender : Address} {t : Token}

theorem validateApprovedSpend_of_allowance {entry amount : U256} (ht : a.programs k = some t)
    (hentry : t.allowance spender = some entry) :
    a.validateApprovedSpend k spender amount = .ok () ↔ amount < entry := by
  simp only [validateApprovedSpend, ht, hentry]
  split_ifs with hlt <;> simp [hlt]

end Account

/-- The approvals of a spender have every id. -/
def Token.Approves (t : Token) (spender : Address) (ids : List U256) : Prop :=
  ∃ entry, t.approvals spender = some entry ∧ ∀ id ∈ ids, id ∈ entry

/-- For an account that is not a program's : a spend is checked exactly if and only if it is not
of the whole allowance, and a transfer of ids if and only if one of them is not approved. -/
theorem approval_checks_exact_iff {a : Account} {k : Address} {t : Token}
    (htype : ∀ p, a.accountType ≠ .program p) (ht : a.programs k = some t) (spender : Address) :
    (∀ entry amount, t.allowance spender = some entry →
      ((a.validateApprovedSpend k spender amount = .ok () ↔ amount ≤ entry) ↔ amount ≠ entry)) ∧
    ∀ ids, ids ≠ [] →
      ((a.validateApprovedTokenTransfer k spender ids = .ok () ↔ t.Approves spender ids) ↔
        ¬t.Approves spender ids) := by
  constructor
  · intro entry amount hentry
    rw [Account.validateApprovedSpend_of_allowance ht hentry]
    constructor
    · rintro hexact rfl
      exact absurd (hexact.2 (BitVec.le_refl _)) (BitVec.lt_irrefl _)
    · intro hne
      exact ⟨fun hlt => BitVec.le_of_lt hlt, fun hle => BitVec.lt_of_le_ne hle hne⟩
  · intro ids _
    have hfails : a.validateApprovedTokenTransfer k spender ids ≠ .ok () := fun hok =>
      htype k (Account.validateApprovedTokenTransfer_ok hok)
    simp [hfails]

/-- 0x01 with a token of 0x09, of which 0x02 may spend 100 and take the id 7. -/
def approvingAccount : Account :=
  let account := Account.build .user 1#160
  { account with
    programs := account.programs.insert 9#160 { Token.fresh 9#160 1#160 (fun _ => none)
      (fun _ => none) with
        allowance := fun k => if k = 2#160 then some 100#256 else none
        approvals := fun k => if k = 2#160 then some [7#256] else none } }

theorem approval_checks_exact_of_less : ∃ t, approvingAccount.programs 9#160 = some t ∧
    (approvingAccount.validateApprovedSpend 9#160 2#160 99#256 = .ok () ↔
      99#256 ≤ 100#256) := by
  refine ⟨_, rfl, ?_⟩
  have htype : ∀ p, approvingAccount.accountType ≠ .program p := fun p =>
    (nofun : AccountType.user ≠ .program p)
  exact ((approval_checks_exact_iff htype rfl 2#160).1 100#256 99#256 rfl).2 (by decide)

/-- Neither the whole allowance nor an approved id passes. -/
theorem approval_checks_inexact : ∃ t, approvingAccount.programs 9#160 = some t ∧
    approvingAccount.accountType = .user ∧
    t.allowance 2#160 = some 100#256 ∧ t.Approves 2#160 [7#256] ∧
    approvingAccount.validateApprovedSpend 9#160 2#160 100#256 ≠ .ok () ∧
    approvingAccount.validateApprovedTokenTransfer 9#160 2#160 [7#256] ≠ .ok () :=
  ⟨_, rfl, rfl, rfl, ⟨[7#256], rfl, fun id hid => hid⟩, by decide, by decide⟩

/-! ## Writing -/

/-- The keys an update of the allowances names. -/
def AllowanceValue.keys : AllowanceValue → List Address
  | .insert key _ => [key]
  | .extend values => values.map Prod.fst
  | .remove key _ => [key]
  | .revoke key => [key]

/-- The keys an update of the approvals names. -/
def ApprovalsValue.keys : ApprovalsValue → List Address
  | .insert key _ => [key]
  | .extend values => values.map Prod.fst
  | .remove key _ => [key]
  | .revoke key => [key]

/-- Two versions of an entry differ at most in the field of an update, and there at most in the
keys it names. -/
structure TokenFieldValue.Frames (v : TokenFieldValue) (t t' : Token) : Prop where
  holding : t.SameHolding t'
  data : (∀ u, v ≠ .data u) → t'.data = t.data
  metadata : (∀ u, v ≠ .metadata u) → t'.metadata = t.metadata
  status : (∀ u, v ≠ .status u) → t'.status = t.status
  approvals : ∀ key, (∀ u, v = .approvals u → key ∉ u.keys) → t'.approvals key = t.approvals key
  allowance : ∀ key, (∀ u, v = .allowance u → key ∉ u.keys) → t'.allowance key = t.allowance key

/-- No allowance is zero and no list of approvals is empty. -/
structure Token.Clean (t : Token) : Prop where
  allowance : ∀ key, t.allowance key ≠ some 0#256
  approvals : ∀ key, t.approvals key ≠ some []

/-- The update brings no zero amount and no empty list. -/
def TokenFieldValue.Proper : TokenFieldValue → Prop
  | .allowance (.insert _ amount) => amount ≠ 0#256
  | .allowance (.extend values) => ∀ e ∈ values, e.2 ≠ 0#256
  | .allowance (.remove _ amount) => amount ≠ 0#256
  | .approvals (.insert _ ids) => ids ≠ []
  | .approvals (.extend values) => ∀ e ∈ values, e.2 ≠ []
  | .approvals (.remove _ ids) => ids ≠ []
  | _ => True

/-- Apply updates in order. -/
def Token.applyValues (t : Token) (values : List TokenFieldValue) : AccountResult Token :=
  values.foldlM Token.applyTokenUpdateFieldValues t

namespace BTreeMap

variable {K V : Type} [DecidableEq K]

theorem extendList_of_not_mem {m : BTreeMap K V} {iter : List (K × V)} {k : K}
    (h : k ∉ iter.map Prod.fst) : m.extendList iter k = m k := by
  induction iter generalizing m with
  | nil => rfl
  | cons e iter ih =>
    rw [List.map_cons, List.mem_cons, not_or] at h
    rw [extendList, List.foldl_cons]
    exact (ih h.2).trans (insert_of_ne m e.2 h.1)

/-- What is found after an extension was there before, or is in the list. -/
theorem extendList_cases {m : BTreeMap K V} {iter : List (K × V)} {k : K} {v : V}
    (h : m.extendList iter k = some v) : m k = some v ∨ (k, v) ∈ iter := by
  induction iter generalizing m with
  | nil => exact .inl h
  | cons e iter ih =>
    rw [extendList, List.foldl_cons] at h
    rcases ih h with hm | hmem
    · rcases eq_or_ne k e.1 with rfl | hne
      · rw [insert_self] at hm
        cases hm
        exact .inr List.mem_cons_self
      · rw [insert_of_ne m e.2 hne] at hm
        exact .inl hm
    · exact .inr (List.mem_cons_of_mem _ hmem)

variable {m : BTreeMap K V} {bad : V}

/-! A value that is not in a map does not come in but by an entry that has it. -/

theorem insert_ne (hm : ∀ k, m k ≠ some bad) {k : K} {v : V} (hv : v ≠ bad) (k' : K) :
    m.insert k v k' ≠ some bad := by
  rcases eq_or_ne k' k with rfl | hne
  · rw [insert_self]
    exact fun heq => hv (Option.some.inj heq)
  · rw [insert_of_ne m v hne]
    exact hm k'

theorem remove_ne (hm : ∀ k, m k ≠ some bad) (k k' : K) : m.remove k k' ≠ some bad := by
  rcases eq_or_ne k' k with rfl | hne
  · rw [remove_self]
    exact nofun
  · rw [remove_of_ne m hne]
    exact hm k'

theorem extendList_ne (hm : ∀ k, m k ≠ some bad) {iter : List (K × V)}
    (hiter : ∀ e ∈ iter, e.2 ≠ bad) (k : K) : m.extendList iter k ≠ some bad := by
  intro h
  rcases extendList_cases h with hk | hmem
  · exact hm k hk
  · exact hiter _ hmem rfl

end BTreeMap

theorem U256.sub_eq_zero {x y : U256} (h : U256.sub x y = .ok 0#256) : x = y := by
  have hsub := U256.toNat_sub h
  rw [BitVec.toNat_ofNat, Nat.zero_mod, Nat.zero_add] at hsub
  exact BitVec.eq_of_toNat_eq hsub.symm

theorem U256.sub_self (x : U256) : U256.sub x x = .ok 0#256 := by
  simp [U256.sub]

namespace Token

variable {t t' : Token} {key : Address} {amount : U256}

theorem applyApprovalsUpdate_frame {v : ApprovalsValue} (h : t.applyApprovalsUpdate v = .ok t') :
    t' = { t with approvals := t'.approvals } ∧
      ∀ key ∉ v.keys, t'.approvals key = t.approvals key := by
  cases v with
  | insert key ids =>
    simp only [applyApprovalsUpdate] at h
    split at h
    all_goals
      cases h
      exact ⟨rfl, fun key' hkey' => BTreeMap.insert_of_ne _ _ (List.ne_of_not_mem_cons hkey')⟩
  | extend values =>
    cases h
    exact ⟨rfl, fun key' hkey' => BTreeMap.extendList_of_not_mem hkey'⟩
  | remove key ids =>
    simp only [applyApprovalsUpdate] at h
    split at h
    · split_ifs at h
      · cases h
        exact ⟨rfl, fun key' hkey' => BTreeMap.remove_of_ne _ (List.ne_of_not_mem_cons hkey')⟩
      · cases h
        exact ⟨rfl, fun key' hkey' => BTreeMap.insert_of_ne _ _ (List.ne_of_not_mem_cons hkey')⟩
    · cases h
      exact ⟨rfl, fun _ _ => rfl⟩
  | revoke key =>
    cases h
    exact ⟨rfl, fun key' hkey' => BTreeMap.remove_of_ne _ (List.ne_of_not_mem_cons hkey')⟩

/-- The allowance of a key that is brought down to zero. -/
theorem applyAllowanceUpdate_remove_eq (h : t.allowance key = some amount) :
    t.applyAllowanceUpdate (.remove key amount) =
      .ok { t with
        allowance := t.allowance.insert key 0#256
        approvals := t.approvals.remove key } := by
  simp only [applyAllowanceUpdate, h, U256.sub_self]
  rfl

/-- Any other update of the allowances leaves the approvals. -/
theorem applyAllowanceUpdate_frame {v : AllowanceValue} (h : t.applyAllowanceUpdate v = .ok t')
    (hzero : ∀ key amount, v = .remove key amount → t.allowance key ≠ some amount) :
    t' = { t with allowance := t'.allowance } ∧
      ∀ key ∉ v.keys, t'.allowance key = t.allowance key := by
  cases v with
  | insert key amount =>
    simp only [applyAllowanceUpdate] at h
    split at h
    · obtain ⟨sum, -, h⟩ := Except.bind_eq_ok_iff.1 h
      cases h
      exact ⟨rfl, fun key' hkey' => BTreeMap.insert_of_ne _ _ (List.ne_of_not_mem_cons hkey')⟩
    · cases h
      exact ⟨rfl, fun key' hkey' => BTreeMap.insert_of_ne _ _ (List.ne_of_not_mem_cons hkey')⟩
  | extend values =>
    cases h
    exact ⟨rfl, fun key' hkey' => BTreeMap.extendList_of_not_mem hkey'⟩
  | remove key amount =>
    simp only [applyAllowanceUpdate] at h
    split at h
    · next entry hentry =>
      obtain ⟨rest, hrest, h⟩ := Except.bind_eq_ok_iff.1 h
      split_ifs at h with hempty
      · rw [hempty] at hrest
        exact absurd (U256.sub_eq_zero hrest ▸ hentry) (hzero key amount rfl)
      · cases h
        exact ⟨rfl, fun key' hkey' => BTreeMap.insert_of_ne _ _ (List.ne_of_not_mem_cons hkey')⟩
    · cases h
      exact ⟨rfl, fun _ _ => rfl⟩
  | revoke key =>
    cases h
    exact ⟨rfl, fun key' hkey' => BTreeMap.remove_of_ne _ (List.ne_of_not_mem_cons hkey')⟩

end Token

section Updates

variable {t t' : Token} {v : TokenFieldValue} {values : List TokenFieldValue}

/-- An update of an allowance stays within it, where no key with approvals comes down to zero. -/
theorem TokenFieldValue.frames_allowance {u : AllowanceValue}
    (h : t.applyTokenUpdateFieldValues (.allowance u) = .ok t')
    (hnone : ∀ key amount, u = .remove key amount → t.allowance key = some amount →
      t.approvals key = none) : (TokenFieldValue.allowance u).Frames t t' := by
  have hholding := Token.applyTokenUpdateFieldValues_sameHolding h
  by_cases hzero : ∃ key amount, u = .remove key amount ∧ t.allowance key = some amount
  · obtain ⟨key, amount, rfl, hallowance⟩ := hzero
    rw [Token.applyTokenUpdateFieldValues,
      Token.applyAllowanceUpdate_remove_eq hallowance] at h
    cases h
    refine ⟨hholding, fun _ => rfl, fun _ => rfl, fun _ => rfl, fun key' _ => ?_,
      fun key' hkey' => ?_⟩
    · rcases eq_or_ne key' key with rfl | hne
      · rw [hnone key' amount rfl hallowance]
        exact BTreeMap.remove_self _ _
      · exact BTreeMap.remove_of_ne _ hne
    · exact BTreeMap.insert_of_ne _ _ (List.ne_of_not_mem_cons (hkey' _ rfl))
  · push Not at hzero
    obtain ⟨heq, hkeys⟩ := Token.applyAllowanceUpdate_frame h hzero
    rw [heq]
    exact ⟨heq ▸ hholding, fun _ => rfl, fun _ => rfl, fun _ => rfl, fun _ _ => rfl,
      fun key hkey => hkeys key (hkey u rfl)⟩

/-- An update stays within its field, unless it brings the allowance of a key with approvals
down to zero. -/
theorem TokenFieldValue.frames_iff (h : t.applyTokenUpdateFieldValues v = .ok t') :
    v.Frames t t' ↔ ∀ key amount, v = .allowance (.remove key amount) →
      t.allowance key = some amount → t.approvals key = none := by
  have hholding := Token.applyTokenUpdateFieldValues_sameHolding h
  constructor
  · rintro hframes key amount rfl hallowance
    have hsame := hframes.approvals key nofun
    rw [Token.applyTokenUpdateFieldValues, Token.applyAllowanceUpdate_remove_eq hallowance] at h
    cases h
    exact hsame.symm.trans (BTreeMap.remove_self _ _)
  · intro hnone
    cases v with
    | data u =>
      cases u <;> (cases h; exact ⟨hholding, fun hu => absurd rfl (hu _), fun _ => rfl,
        fun _ => rfl, fun _ _ => rfl, fun _ _ => rfl⟩)
    | metadata u =>
      cases u <;> (cases h; exact ⟨hholding, fun _ => rfl, fun hu => absurd rfl (hu _),
        fun _ => rfl, fun _ _ => rfl, fun _ _ => rfl⟩)
    | approvals u =>
      obtain ⟨heq, hkeys⟩ := Token.applyApprovalsUpdate_frame h
      rw [heq]
      exact ⟨heq ▸ hholding, fun _ => rfl, fun _ => rfl, fun _ => rfl,
        fun key hkey => hkeys key (hkey u rfl), fun _ _ => rfl⟩
    | allowance u => exact frames_allowance h fun key amount hu => hnone key amount (hu ▸ rfl)
    | status u =>
      cases u with
      | lock | unlock =>
        cases h
        exact ⟨hholding, fun _ => rfl, fun _ => rfl, fun hu => absurd rfl (hu _), fun _ _ => rfl,
          fun _ _ => rfl⟩
      | reverse =>
        simp only [Token.applyTokenUpdateFieldValues, Token.applyStatusUpdate] at h
        split at h <;> (cases h; exact ⟨hholding, fun _ => rfl, fun _ => rfl,
          fun hu => absurd rfl (hu _), fun _ _ => rfl, fun _ _ => rfl⟩)

theorem Token.Clean.approvals_update (hc : t.Clean) {u : ApprovalsValue}
    (hu : (TokenFieldValue.approvals u).Proper) (h : t.applyApprovalsUpdate u = .ok t') :
    t'.Clean := by
  cases u with
  | insert key ids =>
    simp only [Token.applyApprovalsUpdate] at h
    split at h
    · next entry hentry =>
      cases h
      refine ⟨hc.allowance, BTreeMap.insert_ne hc.approvals fun heq => hu ?_⟩
      exact (List.append_eq_nil_iff.1 heq).2
    · cases h
      exact ⟨hc.allowance, BTreeMap.insert_ne hc.approvals hu⟩
  | extend values =>
    cases h
    exact ⟨hc.allowance, BTreeMap.extendList_ne hc.approvals hu⟩
  | remove key ids =>
    simp only [Token.applyApprovalsUpdate] at h
    split at h
    · split_ifs at h with hempty
      · cases h
        exact ⟨hc.allowance, BTreeMap.remove_ne hc.approvals key⟩
      · cases h
        refine ⟨hc.allowance, BTreeMap.insert_ne hc.approvals fun heq => hempty ?_⟩
        rw [heq]
        rfl
    · cases h
      exact hc
  | revoke key =>
    cases h
    exact ⟨hc.allowance, BTreeMap.remove_ne hc.approvals key⟩

theorem Token.Clean.allowance_update (hc : t.Clean) {u : AllowanceValue}
    (hu : (TokenFieldValue.allowance u).Proper)
    (hzero : ∀ key amount, u = .remove key amount → t.allowance key ≠ some amount)
    (h : t.applyAllowanceUpdate u = .ok t') : t'.Clean := by
  cases u with
  | insert key amount =>
    simp only [Token.applyAllowanceUpdate] at h
    split at h
    · obtain ⟨sum, hsum, h⟩ := Except.bind_eq_ok_iff.1 h
      cases h
      refine ⟨BTreeMap.insert_ne hc.allowance fun heq => hu ?_, hc.approvals⟩
      have hadd := U256.toNat_add hsum
      rw [heq, BitVec.toNat_ofNat, Nat.zero_mod] at hadd
      refine BitVec.eq_of_toNat_eq ?_
      rw [BitVec.toNat_ofNat, Nat.zero_mod]
      omega
    · cases h
      exact ⟨BTreeMap.insert_ne hc.allowance hu, hc.approvals⟩
  | extend values =>
    cases h
    exact ⟨BTreeMap.extendList_ne hc.allowance hu, hc.approvals⟩
  | remove key amount =>
    simp only [Token.applyAllowanceUpdate] at h
    split at h
    · next entry hentry =>
      obtain ⟨rest, hrest, h⟩ := Except.bind_eq_ok_iff.1 h
      split_ifs at h with hempty
      · rw [hempty] at hrest
        exact absurd (U256.sub_eq_zero hrest ▸ hentry) (hzero key amount rfl)
      · cases h
        exact ⟨BTreeMap.insert_ne hc.allowance hempty, hc.approvals⟩
    · cases h
      exact hc
  | revoke key =>
    cases h
    exact ⟨BTreeMap.remove_ne hc.allowance key, hc.approvals⟩

/-- A proper update leaves a clean token clean, unless it brings an allowance down to zero. -/
theorem TokenFieldValue.clean_iff (hc : t.Clean) (hv : v.Proper)
    (h : t.applyTokenUpdateFieldValues v = .ok t') :
    t'.Clean ↔ ∀ key amount, v = .allowance (.remove key amount) →
      t.allowance key ≠ some amount := by
  constructor
  · rintro hc' key amount rfl hallowance
    rw [Token.applyTokenUpdateFieldValues, Token.applyAllowanceUpdate_remove_eq hallowance] at h
    cases h
    exact hc'.allowance key (BTreeMap.insert_self _ _ _)
  · intro hzero
    cases v with
    | data u => cases u <;> (cases h; exact ⟨hc.allowance, hc.approvals⟩)
    | metadata u => cases u <;> (cases h; exact ⟨hc.allowance, hc.approvals⟩)
    | approvals u => exact hc.approvals_update hv h
    | allowance u =>
      exact hc.allowance_update hv (fun key amount hu => hzero key amount (congrArg _ hu)) h
    | status u =>
      cases u with
      | lock | unlock =>
        cases h
        exact ⟨hc.allowance, hc.approvals⟩
      | reverse =>
        simp only [Token.applyTokenUpdateFieldValues, Token.applyStatusUpdate] at h
        split at h <;> (cases h; exact ⟨hc.allowance, hc.approvals⟩)

/-- Proper updates leave a clean token clean, if none brings an allowance down to zero. -/
theorem Token.Clean.applyValues (hc : t.Clean) (hproper : ∀ v ∈ values, v.Proper)
    (hzero : ∀ pre key amount post t₁, values = pre ++ .allowance (.remove key amount) :: post →
      t.applyValues pre = .ok t₁ → t₁.allowance key ≠ some amount)
    (h : t.applyValues values = .ok t') : t'.Clean := by
  induction values generalizing t with
  | nil =>
    cases h
    exact hc
  | cons v values ih =>
    obtain ⟨t₁, hv, hrest⟩ := Except.bind_eq_ok_iff.1 h
    refine ih ((v.clean_iff hc (hproper v List.mem_cons_self) hv).2 fun key amount heq => ?_)
      (fun v' hv' => hproper v' (List.mem_cons_of_mem _ hv')) ?_ hrest
    · exact hzero [] key amount values t (congrArg (· :: values) heq) rfl
    · intro pre key amount post t₂ hsplit hpre
      refine hzero (v :: pre) key amount post t₂ (congrArg (v :: ·) hsplit) ?_
      exact Except.bind_eq_ok_iff.2 ⟨t₁, hv, hpre⟩

theorem Token.applyValues_snoc {pre : List TokenFieldValue} {t₁ t₂ : Token}
    (hpre : t.applyValues pre = .ok t₁) (hv : t₁.applyTokenUpdateFieldValues v = .ok t₂) :
    t.applyValues (pre ++ [v]) = .ok t₂ := by
  unfold Token.applyValues at hpre ⊢
  rw [List.foldlM_append]
  exact Except.bind_eq_ok_iff.2 ⟨t₁, hpre, Except.bind_eq_ok_iff.2 ⟨t₂, hv, rfl⟩⟩

/-- Along a list of updates : each stays within its field if and only if none brings an
allowance down to zero where the key has approvals; and proper ones leave a clean token clean,
after each of them, if and only if none brings an allowance down to zero. -/
theorem token_updates_exact_iff (t : Token) (values : List TokenFieldValue) :
    ((∀ pre v post t₁ t₂, values = pre ++ v :: post → t.applyValues pre = .ok t₁ →
        t₁.applyTokenUpdateFieldValues v = .ok t₂ → v.Frames t₁ t₂) ↔
      ∀ pre key amount post t₁, values = pre ++ .allowance (.remove key amount) :: post →
        t.applyValues pre = .ok t₁ → t₁.allowance key = some amount →
        t₁.approvals key = none) ∧
    (t.Clean → (∀ v ∈ values, v.Proper) →
      ((∀ pre post t₁, values = pre ++ post → t.applyValues pre = .ok t₁ → t₁.Clean) ↔
        ∀ pre key amount post t₁, values = pre ++ .allowance (.remove key amount) :: post →
          t.applyValues pre = .ok t₁ → t₁.allowance key ≠ some amount)) := by
  constructor
  · constructor
    · intro hframes pre key amount post t₁ hsplit hpre hallowance
      have hv : t₁.applyTokenUpdateFieldValues (.allowance (.remove key amount)) = .ok _ :=
        Token.applyAllowanceUpdate_remove_eq hallowance
      exact (TokenFieldValue.frames_iff hv).1
        (hframes pre (.allowance (.remove key amount)) post t₁ _ hsplit hpre hv) key amount rfl
        hallowance
    · intro hnone pre v post t₁ t₂ hsplit hpre hv
      refine (TokenFieldValue.frames_iff hv).2 fun key amount heq hallowance => ?_
      exact hnone pre key amount post t₁ (heq ▸ hsplit) hpre hallowance
  · intro hc hproper
    constructor
    · intro hclean pre key amount post t₁ hsplit hpre hallowance
      have hv : t₁.applyTokenUpdateFieldValues (.allowance (.remove key amount)) = .ok _ :=
        Token.applyAllowanceUpdate_remove_eq hallowance
      have hc₂ := hclean (pre ++ [.allowance (.remove key amount)]) post _
        (by rw [hsplit, List.append_assoc]; rfl) (Token.applyValues_snoc hpre hv)
      exact hc₂.allowance key (BTreeMap.insert_self _ _ _)
    · rintro hzero pre post t₁ rfl hpre
      refine hc.applyValues (fun v hv => hproper v (List.mem_append_left _ hv)) ?_ hpre
      intro pre' key amount post' t₂ hsplit hpre'
      exact hzero pre' key amount (post' ++ post) t₂
        (by rw [hsplit, List.append_assoc]; rfl) hpre'

/-- The entry of 0x01 for 0x09, of which 0x02 may spend 5 and take the id 7. -/
def approvingToken : Token :=
  { Token.fresh 9#160 1#160 (fun _ => none) (fun _ => none) with
    allowance := fun k => if k = 2#160 then some 5#256 else none
    approvals := fun k => if k = 2#160 then some [7#256] else none }

theorem approvingToken_clean : approvingToken.Clean := by
  constructor
  · intro key
    simp only [approvingToken]
    split <;> simp
  · intro key
    simp only [approvingToken]
    split <;> simp

theorem token_updates_exact_of_insert : ∃ t, approvingToken.applyValues
    [.allowance (.insert 2#160 3#256)] = .ok t ∧ t.allowance 2#160 = some 8#256 ∧ t.Clean := by
  refine ⟨_, rfl, rfl, ?_⟩
  refine ((token_updates_exact_iff approvingToken [.allowance (.insert 2#160 3#256)]).2
    approvingToken_clean ?_).2 ?_ [.allowance (.insert 2#160 3#256)] [] _ rfl rfl
  · intro v hv
    rw [List.mem_singleton.1 hv]
    exact (by decide : (3#256 : U256) ≠ 0#256)
  · intro pre key amount post t₁ hsplit
    cases pre with
    | nil => cases hsplit
    | cons v pre =>
      have hlength := congrArg List.length hsplit
      simp at hlength

/-- The approvals of 0x02 are gone, and its allowance of zero stays. -/
theorem token_update_removes_approvals : approvingToken.Clean ∧
    (TokenFieldValue.allowance (.remove 2#160 5#256)).Proper ∧
    ∃ t, approvingToken.applyValues [.allowance (.remove 2#160 5#256)] = .ok t ∧
      approvingToken.approvals 2#160 = some [7#256] ∧ t.approvals 2#160 = none ∧
      t.allowance 2#160 = some 0#256 :=
  ⟨approvingToken_clean, (by decide : (5#256 : U256) ≠ 0#256), _, rfl, rfl, rfl, rfl⟩

end Updates

end Lasr
