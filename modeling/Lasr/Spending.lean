import Lasr.Authority

/-!
# Minting and spending

What the instructions of an accepted call do to holdings : the balance and the ids of a token
at an address. A `Create` adds what its distributions say, and a transfer or a burn takes
what it says from one account.

The validator checks neither which program a distribution mints for, so minting is as
authorised as the distributions themselves (`mint_authority_iff`), nor everything that a
transfer or a burn takes (`spend_authority_iff`).
-/

set_option linter.unusedSectionVars false

namespace Lasr

/-! ## Holdings -/

/-- The ids of a token that an account holds. -/
def Account.idsOf (a : Account) (k : Address) : List U256 :=
  match a.programs k with
  | some t => t.tokenIds
  | none => []

/-- The ids of token `k` at address `x`. -/
def AccountMap.idsAt (v : AccountMap) (x k : Address) : List U256 :=
  match v x with
  | some a => a.idsOf k
  | none => []

theorem Account.idsOf_insertProgram (a : Account) (k k' : Address) (t : Token) :
    (a.insertProgram k t).idsOf k' = if k' = k then t.tokenIds else a.idsOf k' := by
  unfold Account.idsOf Account.insertProgram
  split_ifs with h
  · subst h
    simp
  · simp only [BTreeMap.insert_of_ne _ _ h]

theorem Account.Starts.holds {a : Account} {k owner : Address} {t : Token}
    (h : a.Starts k owner t) : a.balance k = t.balance ∧ a.idsOf k = t.tokenIds := by
  rcases h with h | ⟨h, metadata, data, rfl⟩
  · simp [Account.balance, Account.idsOf, h]
  · simp [Account.balance, Account.idsOf, h, Token.fresh]

section Holdings

variable {tx : Transaction} {v s : AccountMap} {c : AccountChange} {a a' : Account}

theorem balanceAt_update (x y k : Address) :
    AccountMap.balanceAt (Function.update s y (some a)) x k =
      if x = y then (a.balance k).toNat else s.balanceAt x k := by
  unfold AccountMap.balanceAt
  by_cases h : x = y
  · subst h
    simp
  · simp [h]

theorem idsAt_update (x y k : Address) :
    AccountMap.idsAt (Function.update s y (some a)) x k =
      if x = y then a.idsOf k else s.idsAt x k := by
  unfold AccountMap.idsAt
  by_cases h : x = y
  · subst h
    simp
  · simp [h]

/-- The account a change starts from holds what the map has at its address. -/
theorem Instruction.Plans.found_holds {i : Instruction} (h : i.Plans tx v c)
    (ha : s c.key = some a ∨ s c.key = none ∧ c.fresh = some a) (k : Address) :
    (a.balance k).toNat = s.balanceAt c.key k ∧ a.idsOf k = s.idsAt c.key k := by
  rcases ha with ha | ⟨ha, hfresh⟩
  · simp [AccountMap.balanceAt, AccountMap.idsAt, ha]
  · have hp := h.fresh_programs hfresh
    simp [AccountMap.balanceAt, AccountMap.idsAt, ha, Account.balance, Account.idsOf, hp]

end Holdings

/-! ## Minting -/

section Mint

variable {tx : Transaction} {v s s' : AccountMap}

/-- What a distribution adds at address `x` of token `k`. -/
def TokenDistribution.amountFor (tx : Transaction) (x k : Address) (d : TokenDistribution) : ℕ :=
  if d.to.resolve tx = some x ∧ d.programId.resolve tx = some k then amountOf d.amount else 0

/-- The ids it adds there. -/
def TokenDistribution.idsFor (tx : Transaction) (x k : Address) (d : TokenDistribution) :
    List U256 :=
  if d.to.resolve tx = some x ∧ d.programId.resolve tx = some k then d.tokenIds else []

theorem TokenDistribution.change_run {i : CreateInstruction} {d : TokenDistribution}
    {c : AccountChange} {a' : Account} (hd : d ∈ i.distribution) (hc : d.change tx v = some c)
    (h : c.step Edit.apply (s c.key) = some a') (x k : Address) :
    AccountMap.balanceAt (Function.update s c.key (some a')) x k =
        s.balanceAt x k + d.amountFor tx x k ∧
      AccountMap.idsAt (Function.update s c.key (some a')) x k =
        s.idsAt x k ++ d.idsFor tx x k := by
  obtain ⟨a, ha, happ⟩ := Change.step_eq_some.1 h
  have hholds := (TokenDistribution.plans hd hc).found_holds ha k
  obtain ⟨programId, hid, hc⟩ := Option.bind_eq_some_iff.1 hc
  obtain ⟨y, hy, hc⟩ := Option.bind_eq_some_iff.1 hc
  obtain ⟨programAccount, -, hc⟩ := Option.bind_eq_some_iff.1 hc
  cases hc
  obtain ⟨t, u, t', hs, hu, ht, rfl⟩ := Edit.distribute_apply happ
  rw [balanceAt_update, idsAt_update]
  by_cases hx : x = y
  · subst hx
    have hsame := Token.applyUpdates_sameHolding ht
    have hbal : t'.balance.toNat = (a.balance programId).toNat + amountOf d.amount := by
      rw [hsame.balance, hs.holds.1]
      exact (Token.receive_ok hu).1
    have hids : t'.tokenIds = a.idsOf programId ++ d.tokenIds := by
      rw [hsame.tokenIds, hs.holds.2]
      exact Token.receive_ids hu
    simp only [if_true, TokenDistribution.amountFor, TokenDistribution.idsFor, hy, hid, true_and,
      Option.some.injEq, Account.balance_insertProgram, Account.idsOf_insertProgram]
    by_cases hk : k = programId
    · subst hk
      simp [hbal, hids, hholds.1, hholds.2]
    · simp [hk, Ne.symm hk, hholds.1, hholds.2]
  · simp [hx, Ne.symm hx, TokenDistribution.amountFor, TokenDistribution.idsFor, hy]

/-- A list of distributions adds up. -/
theorem distributions_run {x k : Address} {i : CreateInstruction} :
    ∀ {ds : List TokenDistribution} {cs : List AccountChange} {s s' : AccountMap},
      (∀ d ∈ ds, d ∈ i.distribution) → ds.mapM (TokenDistribution.change tx v) = some cs →
      runMoves Edit.apply (cs.map .one) s = some s' →
      s'.balanceAt x k = s.balanceAt x k + (ds.map (TokenDistribution.amountFor tx x k)).sum ∧
        s'.idsAt x k = s.idsAt x k ++ ds.flatMap (TokenDistribution.idsFor tx x k)
  | [], cs, s, s', _, hcs, h => by
    cases hcs
    cases h
    simp
  | d :: ds, cs, s, s', hmem, hcs, h => by
    rw [mapM_cons_some] at hcs
    obtain ⟨c, hc, hcs⟩ := Option.bind_eq_some_iff.1 hcs
    obtain ⟨cs', hcs', rfl⟩ := Option.map_eq_some_iff.1 hcs
    rw [List.map_cons, runMoves_one_cons] at h
    obtain ⟨a', ha', h⟩ := Option.bind_eq_some_iff.1 h
    obtain ⟨hb, hi⟩ := TokenDistribution.change_run (hmem d (List.mem_cons_self ..)) hc ha' x k
    obtain ⟨hb', hi'⟩ := distributions_run (fun d' hd' => hmem d' (List.mem_cons_of_mem d hd'))
      hcs' h
    refine ⟨?_, ?_⟩
    · rw [hb', hb, List.map_cons, List.sum_cons, add_assoc]
    · rw [hi', hi, List.flatMap_cons, List.append_assoc]

/-- A `Create` adds what its distributions say. -/
theorem create_run {i : CreateInstruction} {ms : List AccountMove} {x k : Address}
    (hms : (Instruction.create i).plan tx v = some ms) (h : runMoves Edit.apply ms s = some s') :
    s'.balanceAt x k = s.balanceAt x k +
        (i.distribution.map (TokenDistribution.amountFor tx x k)).sum ∧
      s'.idsAt x k = s.idsAt x k ++ i.distribution.flatMap (TokenDistribution.idsFor tx x k) := by
  obtain ⟨cs, hcs, rfl⟩ := Option.map_eq_some_iff.1 hms
  rw [runMoves_append] at h
  obtain ⟨s₁, h₁, h₂⟩ := Option.bind_eq_some_iff.1 h
  obtain ⟨hb, hi⟩ := distributions_run (x := x) (k := k) (fun _ hd => hd) hcs h₁
  rw [runMoves_one_cons] at h₂
  obtain ⟨a', ha', h₂⟩ := Option.bind_eq_some_iff.1 h₂
  cases h₂
  obtain ⟨a, ha, happ⟩ := Change.step_eq_some.1 ha'
  cases happ
  obtain ⟨hb', hi'⟩ := (Instruction.Plans.keep (v := v) (i := i)).found_holds ha k
  rw [← hb, ← hi, balanceAt_update, idsAt_update]
  split_ifs with hx
  · rw [hx]
    exact ⟨hb', hi'⟩
  · exact ⟨rfl, rfl⟩

/-- The program account of the token was called, or belongs to the sender. -/
def MintAuthorised (tx : Transaction) (v : AccountMap) (k : Address) : Prop :=
  k = tx.to ∨ ∃ program, v k = some program ∧ program.ownerAddress = tx.from

/-- More of token `k` somewhere : a higher balance, or one more copy of an id. -/
def Minted (s s' : AccountMap) (k : Address) : Prop :=
  ∃ x, s.balanceAt x k < s'.balanceAt x k ∨ ∃ id, (s.idsAt x k).count id < (s'.idsAt x k).count id

/-- A distribution that adds something to token `k`. -/
def TokenDistribution.Mints (tx : Transaction) (d : TokenDistribution) (k : Address) : Prop :=
  d.programId.resolve tx = some k ∧ (0 < amountOf d.amount ∨ d.tokenIds ≠ [])

theorem minted_iff {i : CreateInstruction} {ms : List AccountMove} {k : Address}
    (hms : (Instruction.create i).plan tx v = some ms) (h : runMoves Edit.apply ms s = some s') :
    Minted s s' k ↔ ∃ d ∈ i.distribution, d.Mints tx k := by
  constructor
  · rintro ⟨x, hbal | ⟨id, hcount⟩⟩
    · rw [(create_run hms h).1] at hbal
      have hpos : 0 < (i.distribution.map (TokenDistribution.amountFor tx x k)).sum := by omega
      obtain ⟨n, hn, hn0⟩ := List.sum_pos_iff_exists_pos_nat.1 hpos
      obtain ⟨d, hd, rfl⟩ := List.mem_map.1 hn
      unfold TokenDistribution.amountFor at hn0
      split_ifs at hn0 with hmatch
      · exact ⟨d, hd, hmatch.2, Or.inl hn0⟩
      · omega
    · rw [(create_run hms h).2, List.count_append] at hcount
      have hmem : id ∈ i.distribution.flatMap (TokenDistribution.idsFor tx x k) := by
        rw [← List.count_pos_iff]
        omega
      obtain ⟨d, hd, hid⟩ := List.mem_flatMap.1 hmem
      unfold TokenDistribution.idsFor at hid
      split_ifs at hid with hmatch
      · exact ⟨d, hd, hmatch.2, Or.inr (List.ne_nil_of_mem hid)⟩
      · cases hid
  · rintro ⟨d, hd, hid, hpos⟩
    obtain ⟨cs, hcs, -⟩ := Option.map_eq_some_iff.1 hms
    obtain ⟨c, -, hc⟩ := exists_of_mapM hcs d hd
    obtain ⟨programId, -, hc⟩ := Option.bind_eq_some_iff.1 hc
    obtain ⟨y, hy, -⟩ := Option.bind_eq_some_iff.1 hc
    refine ⟨y, hpos.imp (fun hamount => ?_) fun hids => ?_⟩
    · have hmem := List.mem_map_of_mem (f := TokenDistribution.amountFor tx y k) hd
      have hsum := List.sum_pos_iff_exists_pos_nat.2
        ⟨_, hmem, by simpa [TokenDistribution.amountFor, hy, hid] using hamount⟩
      rw [(create_run hms h).1]
      omega
    · obtain ⟨id, hidmem⟩ := List.exists_mem_of_ne_nil _ hids
      refine ⟨id, ?_⟩
      have hmem : id ∈ i.distribution.flatMap (TokenDistribution.idsFor tx y k) :=
        List.mem_flatMap.2 ⟨d, hd, by simpa [TokenDistribution.idsFor, hy, hid] using hidmem⟩
      have hcount := List.count_pos_iff.2 hmem
      rw [(create_run hms h).2, List.count_append]
      omega

end Mint

section MintAuthority

variable {env : Env} {storage cache cache' : AccountStore} {tx : Transaction} {outputs : Outputs}

/-- Every distribution of an applied call that mints shows in the step of its `Create`. -/
theorem exists_minted {i : CreateInstruction} {d : TokenDistribution} {k : Address}
    (hi : .create i ∈ outputs.instructions) (hd : d ∈ i.distribution) (hmints : d.Mints tx k)
    (h : runAlone storage (applyInstructionsToAccounts env tx outputs) cache = (.ok (), cache')) :
    ∃ s s', CallStep storage cache tx outputs (.create i) s s' ∧ Minted s s' k := by
  obtain ⟨s, s', hstep⟩ := exists_callStep hi h
  obtain ⟨-, v, ms, hms, hrun⟩ := hstep.plan
  exact ⟨s, s', hstep, (minted_iff hms hrun).2 ⟨d, hd, hmints⟩⟩

/-- The `Create`s of a call that was applied, accepted or not, mint only what the called
program or a program of the sender issues, exactly when their distributions name no other
program. The validator does not look at them. -/
theorem mint_authority_iff
    (h : runAlone storage (applyInstructionsToAccounts env tx outputs) cache = (.ok (), cache')) :
    (∀ i s s', CallStep storage cache tx outputs (.create i) s s' → ∀ k, Minted s s' k →
      MintAuthorised tx (accounts storage cache) k) ↔
      ∀ i, .create i ∈ outputs.instructions → ∀ d ∈ i.distribution, ∀ k, d.Mints tx k →
        MintAuthorised tx (accounts storage cache) k := by
  constructor
  · intro hprop i hi d hd k hmints
    obtain ⟨s, s', hstep, hminted⟩ := exists_minted hi hd hmints h
    exact hprop i s s' hstep k hminted
  · intro hcond i s s' hstep k hminted
    obtain ⟨hi, v, ms, hms, hrun⟩ := hstep.plan
    obtain ⟨d, hd, hmints⟩ := (minted_iff hms hrun).1 hminted
    exact hcond i hi d hd k hmints

end MintAuthority

theorem mint_authority_iff_mintAndBurn :
    mintAndBurnRun.1 = .ok () ∧
      ∀ i s s', CallStep (fun _ => none) oneProgram (callOf 7#160 9#160 1#256) mintAndBurn
          (.create i) s s' →
        ∀ k, Minted s s' k →
          MintAuthorised (callOf 7#160 9#160 1#256) (accounts (fun _ => none) oneProgram) k := by
  have hrun : mintAndBurnRun = (.ok (), mintAndBurnRun.2) := rfl
  refine ⟨rfl, (mint_authority_iff hrun).2 fun i hi d hd k hmints => Or.inl ?_⟩
  -- The one distribution is of `This`.
  simp only [mintAndBurn, List.mem_cons, Instruction.create.injEq, reduceCtorEq, List.not_mem_nil,
    or_false] at hi
  subst hi
  rw [List.mem_singleton.1 hd] at hmints
  exact (Option.some.inj hmints.1).symm

/-- A user with a program of hers, and a program of somebody else. -/
def twoPrograms : AccountStore :=
  storeOf [Account.holding 7#160 ETH_ADDR 10#256, Account.build (.program 9#160) 7#160,
    Account.build (.program 5#160) 6#160]

/-- Hand out 100 of the other program's token. -/
def foreignMint : Outputs where
  instructions := [.create ⟨.this, .this, 7#160, 0#256, 0#256,
    [⟨.address 5#160, .address 7#160, some 100#256, [], []⟩]⟩]

/-- An accepted call mints the token of a program that was not called and that the sender does
not own. -/
theorem create_mints_foreign_token :
    AcceptsCall .small (fun _ => none) twoPrograms foreignMint (callOf 7#160 9#160 1#256) ∧
      (callRun twoPrograms (callOf 7#160 9#160 1#256) foreignMint).1 = .ok () ∧
      ¬∀ i s s', CallStep (fun _ => none) twoPrograms (callOf 7#160 9#160 1#256) foreignMint
          (.create i) s s' →
        ∀ k, Minted s s' k →
          MintAuthorised (callOf 7#160 9#160 1#256) (accounts (fun _ => none) twoPrograms) k := by
  refine ⟨acceptsCall_of_sent rfl, rfl, fun hall => ?_⟩
  have hrun : callRun twoPrograms (callOf 7#160 9#160 1#256) foreignMint = (.ok (), _) := rfl
  obtain ⟨s, s', hstep, hminted⟩ := exists_minted (k := 5#160) (List.mem_singleton_self _)
    (List.mem_singleton_self _) ⟨rfl, Or.inl (by decide)⟩ hrun
  rcases hall _ s s' hstep _ hminted with hto | ⟨program, hprogram, howner⟩
  · exact absurd hto (by decide)
  · cases (show accounts (fun _ => none) twoPrograms 5#160 = some _ from rfl).symm.trans hprogram
    exact absurd howner (by decide)

/-! ## Spending -/

/-- What an instruction takes out of an account. -/
structure Taking where
  account : Address
  token : Address
  amount : Option U256
  ids : List U256

/-- What a transfer takes. Between an account and itself it takes nothing : the account is
written back as the receiver's. -/
def TransferInstruction.taking (tx : Transaction) (i : TransferInstruction) : Option Taking := do
  let x ← i.from.resolve tx
  let y ← i.to.resolve tx
  if x = y then none else return ⟨x, i.token, i.amount, i.ids⟩

/-- What a burn takes. -/
def BurnInstruction.taking (tx : Transaction) (i : BurnInstruction) : Option Taking := do
  let x ← i.from.resolve tx
  return ⟨x, i.token, i.amount, i.tokenIds⟩

/-- What an instruction takes. -/
def Instruction.taking (tx : Transaction) : Instruction → Option Taking
  | .transfer i => i.taking tx
  | .burn i => i.taking tx
  | _ => none

/-- The two instructions that take from accounts. -/
def Instruction.Spends : Instruction → Prop
  | .transfer _ => True
  | .burn _ => True
  | _ => False

/-- Nothing is taken at `x` of token `k`. -/
def NothingTaken (s s' : AccountMap) (x k : Address) : Prop :=
  s.balanceAt x k ≤ s'.balanceAt x k ∧ ∀ id ∈ s.idsAt x k, id ∈ s'.idsAt x k

/-- Exactly `w` is taken. -/
structure Taken (s s' : AccountMap) (w : Taking) : Prop where
  balance : s'.balanceAt w.account w.token + amountOf w.amount = s.balanceAt w.account w.token
  held : ∀ id ∈ w.ids, id ∈ s.idsAt w.account w.token
  ids : s'.idsAt w.account w.token = (s.idsAt w.account w.token).filter fun id => !w.ids.contains id
  others : ∀ x k, ¬(x = w.account ∧ k = w.token) → NothingTaken s s' x k

section Take

variable {s : AccountMap} {a a' : Account} {token : Address} {amount : Option U256}
  {ids : List U256}

theorem give_holds (h : (Edit.give token amount ids).apply a = some a') :
    a.Debited a' token (amountOf amount) ∧ (∀ id ∈ ids, id ∈ a.idsOf token) ∧
      ∀ k, a'.idsOf k = if k = token then (a.idsOf token).filter (fun id => !ids.contains id)
        else a.idsOf k := by
  obtain ⟨t, t', ht, hgive, rfl⟩ := Edit.give_apply h
  obtain ⟨hheld, hids⟩ := Token.give_ids hgive
  have hidsOf : a.idsOf token = t.tokenIds := by simp [Account.idsOf, ht]
  refine ⟨Account.debited_insertProgram ?_, by rwa [hidsOf], fun k => ?_⟩
  · rw [Account.balance_of_some ht]
    exact (Token.give_ok hgive).1
  · rw [Account.idsOf_insertProgram, hidsOf, hids]

theorem receive_holds {programAccount : Option Account}
    (h : (Edit.receive token amount ids programAccount).apply a = some a') :
    a.Credited a' token (amountOf amount) ∧
      ∀ k, a'.idsOf k = if k = token then a.idsOf token ++ ids else a.idsOf k := by
  obtain ⟨t, t', hs, hrec, rfl⟩ := Edit.receive_apply h
  refine ⟨Account.credited_insertProgram ?_, fun k => ?_⟩
  · rw [hs.holds.1]
    exact (Token.receive_ok hrec).1
  · rw [Account.idsOf_insertProgram, hs.holds.2, Token.receive_ids hrec]

/-- The account that gives, put back. -/
theorem taken_give {x : Address} (ha : s x = some a)
    (h : (Edit.give token amount ids).apply a = some a') :
    Taken s (Function.update s x (some a')) ⟨x, token, amount, ids⟩ := by
  obtain ⟨hd, hheld, hids⟩ := give_holds h
  have hb : ∀ k, (a.balance k).toNat = s.balanceAt x k := fun k => by
    simp [AccountMap.balanceAt, ha]
  have hi : ∀ k, a.idsOf k = s.idsAt x k := fun k => by simp [AccountMap.idsAt, ha]
  refine ⟨?_, ?_, ?_, fun y k hne => ?_⟩
  · rw [balanceAt_update, if_pos rfl, ← hb]
    simpa using hd token
  · rw [← hi]
    exact hheld
  · rw [idsAt_update, if_pos rfl, hids, if_pos rfl, ← hi]
  · unfold NothingTaken
    rw [balanceAt_update, idsAt_update]
    by_cases hy : y = x
    · subst hy
      have hk : k ≠ token := fun hk => hne ⟨rfl, hk⟩
      have hdk := hd k
      rw [if_neg hk, add_zero] at hdk
      rw [if_pos rfl, if_pos rfl, hids, if_neg hk, hdk, hb, hi]
      exact ⟨le_refl _, fun _ h => h⟩
    · rw [if_neg hy, if_neg hy]
      exact ⟨le_refl _, fun _ h => h⟩

/-- The account that receives, put back. -/
theorem nothingTaken_receive {programAccount : Option Account} {y : Address}
    (ha : ∀ k, (a.balance k).toNat = s.balanceAt y k ∧ a.idsOf k = s.idsAt y k)
    (h : (Edit.receive token amount ids programAccount).apply a = some a') (x k : Address) :
    NothingTaken s (Function.update s y (some a')) x k := by
  obtain ⟨hc, hids⟩ := receive_holds h
  unfold NothingTaken
  rw [balanceAt_update, idsAt_update]
  by_cases hx : x = y
  · subst hx
    rw [if_pos rfl, if_pos rfl, hc k, hids k, (ha k).1]
    refine ⟨Nat.le_add_right _ _, fun id hid => ?_⟩
    rw [← (ha k).2] at hid
    split_ifs with hk
    · rw [hk] at hid
      exact List.mem_append_left _ hid
    · exact hid
  · rw [if_neg hx, if_neg hx]
    exact ⟨le_refl _, fun _ h => h⟩

theorem NothingTaken.trans {t u : AccountMap} {x k : Address} (h : NothingTaken s t x k)
    (h' : NothingTaken t u x k) : NothingTaken s u x k :=
  ⟨h.1.trans h'.1, fun id hid => h'.2 id (h.2 id hid)⟩

/-- Another account that only gains changes nothing of what is taken. -/
theorem Taken.update_of_ne {t : AccountMap} {w : Taking} {y : Address} (h : Taken s t w)
    (hne : w.account ≠ y) (hrest : ∀ x k, NothingTaken t (Function.update t y (some a)) x k) :
    Taken s (Function.update t y (some a)) w := by
  refine ⟨?_, h.held, ?_, fun x k hxk => (h.others x k hxk).trans (hrest x k)⟩
  · rw [balanceAt_update, if_neg hne]
    exact h.balance
  · rw [idsAt_update, if_neg hne]
    exact h.ids

/-- A transfer or a burn takes what it says and nothing else. -/
theorem spend_run {tx : Transaction} {v s' : AccountMap} {i : Instruction} {ms : List AccountMove}
    (hi : i.Spends) (hms : i.plan tx v = some ms) (h : runMoves Edit.apply ms s = some s') :
    (i.taking tx = none → ∀ x k, NothingTaken s s' x k) ∧
      ∀ w, i.taking tx = some w → Taken s s' w := by
  cases i with
  | transfer i =>
    have hplans := fun c m => @Instruction.plans_of_mem tx v _ _ m c hms
    obtain ⟨m, hm, rfl⟩ := Option.map_eq_some_iff.1 hms
    obtain ⟨x, y, programAccount, hx, hy, hp, rfl⟩ := TransferInstruction.plan_eq_some hm
    obtain ⟨t, ht, hs'⟩ := Option.bind_eq_some_iff.1 h
    cases hs'
    obtain ⟨a, ha, ht⟩ := Option.bind_eq_some_iff.1 ht
    obtain ⟨b, hb, rfl⟩ := Option.map_eq_some_iff.1 ht
    obtain ⟨a₀, ha₀, hgive⟩ := Change.step_eq_some.1 ha
    obtain ⟨b₀, hb₀, hreceive⟩ := Change.step_eq_some.1 hb
    have hfound := fun k =>
      (Instruction.Plans.receive (i := i) hy hp).found_holds (s := s) hb₀ k
    have ha₀' : s x = some a₀ := by simpa using ha₀
    by_cases hxy : x = y
    · subst hxy
      have hnone : (Instruction.transfer i).taking tx = none := by
        simp [Instruction.taking, TransferInstruction.taking, hx, hy]
      rw [hnone]
      refine ⟨fun _ => ?_, (fun _ hw => nomatch hw)⟩
      simp only [Function.update_idem]
      exact nothingTaken_receive hfound hreceive
    · have hsome : (Instruction.transfer i).taking tx = some ⟨x, i.token, i.amount, i.ids⟩ := by
        simp [Instruction.taking, TransferInstruction.taking, hx, hy, hxy]
      rw [hsome]
      refine ⟨(fun hw => nomatch hw), fun w hw => ?_⟩
      cases hw
      refine (taken_give ha₀' hgive).update_of_ne hxy ?_
      -- The receiver's account was computed before the giver's was put back.
      refine nothingTaken_receive (fun k => ?_) hreceive
      rw [balanceAt_update, idsAt_update, if_neg (Ne.symm hxy), if_neg (Ne.symm hxy)]
      exact hfound k
  | burn i =>
    obtain ⟨c, hc, rfl⟩ := Option.map_eq_some_iff.1 hms
    obtain ⟨x, hx, hc⟩ := Option.bind_eq_some_iff.1 hc
    cases hc
    rw [runMoves_one_cons] at h
    obtain ⟨a, ha, h⟩ := Option.bind_eq_some_iff.1 h
    cases h
    obtain ⟨a₀, ha₀, hgive⟩ := Change.step_eq_some.1 ha
    have ha₀' : s x = some a₀ := by simpa using ha₀
    have hsome : (Instruction.burn i).taking tx = some ⟨x, i.token, i.amount, i.tokenIds⟩ := by
      simp [Instruction.taking, BurnInstruction.taking, hx]
    rw [hsome]
    refine ⟨(fun hw => nomatch hw), fun w hw => ?_⟩
    cases hw
    exact taken_give ha₀' hgive
  | create i => cases hi
  | update i => cases hi
  | log i => cases hi

end Take

/-! ### Who may take it -/

/-- The entry lets `spender` spend `n` : by an allowance, or by an approval without ids. -/
def Token.AllowsSpend (t : Token) (spender : Address) (n : ℕ) : Prop :=
  (∃ entry, t.allowance spender = some entry ∧ n ≤ entry.toNat) ∨ t.approvals spender = some []

/-- The entry lets `spender` move these ids. -/
def Token.AllowsMove (t : Token) (spender : Address) (moved : Set U256) : Prop :=
  ∃ approved, t.approvals spender = some approved ∧ ∀ id ∈ moved, id ∈ approved

/-- Whether a call may take from the account at `x`, where an entry of another account must
allow it to the sender or to the called program. -/
def MayTake (tx : Transaction) (v : AccountMap) (allows : Token → Address → Prop)
    (x k : Address) : Prop :=
  x = tx.from ∨ x = tx.to ∨ ∃ a t, v x = some a ∧ a.programs k = some t ∧
    (allows t tx.from ∨ allows t tx.to)

/-- What a step took from a balance or from the ids was allowed by the accounts `v`. -/
def SpendAuthorised (tx : Transaction) (v s s' : AccountMap) : Prop :=
  ∀ x k,
    (s'.balanceAt x k < s.balanceAt x k → MayTake tx v
      (fun t spender => t.AllowsSpend spender (s.balanceAt x k - s'.balanceAt x k)) x k) ∧
    ((∃ id ∈ s.idsAt x k, id ∉ s'.idsAt x k) → MayTake tx v
      (fun t spender => t.AllowsMove spender {id | id ∈ s.idsAt x k ∧ id ∉ s'.idsAt x k}) x k)

/-- The amount of a taking was allowed. -/
def Taking.SpendAllowed (tx : Transaction) (v : AccountMap) (w : Taking) : Prop :=
  0 < amountOf w.amount → MayTake tx v
    (fun t spender => t.AllowsSpend spender (amountOf w.amount)) w.account w.token

/-- The ids of a taking were allowed. -/
def Taking.MoveAllowed (tx : Transaction) (v : AccountMap) (w : Taking) : Prop :=
  w.ids ≠ [] → MayTake tx v
    (fun t spender => t.AllowsMove spender {id | id ∈ w.ids}) w.account w.token

section Authorised

variable {tx : Transaction} {v s s' : AccountMap} {w : Taking}

theorem Taken.authorised_iff (h : Taken s s' w) :
    SpendAuthorised tx v s s' ↔ w.SpendAllowed tx v ∧ w.MoveAllowed tx v := by
  have hmoved : {id | id ∈ s.idsAt w.account w.token ∧ id ∉ s'.idsAt w.account w.token} =
      {id | id ∈ w.ids} := by
    ext id
    simp only [Set.mem_ofPred_eq, h.ids, List.mem_filter, not_and]
    constructor
    · rintro ⟨hid, hnot⟩
      simpa using hnot hid
    · intro hid
      exact ⟨h.held id hid, fun _ => by simpa using hid⟩
  have hbal := h.balance
  have hfell : s.balanceAt w.account w.token - s'.balanceAt w.account w.token =
      amountOf w.amount := by omega
  constructor
  · intro hauth
    obtain ⟨hspend, hmove⟩ := hauth w.account w.token
    rw [hfell] at hspend
    rw [hmoved] at hmove
    refine ⟨fun hpos => hspend (by omega), fun hids => hmove ?_⟩
    obtain ⟨id, hid⟩ := List.exists_mem_of_ne_nil _ hids
    have hmem : id ∈ {id | id ∈ w.ids} := hid
    rw [← hmoved] at hmem
    exact ⟨id, hmem.1, hmem.2⟩
  · rintro ⟨hspend, hmove⟩ x k
    by_cases hxk : x = w.account ∧ k = w.token
    · obtain ⟨rfl, rfl⟩ := hxk
      rw [hfell, hmoved]
      refine ⟨fun hlt => hspend (by omega), ?_⟩
      rintro ⟨id, hid, hnot⟩
      have hmem : id ∈ {id | id ∈ s.idsAt w.account w.token ∧
          id ∉ s'.idsAt w.account w.token} := ⟨hid, hnot⟩
      rw [hmoved] at hmem
      exact hmove (List.ne_nil_of_mem hmem)
    · obtain ⟨hle, hsub⟩ := h.others x k hxk
      refine ⟨fun hlt => absurd hlt (by omega), ?_⟩
      rintro ⟨id, hid, hnot⟩
      exact absurd (hsub id hid) hnot

theorem authorised_of_nothingTaken (h : ∀ x k, NothingTaken s s' x k) :
    SpendAuthorised tx v s s' := by
  intro x k
  obtain ⟨hle, hsub⟩ := h x k
  refine ⟨fun hlt => absurd hlt (by omega), ?_⟩
  rintro ⟨id, hid, hnot⟩
  exact absurd (hsub id hid) hnot

end Authorised

/-! ### What the validator lets through -/

/-- The amount of a taking is not looked at : the account at the sender's address belongs to
somebody else, or a program's account gives its own token, or a burn names another program
than the one called. -/
def Instruction.AmountUnchecked (i : Instruction) (tx : Transaction) (v : AccountMap)
    (w : Taking) : Prop :=
  (∃ caller, v tx.from = some caller ∧ caller.ownerAddress ≠ tx.from) ∨
    (∃ a, v w.account = some a ∧ a.accountType = .program w.token) ∨
    ∃ burn, i = .burn burn ∧ burn.programId.resolve tx ≠ some tx.to

/-- The ids of a taking are not looked at in these cases, nor beside an amount. -/
def Instruction.IdsUnchecked (i : Instruction) (tx : Transaction) (v : AccountMap)
    (w : Taking) : Prop :=
  i.AmountUnchecked tx v w ∨ w.amount.isSome

section Unchecked

variable {tx : Transaction} {outputs : Outputs} {caller : Account} {v : AccountMap}

theorem Instruction.caller_of_checked {i : Instruction} {w : Taking}
    (h : ¬i.AmountUnchecked tx v w) (hcaller : v tx.from = some caller) :
    caller.ownerAddress = tx.from :=
  not_not.1 fun hne => h (Or.inl ⟨caller, hcaller, hne⟩)

theorem allowsSpend_of_approved {a : Account} {k spender : Address} {amt : U256}
    (hne : a.accountType ≠ .program k) (h : a.validateApprovedSpend k spender amt = .ok ()) :
    ∃ t, a.programs k = some t ∧ t.AllowsSpend spender amt.toNat := by
  obtain ⟨t, ht, ⟨entry, hentry, hlt⟩ | ⟨-, hempty⟩ | ⟨-, -, htype⟩⟩ :=
    Account.validateApprovedSpend_ok h
  · exact ⟨t, ht, Or.inl ⟨entry, hentry, Nat.le_of_lt hlt⟩⟩
  · exact ⟨t, ht, Or.inr hempty⟩
  · exact absurd htype hne

/-- A checked taking is allowed, the ids beside an amount apart. -/
theorem TakeChecked.allowed {ref : AddressOrNamespace} {w : Taking} {m : AccountLookup}
    {exempt : Account → Prop}
    (hc : TakeChecked caller m tx.to exempt ref w.token w.amount w.ids)
    (hcaller : caller.ownerAddress = tx.from) (hx : ref.resolve tx = some w.account)
    (hm : ∀ a, m ref = some (some a) → v w.account = some a)
    (hexempt : ∀ a, v w.account = some a → exempt a → w.account = tx.to)
    (hown : ∀ a, v w.account = some a → a.accountType ≠ .program w.token) :
    w.SpendAllowed tx v ∧ (w.amount = none → w.MoveAllowed tx v) := by
  by_cases href : ref = .address caller.ownerAddress
  · have haccount : w.account = tx.from := by
      rw [href, hcaller] at hx
      exact (Option.some.inj hx).symm
    exact ⟨fun _ => Or.inl haccount, fun _ _ => Or.inl haccount⟩
  · obtain ⟨a, ha, -, hamount, hids⟩ := hc.other href
    have hv := hm a ha
    refine ⟨fun hpos => ?_, fun hnone => ?_⟩
    · cases hamt : w.amount with
      | none => simp [hamt, amountOf] at hpos
      | some amt =>
        obtain ⟨-, hex | hfrom | hto⟩ := hamount amt hamt
        · exact Or.inr (Or.inl (hexempt a hv hex))
        · rw [hcaller] at hfrom
          obtain ⟨t, ht, hallows⟩ := allowsSpend_of_approved (hown a hv) hfrom
          exact Or.inr (Or.inr ⟨a, t, hv, ht, Or.inl hallows⟩)
        · obtain ⟨t, ht, hallows⟩ := allowsSpend_of_approved (hown a hv) hto
          exact Or.inr (Or.inr ⟨a, t, hv, ht, Or.inr hallows⟩)
    · -- No approval lets ids go, so the account would be the program's own.
      obtain ⟨-, hfrom | hto⟩ := hids hnone
      · exact absurd (Account.validateApprovedTokenTransfer_ok hfrom) (hown a hv)
      · exact absurd (Account.validateApprovedTokenTransfer_ok hto) (hown a hv)

theorem Instruction.taking_transfer {i : TransferInstruction} {w : Taking}
    (h : (Instruction.transfer i).taking tx = some w) :
    ∃ x, i.from.resolve tx = some x ∧ w = ⟨x, i.token, i.amount, i.ids⟩ := by
  obtain ⟨x, hx, h⟩ := Option.bind_eq_some_iff.1 h
  obtain ⟨y, -, h⟩ := Option.bind_eq_some_iff.1 h
  split_ifs at h
  cases h
  exact ⟨x, hx, rfl⟩

theorem Instruction.taking_burn {i : BurnInstruction} {w : Taking}
    (h : (Instruction.burn i).taking tx = some w) :
    ∃ x, i.from.resolve tx = some x ∧ w = ⟨x, i.token, i.amount, i.tokenIds⟩ := by
  obtain ⟨x, hx, h⟩ := Option.bind_eq_some_iff.1 h
  cases h
  exact ⟨x, hx, rfl⟩

/-- What the validator looks at is allowed. -/
theorem Checked.allowed (hc : Checked v tx outputs caller) (hcaller : v tx.from = some caller)
    (hkeyed : ∀ x a, v x = some a → a.address = x) {i : Instruction} {w : Taking}
    (hi : i ∈ outputs.instructions) (hw : i.taking tx = some w)
    (hchecked : ¬i.AmountUnchecked tx v w) :
    w.SpendAllowed tx v ∧ (w.amount = none → w.MoveAllowed tx v) := by
  have howner := Instruction.caller_of_checked hchecked hcaller
  have hown : ∀ a, v w.account = some a → a.accountType ≠ .program w.token :=
    fun a ha htype => hchecked (Or.inr (Or.inl ⟨a, ha, htype⟩))
  have hlookup : ∀ {ref a}, ref ∈ i.getAccountsInvolved → ref.resolve tx = some w.account →
      accountLookup v tx (involved outputs tx) ref = some (some a) → v w.account = some a := by
    intro ref a href hx hm
    obtain ⟨x, hx', hv⟩ := Checked.account_of_lookup hi href hm
    rw [hx] at hx'
    cases hx'
    exact hv
  cases i with
  | transfer i =>
    obtain ⟨x, hx, rfl⟩ := Instruction.taking_transfer hw
    refine (checkTransfer_ok_iff.1 (hc _ hi)).allowed howner hx (fun a => hlookup ?_ hx) ?_ hown
    · simp [Instruction.getAccountsInvolved, TransferInstruction.accountsInvolved]
    · -- The account of the called program needs no approval.
      intro a ha htype
      have haddr := hkeyed _ a ha
      rw [Account.address, htype] at haddr
      exact haddr.symm
  | burn i =>
    obtain ⟨x, hx, rfl⟩ := Instruction.taking_burn hw
    obtain ⟨program, hprogram, htake⟩ := checkBurn_ok_iff.1 (hc _ hi)
    have hto : program = tx.to := by
      refine not_not.1 fun hne => hchecked (Or.inr (Or.inr ⟨i, rfl, ?_⟩))
      rw [hprogram]
      exact fun h => hne (Option.some.inj h)
    subst hto
    refine htake.allowed howner hx (fun a => hlookup ?_ hx) (fun _ _ h => h.elim) hown
    simp [Instruction.getAccountsInvolved, BurnInstruction.accountsInvolved]
  | create i => cases hw
  | update i => cases hw
  | log i => cases hw

end Unchecked

section SpendAuthority

variable {env : Env} {storage cache cache' : AccountStore} {tx : Transaction} {outputs : Outputs}

/-- What an instruction of an applied call takes shows in its step. -/
theorem exists_taken {i : Instruction} {w : Taking} (hi : i ∈ outputs.instructions)
    (hw : i.taking tx = some w)
    (h : runAlone storage (applyInstructionsToAccounts env tx outputs) cache = (.ok (), cache')) :
    i.Spends ∧ ∃ s s', CallStep storage cache tx outputs i s s' ∧ Taken s s' w := by
  have hspends : i.Spends := by
    cases i with
    | transfer i => trivial
    | burn i => trivial
    | create i => cases hw
    | update i => cases hw
    | log i => cases hw
  obtain ⟨s, s', hstep⟩ := exists_callStep hi h
  obtain ⟨-, v, ms, hms, hrun⟩ := hstep.plan
  exact ⟨hspends, s, s', hstep, (spend_run hspends hms hrun).2 w hw⟩

/-- The transfers and burns of an accepted call that was applied take only what they may take,
exactly when what the validator does not look at is allowed too. -/
theorem spend_authority_iff (hacc : AcceptsCall env storage cache outputs tx)
    (h : runAlone storage (applyInstructionsToAccounts env tx outputs) cache = (.ok (), cache')) :
    (∀ i s s', i.Spends → CallStep storage cache tx outputs i s s' →
      SpendAuthorised tx (accounts storage cache) s s') ↔
      ∀ i ∈ outputs.instructions, ∀ w, i.taking tx = some w →
        (i.AmountUnchecked tx (accounts storage cache) w →
          w.SpendAllowed tx (accounts storage cache)) ∧
        (i.IdsUnchecked tx (accounts storage cache) w →
          w.MoveAllowed tx (accounts storage cache)) := by
  constructor
  · intro hauth i hi w hw
    obtain ⟨hspends, s, s', hstep, htaken⟩ := exists_taken hi hw h
    obtain ⟨hspend, hmove⟩ := htaken.authorised_iff.1 (hauth i s s' hspends hstep)
    exact ⟨fun _ => hspend, fun _ => hmove⟩
  · intro hcond i s s' hspends hstep
    obtain ⟨hi, v, ms, hms, hrun⟩ := hstep.plan
    obtain ⟨hnone, htaken⟩ := spend_run hspends hms hrun
    cases hw : i.taking tx with
    | none => exact authorised_of_nothingTaken (hnone hw)
    | some w =>
      refine (htaken w hw).authorised_iff.2 ?_
      obtain ⟨hspend, hmove⟩ := hcond i hi w hw
      by_cases hun : i.AmountUnchecked tx (accounts storage cache) w
      · exact ⟨hspend hun, hmove (Or.inl hun)⟩
      · obtain ⟨caller, hcaller, hc⟩ := hacc.checked
        obtain ⟨hspend', hmove'⟩ :=
          hc.allowed hcaller (fun _ _ => address_of_accounts) hi hw hun
        refine ⟨hspend', ?_⟩
        cases hamt : w.amount with
        | none => exact hmove' hamt
        | some amt => exact hmove (Or.inr (by simp [hamt]))

end SpendAuthority

/-- The entry of a user 8 with 50 ETH, who lets the program 5 spend 20. -/
def granted : Token :=
  { Token.fresh ETH_ADDR 8#160 (fun _ => none) (fun _ => none) with
    balance := 50#256, allowance := BTreeMap.insert (fun _ => none) 5#160 20#256 }

/-- Two users and two programs, the second user being the one who lets a program spend. -/
def granting : AccountStore :=
  storeOf [Account.holding 7#160 ETH_ADDR 10#256, Account.build (.program 9#160) 7#160,
    Account.build (.program 5#160) 6#160,
    (Account.build .user 8#160).insertProgram ETH_ADDR granted]

/-- The program sends the user's ETH to the caller. -/
def drawAllowance : Outputs where
  instructions := [.transfer ⟨ETH_ADDR, .address 8#160, .address 7#160, some 10#256, []⟩]

theorem spend_authority_iff_drawAllowance :
    AcceptsCall .small (fun _ => none) granting drawAllowance (callOf 7#160 5#160 1#256) ∧
      (callRun granting (callOf 7#160 5#160 1#256) drawAllowance).1 = .ok () ∧
      ∀ i s s', i.Spends → CallStep (fun _ => none) granting (callOf 7#160 5#160 1#256)
          drawAllowance i s s' →
        SpendAuthorised (callOf 7#160 5#160 1#256) (accounts (fun _ => none) granting) s s' := by
  have hacc : AcceptsCall .small (fun _ => none) granting drawAllowance
      (callOf 7#160 5#160 1#256) := acceptsCall_of_sent rfl
  have hrun : callRun granting (callOf 7#160 5#160 1#256) drawAllowance = (.ok (), _) := rfl
  refine ⟨hacc, rfl, (spend_authority_iff hacc hrun).2 fun i hi w hw => ?_⟩
  cases List.mem_singleton.1 hi
  cases hw
  refine ⟨fun _ _ => Or.inr (Or.inr ⟨_, _, rfl, rfl, Or.inr (Or.inl ⟨_, rfl, by decide⟩)⟩),
    fun _ hids => absurd rfl hids⟩

/-- The caller burns the user's ETH, for a program that she does not call. -/
def foreignBurn : Outputs where
  instructions := [.burn ⟨7#160, .address 5#160, ETH_ADDR, .address 8#160, some 10#256, []⟩]

/-- A burn draws on the allowance of a program that was not called. -/
theorem burn_for_uncalled_program :
    AcceptsCall .small (fun _ => none) granting foreignBurn (callOf 7#160 9#160 1#256) ∧
      (callRun granting (callOf 7#160 9#160 1#256) foreignBurn).1 = .ok () ∧
      ¬∀ i s s', i.Spends → CallStep (fun _ => none) granting (callOf 7#160 9#160 1#256)
          foreignBurn i s s' →
        SpendAuthorised (callOf 7#160 9#160 1#256) (accounts (fun _ => none) granting) s s' := by
  refine ⟨acceptsCall_of_sent rfl, rfl, fun hall => ?_⟩
  have hrun : callRun granting (callOf 7#160 9#160 1#256) foreignBurn = (.ok (), _) := rfl
  obtain ⟨hspends, s, s', hstep, htaken⟩ := exists_taken (List.mem_singleton_self _) rfl hrun
  obtain ⟨hspend, -⟩ := htaken.authorised_iff.1 (hall _ s s' hspends hstep)
  rcases hspend (by decide) with hfrom | hto | ⟨a, t, ha, ht, hallows⟩
  · exact absurd hfrom (by decide)
  · exact absurd hto (by decide)
  · cases (show accounts (fun _ => none) granting 8#160 = some _ from rfl).symm.trans ha
    cases (show some granted = some t from ht)
    rcases hallows with (⟨entry, hentry, -⟩ | happ) | (⟨entry, hentry, -⟩ | happ)
    · cases hentry
    · cases happ
    · cases hentry
    · cases happ

end Lasr
