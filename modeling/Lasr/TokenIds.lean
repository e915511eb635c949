import Lasr.Acceptance
import Lasr.Spending

/-!
# Token ids

What a map of accounts holds of a token's ids : a list at each address (`idsAt`), and all of
them together as a multiset (`idSupply`).

A transfer takes every copy of the ids it names out of the list of the giving account, and
appends the names to the list of the receiving one. So it moves the supply by what it names
less what it takes (`transfer_idSupply`), which the lists alone tell (`moveIds`). Over a call
the supply stays exactly when the two come to the same (`transfers_keep_ids_iff`).
-/

set_option linter.unusedSectionVars false

namespace Lasr

/-! ## Holdings of ids -/

/-- The ids of each token at each address. -/
abbrev IdBook := Address → Address → List U256

namespace AccountMap

/-- The ids of token `k` over all accounts, with their multiplicities. -/
noncomputable def idSupply (v : AccountMap) (k : Address) : Multiset U256 :=
  ∑ᶠ a, (v.idsAt a k : Multiset U256)

/-- Replacing an account moves the supply by its ids, less those of the one it replaces. -/
theorem idSupply_update (v : AccountMap) (x : Address) (account : Account) (k : Address) :
    idSupply (Function.update v x (some account)) k + (v.idsAt x k : Multiset U256) =
      v.idSupply k + (account.idsOf k : Multiset U256) := by
  have hput : (fun a => (idsAt (Function.update v x (some account)) a k : Multiset U256)) =
      Function.update (fun a => (v.idsAt a k : Multiset U256)) x (account.idsOf k) := by
    funext a
    rw [idsAt_update, Function.update_apply]
    split_ifs <;> rfl
  unfold idSupply
  rw [hput]
  exact finsum_update_add _ x _

end AccountMap

/-! ## What a transfer does to them -/

namespace TransferInstruction

variable (tx : Transaction) (self : TransferInstruction)

/-- The ids at each address after a transfer between two of them. -/
def moveIds (book : IdBook) : IdBook := fun a k =>
  if k = self.token then
    if some a = self.to.resolve tx then book a k ++ self.ids
    else if some a = self.from.resolve tx then (book a k).filter fun i => !self.ids.contains i
    else book a k
  else book a k

/-- What a transfer takes of the ids of token `k` : every copy of those it names. -/
def takenIds (book : IdBook) (k : Address) : Multiset U256 :=
  if k = self.token then
    match self.from.resolve tx with
    | some x => ((book x k).filter fun i => self.ids.contains i : List U256)
    | none => 0
  else 0

/-- What a transfer adds to the ids of token `k`. -/
def namedIds (k : Address) : Multiset U256 :=
  if k = self.token then (self.ids : Multiset U256) else 0

end TransferInstruction

section Transfer

variable {tx : Transaction} {v s s' : AccountMap} {transfer : TransferInstruction}

theorem coe_filter_add_filter_not (l : List U256) (p : U256 → Bool) :
    ((l.filter p : List U256) : Multiset U256) + (l.filter fun i => !p i : List U256) = l :=
  Multiset.coe_eq_coe.2 (List.filter_append_perm p l)

/-- The two accounts a transfer replaces, and the ids they hold. -/
theorem transfer_accounts (hne : transfer.from.resolve tx ≠ transfer.to.resolve tx)
    (h : ((Instruction.transfer transfer).plan tx v).bind
      (fun ms => runMoves Edit.apply ms s) = some s') :
    ∃ x y a b, transfer.from.resolve tx = some x ∧ transfer.to.resolve tx = some y ∧ y ≠ x ∧
      s' = Function.update (Function.update s x (some a)) y (some b) ∧
      (∀ k, a.idsOf k = if k = transfer.token then
        (s.idsAt x k).filter fun i => !transfer.ids.contains i else s.idsAt x k) ∧
      ∀ k, b.idsOf k = if k = transfer.token then s.idsAt y k ++ transfer.ids else s.idsAt y k := by
  obtain ⟨ms, hms, hrun⟩ := Option.bind_eq_some_iff.1 h
  obtain ⟨m, hm, rfl⟩ := Option.map_eq_some_iff.1 hms
  obtain ⟨x, y, programAccount, hx, hy, hp, rfl⟩ := TransferInstruction.plan_eq_some hm
  obtain ⟨t, ht, hdone⟩ := Option.bind_eq_some_iff.1 hrun
  cases hdone
  obtain ⟨a', ha', ht⟩ := Option.bind_eq_some_iff.1 ht
  obtain ⟨b', hb', rfl⟩ := Option.map_eq_some_iff.1 ht
  obtain ⟨a, ha, hgive⟩ := Change.step_eq_some.1 ha'
  obtain ⟨b, hb, hreceive⟩ := Change.step_eq_some.1 hb'
  have hida := (Instruction.Plans.give (v := v) hx).found_holds ha
  have hidb := (Instruction.Plans.receive hy hp).found_holds hb
  refine ⟨x, y, a', b', hx, hy, fun he => hne (by rw [hx, hy, he]), rfl, fun k => ?_, fun k => ?_⟩
  · rw [(give_holds hgive).2.2, (hida _).2, (hida _).2]
    split_ifs with hk
    · rw [hk]
    · rfl
  · rw [(receive_holds hreceive).2, (hidb _).2, (hidb _).2]
    split_ifs with hk
    · rw [hk]
    · rfl

/-- A transfer between two accounts moves the ids of its token as its lists say. -/
theorem transfer_idsAt (hne : transfer.from.resolve tx ≠ transfer.to.resolve tx)
    (h : ((Instruction.transfer transfer).plan tx v).bind
      (fun ms => runMoves Edit.apply ms s) = some s') :
    s'.idsAt = transfer.moveIds tx s.idsAt := by
  obtain ⟨x, y, a, b, hx, hy, -, rfl, ha, hb⟩ := transfer_accounts hne h
  funext z k
  simp only [idsAt_update, TransferInstruction.moveIds, hx, hy, Option.some.injEq, ha,
    hb]
  by_cases hzy : z = y
  · subst hzy
    simp
  · by_cases hzx : z = x
    · subst hzx
      simp [hzy]
    · simp [hzy, hzx]

/-- It moves the supply by what it names less what it takes. -/
theorem transfer_idSupply (hne : transfer.from.resolve tx ≠ transfer.to.resolve tx)
    (h : ((Instruction.transfer transfer).plan tx v).bind
      (fun ms => runMoves Edit.apply ms s) = some s') (k : Address) :
    s'.idSupply k + transfer.takenIds tx s.idsAt k = s.idSupply k + transfer.namedIds k := by
  obtain ⟨x, y, a, b, hx, hy, hyx, rfl, ha, hb⟩ := transfer_accounts hne h
  have hgiven := s.idSupply_update x a k
  have hreceived := AccountMap.idSupply_update (Function.update s x (some a)) y b k
  rw [idsAt_update, if_neg hyx, hb] at hreceived
  rw [ha] at hgiven
  simp only [TransferInstruction.takenIds, TransferInstruction.namedIds, hx]
  by_cases hk : k = transfer.token
  · simp only [if_pos hk] at hgiven hreceived ⊢
    rw [← coe_filter_add_filter_not (s.idsAt x k) fun i => transfer.ids.contains i, ← add_assoc,
      add_left_inj] at hgiven
    rw [← Multiset.coe_add, add_comm (s.idsAt y k : Multiset U256), ← add_assoc, add_left_inj]
      at hreceived
    rw [hreceived, add_right_comm, hgiven]
  · simp only [if_neg hk, add_left_inj] at hgiven hreceived ⊢
    rw [hreceived, hgiven]

end Transfer

/-! ## A call of transfers -/

/-- What a list of transfers takes of the ids of token `k`, one after the other. -/
def takenAlong (tx : Transaction) (k : Address) : List TransferInstruction → IdBook → Multiset U256
  | [], _ => 0
  | transfer :: rest, book =>
    transfer.takenIds tx book k + takenAlong tx k rest (transfer.moveIds tx book)

/-- What a list of transfers adds to the ids of token `k`. -/
def namedAlong (k : Address) (transfers : List TransferInstruction) : Multiset U256 :=
  (transfers.map fun transfer => transfer.namedIds k).sum

/-- Each transfer names an id as often as its giving account then holds it, or not at all. -/
def NamesHoldings (tx : Transaction) : List TransferInstruction → IdBook → Prop
  | [], _ => True
  | transfer :: rest, book =>
    (∀ x, transfer.from.resolve tx = some x → ∀ id ∈ transfer.ids,
      (book x transfer.token).count id = transfer.ids.count id) ∧
    NamesHoldings tx rest (transfer.moveIds tx book)

section Along

variable {env : Env} {storage cache cache' : AccountStore} {tx : Transaction} {outputs : Outputs}
  {v s' : AccountMap}

theorem transfers_idSupply (k : Address) :
    ∀ {transfers : List TransferInstruction} {s : AccountMap},
      (∀ transfer ∈ transfers, transfer.from.resolve tx ≠ transfer.to.resolve tx) →
      ((planAll tx v (transfers.map .transfer)).bind
        fun ms => runMoves Edit.apply ms s) = some s' →
      s'.idSupply k + takenAlong tx k transfers s.idsAt = s.idSupply k + namedAlong k transfers
  | [], s, _, h => by
    cases h
    rfl
  | transfer :: rest, s, hne, h => by
    rw [List.map_cons, runPlan_cons] at h
    obtain ⟨t, ht, h⟩ := Option.bind_eq_some_iff.1 h
    rw [List.forall_mem_cons] at hne
    have hfirst := transfer_idSupply hne.1 ht k
    have hrest := transfers_idSupply k hne.2 h
    rw [transfer_idsAt hne.1 ht] at hrest
    simp only [takenAlong, namedAlong, List.map_cons, List.sum_cons] at hrest ⊢
    calc s'.idSupply k + (transfer.takenIds tx s.idsAt k +
          takenAlong tx k rest (transfer.moveIds tx s.idsAt))
        = s'.idSupply k + takenAlong tx k rest (transfer.moveIds tx s.idsAt) +
            transfer.takenIds tx s.idsAt k := by rw [add_assoc, add_comm (takenAlong ..)]
      _ = AccountMap.idSupply t k + transfer.takenIds tx s.idsAt k +
            (rest.map fun transfer => transfer.namedIds k).sum := by rw [hrest, add_right_comm]
      _ = s.idSupply k + (transfer.namedIds k +
            (rest.map fun transfer => transfer.namedIds k).sum) := by rw [hfirst, add_assoc]

/-- The nonce of the called account has nothing to do with ids. -/
theorem idsAt_put_incremented {caller caller' : Account} (hcaller : v tx.to = some caller)
    (haddress : caller.address = tx.to) (hinc : caller.incrementNonce = .ok caller') :
    (v.put caller').idsAt = v.idsAt := by
  obtain ⟨haddr, -, -, hprograms⟩ := Account.incrementNonce_keeps hinc
  have hids : ∀ k, caller'.idsOf k = caller.idsOf k := fun k => by simp [Account.idsOf, hprograms]
  funext a k
  unfold AccountMap.put
  rw [idsAt_update, haddr, haddress]
  split_ifs with ha
  · rw [ha, hids]
    simp [AccountMap.idsAt, hcaller]
  · rfl

/-- A call of transfers moves the supply of ids by what they name less what they take. -/
theorem call_idSupply {transfers : List TransferInstruction}
    (hout : outputs.instructions = transfers.map .transfer)
    (hne : ∀ transfer ∈ transfers, transfer.from.resolve tx ≠ transfer.to.resolve tx)
    (h : runAlone storage (applyInstructionsToAccounts env tx outputs) cache = (.ok (), cache'))
    (k : Address) :
    (accounts storage cache').idSupply k +
        takenAlong tx k transfers (accounts storage cache).idsAt =
      (accounts storage cache).idSupply k + namedAlong k transfers := by
  obtain ⟨caller, caller', ms, hcaller, hinc, hms, hrun, -⟩ :=
    callLedger_eq_some (callLedger_of_ok h)
  have hsame := idsAt_put_incremented hcaller (address_of_accounts hcaller) hinc
  have hsupply : ((accounts storage cache).put caller').idSupply k =
      (accounts storage cache).idSupply k := by
    unfold AccountMap.idSupply
    rw [hsame]
  rw [hout] at hms
  have hall := transfers_idSupply k hne (Option.bind_eq_some_iff.2 ⟨ms, hms, hrun⟩)
  rwa [hsame, hsupply] at hall

/-- A transfer that names what is held takes what it names. -/
theorem takenIds_eq_namedIds {transfer : TransferInstruction} {book : IdBook} {x : Address}
    (hx : transfer.from.resolve tx = some x)
    (h : ∀ id ∈ transfer.ids, (book x transfer.token).count id = transfer.ids.count id)
    (k : Address) : transfer.takenIds tx book k = transfer.namedIds k := by
  unfold TransferInstruction.takenIds TransferInstruction.namedIds
  split_ifs with hk
  · rw [hx, hk]
    refine Multiset.coe_eq_coe.2 (List.perm_iff_count.2 fun id => ?_)
    by_cases hid : id ∈ transfer.ids
    · rw [List.count_filter (by simpa using hid), h id hid]
    · rw [List.count_eq_zero_of_not_mem hid, List.count_eq_zero]
      simp [hid]
  · rfl

/-- Where every transfer names what is held, nothing is lost and nothing duplicated. -/
theorem NamesHoldings.takenAlong_eq (k : Address) :
    ∀ {transfers : List TransferInstruction} {book : IdBook},
      (∀ transfer ∈ transfers, (transfer.from.resolve tx).isSome) →
      NamesHoldings tx transfers book → takenAlong tx k transfers book = namedAlong k transfers
  | [], _, _, _ => rfl
  | transfer :: rest, book, hfrom, h => by
    rw [List.forall_mem_cons] at hfrom
    obtain ⟨x, hx⟩ := Option.isSome_iff_exists.1 hfrom.1
    simp only [takenAlong, namedAlong, List.map_cons, List.sum_cons]
    rw [takenIds_eq_namedIds hx (h.1 x hx), takenAlong_eq k hfrom.2 h.2]
    rfl

/-- Transfers between different accounts neither lose nor duplicate ids exactly when, token by
token, they name as many copies of each id as they take. -/
theorem transfers_keep_ids_iff {transfers : List TransferInstruction}
    (hout : outputs.instructions = transfers.map .transfer)
    (hne : ∀ transfer ∈ transfers, transfer.from.resolve tx ≠ transfer.to.resolve tx)
    (h : runAlone storage (applyInstructionsToAccounts env tx outputs) cache = (.ok (), cache')) :
    (∀ k, (accounts storage cache').idSupply k = (accounts storage cache).idSupply k) ↔
      ∀ k, takenAlong tx k transfers (accounts storage cache).idsAt = namedAlong k transfers := by
  refine forall_congr' fun k => ?_
  have hall := call_idSupply hout hne h k
  constructor
  · intro hsame
    rw [hsame] at hall
    exact add_left_cancel hall
  · intro hsame
    rw [hsame] at hall
    exact add_right_cancel hall

end Along

/-- A user with one id of a program's token, and the program. -/
def oneId : AccountStore :=
  storeOf [(Account.build .user 7#160).insertProgram 9#160
      { Token.fresh 9#160 7#160 (fun _ => none) (fun _ => none) with tokenIds := [1#256] },
    Account.build (.program 9#160) 7#160]

/-- Give id 1, named as often as `ids` says. -/
def giveIds (ids : List U256) : TransferInstruction :=
  ⟨9#160, .address 7#160, .address 8#160, none, ids⟩

/-- The call with one such transfer, run on this state. -/
def giveIdsRun (ids : List U256) : Except (Fault BatcherError) Unit × AccountStore :=
  runAlone (fun _ => none) (applyInstructionsToAccounts .small (callOf 7#160 9#160 1#256)
    ⟨[.transfer (giveIds ids)]⟩) oneId

theorem giveIds_separate (ids : List U256) : ∀ transfer ∈ [giveIds ids],
    transfer.from.resolve (callOf 7#160 9#160 1#256) ≠
      transfer.to.resolve (callOf 7#160 9#160 1#256) := by
  simp [giveIds, AddressOrNamespace.resolve]

theorem transfers_keep_ids_iff_once :
    (giveIdsRun [1#256]).1 = .ok () ∧
      ∀ k, (accounts (fun _ => none) (giveIdsRun [1#256]).2).idSupply k =
        (accounts (fun _ => none) oneId).idSupply k := by
  have hrun : giveIdsRun [1#256] = (.ok (), (giveIdsRun [1#256]).2) := rfl
  refine ⟨rfl, (transfers_keep_ids_iff rfl (giveIds_separate [1#256]) hrun).2 fun k => ?_⟩
  refine NamesHoldings.takenAlong_eq k (by simp [giveIds, AddressOrNamespace.resolve]) ?_
  refine ⟨fun x hx id hid => ?_, trivial⟩
  cases hx
  cases List.mem_singleton.1 hid
  decide

/-- An id that is named twice is doubled, by a call the validator accepts. -/
theorem doubled_id :
    AcceptsCall .small (fun _ => none) oneId ⟨[.transfer (giveIds [1#256, 1#256])]⟩
        (callOf 7#160 9#160 1#256) ∧
      (giveIdsRun [1#256, 1#256]).1 = .ok () ∧
      ¬∀ k, (accounts (fun _ => none) (giveIdsRun [1#256, 1#256]).2).idSupply k =
        (accounts (fun _ => none) oneId).idSupply k := by
  have hrun : giveIdsRun [1#256, 1#256] = (.ok (), (giveIdsRun [1#256, 1#256]).2) := rfl
  refine ⟨List.mem_singleton_self _, rfl, fun hsame => ?_⟩
  have hall := call_idSupply rfl (giveIds_separate [1#256, 1#256]) hrun 9#160
  rw [hsame] at hall
  have hcount := congrArg Multiset.card (add_left_cancel hall)
  revert hcount
  decide

end Lasr
