import Lasr.Authority
import Lasr.Footprint

/-!
# What goes through

The batcher applies the instructions of a call one after another. Whether it gets to the end is
decided account by account and token by token (`cellRun`) : what the instructions take from an
entry, add to it and update in it, in their order, has to go through from what the entry holds
at the start. Besides, the called account must be there with a nonce that can grow, and the
accounts that the instructions name must be found (`CallFits`).

`Goes` ties a computation on the accounts to its effects in every entry. It composes
(`Goes.bind`), holds of every change of a plan (`goes_one`) and so of every instruction
(`goes_instruction`) and of the call (`callLedger_isSome_iff`).
-/

set_option linter.unusedSectionVars false

namespace Lasr

/-! ## Holdings -/

/-- What an entry holds and grants. -/
structure Holding where
  balance : ℕ
  ids : List U256
  grants : Grants

namespace Holding

/-- Nothing. -/
def empty : Holding := ⟨0, [], fun _ => none, fun _ => none⟩

/-- Take an amount and ids, if they are there. -/
def take (n : ℕ) (ids : List U256) (h : Holding) : Option Holding :=
  if n ≤ h.balance ∧ ∀ id ∈ ids, id ∈ h.ids then
    some ⟨h.balance - n, h.ids.filter fun id => !ids.contains id, h.grants⟩
  else none

/-- Add an amount and ids, if the balance can take it, and update the grants. -/
def add (n : ℕ) (ids : List U256) (updates : List TokenUpdateField) (h : Holding) :
    Option Holding :=
  if h.balance + n < 2 ^ 256 then
    (grantUpdates h.grants updates).toOption.map fun g => ⟨h.balance + n, h.ids ++ ids, g⟩
  else none

end Holding

/-- What one instruction does to one entry. -/
inductive Effect where
  | take (amount : ℕ) (ids : List U256)
  | add (amount : ℕ) (ids : List U256) (updates : List TokenUpdateField)
  /-- A transfer between an account and itself : both sides start from the same entry, and
  the receiver's stays. -/
  | takeAdd (amount : ℕ) (ids : List U256)

/-- The entry after an effect. A missing entry can be added to. -/
def Effect.step : Effect → Option Holding → Option Holding
  | .take n ids, o => o.bind (Holding.take n ids)
  | .add n ids updates, o => (o.getD .empty).add n ids updates
  | .takeAdd n ids, o => o.bind fun h => (h.take n ids).bind fun _ => h.add n ids []

theorem Effect.step_takeAdd (n : ℕ) (ids : List U256) (o : Option Holding) :
    (takeAdd n ids).step o = ((take n ids).step o).bind fun _ => (add n ids []).step o := by
  cases o <;> rfl

/-- The entry after the effects of a list. -/
def cellRun : List Effect → Option Holding → Option (Option Holding)
  | [], o => some o
  | e :: es, o => (e.step o).bind fun h => cellRun es (some h)

theorem cellRun_append : ∀ (es es' : List Effect) (o : Option Holding),
    cellRun (es ++ es') o = (cellRun es o).bind (cellRun es')
  | [], _, _ => rfl
  | e :: es, es', o => by
    rw [List.cons_append, cellRun, cellRun, Option.bind_assoc]
    exact congrArg _ (funext fun h => cellRun_append es es' (some h))

theorem cellRun_singleton (e : Effect) (o : Option Holding) :
    cellRun [e] o = (e.step o).map some := by
  cases h : e.step o <;> simp [cellRun, h]

/-- The holding of a token. -/
def Token.holding (t : Token) : Holding :=
  ⟨t.balance.toNat, t.tokenIds, t.grants⟩

/-- The holding of an account for a token, if it has an entry. -/
def Account.holdingOf (a : Account) (k : Address) : Option Holding :=
  (a.programs k).map Token.holding

/-- The holding at an address. -/
def AccountMap.holdingAt (v : AccountMap) (x k : Address) : Option Holding :=
  (v x).bind fun a => a.holdingOf k

/-! ## Edits as effects -/

section Tokens

variable {amount : Option U256} {ids : List U256}

theorem Token.debit_isOk {t : Token} {amt : U256} (h : amt.toNat ≤ t.balance.toNat) :
    ∃ t', t.debit amt = .ok t' ∧ t'.tokenIds = t.tokenIds := by
  have hle : amt ≤ t.balance := BitVec.le_def.2 h
  have hnot : ¬amt > t.balance := by
    rw [gt_iff_lt, BitVec.lt_def]
    omega
  refine ⟨{ t with balance := t.balance - amt }, ?_, rfl⟩
  simp [debit, hnot, U256.sub, hle, bind, Except.bind, pure, Except.pure]

/-- What is there can be given. -/
theorem Token.give_isOk {t : Token} (hamount : amountOf amount ≤ t.balance.toNat)
    (hids : ∀ id ∈ ids, id ∈ t.tokenIds) : ∃ t', t.give amount ids = .ok t' := by
  have hrest : ∀ u : Token, u.tokenIds = t.tokenIds →
      ∃ t', (if ids.isEmpty then pure u else u.removeTokenIds ids) = .ok t' := by
    intro u hsame
    split_ifs
    · exact ⟨u, rfl⟩
    · exact ⟨_, Token.removeTokenIds_ok_iff.2 ⟨by rw [hsame]; exact hids, rfl⟩⟩
  cases amount with
  | none => exact hrest t rfl
  | some amt =>
    obtain ⟨u, hu, hsame⟩ := Token.debit_isOk hamount
    obtain ⟨t', ht'⟩ := hrest u hsame
    exact ⟨t', Except.bind_eq_ok_iff.2 ⟨u, hu, ht'⟩⟩

theorem Token.give_toOption (t : Token) :
    (t.give amount ids).toOption.map Token.holding = t.holding.take (amountOf amount) ids := by
  unfold Holding.take
  cases hgive : t.give amount ids with
  | ok t' =>
    obtain ⟨hids, hleft⟩ := Token.give_ids hgive
    have hbal := (Token.give_ok hgive).1
    have heq := Token.give_eq hgive
    rw [if_pos ⟨by simp only [holding]; omega, hids⟩]
    have hgrants : t'.grants = t.grants := by
      rw [heq]
      rfl
    simp only [Except.toOption, Option.map_some, Option.some.injEq, holding, Holding.mk.injEq,
      hleft, hgrants, and_true]
    omega
  | error e =>
    rw [if_neg]
    · rfl
    · rintro ⟨hamount, hids⟩
      obtain ⟨t', ht'⟩ := Token.give_isOk hamount hids
      rw [hgive] at ht'
      cases ht'

/-- What the balance can take can be received. -/
theorem Token.receive_isOk {t : Token} (h : t.balance.toNat + amountOf amount < 2 ^ 256) :
    ∃ t', t.receive amount ids = .ok t' := by
  have hrest : ∀ u : Token,
      ∃ t', (if ids.isEmpty then pure u else u.addTokenIds ids) = .ok t' := by
    intro u
    split_ifs
    · exact ⟨u, rfl⟩
    · exact ⟨_, rfl⟩
  cases amount with
  | none => exact hrest t
  | some amt =>
    have hlt : t.balance.toNat + amt.toNat < 2 ^ 256 := h
    have hu : t.credit amt = .ok { t with balance := t.balance + amt } := by
      simp only [credit, U256.add, if_pos hlt]
      rfl
    obtain ⟨t', ht'⟩ := hrest { t with balance := t.balance + amt }
    exact ⟨t', Except.bind_eq_ok_iff.2 ⟨_, hu, ht'⟩⟩

/-- The credit half of a transfer or a distribution, with the updates of the latter. -/
theorem Token.receive_toOption (t : Token) (updates : List TokenUpdateField) :
    ((t.receive amount ids).toOption.bind fun u => (u.applyUpdates updates).toOption).map
        Token.holding = t.holding.add (amountOf amount) ids updates := by
  unfold Holding.add
  cases hreceive : t.receive amount ids with
  | ok u =>
    have hbal := (Token.receive_ok hreceive).1
    have hids := Token.receive_ids hreceive
    have hgrants := Token.receive_grants hreceive
    have hlt := u.balance.isLt
    rw [if_pos (by simp only [holding]; omega)]
    simp only [Except.toOption, Option.bind_some, holding]
    rw [← hgrants, ← Token.map_grants_applyUpdates]
    cases hupdates : u.applyUpdates updates with
    | error e => rfl
    | ok t' =>
      have hsame := Token.applyUpdates_sameHolding hupdates
      change some t'.holding = some ⟨_, _, t'.grants⟩
      rw [holding, hsame.balance, hsame.tokenIds, hbal, hids]
  | error e =>
    rw [if_neg]
    · rfl
    · intro hlt
      obtain ⟨t', ht'⟩ : ∃ t', t.receive amount ids = .ok t' := Token.receive_isOk hlt
      rw [hreceive] at ht'
      cases ht'

end Tokens

/-- The entry an edit is about, and what it does to it. -/
def Edit.effect : Edit → Option (Address × Effect)
  | .give k amount ids => some (k, .take (amountOf amount) ids)
  | .receive k amount ids _ => some (k, .add (amountOf amount) ids [])
  | .distribute k amount ids updates _ => some (k, .add (amountOf amount) ids updates)
  | .updateToken k updates _ => some (k, .add 0 [] updates)
  | .updateProgram _ => none
  | .keep => none

section Edits

variable {a : Account} {k : Address}

theorem Account.holdingOf_insertProgram (a : Account) (k k' : Address) (t : Token) :
    (a.insertProgram k t).holdingOf k' = if k' = k then some t.holding else a.holdingOf k' := by
  unfold holdingOf
  rw [programs_insertProgram]
  split_ifs <;> rfl

/-- The entry an account method computes, put back. -/
theorem holdingOf_put {x : Option Token} :
    (x.map (a.insertProgram k)).map (fun a' => a'.holdingOf k) =
      (x.map Token.holding).map some := by
  cases x with
  | none => rfl
  | some t => simp [Account.holdingOf_insertProgram]

/-- The entry an edit starts from, as a holding. -/
theorem Account.Starts.holding {owner : Address} {t : Token} (h : a.Starts k owner t) :
    (a.holdingOf k).getD .empty = t.holding := by
  rcases h with ht | ⟨hn, metadata, data, rfl⟩
  · simp [Account.holdingOf, ht]
  · simp only [Account.holdingOf, hn]
    rfl

/-- On the entry it is about, an edit is its effect. -/
theorem Edit.apply_holding {e : Edit} {f : Effect} (h : e.effect = some (k, f)) (a : Account) :
    (e.apply a).map (fun a' => a'.holdingOf k) = (f.step (a.holdingOf k)).map some := by
  cases e with
  | give k amount ids =>
    cases h
    rw [Edit.give_eq]
    cases ht : a.programs k with
    | none => simp [Account.holdingOf, ht, Effect.step]
    | some t =>
      rw [Option.bind_some, holdingOf_put, Token.give_toOption]
      simp [Account.holdingOf, ht, Effect.step]
  | receive k amount ids programAccount =>
    cases h
    obtain ⟨t, hs, heq⟩ := Edit.receive_eq (k := k) a programAccount
    rw [heq, holdingOf_put, Effect.step, hs.holding, ← Token.receive_toOption]
    cases t.receive amount ids <;> rfl
  | distribute k amount ids updates programAccount =>
    cases h
    obtain ⟨t, hs, heq⟩ := Edit.distribute_eq (k := k) a programAccount
    rw [heq, holdingOf_put, Effect.step, hs.holding, ← Token.receive_toOption]
  | updateToken k updates programAccount =>
    cases h
    obtain ⟨t, hs, heq⟩ := Edit.updateToken_eq (k := k) a programAccount
    have hnone : t.receive none [] = .ok t := rfl
    have hadd : ((t.receive none []).toOption.bind fun u => (u.applyUpdates updates).toOption).map
        Token.holding = t.holding.add (amountOf none) [] updates := Token.receive_toOption t updates
    rw [hnone] at hadd
    rw [heq, holdingOf_put, Effect.step, hs.holding]
    exact congrArg _ hadd
  | updateProgram update => cases h
  | keep => cases h

/-- Every other entry stays. -/
theorem Edit.apply_holding_of_ne {e : Edit} {a' : Account} (h : e.apply a = some a')
    (hk : ∀ f, e.effect ≠ some (k, f)) : a'.holdingOf k = a.holdingOf k := by
  have hp := Edit.apply_programs h
  have hne : e.token ≠ some k := by
    intro htoken
    cases e <;> cases htoken <;> exact hk _ rfl
  split at hp
  · next k' htoken =>
    obtain ⟨t', rfl⟩ := hp
    rw [Account.holdingOf_insertProgram, if_neg]
    rintro rfl
    exact hne htoken
  · rw [Account.holdingOf, Account.holdingOf, hp.2]

end Edits

/-! ## Moves as effects -/

/-- The accounts `v`, some instructions later : each is still there with its type, and those
that are new are users. -/
structure Descends (v s : AccountMap) : Prop where
  stays : ∀ x a, v x = some a → ∃ b, s x = some b ∧ b.accountType = a.accountType
  new : ∀ x b, v x = none → s x = some b → b.accountType = .user

/-- A computation on the accounts `s` gets through exactly when `P` holds and these effects get
through in every entry, and then leaves in every entry what they leave. -/
def Goes (v : AccountMap) (P : Prop) (effects : Address → Address → List Effect) (s : AccountMap) :
    Option AccountMap → Prop
  | some s' => P ∧ Descends v s' ∧
      ∀ x k, cellRun (effects x k) (s.holdingAt x k) = some (s'.holdingAt x k)
  | none => ¬(P ∧ ∀ x k, (cellRun (effects x k) (s.holdingAt x k)).isSome)

section Goes

variable {tx : Transaction} {v s : AccountMap} {P P' : Prop}
  {eff eff' : Address → Address → List Effect}

theorem Descends.refl (v : AccountMap) : Descends v v :=
  ⟨fun _ a ha => ⟨a, ha, rfl⟩, fun _ b hn hb => absurd (hn.symm.trans hb) (by simp)⟩

theorem goes_nil (h : Descends v s) : Goes v True (fun _ _ => []) s (some s) :=
  ⟨trivial, h, fun _ _ => rfl⟩

theorem goes_of_not (h : ¬P) : Goes v P eff s none :=
  fun hp => h hp.1

theorem Goes.congr {o : Option AccountMap} (h : Goes v P eff s o) (hP : P ↔ P')
    (heff : ∀ x k, eff' x k = eff x k) : Goes v P' eff' s o := by
  have heq : eff' = eff := funext fun x => funext fun k => heff x k
  rw [heq]
  cases o with
  | none => exact fun hp => h ⟨hP.2 hp.1, hp.2⟩
  | some s' => exact ⟨hP.1 h.1, h.2⟩

/-- One computation after another. -/
theorem Goes.bind {o : Option AccountMap} {f : AccountMap → Option AccountMap}
    (h : Goes v P eff s o) (h' : ∀ s', Descends v s' → Goes v P' eff' s' (f s')) :
    Goes v (P ∧ P') (fun x k => eff x k ++ eff' x k) s (o.bind f) := by
  cases o with
  | none =>
    rintro ⟨hp, hcells⟩
    refine h ⟨hp.1, fun x k => ?_⟩
    have hcell := hcells x k
    rw [cellRun_append] at hcell
    exact Option.isSome_of_isSome_bind hcell
  | some s' =>
    obtain ⟨hp, hd, hcells⟩ := h
    have happ : ∀ x k, cellRun (eff x k ++ eff' x k) (s.holdingAt x k) =
        cellRun (eff' x k) (s'.holdingAt x k) := fun x k => by
      rw [cellRun_append, hcells, Option.bind_some]
    have hrest := h' s' hd
    rw [Option.bind_some]
    cases hf : f s' with
    | none =>
      rw [hf] at hrest
      rintro ⟨hp', hcells'⟩
      exact hrest ⟨hp'.2, fun x k => by rw [← happ]; exact hcells' x k⟩
    | some s'' =>
      rw [hf] at hrest
      obtain ⟨hp', hd', hcells'⟩ := hrest
      exact ⟨⟨hp, hp'⟩, hd', fun x k => by rw [happ]; exact hcells' x k⟩

theorem holdingAt_update (s : AccountMap) (x y k : Address) (a : Account) :
    AccountMap.holdingAt (Function.update s y (some a)) x k =
      if x = y then a.holdingOf k else s.holdingAt x k := by
  unfold AccountMap.holdingAt
  split_ifs with h
  · simp [h]
  · simp [h]

/-- The account built for a change is a user's, but for the called program's. -/
theorem Instruction.Plans.fresh_user {i : Instruction} {c : AccountChange} {a : Account}
    (h : i.Plans tx v c) (ha : c.fresh = some a) (hkey : c.key ≠ tx.to) :
    a.accountType = .user := by
  have hnew : ∀ ref : AddressOrNamespace, ref.newAccount = some a → a.accountType = .user := by
    intro ref href
    cases ref <;> cases href
    rfl
  cases h with
  | give hx => cases ha
  | receive hy hp => exact hnew _ ha
  | burn hx => cases ha
  | @distribute i d programId y programAccount hd hid hy hp =>
    cases hto : d.to with
    | this =>
      rw [hto] at hy
      cases hy
      exact absurd rfl hkey
    | address b =>
      simp only [hto, AddressOrNamespace.newReceiver] at ha
      exact hnew _ ha
    | «namespace» n =>
      simp only [hto, AddressOrNamespace.newReceiver] at ha
      exact hnew _ ha
  | keep => exact absurd rfl hkey
  | updateToken hu hid hx hp => exact hnew _ ha
  | updateProgram hu hx => exact hnew _ ha

/-- What a change starts from, and the account it leaves. -/
theorem Instruction.Plans.descends {i : Instruction} {c : AccountChange} {a' : Account}
    (h : i.Plans tx v c) (hto : (v tx.to).isSome) (hd : Descends v s)
    (hstep : c.step Edit.apply (s c.key) = some a') :
    Descends v (Function.update s c.key (some a')) := by
  obtain ⟨a, ha, happ⟩ := Change.step_eq_some.1 hstep
  have htype := (Edit.apply_sameHeader happ).accountType
  refine ⟨fun x b hb => ?_, fun x b hn hb => ?_⟩
  · by_cases hx : x = c.key
    · subst hx
      obtain ⟨u, hu, hut⟩ := hd.stays _ b hb
      rcases ha with ha | ⟨ha, -⟩
      · cases hu.symm.trans ha
        exact ⟨a', by simp, htype.trans hut⟩
      · rw [hu] at ha
        cases ha
    · obtain ⟨u, hu, hut⟩ := hd.stays x b hb
      exact ⟨u, by simpa [hx] using hu, hut⟩
  · by_cases hx : x = c.key
    · subst hx
      have hb' : a' = b := by simpa using hb
      rw [← hb', htype]
      rcases ha with ha | ⟨ha, hfresh⟩
      · exact hd.new _ a hn ha
      · exact h.fresh_user hfresh fun hkey => by
          rw [hkey] at hn
          simp [hn] at hto
    · exact hd.new x b hn (by simpa [hx] using hb)

/-- Only what takes, or the called account, has nothing built for it. -/
theorem Instruction.Plans.fresh_none {i : Instruction} {c : AccountChange} (h : i.Plans tx v c)
    (hnone : c.fresh = none) {k : Address} {f : Effect} (he : c.edit.effect = some (k, f)) :
    c.key = tx.to ∨ ∃ n ids, f = .take n ids := by
  have hnew : ∀ {ref : AddressOrNamespace} {x : Address}, ref.resolve tx = some x →
      ref.newAccount = none → x = tx.to := by
    intro ref x hx href
    cases ref <;> cases href <;> cases hx
    rfl
  cases h with
  | give hx =>
    cases he
    exact Or.inr ⟨_, _, rfl⟩
  | receive hy hp => exact Or.inl (hnew hy hnone)
  | burn hx =>
    cases he
    exact Or.inr ⟨_, _, rfl⟩
  | @distribute i d programId y programAccount hd hid hy hp =>
    cases hto : d.to with
    | this =>
      rw [hto] at hy
      exact Or.inl (Option.some.inj hy).symm
    | address b =>
      simp [hto, AddressOrNamespace.newReceiver, AddressOrNamespace.newAccount] at hnone
    | «namespace» n =>
      rw [hto] at hy
      cases hy
  | keep => cases hnone
  | updateToken hu hid hx hp => exact Or.inl (hnew hx hnone)
  | updateProgram hu hx => cases he

/-- On the entry it is about, a change is its effect. -/
theorem Instruction.Plans.step_holding {i : Instruction} {c : AccountChange} (h : i.Plans tx v c)
    (hto : (v tx.to).isSome) (hd : Descends v s) {k : Address} {f : Effect}
    (he : c.edit.effect = some (k, f)) :
    (c.step Edit.apply (s c.key)).map (fun a' => a'.holdingOf k) =
      (f.step (s.holdingAt c.key k)).map some := by
  unfold Change.step AccountMap.holdingAt
  cases hs : s c.key with
  | some a => exact Edit.apply_holding he a
  | none =>
    cases hf : c.fresh with
    | some a =>
      have hnone : a.holdingOf k = none := by simp [Account.holdingOf, h.fresh_programs hf]
      have happ := Edit.apply_holding he a
      rw [hnone] at happ
      exact happ
    | none =>
      rcases h.fresh_none hf he with hkey | ⟨n, ids, rfl⟩
      · obtain ⟨program, hprogram⟩ := Option.isSome_iff_exists.1 hto
        obtain ⟨b, hb, -⟩ := hd.stays _ program hprogram
        rw [hkey, hb] at hs
        cases hs
      · rfl

/-- An effect in one entry. -/
def effectAt (x k : Address) (f : Effect) (x' k' : Address) : List Effect :=
  if x' = x ∧ k' = k then [f] else []

/-- What a change leaves in every entry. -/
theorem Instruction.Plans.step_cells {i : Instruction} {c : AccountChange} {a' : Account}
    (h : i.Plans tx v c) (hto : (v tx.to).isSome) (hd : Descends v s) {k : Address} {f : Effect}
    (he : c.edit.effect = some (k, f)) (hstep : c.step Edit.apply (s c.key) = some a')
    (x k' : Address) :
    cellRun (effectAt c.key k f x k') (s.holdingAt x k') =
      some (AccountMap.holdingAt (Function.update s c.key (some a')) x k') := by
  have hhold := h.step_holding hto hd he
  rw [hstep, Option.map_some] at hhold
  rw [holdingAt_update, effectAt]
  by_cases hx : x = c.key
  · subst hx
    by_cases hk : k' = k
    · subst hk
      rw [if_pos ⟨rfl, rfl⟩, if_pos rfl, cellRun_singleton, ← hhold]
    · rw [if_neg (fun h => hk h.2), if_pos rfl]
      obtain ⟨a, ha, happ⟩ := Change.step_eq_some.1 hstep
      have hother := Edit.apply_holding_of_ne (k := k') happ fun g hg => by
        rw [he] at hg
        cases hg
        exact hk rfl
      rw [hother]
      rcases ha with ha | ⟨ha, hfresh⟩
      · simp [cellRun, AccountMap.holdingAt, ha]
      · simp [cellRun, AccountMap.holdingAt, ha, Account.holdingOf, h.fresh_programs hfresh]
  · rw [if_neg (fun h => hx h.1), if_neg hx]
    rfl

/-- A change goes as its effect. -/
theorem goes_one {i : Instruction} {c : AccountChange} (h : i.Plans tx v c)
    (hto : (v tx.to).isSome) (hd : Descends v s) {k : Address} {f : Effect}
    (he : c.edit.effect = some (k, f)) :
    Goes v True (effectAt c.key k f) s (runMoves Edit.apply [.one c] s) := by
  rw [runMoves_one_cons]
  cases hstep : c.step Edit.apply (s c.key) with
  | some a' =>
    exact ⟨trivial, h.descends hto hd hstep, h.step_cells hto hd he hstep⟩
  | none =>
    rintro ⟨-, hcells⟩
    have hcell := hcells c.key k
    have hhold := h.step_holding hto hd he
    rw [hstep] at hhold
    rw [effectAt, if_pos ⟨rfl, rfl⟩, cellRun_singleton, ← hhold] at hcell
    cases hcell

/-- A transfer of an account to itself goes as the credit, if the debit would go too. -/
theorem goes_self {i : TransferInstruction} {x : Address} {programAccount : Option Account}
    (hx : i.from.resolve tx = some x) (hy : i.to.resolve tx = some x)
    (hp : tokenProgram v i.token = some programAccount) (hto : (v tx.to).isSome)
    (hd : Descends v s) :
    Goes v True (effectAt x i.token (.takeAdd (amountOf i.amount) i.ids)) s
      (runMoves Edit.apply [.pair ⟨x, none, .give i.token i.amount i.ids⟩
        ⟨x, i.to.newAccount, .receive i.token i.amount i.ids programAccount⟩] s) := by
  have hgive := Instruction.Plans.give (v := v) hx
  have hreceive := Instruction.Plans.receive hy hp
  have htake := hgive.step_holding hto hd rfl
  have hadd := hreceive.step_holding hto hd rfl
  rw [runMoves, Move.run]
  simp only at htake hadd ⊢
  cases hc : Change.step Edit.apply ⟨x, none, .give i.token i.amount i.ids⟩ (s x) with
  | none =>
    rintro ⟨-, hcells⟩
    have hcell := hcells x i.token
    rw [hc, Option.map_none, eq_comm, Option.map_eq_none_iff] at htake
    rw [effectAt, if_pos ⟨rfl, rfl⟩, cellRun_singleton, Effect.step_takeAdd, htake] at hcell
    cases hcell
  | some a =>
    rw [hc] at htake
    obtain ⟨h, hh, -⟩ := Option.map_eq_some_iff.1 htake.symm
    cases hb : Change.step Edit.apply ⟨x, i.to.newAccount,
      .receive i.token i.amount i.ids programAccount⟩ (s x) with
    | none =>
      rintro ⟨-, hcells⟩
      have hcell := hcells x i.token
      rw [hb, Option.map_none, eq_comm, Option.map_eq_none_iff] at hadd
      rw [effectAt, if_pos ⟨rfl, rfl⟩, cellRun_singleton, Effect.step_takeAdd, hh,
        Option.bind_some, hadd] at hcell
      cases hcell
    | some b =>
      have hsame : Function.update (Function.update s x (some a)) x (some b) =
          Function.update s x (some b) := Function.update_idem ..
      simp only [Option.bind_some, Option.map_some, runMoves, hsame]
      refine ⟨trivial, hreceive.descends hto hd hb, fun x' k => ?_⟩
      have hcell := hreceive.step_cells hto hd rfl hb x' k
      rw [← hcell, effectAt, effectAt]
      split_ifs with hxk
      · rw [hxk.1, hxk.2, cellRun_singleton, cellRun_singleton, Effect.step_takeAdd, hh,
          Option.bind_some]
      · rfl

end Goes

/-! ## Instructions as effects -/

/-- What a transfer does to an entry. -/
def TransferInstruction.effects (tx : Transaction) (i : TransferInstruction) (x k : Address) :
    List Effect :=
  if i.token = k then
    if i.from.resolve tx = some x then
      if i.to.resolve tx = some x then [.takeAdd (amountOf i.amount) i.ids]
      else [.take (amountOf i.amount) i.ids]
    else if i.to.resolve tx = some x then [.add (amountOf i.amount) i.ids []] else []
  else []

/-- What a burn does to an entry. -/
def BurnInstruction.effects (tx : Transaction) (i : BurnInstruction) (x k : Address) :
    List Effect :=
  if i.from.resolve tx = some x ∧ i.token = k then [.take (amountOf i.amount) i.tokenIds] else []

/-- What a distribution does to an entry. -/
def TokenDistribution.effects (tx : Transaction) (d : TokenDistribution) (x k : Address) :
    List Effect :=
  if d.to.resolve tx = some x ∧ d.programId.resolve tx = some k then
    [.add (amountOf d.amount) d.tokenIds d.updateFields]
  else []

/-- What an update does to an entry. -/
def TokenOrProgramUpdate.effects (tx : Transaction) (u : TokenOrProgramUpdate) (x k : Address) :
    List Effect :=
  match u with
  | .tokenUpdate u =>
    if u.account.resolve tx = some x ∧ u.token.resolve tx = some k then [.add 0 [] u.updates]
    else []
  | .programUpdate _ => []

/-- What an instruction does to an entry. -/
def Instruction.effects (tx : Transaction) (i : Instruction) (x k : Address) : List Effect :=
  match i with
  | .transfer i => i.effects tx x k
  | .burn i => i.effects tx x k
  | .create i => i.distribution.flatMap fun d => d.effects tx x k
  | .update i => i.updates.flatMap fun u => u.effects tx x k
  | .log _ => []

/-- A distribution names two addresses, the second of a program that exists. -/
def TokenDistribution.Resolved (tx : Transaction) (v : AccountMap) (d : TokenDistribution) : Prop :=
  (d.to.resolve tx).isSome ∧ ∃ program, d.programId.resolve tx = some program ∧ (v program).isSome

/-- An update of a token names two addresses, the second of a program that exists; an update
of a program names the account of a program. -/
def TokenOrProgramUpdate.Resolved (tx : Transaction) (v : AccountMap) :
    TokenOrProgramUpdate → Prop
  | .tokenUpdate u => (u.account.resolve tx).isSome ∧
      ∃ program, u.token.resolve tx = some program ∧ (v program).isSome
  | .programUpdate u => ∃ x a programAddress, u.account.resolve tx = some x ∧ v x = some a ∧
      a.accountType = .program programAddress

/-- The accounts an instruction needs are found. A transferred token is ETH or VERSE, or the
account of its program exists. -/
def Instruction.Resolved (tx : Transaction) (v : AccountMap) : Instruction → Prop
  | .transfer i => (i.from.resolve tx).isSome ∧ (i.to.resolve tx).isSome ∧
      ((v i.token).isSome ∨ i.token = ETH_ADDR ∨ i.token = VERSE_ADDR)
  | .burn i => (i.from.resolve tx).isSome
  | .create i => ∀ d ∈ i.distribution, d.Resolved tx v
  | .update i => ∀ u ∈ i.updates, u.Resolved tx v
  | .log _ => True

section Instructions

variable {tx : Transaction} {v s : AccountMap}

/-- A transfer of an account to itself has one effect. -/
theorem TransferInstruction.effects_self {i : TransferInstruction} {x : Address}
    (hx : i.from.resolve tx = some x) (hy : i.to.resolve tx = some x) (x' k : Address) :
    i.effects tx x' k = effectAt x i.token (.takeAdd (amountOf i.amount) i.ids) x' k := by
  unfold effects effectAt
  rw [hx, hy]
  by_cases hx' : x' = x
  · subst hx'
    by_cases hk : k = i.token
    · simp [hk]
    · simp [hk, Ne.symm hk]
  · simp [hx', Ne.symm hx']

/-- A transfer between two accounts takes from one and adds to the other. -/
theorem TransferInstruction.effects_of_ne {i : TransferInstruction} {x y : Address}
    (hx : i.from.resolve tx = some x) (hy : i.to.resolve tx = some y) (hxy : y ≠ x)
    (x' k : Address) :
    i.effects tx x' k = effectAt x i.token (.take (amountOf i.amount) i.ids) x' k ++
      effectAt y i.token (.add (amountOf i.amount) i.ids []) x' k := by
  unfold effects effectAt
  rw [hx, hy]
  by_cases hk : k = i.token
  · subst hk
    by_cases hx' : x' = x
    · subst hx'
      simp [hxy, Ne.symm hxy]
    · by_cases hy' : x' = y
      · subst hy'
        simp [hx', Ne.symm hx']
      · simp [hx', Ne.symm hx', hy', Ne.symm hy']
  · simp [hk, Ne.symm hk]

theorem BurnInstruction.effects_eq {i : BurnInstruction} {x : Address}
    (hx : i.from.resolve tx = some x) (x' k : Address) :
    i.effects tx x' k = effectAt x i.token (.take (amountOf i.amount) i.tokenIds) x' k := by
  unfold effects effectAt
  rw [hx]
  simp only [Option.some.injEq, eq_comm (a := x), eq_comm (a := i.token)]

theorem TokenDistribution.effects_eq {d : TokenDistribution} {y programId : Address}
    (hy : d.to.resolve tx = some y) (hid : d.programId.resolve tx = some programId)
    (x' k : Address) :
    d.effects tx x' k =
      effectAt y programId (.add (amountOf d.amount) d.tokenIds d.updateFields) x' k := by
  unfold effects effectAt
  rw [hy, hid]
  simp only [Option.some.injEq, eq_comm (a := y), eq_comm (a := programId)]

theorem TokenUpdate.effects_eq {u : TokenUpdate} {x programId : Address}
    (hx : u.account.resolve tx = some x) (hid : u.token.resolve tx = some programId)
    (x' k : Address) :
    (TokenOrProgramUpdate.tokenUpdate u).effects tx x' k =
      effectAt x programId (.add 0 [] u.updates) x' k := by
  simp only [TokenOrProgramUpdate.effects, effectAt, hx, hid, Option.some.injEq,
    eq_comm (a := x), eq_comm (a := programId)]

theorem goes_transfer (hto : (v tx.to).isSome) (hd : Descends v s) (i : TransferInstruction) :
    Goes v ((Instruction.transfer i).Resolved tx v) (i.effects tx) s
      (((Instruction.transfer i).plan tx v).bind fun ms => runMoves Edit.apply ms s) := by
  simp only [Instruction.plan, Option.bind_map]
  cases hplan : i.plan tx v with
  | none =>
    refine goes_of_not fun hr => ?_
    obtain ⟨hx, hy, hp⟩ := hr
    obtain ⟨x, hx⟩ := Option.isSome_iff_exists.1 hx
    obtain ⟨y, hy⟩ := Option.isSome_iff_exists.1 hy
    have htoken : (tokenProgram v i.token).isSome := by
      unfold tokenProgram
      cases hv : v i.token with
      | some a => rfl
      | none =>
        rw [hv] at hp
        rw [if_pos (hp.resolve_left (by simp))]
        rfl
    obtain ⟨programAccount, hp⟩ := Option.isSome_iff_exists.1 htoken
    simp [TransferInstruction.plan, hx, hy, hp] at hplan
  | some m =>
    obtain ⟨x, y, programAccount, hx, hy, hp, rfl⟩ := TransferInstruction.plan_eq_some hplan
    have hres : (Instruction.transfer i).Resolved tx v := by
      refine ⟨by simp [hx], by simp [hy], ?_⟩
      unfold tokenProgram at hp
      cases hv : v i.token with
      | some a => exact Or.inl rfl
      | none =>
        simp only [hv, Option.ite_none_right_eq_some] at hp
        exact Or.inr hp.1
    simp only [Option.bind_some, Function.comp]
    by_cases hxy : y = x
    · subst hxy
      exact (goes_self hx hy hp hto hd).congr (iff_of_true trivial hres)
        (TransferInstruction.effects_self hx hy)
    · rw [runMoves_pair_of_ne hxy]
      exact ((goes_one (Instruction.Plans.give hx) hto hd rfl).bind fun s' hd' =>
        goes_one (Instruction.Plans.receive hy hp) hto hd' rfl).congr
          (iff_of_true ⟨trivial, trivial⟩ hres) (TransferInstruction.effects_of_ne hx hy hxy)

theorem goes_burn (hto : (v tx.to).isSome) (hd : Descends v s) (i : BurnInstruction) :
    Goes v ((Instruction.burn i).Resolved tx v) (i.effects tx) s
      (((Instruction.burn i).plan tx v).bind fun ms => runMoves Edit.apply ms s) := by
  simp only [Instruction.plan, Option.bind_map, BurnInstruction.change]
  cases hx : i.from.resolve tx with
  | none => exact goes_of_not fun hr => by simp [Instruction.Resolved, hx] at hr
  | some x =>
    exact (goes_one (Instruction.Plans.burn hx) hto hd rfl).congr
      (iff_of_true trivial (by simp [Instruction.Resolved, hx])) (BurnInstruction.effects_eq hx)

theorem goes_distribution {i : CreateInstruction} {d : TokenDistribution}
    (hmem : d ∈ i.distribution) (hto : (v tx.to).isSome) (hd : Descends v s) :
    Goes v (d.Resolved tx v) (d.effects tx) s
      ((d.change tx v).bind fun c => runMoves Edit.apply [.one c] s) := by
  cases hc : d.change tx v with
  | none =>
    refine goes_of_not ?_
    rintro ⟨hy, programId, hid, hp⟩
    obtain ⟨y, hy⟩ := Option.isSome_iff_exists.1 hy
    obtain ⟨programAccount, hp⟩ := Option.isSome_iff_exists.1 hp
    simp [TokenDistribution.change, hid, hy, hp] at hc
  | some c =>
    have hplans := TokenDistribution.plans hmem hc
    obtain ⟨programId, hid, hc⟩ := Option.bind_eq_some_iff.1 hc
    obtain ⟨y, hy, hc⟩ := Option.bind_eq_some_iff.1 hc
    obtain ⟨programAccount, hp, hc⟩ := Option.bind_eq_some_iff.1 hc
    cases hc
    exact (goes_one hplans hto hd rfl).congr
      (iff_of_true trivial ⟨by simp [hy], programId, hid, by simp [hp]⟩)
      (TokenDistribution.effects_eq hy hid)

theorem Edit.updateProgram_isSome {a : Account} {u : ProgramUpdate} {programAddress : Address}
    (h : a.accountType = .program programAddress) :
    ∃ a', (Edit.updateProgram u).apply a = some a' := by
  simp only [Edit.apply, Account.applyProgramUpdate, h]
  exact ⟨_, rfl⟩

/-- An update of a program changes no entry. It goes when the account is a program's. -/
theorem goes_programUpdate {i : UpdateInstruction} {u : ProgramUpdate} {x : Address}
    (hmem : .programUpdate u ∈ i.updates) (hx : u.account.resolve tx = some x)
    (hto : (v tx.to).isSome) (hd : Descends v s) :
    Goes v ((TokenOrProgramUpdate.programUpdate u).Resolved tx v) (fun _ _ => []) s
      (runMoves Edit.apply [.one ⟨x, u.account.newAccount, .updateProgram u⟩] s) := by
  have hplans : (Instruction.update i).Plans tx v ⟨x, u.account.newAccount, .updateProgram u⟩ :=
    .updateProgram hmem hx
  rw [runMoves_one_cons]
  cases hstep : Change.step Edit.apply ⟨x, u.account.newAccount, .updateProgram u⟩ (s x) with
  | none =>
    rintro ⟨⟨y, a, programAddress, hy, ha, htype⟩, -⟩
    cases hx.symm.trans hy
    obtain ⟨b, hb, hbt⟩ := hd.stays _ a ha
    obtain ⟨b', hb'⟩ := Edit.updateProgram_isSome (u := u) (hbt.trans htype)
    rw [Change.step_eq_some.2 ⟨b, Or.inl hb, hb'⟩] at hstep
    cases hstep
  | some a' =>
    obtain ⟨a, ha, happ⟩ := Change.step_eq_some.1 hstep
    obtain ⟨⟨programAddress, htype⟩, -, hprograms⟩ := Edit.updateProgram_apply happ
    have hfound : ∃ b, v x = some b ∧ s x = some a ∧ a.accountType = b.accountType := by
      cases hv : v x with
      | some b =>
        obtain ⟨c, hc, hct⟩ := hd.stays x b hv
        rcases ha with ha | ⟨ha, -⟩
        · cases hc.symm.trans ha
          exact ⟨b, rfl, ha, hct⟩
        · rw [hc] at ha
          cases ha
      | none =>
        -- A new account is a user's.
        have huser : a.accountType = .user := by
          rcases ha with ha | ⟨-, hfresh⟩
          · exact hd.new x a hv ha
          · refine hplans.fresh_user hfresh fun hkey => ?_
            rw [show x = tx.to from hkey] at hv
            simp [hv] at hto
        rw [huser] at htype
        cases htype
    obtain ⟨b, hv, hs, hab⟩ := hfound
    refine ⟨⟨x, b, programAddress, hx, hv, hab ▸ htype⟩, hplans.descends hto hd hstep,
      fun x' k => ?_⟩
    rw [holdingAt_update]
    split_ifs with hx'
    · rw [hx', cellRun, AccountMap.holdingAt, hs, Option.bind_some, Account.holdingOf,
        Account.holdingOf, hprograms]
    · rfl

theorem goes_update {i : UpdateInstruction} {u : TokenOrProgramUpdate} (hmem : u ∈ i.updates)
    (hto : (v tx.to).isSome) (hd : Descends v s) :
    Goes v (u.Resolved tx v) (u.effects tx) s
      ((u.change tx v).bind fun c => runMoves Edit.apply [.one c] s) := by
  cases u with
  | tokenUpdate u =>
    cases hc : (TokenOrProgramUpdate.tokenUpdate u).change tx v with
    | none =>
      refine goes_of_not ?_
      rintro ⟨hx, programId, hid, hp⟩
      obtain ⟨x, hx⟩ := Option.isSome_iff_exists.1 hx
      obtain ⟨programAccount, hp⟩ := Option.isSome_iff_exists.1 hp
      simp [TokenOrProgramUpdate.change, hid, hx, hp] at hc
    | some c =>
      have hplans := TokenOrProgramUpdate.plans hmem hc
      obtain ⟨programId, hid, hc⟩ := Option.bind_eq_some_iff.1 hc
      obtain ⟨x, hx, hc⟩ := Option.bind_eq_some_iff.1 hc
      obtain ⟨programAccount, hp, hc⟩ := Option.bind_eq_some_iff.1 hc
      cases hc
      exact (goes_one hplans hto hd rfl).congr
        (iff_of_true trivial ⟨by simp [hx], programId, hid, by simp [hp]⟩)
        (TokenUpdate.effects_eq hx hid)
  | programUpdate u =>
    simp only [TokenOrProgramUpdate.change, Option.bind_eq_bind, Option.bind_assoc]
    cases hx : u.account.resolve tx with
    | none =>
      refine goes_of_not ?_
      rintro ⟨x, a, programAddress, hx', -⟩
      rw [hx] at hx'
      cases hx'
    | some x => exact goes_programUpdate hmem hx hto hd

/-- A list of single changes, one after another. -/
theorem runChanges_cons {α : Type} (change : α → Option AccountChange) (a : α) (l : List α)
    (s : AccountMap) :
    (((a :: l).mapM change).bind fun cs => runMoves Edit.apply (cs.map .one) s) =
      ((change a).bind fun c => runMoves Edit.apply [.one c] s).bind fun s' =>
        (l.mapM change).bind fun cs => runMoves Edit.apply (cs.map .one) s' := by
  rw [List.mapM_cons]
  cases change a with
  | none => rfl
  | some c =>
    cases hl : l.mapM change with
    | none => simp
    | some cs => exact runMoves_append [.one c] (cs.map .one) s

theorem goes_changes {α : Type} {change : α → Option AccountChange} {P : α → Prop}
    {eff : α → Address → Address → List Effect} :
    ∀ {l : List α} {s : AccountMap},
      (∀ a ∈ l, ∀ s, Descends v s → Goes v (P a) (eff a) s
        ((change a).bind fun c => runMoves Edit.apply [.one c] s)) →
      Descends v s → Goes v (∀ a ∈ l, P a) (fun x k => l.flatMap fun a => eff a x k) s
        ((l.mapM change).bind fun cs => runMoves Edit.apply (cs.map .one) s)
  | [], s, _, hd => (goes_nil hd).congr (by simp) (fun _ _ => rfl)
  | a :: l, s, hone, hd => by
    rw [runChanges_cons]
    refine ((hone a (List.mem_cons_self ..) s hd).bind fun s' hd' =>
      goes_changes (fun b hb => hone b (List.mem_cons_of_mem _ hb)) hd').congr
        (by simp) fun x k => List.flatMap_cons ..

/-- The account of the called program is there to be kept. -/
theorem goes_keep (hto : (v tx.to).isSome) (hd : Descends v s) :
    Goes v True (fun _ _ => []) s (runMoves Edit.apply [.one (keepProgram tx)] s) := by
  obtain ⟨program, hprogram⟩ := Option.isSome_iff_exists.1 hto
  obtain ⟨b, hb, -⟩ := hd.stays _ program hprogram
  have hrun : runMoves Edit.apply [.one (keepProgram tx)] s = some s := by
    simp [runMoves, Move.run, Change.step, keepProgram, hb, Edit.apply]
  rw [hrun]
  exact goes_nil hd

/-- A `Create` distributes, and then keeps the called program's account. -/
theorem runPlan_create (tx : Transaction) (w s : AccountMap) (i : CreateInstruction) :
    (((Instruction.create i).plan tx w).bind fun ms => runMoves Edit.apply ms s) =
      ((i.distribution.mapM (TokenDistribution.change tx w)).bind fun cs =>
        runMoves Edit.apply (cs.map .one) s).bind fun s' =>
          runMoves Edit.apply [.one (keepProgram tx)] s' := by
  simp only [Instruction.plan, Option.bind_map]
  cases i.distribution.mapM (TokenDistribution.change tx w) with
  | none => rfl
  | some cs => exact runMoves_append _ _ s

theorem goes_instruction (hto : (v tx.to).isSome) (hd : Descends v s) (i : Instruction) :
    Goes v (i.Resolved tx v) (i.effects tx) s
      ((i.plan tx v).bind fun ms => runMoves Edit.apply ms s) := by
  cases i with
  | transfer i => exact goes_transfer hto hd i
  | burn i => exact goes_burn hto hd i
  | create i =>
    rw [runPlan_create]
    exact ((goes_changes (fun d hmem s hd => goes_distribution hmem hto hd) hd).bind
      fun s' hd' => goes_keep hto hd').congr (by simp [Instruction.Resolved])
        fun x k => (List.append_nil _).symm
  | update i =>
    simp only [Instruction.plan, Option.bind_map]
    exact goes_changes (fun u hmem s hd => goes_update hmem hto hd) hd
  | log i => exact (goes_nil hd).congr (by simp [Instruction.Resolved]) (fun _ _ => rfl)

theorem goes_instructions : ∀ {instructions : List Instruction} {s : AccountMap},
    (v tx.to).isSome → Descends v s →
    Goes v (∀ i ∈ instructions, i.Resolved tx v)
      (fun x k => instructions.flatMap fun i => i.effects tx x k) s
      ((planAll tx v instructions).bind fun ms => runMoves Edit.apply ms s)
  | [], s, _, hd => (goes_nil hd).congr (by simp) (fun _ _ => rfl)
  | i :: rest, s, hto, hd => by
    rw [runPlan_cons]
    exact ((goes_instruction hto hd i).bind fun s' hd' => goes_instructions hto hd').congr
      (by simp) fun x k => List.flatMap_cons ..

end Instructions

/-! ## Calls -/

/-- A call goes through on these accounts : the called account is there and its nonce can grow,
the accounts the instructions need are found, and what they do to an entry, in their order, goes
through from what the entry holds. -/
structure CallFits (v : AccountMap) (tx : Transaction) (outputs : Outputs) : Prop where
  program : ∃ a, v tx.to = some a ∧ a.nonce.toNat + 1 < 2 ^ 256
  resolved : ∀ i ∈ outputs.instructions, i.Resolved tx v
  entries : ∀ x k, (cellRun (outputs.instructions.flatMap fun i => i.effects tx x k)
    (v.holdingAt x k)).isSome

section Call

variable {tx : Transaction} {outputs : Outputs} {v w : AccountMap}

/-- What is found depends on which accounts there are, and of which types. -/
theorem Instruction.resolved_congr
    (h : ∀ x, (v x).map Account.accountType = (w x).map Account.accountType) {i : Instruction}
    (hi : i.Resolved tx v) : i.Resolved tx w := by
  have hsome : ∀ {x}, (v x).isSome → (w x).isSome := fun {x} hv => by
    have := congrArg Option.isSome (h x)
    simpa [hv] using this
  cases i with
  | transfer i => exact ⟨hi.1, hi.2.1, hi.2.2.imp_left hsome⟩
  | burn i => exact hi
  | create i =>
    intro d hd
    obtain ⟨hy, program, hid, hp⟩ := hi d hd
    exact ⟨hy, program, hid, hsome hp⟩
  | update i =>
    intro u hu
    have hr := hi u hu
    cases u with
    | tokenUpdate u =>
      obtain ⟨hx, program, hid, hp⟩ := hr
      exact ⟨hx, program, hid, hsome hp⟩
    | programUpdate u =>
      obtain ⟨x, a, programAddress, hx, ha, htype⟩ := hr
      have hmap := h x
      rw [ha] at hmap
      obtain ⟨b, hb, hbt⟩ := Option.map_eq_some_iff.1 hmap.symm
      exact ⟨x, b, programAddress, hx, hb, hbt.trans htype⟩
  | log i => trivial

/-- With the nonce of the called account advanced, the types and the entries are the same. -/
theorem put_incremented {caller caller' : Account} (hkeyed : ∀ x a, v x = some a → a.address = x)
    (hcaller : v tx.to = some caller) (hinc : caller.incrementNonce = .ok caller') :
    (∀ x, (v.put caller' x).map Account.accountType = (v x).map Account.accountType) ∧
      ∀ x k, (v.put caller').holdingAt x k = v.holdingAt x k := by
  obtain ⟨haddr, htype, -, hprograms⟩ := Account.incrementNonce_keeps hinc
  rw [hkeyed _ _ hcaller] at haddr
  unfold AccountMap.holdingAt
  refine ⟨fun x => ?_, fun x k => ?_⟩
  · rw [AccountMap.put_apply, haddr]
    split_ifs with hx
    · simp [hx, hcaller, htype]
    · rfl
  · rw [AccountMap.put_apply, haddr]
    split_ifs with hx
    · simp [hx, hcaller, Account.holdingOf, hprograms]
    · rfl

/-- The moves of a call go through exactly when its instructions find what they need and their
effects go through in every entry. -/
theorem callMoves_isSome_iff (hkeyed : ∀ x a, v x = some a → a.address = x)
    (hcaller : v tx.to = some caller) (hinc : caller.incrementNonce = .ok caller') :
    ((planAll tx (v.put caller') outputs.instructions).bind fun ms =>
        runMoves Edit.apply ms (v.put caller')).isSome ↔
      (∀ i ∈ outputs.instructions, i.Resolved tx v) ∧
        ∀ x k, (cellRun (outputs.instructions.flatMap fun i => i.effects tx x k)
          (v.holdingAt x k)).isSome := by
  obtain ⟨htypes, hholds⟩ := put_incremented hkeyed hcaller hinc
  have hto : (v.put caller' tx.to).isSome := by
    have := congrArg Option.isSome (htypes tx.to)
    simpa [hcaller] using this
  have hgo : Goes (v.put caller') (∀ i ∈ outputs.instructions, i.Resolved tx v)
      (fun x k => outputs.instructions.flatMap fun i => i.effects tx x k) (v.put caller')
      ((planAll tx (v.put caller') outputs.instructions).bind fun ms =>
        runMoves Edit.apply ms (v.put caller')) :=
    (goes_instructions hto (.refl _)).congr
      (forall₂_congr fun i _ => ⟨Instruction.resolved_congr htypes,
        Instruction.resolved_congr fun x => (htypes x).symm⟩) (fun _ _ => rfl)
  cases hrun : (planAll tx (v.put caller') outputs.instructions).bind fun ms =>
      runMoves Edit.apply ms (v.put caller') with
  | none =>
    rw [hrun] at hgo
    refine iff_of_false (by simp) fun h => hgo ⟨h.1, fun x k => ?_⟩
    rw [hholds]
    exact h.2 x k
  | some v' =>
    rw [hrun] at hgo
    refine iff_of_true rfl ⟨hgo.1, fun x k => ?_⟩
    rw [← hholds, hgo.2.2]
    rfl

/-- A call of a sender that exists goes through exactly when it fits. -/
theorem callLedger_isSome_iff (hkeyed : ∀ x a, v x = some a → a.address = x)
    (hfrom : (v tx.from).isSome) :
    (∃ v', callLedger tx v outputs = some v') ↔ CallFits v tx outputs := by
  have hgoes : ∀ {caller caller'}, v tx.to = some caller → caller.incrementNonce = .ok caller' →
      Goes (v.put caller') (∀ i ∈ outputs.instructions, i.Resolved tx v)
        (fun x k => outputs.instructions.flatMap fun i => i.effects tx x k) (v.put caller')
        ((planAll tx (v.put caller') outputs.instructions).bind fun ms =>
          runMoves Edit.apply ms (v.put caller')) := by
    intro caller caller' hcaller hinc
    obtain ⟨htypes, -⟩ := put_incremented hkeyed hcaller hinc
    refine (goes_instructions ?_ (.refl _)).congr
      (forall₂_congr fun i _ => ⟨Instruction.resolved_congr htypes,
        Instruction.resolved_congr fun x => (htypes x).symm⟩) (fun _ _ => rfl)
    have := congrArg Option.isSome (htypes tx.to)
    simpa [hcaller] using this
  constructor
  · rintro ⟨v', h⟩
    obtain ⟨caller, caller', ms, hcaller, hinc, hms, hrun, -⟩ := callLedger_eq_some h
    have hgo := hgoes hcaller hinc
    rw [hms, Option.bind_some, hrun] at hgo
    obtain ⟨hresolved, -, hcells⟩ := hgo
    refine ⟨⟨caller, hcaller, Account.incrementNonce_isOk_iff.1 ⟨_, hinc⟩⟩, hresolved,
      fun x k => ?_⟩
    rw [← (put_incremented hkeyed hcaller hinc).2, hcells]
    rfl
  · rintro ⟨⟨caller, hcaller, hnonce⟩, hresolved, hcells⟩
    obtain ⟨caller', hinc⟩ := Account.incrementNonce_isOk_iff.2 hnonce
    obtain ⟨htypes, hholds⟩ := put_incremented hkeyed hcaller hinc
    have hgo := hgoes hcaller hinc
    cases hrun : (planAll tx (v.put caller') outputs.instructions).bind fun ms =>
        runMoves Edit.apply ms (v.put caller') with
    | none =>
      rw [hrun] at hgo
      exact absurd ⟨hresolved, fun x k => by rw [hholds]; exact hcells x k⟩ hgo
    | some v' =>
      rw [hrun] at hgo
      obtain ⟨ms, hms, hmoves⟩ := Option.bind_eq_some_iff.1 hrun
      -- The sender was there, and nobody disappears.
      have hsender : (v.put caller' tx.from).isSome := by
        have := congrArg Option.isSome (htypes tx.from)
        simpa [hfrom] using this
      obtain ⟨sender, hsender⟩ := Option.isSome_iff_exists.1 hsender
      obtain ⟨sender', hsender', -⟩ := hgo.2.1.stays _ _ hsender
      refine ⟨v', ?_⟩
      simp [callLedger, hcaller, hinc, Except.toOption, hms, hmoves, hsender']

end Call

end Lasr
