import Lasr.Application
import Lasr.Isolation

/-!
# Sums and differences that fit

The operators of `construct_uint` panic on overflow, and a future that panics takes the whole
pool of the batcher with it. `Token::debit` looks before it subtracts. The other operations of
the batcher do not : `TryFrom` for a send subtracts what another actor found sufficient on an
earlier balance (`second_send_panics`), and credits, allowances and nonces grow unseen to.

No future panics as long as each account that one reads can bear what the transaction does to
it (`no_panic_of_borne`) : the token of a send has room for the sum or the difference
(`Token.Bears`), what the instructions of a call add to an entry fits in their order
(`cellFits`), and a nonce about to be incremented can grow.
-/

set_option linter.unusedSectionVars false

namespace Lasr

open ActorSystem

/-! ## Results without a panic -/

/-- The computation returns, or reports an error. -/
def NoPanic {α : Type} (x : AccountResult α) : Prop :=
  x ≠ .error .panic

section NoPanic

variable {α β : Type}

theorem noPanic_ok (a : α) : NoPanic (.ok a : AccountResult α) :=
  fun h => nomatch h

theorem noPanic_err (msg : String) : NoPanic (.error (.err msg) : AccountResult α) :=
  fun h => nomatch h

theorem NoPanic.bind {x : AccountResult α} {f : α → AccountResult β} (hx : NoPanic x)
    (hf : ∀ a, x = .ok a → NoPanic (f a)) : NoPanic (x >>= f) := by
  cases x with
  | error e =>
    intro h
    cases h
    exact hx rfl
  | ok a => exact hf a rfl

theorem NoPanic.map {x : AccountResult α} (hx : NoPanic x) (f : α → β) : NoPanic (x.map f) := by
  cases x with
  | error e =>
    intro h
    cases h
    exact hx rfl
  | ok a => exact noPanic_ok (f a)

theorem U256.add_noPanic {a b : U256} (h : a.toNat + b.toNat < 2 ^ 256) :
    NoPanic (U256.add a b) := by
  rw [U256.add, if_pos h]
  exact noPanic_ok _

theorem U256.sub_noPanic {a b : U256} (h : b.toNat ≤ a.toNat) : NoPanic (U256.sub a b) := by
  rw [U256.sub, if_pos (BitVec.le_def.2 h)]
  exact noPanic_ok _

end NoPanic

/-- An update of an allowance has room : the sum fits, and what is removed is there. -/
def AllowanceValue.Fits (allowance : BTreeMap Address U256) : AllowanceValue → Prop
  | .insert key value => ∀ entry, allowance key = some entry → entry.toNat + value.toNat < 2 ^ 256
  | .remove key value => ∀ entry, allowance key = some entry → value.toNat ≤ entry.toNat
  | .extend _ => True
  | .revoke _ => True

/-- Updates of a token fit one after another, from the grants they find. -/
def grantsFit : List TokenUpdateField → Grants → Prop
  | [], _ => True
  | u :: us, g => (∀ v, u.value = .allowance v → v.Fits g.1) ∧
      ∀ g', grantUpdate g u.value = .ok g' → grantsFit us g'

namespace Token

variable {t : Token} {amount : Option U256} {ids : List U256}

theorem debit_noPanic (t : Token) (amt : U256) : NoPanic (t.debit amt) := by
  unfold debit
  split_ifs with hgt
  · exact noPanic_err _
  · have hle : amt.toNat ≤ t.balance.toNat := by
      rw [gt_iff_lt, BitVec.lt_def] at hgt
      omega
    exact (U256.sub_noPanic hle).bind fun _ _ => noPanic_ok _

/-- What is taken is looked for first. -/
theorem give_noPanic (t : Token) : NoPanic (t.give amount ids) := by
  have hrest : ∀ u : Token,
      NoPanic (if ids.isEmpty then pure u else u.removeTokenIds ids : AccountResult Token) := by
    intro u
    unfold removeTokenIds
    dsimp only
    split_ifs
    · exact noPanic_ok _
    · exact noPanic_err _
    · exact noPanic_ok _
  cases amount with
  | none => exact hrest t
  | some amt => exact (t.debit_noPanic amt).bind fun u _ => hrest u

theorem receive_noPanic (h : t.balance.toNat + amountOf amount < 2 ^ 256) :
    NoPanic (t.receive amount ids) := by
  obtain ⟨t', ht'⟩ : ∃ t', t.receive amount ids = .ok t' := receive_isOk h
  rw [ht']
  exact noPanic_ok t'

theorem applyAllowanceUpdate_noPanic {v : AllowanceValue} (h : v.Fits t.allowance) :
    NoPanic (t.applyAllowanceUpdate v) := by
  cases v with
  | insert key value =>
    simp only [applyAllowanceUpdate]
    split
    · next entry hentry => exact (U256.add_noPanic (h entry hentry)).bind fun _ _ => noPanic_ok _
    · exact noPanic_ok _
  | extend values => exact noPanic_ok _
  | remove key value =>
    simp only [applyAllowanceUpdate]
    split
    · next entry hentry =>
      refine (U256.sub_noPanic (h entry hentry)).bind fun b _ => ?_
      split_ifs
      · exact noPanic_ok _
      · exact noPanic_ok _
    · exact noPanic_ok _
  | revoke key => exact noPanic_ok _

theorem applyApprovalsUpdate_noPanic (t : Token) (v : ApprovalsValue) :
    NoPanic (t.applyApprovalsUpdate v) := by
  cases v with
  | insert key value =>
    simp only [applyApprovalsUpdate]
    split <;> exact noPanic_ok _
  | extend values => exact noPanic_ok _
  | remove key values =>
    simp only [applyApprovalsUpdate]
    split
    · split_ifs <;> exact noPanic_ok _
    · exact noPanic_ok _
  | revoke key => exact noPanic_ok _

/-- Of the fields only the allowance is computed with. -/
theorem applyTokenUpdateFieldValues_noPanic {v : TokenFieldValue}
    (h : ∀ w, v = .allowance w → w.Fits t.allowance) :
    NoPanic (t.applyTokenUpdateFieldValues v) := by
  cases v with
  | metadata v => cases v <;> exact noPanic_ok _
  | allowance v => exact applyAllowanceUpdate_noPanic (h v rfl)
  | approvals v => exact applyApprovalsUpdate_noPanic t v
  | data v => cases v <;> exact noPanic_ok _
  | status v =>
    cases v with
    | reverse =>
      simp only [applyTokenUpdateFieldValues, applyStatusUpdate]
      split <;> exact noPanic_ok _
    | lock => exact noPanic_ok _
    | unlock => exact noPanic_ok _

theorem applyUpdates_noPanic : ∀ {us : List TokenUpdateField} {t : Token},
    grantsFit us t.grants → NoPanic (t.applyUpdates us)
  | [], t, _ => noPanic_ok t
  | u :: us, t, h => by
    simp only [applyUpdates, List.foldlM_cons]
    refine (applyTokenUpdateFieldValues_noPanic h.1).bind fun t' ht' => ?_
    have hgrants : grantUpdate t.grants u.value = .ok t'.grants := by
      rw [← map_grants_updateFieldValues, ht']
      rfl
    exact applyUpdates_noPanic (h.2 _ hgrants)

end Token

/-! ## Effects that fit -/

/-- The effect on the account that is read last : a transfer of an account to itself reads it
twice, and the credited copy stays. -/
def Effect.last : Effect → Effect
  | .takeAdd n ids => .add n ids []
  | e => e

/-- What an effect adds to an entry, and to its allowances, fits. -/
def Effect.Fits : Effect → Option Holding → Prop
  | .add n _ updates, o => (o.getD .empty).balance + n < 2 ^ 256 ∧
      grantsFit updates (o.getD .empty).grants
  | _, _ => True

/-- The effects of a list fit one after another, as far as they go. -/
def cellFits : List Effect → Option Holding → Prop
  | [], _ => True
  | e :: es, o => e.last.Fits o ∧ ∀ h, e.last.step o = some h → cellFits es (some h)

/-- What an edit computes, with the error it fails with. -/
def Edit.result : Edit → Account → AccountResult Account
  | .give token amount ids, a => accountOf (a.applyTransferFromInstruction token amount ids)
  | .receive token amount ids programAccount, a =>
    accountOf (a.applyTransferToInstruction token amount ids programAccount)
  | .distribute programId amount ids updates programAccount, a =>
    accountOf (a.applyTokenDistribution programId amount ids updates programAccount)
  | .updateToken programId updates programAccount, a =>
    accountOf (a.applyTokenUpdate programId updates programAccount)
  | .updateProgram update, a => a.applyProgramUpdate update
  | .keep, a => .ok a

section Edit

variable {e : Edit} {a a' : Account}

theorem Edit.apply_of_result (h : e.result a = .ok a') : e.apply a = some a' := by
  have hresult : e.apply a = (e.result a).toOption := by cases e <;> rfl
  rw [hresult, h]
  rfl

/-- A credit that fits goes to the entry it starts from without a panic, and so do the updates
after it. -/
theorem Account.Starts.receive_noPanic {k owner : Address} {t : Token} {amount : Option U256}
    {ids : List U256} {updates : List TokenUpdateField} (hs : a.Starts k owner t)
    (h : (Effect.add (amountOf amount) ids updates).Fits (a.holdingOf k)) :
    NoPanic (t.receive amount ids) ∧
      ∀ u, t.receive amount ids = .ok u → NoPanic (u.applyUpdates updates) := by
  rw [Effect.Fits, hs.holding] at h
  refine ⟨Token.receive_noPanic h.1, fun u hu => Token.applyUpdates_noPanic ?_⟩
  rw [Token.receive_grants hu]
  exact h.2

/-- An edit whose effect fits does not panic. -/
theorem Edit.result_noPanic (h : ∀ k f, e.effect = some (k, f) → f.Fits (a.holdingOf k)) :
    NoPanic (e.result a) := by
  cases e with
  | give k amount ids =>
    refine NoPanic.map ?_ _
    unfold Account.applyTransferFromInstruction
    split
    · next t _ => exact t.give_noPanic.bind fun _ _ => noPanic_ok _
    · exact noPanic_err _
  | receive k amount ids programAccount =>
    have hcredit : ∀ {t}, a.Starts k a.ownerAddress t → NoPanic (t.receive amount ids) :=
      fun hs => (hs.receive_noPanic (h k _ rfl)).1
    refine NoPanic.map ?_ _
    unfold Account.applyTransferToInstruction
    split
    · next t ht => exact (hcredit (Or.inl ht)).bind fun _ _ => noPanic_ok _
    · next ht => exact (hcredit (Or.inr ⟨ht, _, _, rfl⟩)).bind fun _ _ => noPanic_ok _
  | distribute k amount ids updates programAccount =>
    have hcredit : ∀ {t}, a.Starts k a.address t →
        NoPanic (t.receive amount ids >>= fun u => u.applyUpdates updates) := by
      intro t hs
      obtain ⟨hreceive, hupdates⟩ := hs.receive_noPanic (h k _ rfl)
      exact hreceive.bind hupdates
    refine NoPanic.map ?_ _
    simp only [Account.applyTokenDistribution, ← bind_assoc]
    split
    · next t ht => exact (hcredit (Or.inl ht)).bind fun _ _ => noPanic_ok _
    · next ht => exact (hcredit (Or.inr ⟨ht, _, _, rfl⟩)).bind fun _ _ => noPanic_ok _
  | updateToken k updates programAccount =>
    have hupdate : ∀ {t}, a.Starts k a.address t → NoPanic (t.applyUpdates updates) := by
      intro t hs
      have hnone : NoPanic (t.receive none []) ∧
          ∀ u, t.receive none [] = .ok u → NoPanic (u.applyUpdates updates) :=
        hs.receive_noPanic (h k _ rfl)
      exact hnone.2 t rfl
    refine NoPanic.map ?_ _
    unfold Account.applyTokenUpdate
    split
    · next t ht => exact (hupdate (Or.inl ht)).bind fun _ _ => noPanic_ok _
    · next ht => exact (hupdate (Or.inr ⟨ht, _, _, rfl⟩)).bind fun _ _ => noPanic_ok _
  | updateProgram update =>
    simp only [Edit.result, Account.applyProgramUpdate]
    split
    · exact noPanic_ok _
    · exact noPanic_err _
  | keep => exact noPanic_ok a

end Edit

/-- An effect in one entry, and then the rest. -/
def effectThen (x k : Address) (f : Effect) (rest : Address → Address → List Effect)
    (x' k' : Address) : List Effect :=
  effectAt x k f x' k' ++ rest x' k'

/-- An account that stands at `x` and can bear what is still to be done there. -/
structure Account.Bears (todo : Address → Address → List Effect) (x : Address) (a : Account) :
    Prop where
  address : a.address = x
  fits : ∀ k, cellFits (todo x k) (a.holdingOf k)

section Bears

variable {todo rest : Address → Address → List Effect} {x : Address} {a a' : Account} {e : Edit}

/-- An edit at an account that bears it : no panic, and the rest can be borne. -/
theorem Edit.bears {k : Address} {f : Effect} (he : e.effect = some (k, f.last))
    (htodo : ∀ k', todo x k' = effectThen x k f rest x k') (ha : a.Bears todo x) :
    NoPanic (e.result a) ∧ ∀ a', e.result a = .ok a' → a'.Bears rest x := by
  have hfits := ha.fits k
  rw [htodo, effectThen, effectAt, if_pos ⟨rfl, rfl⟩] at hfits
  obtain ⟨hfit, hnext⟩ := hfits
  refine ⟨Edit.result_noPanic fun k' f' hf' => ?_, fun a' ha' => ?_⟩
  · rw [he] at hf'
    cases hf'
    exact hfit
  have happ := Edit.apply_of_result ha'
  refine ⟨(Edit.apply_sameHeader happ).address.trans ha.address, fun k' => ?_⟩
  by_cases hk : k' = k
  · subst hk
    have hstep := Edit.apply_holding he a
    rw [happ, Option.map_some] at hstep
    obtain ⟨h, hh, hsome⟩ := Option.map_eq_some_iff.1 hstep.symm
    rw [← hsome]
    exact hnext h hh
  · have hother := ha.fits k'
    rw [htodo, effectThen, effectAt, if_neg (fun h => hk h.2), List.nil_append] at hother
    rw [Edit.apply_holding_of_ne happ]
    · exact hother
    · intro g hg
      rw [he] at hg
      cases hg
      exact hk rfl

/-- An edit that moves no token. -/
theorem Edit.bears_of_none (he : e.effect = none) (ha : a.Bears todo x) :
    NoPanic (e.result a) ∧ ∀ a', e.result a = .ok a' → a'.Bears todo x := by
  refine ⟨Edit.result_noPanic fun k f hf => ?_, fun a' ha' => ?_⟩
  · rw [he] at hf
    cases hf
  have happ := Edit.apply_of_result ha'
  refine ⟨(Edit.apply_sameHeader happ).address.trans ha.address, fun k => ?_⟩
  rw [Edit.apply_holding_of_ne happ (by simp [he])]
  exact ha.fits k

/-- Nothing was done yet at an account that is not buffered, and a buffered one bears what is
still to be done. -/
def BufferFits (total todo : Address → Address → List Effect) (batchBuffer : BatchBuffer) : Prop :=
  ∀ x, match batchBuffer.lookup x with
    | some a => a.Bears todo x
    | none => ∀ k, todo x k = total x k

variable {total : Address → Address → List Effect} {b b' : BatchBuffer}

theorem bufferFits_empty : BufferFits total total ∅ :=
  fun _ _ => rfl

/-- One account changes, and nothing is to be done elsewhere. -/
theorem BufferFits.update (hb : BufferFits total todo b) (hlook : b'.lookup x = some a)
    (ha : a.Bears rest x)
    (hother : ∀ y, y ≠ x → b'.lookup y = b.lookup y ∧ ∀ k, rest y k = todo y k) :
    BufferFits total rest b' := by
  intro y
  by_cases hy : y = x
  · subst hy
    rw [hlook]
    exact ha
  · obtain ⟨hsame, hrest⟩ := hother y hy
    have hby := hb y
    rw [hsame]
    split at hby
    · next c hc => exact ⟨hby.address, fun k => by rw [hrest]; exact hby.fits k⟩
    · next hc => exact fun k => (hrest k).trans (hby k)

theorem BufferFits.add (hb : BufferFits total todo b) (ha : a.Bears rest x)
    (hrest : ∀ y, y ≠ x → ∀ k, rest y k = todo y k) :
    BufferFits total rest (addAccountToBatchBuffer b a) := by
  have haddr := ha.address
  subst haddr
  exact hb.update (AList.lookup_insert b) ha fun y hy => ⟨AList.lookup_insert_ne hy, hrest y hy⟩

/-- After an effect at `x`, the same is left to do at the other accounts. -/
theorem rest_of_ne {k : Address} {f : Effect}
    (htodo : ∀ x' k', todo x' k' = effectThen x k f rest x' k') (y : Address) (hy : y ≠ x)
    (k' : Address) : rest y k' = todo y k' := by
  rw [htodo, effectThen, effectAt, if_neg (fun h => hy h.1), List.nil_append]

end Bears

/-! ## Futures without a panic -/

/-- The accounts that a future reads satisfy `bears`. -/
def Allows (bears : Address → Option Account → Prop) : (o : Op) → effects.Resp o → Prop
  | .getAccount x, r => bears x (Slot.account r)
  | _, _ => True

/-- As long as the accounts that it reads satisfy `bears`, the future does not panic, and what it
returns satisfies `Q`. -/
def Safe {α : Type} (bears : Address → Option Account → Prop) (Q : α → Prop) (p : BatcherM α) :
    Prop :=
  p.Guarded (Allows bears) (fun e => e ≠ .panic) Q

section Safe

variable {α β : Type} {bears : Address → Option Account → Prop} {Q : α → Prop} {R : β → Prop}
  {tx : Transaction}

theorem safe_ret {a : α} (h : Q a) : Safe bears Q (pure a) := h

theorem safe_err (e : BatcherError) : Safe bears Q (.fail (.err e)) :=
  fun h => nomatch h

theorem Safe.bind {p : BatcherM α} {f : α → BatcherM β} (hp : Safe bears Q p)
    (hf : ∀ a, Q a → Safe bears R (f a)) : Safe bears R (p >>= f) :=
  Prog.Guarded.bind hf hp

theorem Safe.mono {Q' : α → Prop} {p : BatcherM α} (hp : Safe bears Q p) (hQ : ∀ a, Q a → Q' a) :
    Safe bears Q' p :=
  Prog.Guarded.mono hQ hp

/-- After a read the rest sees no account, or one of the address it asked for. -/
theorem safe_getAccount_bind {x : Address} {f : Option Account → BatcherM β}
    (hf : ∀ r, (∀ a, r = some a → a.address = x) → bears x r → Safe bears R (f r)) :
    Safe bears R (getAccount x >>= f) :=
  fun _ hr => hf _ (fun _ h => Slot.address_of_account h) hr

theorem safe_ofResult {x : AccountResult α} (g : String → BatcherError) (hx : NoPanic x)
    (hQ : ∀ a, x = .ok a → Q a) :
    Safe bears Q (Prog.ofExcept (x.mapError (Fault.map g)) : BatcherM α) := by
  cases x with
  | error e =>
    cases e with
    | err msg => exact safe_err _
    | panic => exact absurd rfl hx
  | ok a => exact hQ a rfl

theorem safe_orCustom {x : AccountResult α} (hx : NoPanic x) (hQ : ∀ a, x = .ok a → Q a) :
    Safe bears Q (orCustom x) :=
  safe_ofResult _ hx hQ

theorem safe_orFailed {x : AccountResult α} (hx : NoPanic x) (hQ : ∀ a, x = .ok a → Q a) :
    Safe bears Q (orFailed tx x) :=
  safe_ofResult _ hx hQ

theorem Safe.asFailed {p : BatcherM α} (hp : Safe bears Q p) : Safe bears Q (asFailed tx p) := by
  refine Prog.Guarded.mapErr (fun e he => ?_) hp
  cases e with
  | err e => exact fun h => nomatch h
  | panic => exact absurd rfl he

/-- The program starts with a read of `x`. If the nonce of the account there can grow, the rest
is safe. -/
def Begins (bears : Address → Option Account → Prop) (x : Address) (p : BatcherM α) : Prop :=
  ∃ f, p = getAccount x >>= f ∧ ∀ r, bears x r →
    (∀ a, r = some a → a.nonce.toNat + 1 < 2 ^ 256) → Safe bears (fun _ => True) (f r)

theorem Begins.bind {x : Address} {p : BatcherM α} {f : α → BatcherM β} (hp : Begins bears x p)
    (hf : ∀ a, Safe bears (fun _ => True) (f a)) : Begins bears x (p >>= f) := by
  obtain ⟨g, rfl, hg⟩ := hp
  refine ⟨fun r => g r >>= f, rfl, fun r hr hnonce => ?_⟩
  exact (hg r hr hnonce).bind fun a _ => hf a

theorem safe_addAccountsToBatch : ∀ l : List Account,
    Safe bears (fun _ => True) (addAccountsToBatch l)
  | [] => trivial
  | _ :: l => fun _ _ _ _ => safe_addAccountsToBatch l

end Safe

/-! ### Instructions -/

/-- Every account that is read can bear all that a call does to it. -/
def BearsAll (total : Address → Address → List Effect) (x : Address) (o : Option Account) : Prop :=
  ∀ k, cellFits (total x k) (o.bind fun a => a.holdingOf k)

section Instructions

variable {tx : Transaction} {total todo rest : Address → Address → List Effect} {b : BatchBuffer}

/-- An account that is not buffered bears what is still to be done, and where there is none a new
one would. -/
theorem safe_read_bind {β : Type} {R : β → Prop} {x : Address} {f : Option Account → BatcherM β}
    (hb : BufferFits total todo b) (hlook : b.lookup x = none)
    (hsome : ∀ a, a.Bears todo x → Safe (BearsAll total) R (f (some a)))
    (hnone : (∀ k, cellFits (todo x k) none) → Safe (BearsAll total) R (f none)) :
    Safe (BearsAll total) R (getAccount x >>= f) := by
  have hx := hb x
  rw [hlook] at hx
  refine safe_getAccount_bind fun r hr hbears => ?_
  have hfits : ∀ k, cellFits (todo x k) (r.bind fun a => a.holdingOf k) := fun k => by
    rw [hx k]
    exact hbears k
  cases r with
  | some a => exact hsome a ⟨hr a rfl, hfits⟩
  | none => exact hnone hfits

theorem BufferFits.bears {x : Address} {a : Account} (hb : BufferFits total todo b)
    (hlook : b.lookup x = some a) : a.Bears todo x := by
  have hx := hb x
  rw [hlook] at hx
  exact hx

theorem safe_fetchAccount_bind {β : Type} {R : β → Prop} {x : Address}
    {f : Option Account → BatcherM β} (hb : BufferFits total todo b)
    (hsome : ∀ a, a.Bears todo x → Safe (BearsAll total) R (f (some a)))
    (hnone : (∀ k, cellFits (todo x k) none) → Safe (BearsAll total) R (f none)) :
    Safe (BearsAll total) R (fetchAccount x b >>= f) := by
  unfold fetchAccount
  cases hlook : b.lookup x with
  | some a => exact hsome a (hb.bears hlook)
  | none => exact safe_read_bind hb hlook hsome hnone

theorem getTransferFromAccount_safe {ref : AddressOrNamespace} (hb : BufferFits total todo b) :
    Safe (BearsAll total) (fun a => ∃ x, ref.resolve tx = some x ∧ a.Bears todo x)
      (getTransferFromAccount tx ref b) := by
  unfold getTransferFromAccount
  split
  · next x hx =>
    exact safe_fetchAccount_bind hb (fun a ha => safe_ret ⟨x, hx, ha⟩) fun _ => safe_err _
  · exact safe_err _

theorem creditTransfer_safe {i : TransferInstruction} {y : Address} {f : Effect} {a : Account}
    (hf : f.last = .add (amountOf i.amount) i.ids [])
    (htodo : ∀ k, todo y k = effectThen y i.token f rest y k) (ha : a.Bears todo y) :
    Safe (BearsAll total) (fun a' => a'.Bears rest y) (creditTransfer i a) := by
  have hcredit : ∀ programAccount, Safe (BearsAll total) (fun a' => a'.Bears rest y)
      (orCustom (accountOf (a.applyTransferToInstruction i.token i.amount i.ids
        programAccount))) := by
    intro programAccount
    obtain ⟨hno, hrest⟩ := Edit.bears (e := .receive i.token i.amount i.ids programAccount)
      (by rw [hf]; rfl) htodo ha
    exact safe_orCustom hno hrest
  refine safe_getAccount_bind fun r _ _ => ?_
  split
  · exact hcredit _
  · split
    · exact hcredit _
    · exact safe_err _

theorem applyTransferTo_safe {i : TransferInstruction} {y : Address} {f : Effect}
    (hy : i.to.resolve tx = some y) (hf : f.last = .add (amountOf i.amount) i.ids [])
    (htodo : ∀ k, todo y k = effectThen y i.token f rest y k)
    (hb : BufferFits total todo b) :
    Safe (BearsAll total) (fun a => a.Bears rest y) (applyTransferTo tx i b) := by
  unfold applyTransferTo getTransferToAccount
  rw [hy]
  refine safe_fetchAccount_bind hb (fun a ha => creditTransfer_safe hf htodo ha) fun hnone => ?_
  cases hto : i.to with
  | this => exact safe_err _
  | address address =>
    rw [hto] at hy
    cases hy
    exact creditTransfer_safe hf htodo ⟨rfl, hnone⟩
  | «namespace» n => exact safe_err _

/-- A debit does not panic, and leaves the address. -/
theorem debit_safe {token x : Address} {amount : Option U256} {ids : List U256} {a : Account}
    (ha : a.address = x) :
    Safe (BearsAll total) (fun a' => a'.address = x)
      (orCustom (accountOf (a.applyTransferFromInstruction token amount ids))) := by
  refine safe_orCustom (Edit.result_noPanic (e := .give token amount ids) fun k f hf => ?_)
    fun a' ha' => ?_
  · cases hf
    trivial
  · have happ := Edit.apply_of_result (e := .give token amount ids) ha'
    exact (Edit.apply_sameHeader happ).address.trans ha

/-- A transfer of an account to itself : the debited copy is not kept. -/
theorem applyTransfer_self_safe {i : TransferInstruction} {x : Address}
    (hx : i.from.resolve tx = some x) (hy : i.to.resolve tx = some x)
    (hb : BufferFits total (fun x k => i.effects tx x k ++ rest x k) b) :
    Safe (BearsAll total) (fun r => BufferFits total rest
      (addAccountToBatchBuffer (addAccountToBatchBuffer b r.1) r.2))
      (applyTransferInstruction tx i b) := by
  have htodo : (fun x k => i.effects tx x k ++ rest x k) =
      effectThen x i.token (.takeAdd (amountOf i.amount) i.ids) rest := by
    funext x' k
    rw [TransferInstruction.effects_self hx hy, effectThen]
  rw [htodo] at hb
  unfold applyTransferInstruction applyTransferFrom
  rw [Prog.bind_assoc]
  refine (getTransferFromAccount_safe hb).bind fun a ⟨x', hx', ha⟩ => ?_
  cases hx.symm.trans hx'
  refine (debit_safe ha.address).bind fun a' ha' => ?_
  refine (applyTransferTo_safe hy rfl (fun _ => rfl) hb).bind fun c hc => safe_ret ?_
  have hcaddr := hc.address
  subst hcaddr
  refine hb.update (AList.lookup_insert _) hc fun y hne => ⟨?_, fun k => ?_⟩
  · change AList.lookup y ((b.insert a'.address a').insert c.address c) = _
    rw [AList.lookup_insert_ne hne, AList.lookup_insert_ne (by rw [ha']; exact hne)]
  · exact rest_of_ne (fun _ _ => rfl) y hne k

/-- A transfer between two accounts. -/
theorem applyTransfer_of_ne_safe {i : TransferInstruction} {x y : Address}
    (hx : i.from.resolve tx = some x) (hy : i.to.resolve tx = some y) (hxy : y ≠ x)
    (hb : BufferFits total (fun x k => i.effects tx x k ++ rest x k) b) :
    Safe (BearsAll total) (fun r => BufferFits total rest
      (addAccountToBatchBuffer (addAccountToBatchBuffer b r.1) r.2))
      (applyTransferInstruction tx i b) := by
  have htodo : (fun x k => i.effects tx x k ++ rest x k) =
      effectThen x i.token (.take (amountOf i.amount) i.ids)
        (effectThen y i.token (.add (amountOf i.amount) i.ids []) rest) := by
    funext x' k
    rw [TransferInstruction.effects_of_ne hx hy hxy, List.append_assoc, effectThen, effectThen]
  rw [htodo] at hb
  unfold applyTransferInstruction applyTransferFrom
  rw [Prog.bind_assoc]
  refine (getTransferFromAccount_safe hb).bind fun a ⟨x', hx', ha⟩ => ?_
  cases hx.symm.trans hx'
  obtain ⟨hno, hmid⟩ := Edit.bears (e := .give i.token i.amount i.ids)
    (f := .take (amountOf i.amount) i.ids) rfl (fun _ => rfl) ha
  refine (safe_orCustom hno hmid).bind fun a' ha' => ?_
  have hcredit : ∀ k, effectThen x i.token (.take (amountOf i.amount) i.ids)
      (effectThen y i.token (.add (amountOf i.amount) i.ids []) rest) y k =
        effectThen y i.token (.add (amountOf i.amount) i.ids []) rest y k :=
    fun k => (rest_of_ne (fun _ _ => rfl) y hxy k).symm
  refine (applyTransferTo_safe hy rfl hcredit hb).bind fun c hc => safe_ret ?_
  exact (hb.add ha' (rest_of_ne fun _ _ => rfl)).add hc (rest_of_ne fun _ _ => rfl)

theorem applyTransferInstruction_safe {i : TransferInstruction}
    (hb : BufferFits total (fun x k => i.effects tx x k ++ rest x k) b) :
    Safe (BearsAll total) (fun r => BufferFits total rest
      (addAccountToBatchBuffer (addAccountToBatchBuffer b r.1) r.2))
      (applyTransferInstruction tx i b) := by
  cases hx : i.from.resolve tx with
  | none =>
    unfold applyTransferInstruction applyTransferFrom getTransferFromAccount
    rw [hx]
    exact safe_err _
  | some x =>
    cases hy : i.to.resolve tx with
    | none =>
      unfold applyTransferInstruction applyTransferFrom
      rw [Prog.bind_assoc]
      refine (getTransferFromAccount_safe hb).bind fun a ⟨x', _, ha⟩ => ?_
      refine (debit_safe ha.address).bind fun a' _ => ?_
      unfold applyTransferTo getTransferToAccount
      rw [hy]
      cases hto : i.to with
      | this => exact safe_err _
      | address y =>
        rw [hto] at hy
        cases hy
      | «namespace» n => exact safe_err _
    | some y =>
      by_cases hxy : y = x
      · subst hxy
        exact applyTransfer_self_safe hx hy hb
      · exact applyTransfer_of_ne_safe hx hy hxy hb

theorem applyBurnInstruction_safe {i : BurnInstruction}
    (hb : BufferFits total (fun x k => i.effects tx x k ++ rest x k) b) :
    Safe (BearsAll total) (fun a => BufferFits total rest (addAccountToBatchBuffer b a))
      (applyBurnInstruction tx i b) := by
  refine (getTransferFromAccount_safe hb).bind fun a ⟨x, hx, ha⟩ => ?_
  have htodo : ∀ x' k, i.effects tx x' k ++ rest x' k =
      effectThen x i.token (.take (amountOf i.amount) i.tokenIds) rest x' k :=
    fun x' k => by rw [BurnInstruction.effects_eq hx, effectThen]
  obtain ⟨hno, hrest⟩ := Edit.bears (e := .give i.token i.amount i.tokenIds)
    (f := .take (amountOf i.amount) i.tokenIds) rfl (htodo x) ha
  rcases a.applyBurnInstruction_cases i.token i.amount i.tokenIds with hgive | ⟨msg, _, herr, -⟩
  · rw [hgive]
    exact safe_orCustom hno fun a' ha' => hb.add (hrest a' ha') (rest_of_ne htodo)
  · rw [herr]
    exact safe_err _

theorem creditDistribution_safe {d : TokenDistribution} {programId y : Address} {a : Account}
    (htodo : ∀ k, todo y k = effectThen y programId
      (.add (amountOf d.amount) d.tokenIds d.updateFields) rest y k)
    (ha : a.Bears todo y) :
    Safe (BearsAll total) (fun a' => a'.Bears rest y) (creditDistribution programId d a) := by
  refine safe_getAccount_bind fun r _ _ => ?_
  cases r with
  | some programAccount =>
    obtain ⟨hno, hrest⟩ := Edit.bears (e := .distribute programId d.amount d.tokenIds
      d.updateFields programAccount) (f := .add (amountOf d.amount) d.tokenIds d.updateFields)
      rfl htodo ha
    exact safe_orCustom hno hrest
  | none => exact safe_err _

theorem applyDistribution_safe {d : TokenDistribution}
    (hb : BufferFits total (fun x k => d.effects tx x k ++ rest x k) b) :
    Safe (BearsAll total) (fun a => BufferFits total rest (addAccountToBatchBuffer b a))
      (applyDistribution tx d b) := by
  unfold applyDistribution
  cases hid : d.programId.resolve tx with
  | none => exact safe_err _
  | some programId =>
    -- Whichever account is credited, it stands at the receiver's address.
    have hcredit : ∀ {y a}, d.to.resolve tx = some y →
        a.Bears (fun x k => d.effects tx x k ++ rest x k) y →
        Safe (BearsAll total) (fun a => BufferFits total rest (addAccountToBatchBuffer b a))
          (creditDistribution programId d a) := by
      intro y a hy ha
      have htodo : ∀ x' k, d.effects tx x' k ++ rest x' k = effectThen y programId
          (.add (amountOf d.amount) d.tokenIds d.updateFields) rest x' k :=
        fun x' k => by rw [TokenDistribution.effects_eq hy hid, effectThen]
      exact (creditDistribution_safe (htodo y) ha).mono fun a' ha' =>
        hb.add ha' (rest_of_ne htodo)
    cases hto : d.to with
    | this =>
      rw [hto] at hcredit
      exact safe_fetchAccount_bind hb (fun a ha => hcredit rfl ha)
        fun hnone => hcredit rfl ⟨rfl, hnone⟩
    | address y =>
      rw [hto] at hcredit
      exact safe_fetchAccount_bind hb (fun a ha => hcredit rfl ha)
        fun hnone => hcredit rfl ⟨rfl, hnone⟩
    | «namespace» n => exact safe_err _

theorem updateToken_safe {u : TokenUpdate} {programId x : Address} {a : Account}
    (htodo : ∀ k, todo x k = effectThen x programId (.add 0 [] u.updates) rest x k)
    (ha : a.Bears todo x) :
    Safe (BearsAll total) (fun a' => a'.Bears rest x) (updateToken programId u a) := by
  refine safe_getAccount_bind fun r _ _ => ?_
  cases r with
  | some programAccount =>
    obtain ⟨hno, hrest⟩ := Edit.bears (e := .updateToken programId u.updates programAccount)
      (f := .add 0 [] u.updates) rfl htodo ha
    exact safe_orCustom hno hrest
  | none => exact safe_err _

/-- The two ways an update comes by its account : from the buffer, which it then writes to, or
from the cache or a builder. -/
theorem update_safe {x : Address} {ref : AddressOrNamespace} {f : Account → BatcherM Account}
    (hb : BufferFits total todo b) (hrest : ∀ y, y ≠ x → ∀ k, rest y k = todo y k)
    (hf : ∀ a, a.Bears todo x → Safe (BearsAll total) (fun a' => a'.Bears rest x) (f a)) :
    Safe (BearsAll total) (fun r => BufferFits total rest (addAccountToBatchBuffer r.1 r.2))
      (match b.lookup x with
        | some account => do
          let account ← f account
          return (b.insert x account, account)
        | none => do
          match ← getAccount x with
          | some account => return (b, ← f account)
          | none =>
            match ref with
            | .this =>
              customError "Use of `This` variant impermissible on accounts that do not exist yet"
            | _ => return (b, ← f (Account.build .user x))) := by
  cases hlook : b.lookup x with
  | some a =>
    refine (hf a (hb.bears hlook)).bind fun a' ha' => safe_ret ?_
    have honce := hb.add ha' hrest
    rw [addAccountToBatchBuffer, ha'.address] at honce
    exact honce.add ha' fun _ _ _ => rfl
  | none =>
    have hput : ∀ a, a.Bears todo x → Safe (BearsAll total)
        (fun r => BufferFits total rest (addAccountToBatchBuffer r.1 r.2))
        (f a >>= fun a' => pure (b, a') : BatcherM (BatchBuffer × Account)) :=
      fun a ha => (hf a ha).bind fun a' ha' => safe_ret (hb.add ha' hrest)
    refine safe_read_bind hb hlook hput fun hnone => ?_
    cases ref with
    | this => exact safe_err _
    | address y => exact hput _ ⟨rfl, hnone⟩
    | «namespace» n => exact hput _ ⟨rfl, hnone⟩

theorem applyTokenUpdate_safe {u : TokenUpdate} (hb : BufferFits total
      (fun x k => (TokenOrProgramUpdate.tokenUpdate u).effects tx x k ++ rest x k) b) :
    Safe (BearsAll total) (fun r => BufferFits total rest (addAccountToBatchBuffer r.1 r.2))
      (applyTokenUpdate tx u b) := by
  unfold applyTokenUpdate
  cases hid : u.token.resolve tx with
  | none => exact safe_err _
  | some programId =>
    cases hx : u.account.resolve tx with
    | none => exact safe_err _
    | some x =>
      have htodo : ∀ x' k, (TokenOrProgramUpdate.tokenUpdate u).effects tx x' k ++ rest x' k =
          effectThen x programId (.add 0 [] u.updates) rest x' k :=
        fun x' k => by rw [TokenUpdate.effects_eq hx hid, effectThen]
      exact update_safe hb (rest_of_ne htodo) fun a ha => updateToken_safe (htodo x) ha

theorem applyProgramUpdate_safe {u : ProgramUpdate} (hb : BufferFits total rest b) :
    Safe (BearsAll total) (fun r => BufferFits total rest (addAccountToBatchBuffer r.1 r.2))
      (applyProgramUpdate tx u b) := by
  unfold applyProgramUpdate
  cases hx : u.account.resolve tx with
  | none => exact safe_err _
  | some x =>
    refine update_safe hb (fun _ _ _ => rfl) fun a ha => ?_
    obtain ⟨hno, hrest⟩ := Edit.bears_of_none (e := .updateProgram u) rfl ha
    exact safe_orCustom hno hrest

theorem tryCreateProgramAccount_safe (hb : BufferFits total rest b) :
    Safe (BearsAll total) (fun a => BufferFits total rest (addAccountToBatchBuffer b a))
      (tryCreateProgramAccount tx b) := by
  have hput : ∀ a : Account, a.Bears rest tx.to →
      BufferFits total rest (addAccountToBatchBuffer b a) :=
    fun a ha => hb.add ha fun _ _ _ => rfl
  unfold tryCreateProgramAccount
  cases hlook : b.lookup tx.to with
  | some a => exact safe_ret (hput a (hb.bears hlook))
  | none =>
    exact safe_read_bind hb hlook (fun a ha => safe_ret (hput a ha))
      fun hnone => safe_ret (hput _ ⟨rfl, hnone⟩)

theorem applyDistributions_safe : ∀ {l : List TokenDistribution} {b : BatchBuffer},
    BufferFits total (fun x k => (l.flatMap fun d => d.effects tx x k) ++ rest x k) b →
    Safe (BearsAll total) (BufferFits total rest) (applyDistributions tx l b)
  | [], _, hb => safe_ret hb
  | d :: l, b, hb => by
    simp only [List.flatMap_cons, List.append_assoc] at hb
    exact (applyDistribution_safe hb).asFailed.bind fun a ha => applyDistributions_safe ha

theorem applyUpdates_safe : ∀ {l : List TokenOrProgramUpdate} {b : BatchBuffer},
    BufferFits total (fun x k => (l.flatMap fun u => u.effects tx x k) ++ rest x k) b →
    Safe (BearsAll total) (BufferFits total rest) (applyUpdates tx l b)
  | [], _, hb => safe_ret hb
  | u :: l, b, hb => by
    simp only [List.flatMap_cons, List.append_assoc] at hb
    have hupdate : Safe (BearsAll total) (fun r => BufferFits total
        (fun x k => (l.flatMap fun u => u.effects tx x k) ++ rest x k)
        (addAccountToBatchBuffer r.1 r.2)) (applyUpdate tx u b) := by
      cases u with
      | tokenUpdate u => exact applyTokenUpdate_safe hb
      | programUpdate u => exact applyProgramUpdate_safe hb
    exact hupdate.asFailed.bind fun r hr => applyUpdates_safe hr

theorem applyInstruction_safe {i : Instruction}
    (hb : BufferFits total (fun x k => i.effects tx x k ++ rest x k) b) :
    Safe (BearsAll total) (BufferFits total rest) (applyInstruction tx i b) := by
  cases i with
  | transfer i => exact (applyTransferInstruction_safe hb).asFailed.bind fun r hr => safe_ret hr
  | burn i => exact (applyBurnInstruction_safe hb).asFailed.bind fun a ha => safe_ret ha
  | create i =>
    refine (applyDistributions_safe hb).bind fun b' hb' => ?_
    exact (tryCreateProgramAccount_safe hb').asFailed.bind fun a ha => safe_ret ha
  | update i => exact applyUpdates_safe hb
  | log i => exact safe_ret hb

/-- The instructions of a call, one after another. -/
theorem applyInstructions_safe : ∀ {l : List Instruction} {b : BatchBuffer},
    BufferFits total (fun x k => (l.flatMap fun i => i.effects tx x k) ++ rest x k) b →
    Safe (BearsAll total) (BufferFits total rest) (applyInstructions tx l b)
  | [], _, hb => safe_ret hb
  | i :: l, b, hb => by
    simp only [List.flatMap_cons, List.append_assoc] at hb
    exact (applyInstruction_safe hb).bind fun b' hb' => applyInstructions_safe hb'

end Instructions

/-! ### Sends -/

/-- The sum or the difference that `TryFrom` computes for a token fits. -/
def Token.Bears (t : Token) (tx : Transaction) : Prop :=
  if t.ownerId = tx.from then
    if tx.transactionType.isBridgeIn then t.balance.toNat + tx.value.toNat < 2 ^ 256
    else tx.value.toNat ≤ t.balance.toNat
  else t.ownerId = tx.to → t.balance.toNat + tx.value.toNat < 2 ^ 256

/-- An account of the sender or of the receiver can bear the transaction. A send to oneself
computes nothing. -/
def SendBears (tx : Transaction) (x : Address) (o : Option Account) : Prop :=
  x = tx.from ∨ x = tx.to → tx.transactionType.isBridgeIn ∨ tx.to ≠ tx.from →
    ∀ a t, o = some a → a.programs tx.programId = some t → t.Bears tx

section Sends

variable {tx : Transaction} {a : Account}

theorem Token.tryFrom_noPanic {t : Token} (h : t.Bears tx) : NoPanic (t.tryFrom tx) := by
  unfold Bears at h
  unfold tryFrom
  by_cases hfrom : tx.from = t.ownerId
  · rw [if_pos hfrom.symm] at h
    rw [if_pos hfrom]
    split_ifs at h ⊢
    · exact (U256.add_noPanic h).bind fun _ _ => noPanic_ok _
    · exact (U256.sub_noPanic h).bind fun _ _ => noPanic_ok _
  · rw [if_neg fun h => hfrom h.symm] at h
    rw [if_neg hfrom]
    split_ifs with hto
    · exact (U256.add_noPanic (h hto.symm)).bind fun _ _ => noPanic_ok _
    · exact noPanic_err _

theorem Account.applySendTransaction_noPanic {programAccount : Option Account}
    (h : tx.transactionType.isBridgeIn ∨ tx.to ≠ tx.from →
      ∀ t, a.programs tx.programId = some t → t.Bears tx) :
    NoPanic (a.applySendTransaction tx programAccount) := by
  have hheld : ∀ t : Token, t.Bears tx → NoPanic (a.updateHeldToken t tx programAccount) :=
    fun t ht => (Token.tryFrom_noPanic ht).bind fun _ _ => noPanic_ok _
  unfold applySendTransaction
  by_cases hbridge : tx.transactionType.isBridgeIn = true
  · rw [if_pos hbridge]
    split
    · exact noPanic_ok _
    · next t ht => exact hheld t (h (Or.inl hbridge) t ht)
  rw [if_neg hbridge]
  by_cases hself : tx.to = tx.from
  · rw [if_pos hself]
    split
    · exact noPanic_ok _
    · exact noPanic_err _
  rw [if_neg hself]
  split
  · next t ht => exact hheld t (h (Or.inr hself) t ht)
  · split
    · exact noPanic_ok _
    · split
      · split
        · exact noPanic_ok _
        · exact noPanic_err _
      · exact noPanic_err _

theorem creditReceiver_safe (h : tx.transactionType.isBridgeIn ∨ tx.to ≠ tx.from →
      ∀ t, a.programs tx.programId = some t → t.Bears tx) :
    Safe (SendBears tx) (fun _ => True) (creditReceiver tx a) := by
  have hcredit : ∀ programAccount,
      Safe (SendBears tx) (fun _ => True) (creditWith tx a programAccount) := by
    intro programAccount
    have hno : NoPanic (a.applySendTransaction tx programAccount) :=
      Account.applySendTransaction_noPanic h
    unfold creditWith
    split
    · trivial
    · trivial
    · next hpanic => exact absurd hpanic hno
  refine safe_getAccount_bind fun r _ _ => ?_
  split
  · exact hcredit _
  · split_ifs
    · exact hcredit _
    · exact hcredit _
    · exact safe_err _

theorem creditSide_safe (buffer : HashMap String Account) :
    Safe (SendBears tx) (fun _ => True) (creditSide tx buffer) := by
  have hput : ∀ a : Account, (tx.transactionType.isBridgeIn ∨ tx.to ≠ tx.from →
      ∀ t, a.programs tx.programId = some t → t.Bears tx) →
      Safe (SendBears tx) (fun _ => True) (creditReceiver tx a >>= fun a' =>
        pure (buffer.insert (Address.toFullString tx.to) a') : BatcherM (HashMap String Account)) :=
    fun a ha => (creditReceiver_safe ha).bind fun _ _ => trivial
  unfold creditSide
  split
  · refine safe_getAccount_bind fun r _ hr => ?_
    cases r with
    | some a => exact hput a fun hmoves t ht => hr (Or.inr rfl) hmoves a t rfl ht
    | none => exact hput _ fun _ t ht => nomatch ht
  · next hto =>
    split
    · next hbridge =>
      -- A send to oneself.
      have hself : ∀ a : Account, tx.transactionType.isBridgeIn ∨ tx.to ≠ tx.from →
          ∀ t, a.programs tx.programId = some t → t.Bears tx :=
        fun a hmoves => (hmoves.elim hbridge hto).elim
      split
      · exact hput _ (hself _)
      · refine safe_getAccount_bind fun r _ _ => ?_
        split
        · exact hput _ (hself _)
        · exact safe_err _
    · trivial

theorem debitSender_begins : Begins (SendBears tx) tx.from (debitSender tx) := by
  refine ⟨_, rfl, fun o ho hnonce => ?_⟩
  cases o with
  | some a =>
    refine Safe.bind (Q := fun a' => a'.programs = a.programs) ?_ fun a' ha' => ?_
    · obtain ⟨a', ha'⟩ := Account.incrementNonce_isOk_iff.2 (hnonce a rfl)
      rw [ha']
      exact (Account.incrementNonce_keeps ha').2.2.2
    · refine safe_orFailed (Account.applySendTransaction_noPanic fun hmoves t ht => ?_)
        fun _ _ => trivial
      rw [ha'] at ht
      exact ho (Or.inl rfl) hmoves a t rfl ht
  | none =>
    dsimp only
    split
    · exact safe_err _
    · exact safe_getAccount_bind fun r _ _ => safe_orFailed
        (Account.applySendTransaction_noPanic fun _ t ht => nomatch ht) fun _ _ => trivial

theorem addTransactionToAccount_begins (env : Env) :
    Begins (SendBears tx) tx.from (addTransactionToAccount env tx) := by
  refine debitSender_begins.bind fun r => ?_
  refine (creditSide_safe _).bind fun buffer _ => ?_
  exact (safe_addAccountsToBatch _).bind fun _ _ => fun _ _ _ _ _ _ => trivial

end Sends

/-! ### The futures of the batcher -/

/-- What the instructions of a call do to an entry, in their order. -/
def Outputs.effects (tx : Transaction) (outputs : Outputs) (x k : Address) : List Effect :=
  outputs.instructions.flatMap fun i => i.effects tx x k

/-- An account can bear what a transaction does to it. -/
def Append.Bears (m : Append) (x : Address) (o : Option Account) : Prop :=
  match m.transaction.transactionType, m.outputs with
  | .send _, _ => SendBears m.transaction x o
  | .bridgeIn _, _ => SendBears m.transaction x o
  | .call _, some outputs => BearsAll (outputs.effects m.transaction) x o
  | _, _ => True

section Futures

variable {tx : Transaction} {env : Env}

theorem applyInstructionsToAccounts_begins {outputs : Outputs} :
    Begins (BearsAll (outputs.effects tx)) tx.to (applyInstructionsToAccounts env tx outputs) := by
  refine ⟨_, rfl, fun o _ hnonce => ?_⟩
  cases o with
  | none => exact safe_err _
  | some caller =>
    obtain ⟨caller', hinc⟩ := Account.incrementNonce_isOk_iff.2 (hnonce caller rfl)
    have hall : BufferFits (outputs.effects tx) (fun x k =>
        (outputs.instructions.flatMap fun i => i.effects tx x k) ++ []) ∅ := by
      simp only [List.append_nil]
      exact bufferFits_empty
    dsimp only
    rw [hinc]
    intro _ _ _ _
    refine (applyInstructions_safe hall).bind fun b _ => ?_
    refine (safe_addAccountsToBatch _).bind fun _ _ => ?_
    intro _ _ _ _
    refine safe_getAccount_bind fun r _ _ => ?_
    split
    · exact safe_err _
    · exact fun _ _ => trivial

theorem applyProgramRegistration_begins {bears : Address → Option Account → Prop} :
    Begins bears tx.from (applyProgramRegistration env tx) := by
  refine ⟨_, rfl, fun o _ hnonce => ?_⟩
  cases o with
  | none => exact fun _ _ => safe_err _
  | some deployer =>
    obtain ⟨deployer', hinc⟩ := Account.incrementNonce_isOk_iff.2 (hnonce deployer rfl)
    dsimp only
    split
    · exact safe_err _
    · exact safe_err _
    · exact safe_err _
    · split
      · exact safe_err _
      · rw [hinc]
        exact fun _ _ _ _ _ _ _ _ _ _ => trivial

/-- A future of the batcher has nothing to do, or reads an account and does not panic if the
nonce of that account can grow and every account that it reads bears the transaction. -/
theorem Append.begins (env : Env) (order : HashOrder) (m : Append) :
    m.future env order = .ret () ∨ ∃ x, Begins m.Bears x (m.future env order) := by
  obtain ⟨tx, outputs⟩ := m
  unfold future appendTransaction
  cases htype : tx.transactionType with
  | send n =>
    have h : Append.Bears ⟨tx, outputs⟩ = SendBears tx := by
      funext x o
      simp only [Append.Bears, htype]
    rw [h]
    exact Or.inr ⟨_, addTransactionToAccount_begins _⟩
  | bridgeIn n =>
    have h : Append.Bears ⟨tx, outputs⟩ = SendBears tx := by
      funext x o
      simp only [Append.Bears, htype]
    rw [h]
    exact Or.inr ⟨_, addTransactionToAccount_begins _⟩
  | call n =>
    cases outputs with
    | none => exact Or.inl rfl
    | some outputs =>
      have h : Append.Bears ⟨tx, some outputs⟩ = BearsAll (outputs.effects tx) := by
        funext x o
        simp only [Append.Bears, htype]
      rw [h]
      exact Or.inr ⟨_, applyInstructionsToAccounts_begins⟩
  | registerProgram n => exact Or.inr ⟨_, applyProgramRegistration_begins⟩
  | bridgeOut n => exact Or.inl rfl

end Futures

/-! ## Runs -/

/-- An account that a future of the batcher reads can bear the transaction. In its first read
the nonce can grow besides. -/
def ReadBorne (env : Env) (storage : AccountStore) (c : NodeConfig) : NodeChoice → Prop
  | .poll i => ∀ order m x k, c.futures[i]? = some ⟨.batcher order m, .op (.getAccount x) k⟩ →
      m.Bears x (accounts storage c.world.cache x) ∧
        (.op (.getAccount x) k = m.future env order →
          ∀ a, accounts storage c.world.cache x = some a → a.nonce.toNat + 1 < 2 ^ 256)
  | _ => True

/-- A future of the batcher that has not begun, or will not panic as long as what it reads can
bear it. -/
def FutureSafe (env : Env) (f : Future effects (Fault BatcherError) Job) : Prop :=
  ∀ order m, f.label = .batcher order m →
    f.prog = m.future env order ∨ Safe m.Bears (fun _ => True) f.prog

section Runs

variable {env : Env} {storage cache : AccountStore} {chs : List NodeChoice} {c c' : NodeConfig}
  {ch : NodeChoice} {f : Future effects (Fault BatcherError) Job}

theorem FutureSafe.ne_panic (hf : FutureSafe env f) {order : HashOrder} {m : Append}
    (hlabel : f.label = .batcher order m) : f.prog ≠ .fail .panic := by
  rcases hf order m hlabel with hfresh | hsafe
  · rw [hfresh]
    rcases Append.begins env order m with hret | ⟨x, g, hget, -⟩
    · rw [hret]
      exact fun h => nomatch h
    · rw [hget]
      exact fun h => nomatch h
  · intro hpanic
    rw [hpanic] at hsafe
    exact hsafe rfl

/-- A future performs an operation. -/
theorem FutureSafe.perform {job : Job} {o : Op}
    {k : effects.Resp o → Prog effects (Fault BatcherError) Unit} {i : ℕ}
    (hf : FutureSafe env ⟨job, .op o k⟩) (hi : c.futures[i]? = some ⟨job, .op o k⟩)
    (hC : ReadBorne env storage c (.poll i)) :
    FutureSafe env ⟨job, k (World.perform storage job o c.world).1⟩ := by
  rintro order m rfl
  right
  rcases hf order m rfl with hfresh | hsafe
  · rcases Append.begins env order m with hret | ⟨x, g, hget, hg⟩
    · rw [hret] at hfresh
      cases hfresh
    · have hop : Prog.op o k = Prog.op (E := effects) (.getAccount x)
          fun r => g (Slot.account r) := hfresh.trans hget
      cases hop
      obtain ⟨hbears, hnonce⟩ := hC order m x _ hi
      exact hg _ hbears (hnonce hfresh)
  · refine hsafe _ ?_
    cases o with
    | getAccount x => exact (hC order m x k hi).1
    | _ => trivial

/-- What a message starts has not begun. -/
theorem handle_futureSafe (env : Env) (w : World) (msg : Msg) (o : Oracle) :
    ∀ f ∈ (World.handle env o msg w).futures, FutureSafe env f := by
  intro f hf order m hlabel
  by_cases hbatcher : ∃ m, msg = .batcher m
  · obtain ⟨⟨tx, outputs⟩, rfl⟩ := hbatcher
    left
    change f ∈ World.batcherFutures env o.reading.order ⟨tx, outputs⟩ at hf
    unfold World.batcherFutures at hf
    split at hf
    · next p hp =>
      rw [List.mem_singleton.1 hf] at hlabel ⊢
      cases hlabel
      change p = _
      unfold Append.future
      rw [hp]
      rfl
    · cases hf
  · obtain ⟨-, -, hnone⟩ := handle_others env w (fun m hm => hbatcher ⟨m, hm⟩) o
    have htask : batcherTask f = some ⟨(order, m), f.prog⟩ := by
      unfold batcherTask
      rw [hlabel]
    have hmem := List.mem_filterMap.2 ⟨f, hf, htask⟩
    rw [hnone] at hmem
    cases hmem

theorem perform_futureSafe (storage : AccountStore) (w : World) (job : Job) (o : Op) :
    ∀ f ∈ (World.perform storage job o w).2.futures, FutureSafe env f := by
  intro f hf order m hlabel
  cases o with
  | runContainer key thread tx contentId =>
    change f ∈ World.containerFutures key thread tx contentId at hf
    unfold World.containerFutures at hf
    split at hf
    · rw [List.mem_singleton.1 hf] at hlabel
      cases hlabel
    · cases hf
  | _ => cases hf

theorem step_futureSafe (hc : ∀ f ∈ c.futures, FutureSafe env f)
    (hC : ReadBorne env storage c ch) (h : (node env storage).Step c ch c') :
    ∀ f ∈ c'.futures, FutureSafe env f := by
  cases h with
  | inject m => exact hc
  | @deliver a o l₁ l₂ msg hmail hfirst hdest =>
    intro f hf
    rcases List.mem_append.1 hf with hf | hf
    · exact hc f hf
    · exact handle_futureSafe env c.world msg o f hf
  | @finish t₁ t₂ job x r hfut hfin =>
    have hnone : r.futures = [] := by
      obtain ⟨order, m, -, -, rfl⟩ | ⟨order, m, msg, txn, -, -, rfl⟩ | ⟨-, rfl⟩ :=
        World.finish_cases hfin
      · rfl
      · rfl
      · rfl
    intro f hf
    refine hc f ?_
    change f ∈ (t₁ ++ t₂) ++ r.futures at hf
    rw [hnone, List.append_nil] at hf
    rw [hfut]
    simp only [List.mem_append, List.mem_cons] at hf ⊢
    tauto
  | @perform t₁ t₂ job o k hfut =>
    have hi : c.futures[t₁.length]? = some ⟨job, .op o k⟩ := by
      rw [hfut, List.getElem?_append_right le_rfl, Nat.sub_self]
      rfl
    have hnext := (hc ⟨job, .op o k⟩ (by simp [hfut])).perform hi hC
    intro f hf
    rcases List.mem_append.1 hf with hf | hf
    · rcases List.mem_append.1 hf with hf | hf
      · exact hc f (by simp [hfut, hf])
      · rcases List.mem_cons.1 hf with rfl | hf
        · exact hnext
        · exact hc f (by simp [hfut, hf])
    · exact perform_futureSafe storage c.world job o f hf

/-- In every run in which each account that a future of the batcher reads can bear the
transaction, no future of the batcher panics. -/
theorem no_panic_of_borne
    (hborne : (node env storage).Along (ReadBorne env storage) (NodeConfig.start cache) chs)
    (hrun : (node env storage).run (NodeConfig.start cache) chs = some c) :
    ∀ f ∈ c.futures, ∀ order m, f.label = .batcher order m → f.prog ≠ .fail .panic := by
  have hsafe : ∀ f ∈ c.futures, FutureSafe env f :=
    run_induction (I := fun c : NodeConfig => ∀ f ∈ c.futures, FutureSafe env f)
      (fun _ _ _ _ hc hC h => step_futureSafe hc hC h)
      (fun _ hf => absurd hf List.not_mem_nil) hborne hrun
  exact fun f hf order m hlabel => (hsafe f hf).ne_panic hlabel

end Runs

instance (t : Token) (tx : Transaction) : Decidable (t.Bears tx) :=
  inferInstanceAs (Decidable (if t.ownerId = tx.from then
    if tx.transactionType.isBridgeIn then t.balance.toNat + tx.value.toNat < 2 ^ 256
    else tx.value.toNat ≤ t.balance.toNat
  else t.ownerId = tx.to → t.balance.toNat + tx.value.toNat < 2 ^ 256))

/-- A test of `ReadBorne` in a run of sends and bridge-ins : every account that is read has room,
also where none is needed. -/
def roomForSends (storage : AccountStore) (c : NodeConfig) : NodeChoice → Bool
  | .poll i =>
    match c.futures[i]? with
    | some ⟨.batcher _ m, .op (.getAccount x) _⟩ =>
      (m.transaction.transactionType.isSend || m.transaction.transactionType.isBridgeIn) &&
        match accounts storage c.world.cache x with
        | some a => a.nonce.toNat + 1 < 2 ^ 256 &&
          (a.programs m.transaction.programId).all fun t => t.Bears m.transaction
        | none => true
    | _ => true
  | _ => true

theorem ReadBorne.of_room {env : Env} {storage : AccountStore} {c : NodeConfig} {ch : NodeChoice}
    (h : roomForSends storage c ch = true) : ReadBorne env storage c ch := by
  cases ch with
  | poll i =>
    intro order m x k hi
    simp only [roomForSends, hi, Bool.and_eq_true] at h
    obtain ⟨htype, hroom⟩ := h
    have hsend : ∀ a, accounts storage c.world.cache x = some a → a.nonce.toNat + 1 < 2 ^ 256 ∧
        ∀ t, a.programs m.transaction.programId = some t → t.Bears m.transaction := by
      intro a ha
      simp only [ha, Bool.and_eq_true, decide_eq_true_eq] at hroom
      refine ⟨hroom.1, fun t ht => ?_⟩
      simpa [ht] using hroom.2
    have hbears : SendBears m.transaction x (accounts storage c.world.cache x) :=
      fun _ _ a t ha ht => (hsend a ha).2 t ht
    refine ⟨?_, fun _ a ha => (hsend a ha).1⟩
    unfold Append.Bears
    cases hm : m.transaction.transactionType <;>
      simp_all [TransactionType.isSend, TransactionType.isBridgeIn]
  | _ => trivial

/-- A chain event of 10 ETH for 0x07. -/
def tenEthIn : BridgeEvent := ⟨7#160, ETH_ADDR, 10#256, 0#256, "ERC20", 1#256⟩

/-- The event is credited. Then 0x07 asks for two sends, and the validator looks at both before
the batcher works on either; the second future makes its first read. -/
def sentTwice (value : U256) : List NodeChoice := List.flatten [
  [.inject (.engine (.eoEvent (.bridge [tenEthIn]))), .deliver .engine .plain], polls 2,
  [.deliver .pendingTransactions .plain, .deliver .validator .plain], polls 3,
  [.deliver .batcher .plain], polls 8,
  [.deliver .scheduler .plain, .deliver .pendingTransactions .plain,
    .inject (.scheduler (.send (ethSend 7#160 8#160 value 1#256) 0)),
    .inject (.scheduler (.send (ethSend 7#160 9#160 value 2#256) 1)),
    .deliver .scheduler .plain, .deliver .scheduler .plain,
    .deliver .engine .plain, .deliver .engine .plain], polls 4,
  [.deliver .pendingTransactions .plain, .deliver .pendingTransactions .plain,
    .deliver .validator .plain, .deliver .validator .plain], polls 6,
  [.deliver .batcher .plain, .deliver .batcher .plain], polls 12]

theorem sentTwice_external (value : U256) : ∀ m ∈ injected (sentTwice value), m.External := by
  intro m hm
  have hcases : m = .engine (.eoEvent (.bridge [tenEthIn])) ∨
      m = .scheduler (.send (ethSend 7#160 8#160 value 1#256) 0) ∨
      m = .scheduler (.send (ethSend 7#160 9#160 value 2#256) 1) := by
    simpa [sentTwice, injected, polls, List.replicate] using hm
  rcases hcases with rfl | rfl | rfl <;> trivial

/-- Two sends of 4 ETH : the second future goes on. -/
theorem no_panic_of_borne_sentTwice :
    ∃ c, (node .small fun _ => none).run (NodeConfig.start fun _ => none) (sentTwice 4#256) =
        some c ∧ c.futures.length = 1 ∧
      ∀ f ∈ c.futures, ∀ order m, f.label = .batcher order m → f.prog ≠ .fail .panic := by
  have hrun : ((node .small fun _ => none).run (NodeConfig.start fun _ => none)
      (sentTwice 4#256)).map (fun c => c.futures.length) = some 1 := by
    decide +kernel
  have hroom : (node .small fun _ => none).Along
      (fun c ch => roomForSends (fun _ => none) c ch = true) (NodeConfig.start fun _ => none)
      (sentTwice 4#256) := by
    decide +kernel
  obtain ⟨c, hc, hlen⟩ := Option.map_eq_some_iff.1 hrun
  exact ⟨c, hc, hlen, no_panic_of_borne (hroom.mono fun _ _ h => .of_room h) hc⟩

/-- The transaction of a batcher future that panicked. -/
def panicked (f : Future effects (Fault BatcherError) Job) : Option Transaction :=
  match f.label, f.prog with
  | .batcher _ m, .fail .panic => some m.transaction
  | _, _ => none

theorem panicked_eq_some {f : Future effects (Fault BatcherError) Job} {tx : Transaction}
    (h : panicked f = some tx) :
    ∃ order m, f.label = .batcher order m ∧ m.transaction = tx ∧ f.prog = .fail .panic := by
  unfold panicked at h
  split at h
  · next order m hlabel hprog => exact ⟨order, m, hlabel, Option.some.inj h, hprog⟩
  · cases h

/-- 0x07 has 10 ETH, and both of two sends of 6 ETH are accepted. The second subtracts 6 from 4. -/
theorem second_send_panics :
    ∃ c, (∀ m ∈ injected (sentTwice 6#256), m.External) ∧
      (node .small fun _ => none).run (NodeConfig.start fun _ => none) (sentTwice 6#256) = some c ∧
      ∃ f ∈ c.futures, ∃ order m, f.label = .batcher order m ∧
        m.transaction = ethSend 7#160 9#160 6#256 2#256 ∧ f.prog = .fail .panic := by
  have hrun : ((node .small fun _ => none).run (NodeConfig.start fun _ => none)
      (sentTwice 6#256)).map (fun c => c.futures.filterMap panicked) =
      some [ethSend 7#160 9#160 6#256 2#256] := by
    decide +kernel
  obtain ⟨c, hc, hpanicked⟩ := Option.map_eq_some_iff.1 hrun
  have hmem : ethSend 7#160 9#160 6#256 2#256 ∈ c.futures.filterMap panicked := by
    rw [hpanicked]
    exact List.mem_singleton_self _
  obtain ⟨f, hf, hpanic⟩ := List.mem_filterMap.1 hmem
  exact ⟨c, sentTwice_external _, hc, f, hf, panicked_eq_some hpanic⟩

end Lasr
