import Lasr.Feasibility

/-!
# What is copied from program accounts

A new token entry starts with the metadata and data of its program account. That is all an edit
takes from there : two edits that differ in the program account at most leave the same account,
up to the metadata and data of its entries (`Edit.apply_bare`), and so do two runs of an
instruction with other program accounts (`Instruction.alike`). Accounts that are alike and have
the same metadata and data in their entries are the same (`AlikeOn.eq`).
-/

set_option linter.unusedSectionVars false

namespace Lasr

/-! ## Metadata and data -/

/-- What goes from a program account into new token entries : metadata and data. -/
abbrev Template := Metadata × ArbitraryData

/-- That of a program account. -/
def Account.template (a : Account) : Template :=
  (a.programAccountMetadata, a.programAccountData)

/-- The same of an account that may be missing. -/
def templateOf (o : Option Account) : Template :=
  match o with
  | some a => a.template
  | none => (fun _ => none, fun _ => none)

/-- The metadata and data of an entry. -/
def Token.template (t : Token) : Template := (t.metadata, t.data)

/-- Metadata after an update. -/
def MetadataValue.revise (m : Metadata) : MetadataValue → Metadata
  | .insert key value => m.insert key value
  | .extend iter => m.extend iter
  | .remove key => m.remove key

/-- Data after an update. -/
def DataValue.revise (d : ArbitraryData) : DataValue → ArbitraryData
  | .insert key value => d.insert key value
  | .extend iter => d.extend iter
  | .remove key => d.remove key

/-- Metadata and data after the update of a field of a token. Most fields are others. -/
def TokenFieldValue.revise (T : Template) : TokenFieldValue → Template
  | .metadata u => (u.revise T.1, T.2)
  | .data u => (T.1, u.revise T.2)
  | _ => T

/-- The same for a field of a program. -/
def ProgramFieldValue.revise (T : Template) : ProgramFieldValue → Template
  | .metadata u => (u.revise T.1, T.2)
  | .data u => (T.1, u.revise T.2)
  | .linkedPrograms _ => T

/-- Metadata and data after updates of an entry. -/
def reviseEntry (updates : List TokenUpdateField) (T : Template) : Template :=
  updates.foldl (fun T u => u.value.revise T) T

/-- Metadata and data after updates of a program. -/
def reviseProgram (updates : List ProgramUpdateField) (T : Template) : Template :=
  updates.foldl (fun T u => u.value.revise T) T

theorem reviseEntry_append (us us' : List TokenUpdateField) (T : Template) :
    reviseEntry (us ++ us') T = reviseEntry us' (reviseEntry us T) :=
  List.foldl_append

theorem reviseProgram_append (us us' : List ProgramUpdateField) (T : Template) :
    reviseProgram (us ++ us') T = reviseProgram us' (reviseProgram us T) :=
  List.foldl_append

/-! ## Entries -/

namespace Token

/-- A token with other metadata and data. -/
def withTemplate (t : Token) (T : Template) : Token :=
  { t with metadata := T.1, data := T.2 }

/-- A token without metadata and data. -/
def bare (t : Token) : Token := t.withTemplate (fun _ => none, fun _ => none)

@[simp] theorem bare_withTemplate (t : Token) (T : Template) : (t.withTemplate T).bare = t.bare :=
  rfl

theorem withTemplate_of_bare {t t' : Token} (h : t.bare = t'.bare) :
    t' = t.withTemplate t'.template := by
  have hself : t' = t'.bare.withTemplate t'.template := rfl
  have hback : t.bare.withTemplate t'.template = t.withTemplate t'.template := rfl
  exact hself.trans ((congrArg (fun u : Token => u.withTemplate t'.template) h.symm).trans hback)

section Commutes

variable {amount : Option U256} {ids : List U256} {updates : List TokenUpdateField}

/-- A receipt does not look at metadata and data. -/
theorem receive_withTemplate (t : Token) (T : Template) :
    (t.withTemplate T).receive amount ids =
      (t.receive amount ids).map fun t' => t'.withTemplate T := by
  have hcredit : ∀ amt, (t.withTemplate T).credit amt =
      (t.credit amt).map fun t' => t'.withTemplate T := by
    intro amt
    change (U256.add t.balance amt >>= _) = (U256.add t.balance amt >>= _).map _
    cases U256.add t.balance amt <;> rfl
  have hids : ∀ u : Token, (if ids.isEmpty then pure (u.withTemplate T)
      else (u.withTemplate T).addTokenIds ids : AccountResult Token) =
        (if ids.isEmpty then pure u else u.addTokenIds ids : AccountResult Token).map
          fun t' => t'.withTemplate T := by
    intro u
    split_ifs <;> rfl
  cases amount with
  | none => exact hids t
  | some amt =>
    change (_ >>= _) = (_ >>= _ : AccountResult Token).map _
    simp only [hcredit]
    cases t.credit amt with
    | error e => rfl
    | ok u => exact hids u

theorem applyTokenUpdateFieldValues_withTemplate (t : Token) (T : Template)
    (u : TokenFieldValue) : (t.withTemplate T).applyTokenUpdateFieldValues u =
      (t.applyTokenUpdateFieldValues u).map fun t' => t'.withTemplate (u.revise T) := by
  cases u with
  | metadata u => cases u <;> rfl
  | data u => cases u <;> rfl
  | status u =>
    cases u with
    | reverse =>
      simp only [applyTokenUpdateFieldValues, applyStatusUpdate, withTemplate]
      cases t.status <;> rfl
    | lock => rfl
    | unlock => rfl
  | approvals u =>
    cases u with
    | insert key value =>
      simp only [applyTokenUpdateFieldValues, applyApprovalsUpdate, withTemplate]
      cases t.approvals key <;> rfl
    | extend values => rfl
    | remove key values =>
      simp only [applyTokenUpdateFieldValues, applyApprovalsUpdate, withTemplate]
      cases t.approvals key with
      | none => rfl
      | some entry =>
        dsimp only
        split_ifs <;> rfl
    | revoke key => rfl
  | allowance u =>
    cases u with
    | insert key value =>
      simp only [applyTokenUpdateFieldValues, applyAllowanceUpdate, withTemplate]
      cases t.allowance key with
      | none => rfl
      | some entry =>
        dsimp only
        cases U256.add entry value <;> rfl
    | extend values => rfl
    | remove key value =>
      simp only [applyTokenUpdateFieldValues, applyAllowanceUpdate, withTemplate]
      cases t.allowance key with
      | none => rfl
      | some entry =>
        dsimp only
        cases U256.sub entry value with
        | error e => rfl
        | ok left =>
          change (if left = 0#256 then _ else _) = (if left = 0#256 then _ else _ :
            AccountResult Token).map _
          split_ifs <;> rfl
    | revoke key => rfl

/-- The updates of an entry look at its metadata and data only to change them. -/
theorem applyUpdates_withTemplate : ∀ (updates : List TokenUpdateField) (t : Token) (T : Template),
    (t.withTemplate T).applyUpdates updates =
      (t.applyUpdates updates).map fun t' => t'.withTemplate (reviseEntry updates T)
  | [], _, _ => rfl
  | u :: us, t, T => by
    have hcons : ∀ t : Token, t.applyUpdates (u :: us) =
        t.applyTokenUpdateFieldValues u.value >>= fun t' => t'.applyUpdates us := fun t => by
      simp only [applyUpdates, List.foldlM_cons]
    rw [hcons, hcons, applyTokenUpdateFieldValues_withTemplate]
    cases t.applyTokenUpdateFieldValues u.value with
    | error e => rfl
    | ok t' => exact applyUpdates_withTemplate us t' (u.value.revise T)

/-- Neither does a gift. -/
theorem give_withTemplate (t : Token) (T : Template) :
    (t.withTemplate T).give amount ids = (t.give amount ids).map fun t' => t'.withTemplate T := by
  have hdebit : ∀ amt, (t.withTemplate T).debit amt =
      (t.debit amt).map fun t' => t'.withTemplate T := by
    intro amt
    unfold debit
    by_cases h : amt > t.balance
    · have h' : amt > (t.withTemplate T).balance := h
      rw [if_pos h, if_pos h']
      rfl
    · have h' : ¬amt > (t.withTemplate T).balance := h
      rw [if_neg h, if_neg h']
      change (U256.sub t.balance amt >>= _) = (U256.sub t.balance amt >>= _).map _
      cases U256.sub t.balance amt <;> rfl
  have hids : ∀ u : Token, (if ids.isEmpty then pure (u.withTemplate T)
      else (u.withTemplate T).removeTokenIds ids : AccountResult Token) =
        (if ids.isEmpty then pure u else u.removeTokenIds ids : AccountResult Token).map
          fun t' => t'.withTemplate T := by
    intro u
    have hremove : (u.withTemplate T).removeTokenIds ids =
        (u.removeTokenIds ids).map fun t' => t'.withTemplate T := by
      simp only [removeTokenIds]
      change (if _ then _ else _) = _
      rw [apply_ite (Except.map fun t' : Token => t'.withTemplate T)]
      rfl
    split_ifs
    · rfl
    · exact hremove
  cases amount with
  | none => exact hids t
  | some amt =>
    change (_ >>= _) = (_ >>= _ : AccountResult Token).map _
    simp only [hdebit]
    cases t.debit amt with
    | error e => rfl
    | ok u => exact hids u

theorem give_template {t t' : Token} (h : t.give amount ids = .ok t') :
    t'.template = t.template := by
  rw [Token.give_eq h]
  rfl

end Commutes
end Token

/-- Options with the same image are both empty, or both are not. -/
theorem map_eq_map_cases {α β : Type} {f : α → β} {o o' : Option α} (h : o.map f = o'.map f) :
    (o = none ∧ o' = none) ∨ ∃ a b, o = some a ∧ o' = some b ∧ f a = f b := by
  cases o with
  | none => exact Or.inl ⟨rfl, Option.map_eq_none_iff.1 h.symm⟩
  | some a =>
    obtain ⟨b, hb, hab⟩ := Option.map_eq_some_iff.1 h.symm
    exact Or.inr ⟨a, b, rfl, hb, hab.symm⟩

/-- An account without the metadata and data of its entries. -/
def Account.bare (a : Account) : Account :=
  { a with programs := fun k => (a.programs k).map Token.bare }

namespace Account

/-- An account is what it is without the metadata and data of its entries, and those. -/
theorem eq_of_bare {a b : Account} (h : a.bare = b.bare)
    (ht : ∀ k, (a.programs k).map Token.template = (b.programs k).map Token.template) : a = b := by
  have hprograms : a.programs = b.programs := by
    funext k
    have hk : (a.programs k).map Token.bare = (b.programs k).map Token.bare :=
      congrFun (congrArg Account.programs h) k
    have htk := ht k
    rcases map_eq_map_cases hk with ⟨ha, hb⟩ | ⟨t, t', ha, hb, hbare⟩
    · rw [ha, hb]
    · rw [ha, hb, Option.map_some, Option.map_some, Option.some.injEq] at htk
      rw [ha, hb, Token.withTemplate_of_bare hbare, ← htk]
      rfl
  have hrest : ∀ c : Account, c = { c.bare with programs := c.programs } := fun _ => rfl
  rw [hrest a, hrest b, h, hprograms]

theorem bare_insertProgram (a : Account) (k : Address) (t : Token) :
    (a.insertProgram k t).bare = a.bare.insertProgram k t.bare := by
  unfold bare insertProgram
  refine congrArg (fun p => { a with programs := p }) (funext fun k' => ?_)
  simp only [BTreeMap.insert, Function.update_apply]
  split_ifs <;> rfl

theorem address_of_bare {a b : Account} (h : a.bare = b.bare) : a.address = b.address := by
  have haddress : ∀ c : Account, c.address = c.bare.address := fun _ => rfl
  rw [haddress a, haddress b, h]

theorem ownerAddress_of_bare {a b : Account} (h : a.bare = b.bare) :
    a.ownerAddress = b.ownerAddress :=
  (congrArg Account.ownerAddress h : a.bare.ownerAddress = b.bare.ownerAddress)

end Account

/-! ## Edits -/

namespace Edit

variable {a b : Account} {k : Address} {amount : Option U256} {ids : List U256}
  {updates : List TokenUpdateField}

/-- What an edit starts a missing entry with, and the updates that follow. -/
def starts : Edit → Option (Address × Template × List TokenUpdateField)
  | .receive k _ _ programAccount => some (k, templateOf programAccount, [])
  | .distribute k _ _ updates programAccount => some (k, programAccount.template, updates)
  | .updateToken k updates programAccount => some (k, programAccount.template, updates)
  | _ => none

/-- Everything an edit is, but for the program account. -/
def rest : Edit → Edit
  | .receive k amount ids _ => .receive k amount ids none
  | .distribute k amount ids updates _ =>
    .distribute k amount ids updates (Account.build .user 0#160)
  | .updateToken k updates _ => .updateToken k updates (Account.build .user 0#160)
  | e => e

/-- The entry that is missing, with the metadata and data of `T`. -/
def fresh (k owner : Address) (T : Template) : Token :=
  Token.fresh k owner T.1 T.2

/-- The work of an edit on the entry, once it is there. -/
def work : Edit → Token → AccountResult Token
  | .receive _ amount ids _, t => t.receive amount ids
  | .distribute _ amount ids updates _, t =>
    t.receive amount ids >>= fun u => u.applyUpdates updates
  | .updateToken _ updates _, t => t.applyUpdates updates
  | _, t => .ok t

/-- Who owns an entry that an edit starts. -/
def entryOwner : Edit → Account → Address
  | .receive _ _ _ _, a => a.ownerAddress
  | _, a => a.address

/-- An edit that may start an entry works on the one that is there, or on a fresh one. -/
theorem apply_of_starts {e : Edit} {T : Template} (h : e.starts = some (k, T, updates))
    (a : Account) : e.apply a =
      (e.work ((a.programs k).getD (fresh k (e.entryOwner a) T))).toOption.map
        (a.insertProgram k) := by
  cases e with
  | receive k' amount ids programAccount =>
    cases h
    simp only [apply, Account.applyTransferToInstruction, work]
    cases hk : a.programs k with
    | none =>
      cases programAccount <;> exact toOption_put fun _ ht => (Token.receive_ok ht).2
    | some t => exact toOption_put fun _ _ => rfl
  | distribute k' amount ids updates' programAccount =>
    cases h
    simp only [apply, Account.applyTokenDistribution, work, ← bind_assoc]
    cases hk : a.programs k with
    | none =>
      refine toOption_put fun t' ht => ?_
      obtain ⟨u, hu, ht⟩ := Except.bind_eq_ok_iff.1 ht
      exact (Token.applyUpdates_ok ht).2.trans (Token.receive_ok hu).2
    | some t => exact toOption_put fun _ _ => rfl
  | updateToken k' updates' programAccount =>
    cases h
    simp only [apply, Account.applyTokenUpdate, work]
    cases hk : a.programs k with
    | none => exact toOption_put fun _ _ => rfl
    | some t => exact toOption_put fun _ _ => rfl
  | _ => cases h

theorem work_withTemplate {e : Edit} {T : Template} (h : e.starts = some (k, T, updates))
    (t : Token) (T' : Template) : e.work (t.withTemplate T') =
      (e.work t).map fun t' => t'.withTemplate (reviseEntry updates T') := by
  cases e with
  | receive k' amount ids programAccount =>
    cases h
    exact t.receive_withTemplate T'
  | distribute k' amount ids updates' programAccount =>
    cases h
    simp only [work, Token.receive_withTemplate]
    cases t.receive amount ids with
    | error e => rfl
    | ok u => exact Token.applyUpdates_withTemplate updates u T'
  | updateToken k' updates' programAccount =>
    cases h
    exact Token.applyUpdates_withTemplate updates t T'
  | _ => cases h

theorem work_bare {e : Edit} {T : Template} (h : e.starts = some (k, T, updates)) {t t' : Token}
    (ht : t.bare = t'.bare) :
    (e.work t).toOption.map Token.bare = (e.work t').toOption.map Token.bare := by
  rw [Token.withTemplate_of_bare ht, work_withTemplate h]
  cases e.work t <;> rfl

/-- Two edits that may start an entry, and differ in the program account at most. -/
theorem rest_eq_of_starts {e e' : Edit} {T : Template} (he : e.rest = e'.rest)
    (h : e.starts = some (k, T, updates)) :
    (∃ T', e'.starts = some (k, T', updates)) ∧ e'.work = e.work ∧
      e'.entryOwner = e.entryOwner := by
  cases e with
  | receive k' amount ids programAccount =>
    cases h
    cases e' <;> cases he
    exact ⟨⟨_, rfl⟩, rfl, rfl⟩
  | distribute k' amount ids updates' programAccount =>
    cases h
    cases e' <;> cases he
    exact ⟨⟨_, rfl⟩, rfl, rfl⟩
  | updateToken k' updates' programAccount =>
    cases h
    cases e' <;> cases he
    exact ⟨⟨_, rfl⟩, rfl, rfl⟩
  | _ => cases h

/-- An edit of entries that are there has nothing to look up. -/
theorem eq_of_rest {e e' : Edit} (he : e.rest = e'.rest) (h : e.starts = none) : e' = e := by
  cases e <;> cases h <;> cases e' <;> cases he <;> rfl

theorem programs_bare (hab : a.bare = b.bare) (k : Address) :
    (a.programs k).map Token.bare = (b.programs k).map Token.bare :=
  congrFun (congrArg Account.programs hab) k

theorem applyProgramUpdateFieldValues_bare : ∀ (us : List ProgramUpdateField) (a : Account),
    (us.foldl (fun a u => a.applyProgramUpdateFieldValues u.value) a).bare =
      us.foldl (fun a u => a.applyProgramUpdateFieldValues u.value) a.bare
  | [], _ => rfl
  | u :: us, a => by
    have hone : (a.applyProgramUpdateFieldValues u.value).bare =
        a.bare.applyProgramUpdateFieldValues u.value := by
      rcases u with ⟨v | v | v⟩ <;> cases v <;> rfl
    rw [List.foldl_cons, List.foldl_cons, applyProgramUpdateFieldValues_bare us, hone]

/-- Two edits that differ in the program account at most make accounts that differ in the
metadata and data of entries at most. -/
theorem apply_bare {e e' : Edit} (he : e.rest = e'.rest) (hab : a.bare = b.bare) :
    (e.apply a).map Account.bare = (e'.apply b).map Account.bare := by
  cases hstarts : e.starts with
  | some s =>
    obtain ⟨k, T, updates⟩ := s
    obtain ⟨⟨T', hstarts'⟩, hwork, howner⟩ := rest_eq_of_starts he hstarts
    have hentry : ((a.programs k).getD (fresh k (e.entryOwner a) T)).bare =
        ((b.programs k).getD (fresh k (e'.entryOwner b) T')).bare := by
      have hk := programs_bare hab k
      have hof : e.entryOwner a = e.entryOwner b := by
        cases e <;>
          first | exact Account.ownerAddress_of_bare hab | exact Account.address_of_bare hab
      rcases map_eq_map_cases hk with ⟨ha, hb⟩ | ⟨t, t', ha, hb, hbare⟩
      · rw [ha, hb, howner, Option.getD_none, Option.getD_none, hof]
        rfl
      · rw [ha, hb]
        exact hbare
    have hput : ∀ (c : Account) (o : Option Token), (o.map (c.insertProgram k)).map Account.bare =
        (o.map Token.bare).map (c.bare.insertProgram k) := by
      intro c o
      cases o with
      | none => rfl
      | some t => exact congrArg some (c.bare_insertProgram k t)
    rw [apply_of_starts hstarts, apply_of_starts hstarts', hput, hput, work_bare hstarts hentry,
      hwork, hab]
  | none =>
    rw [eq_of_rest he hstarts]
    cases e with
    | give k amount ids =>
      have hk := programs_bare hab k
      rw [give_eq, give_eq]
      rcases map_eq_map_cases hk with ⟨ha, hb⟩ | ⟨t, t', ha, hb, hbare⟩
      · rw [ha, hb]
        rfl
      · rw [ha, hb, Option.bind_some, Option.bind_some, Token.withTemplate_of_bare hbare,
          Token.give_withTemplate]
        cases t.give amount ids with
        | error e => rfl
        | ok u =>
          simp only [Except.map, Except.toOption, Option.map_some, Account.bare_insertProgram, hab,
            Token.bare_withTemplate]
    | updateProgram u =>
      have htype : a.accountType = b.accountType :=
        (congrArg Account.accountType hab : a.bare.accountType = b.bare.accountType)
      simp only [apply, Account.applyProgramUpdate, htype]
      cases b.accountType with
      | user => rfl
      | program programAddress =>
        simp only [Except.toOption, Option.map_some, applyProgramUpdateFieldValues_bare, hab]
    | keep => exact congrArg some hab
    | _ => cases hstarts

end Edit

/-- The metadata and data of the entry of `k` at `x`. -/
def AccountMap.entryAt (v : AccountMap) (x k : Address) : Option Template :=
  (v x).bind fun a => (a.programs k).map Token.template

/-! ## Two runs of one instruction -/

section Alike

variable {tx : Transaction} {w w' s s' t t' : AccountMap} {i : Instruction}

/-- Two maps that differ at the addresses of `F` in the metadata and data of entries at most. -/
def AlikeOn (F : Set Address) (s s' : AccountMap) : Prop :=
  ∀ x ∈ F, (s x).map Account.bare = (s' x).map Account.bare

/-- Two changes that differ in the program account at most. -/
theorem sameView_of_rest {c d : AccountChange} (hkey : d.key = c.key) (hfresh : d.fresh = c.fresh)
    (hrest : c.edit.rest = d.edit.rest) : c.SameView Edit.apply Account.bare d := by
  refine ⟨hkey, fun o o' ho => ?_⟩
  have hor : (o.or c.fresh).map Account.bare = (o'.or d.fresh).map Account.bare := by
    rw [hfresh]
    rcases map_eq_map_cases ho with ⟨rfl, rfl⟩ | ⟨a, b, rfl, rfl, hab⟩
    · rfl
    · exact congrArg some hab
  unfold Change.step
  rcases map_eq_map_cases hor with ⟨ha, hb⟩ | ⟨a, b, ha, hb, hab⟩
  · rw [ha, hb]
    rfl
  · rw [ha, hb]
    exact Edit.apply_bare hrest hab

theorem forall₂_of_mapM {α β γ : Type} {f : α → Option β} {g : α → Option γ} {R : β → γ → Prop}
    (hfg : ∀ a b c, f a = some b → g a = some c → R b c) :
    ∀ {l : List α} {bs : List β} {cs : List γ}, l.mapM f = some bs → l.mapM g = some cs →
      List.Forall₂ R bs cs
  | [], _, _, hf, hg => by
    cases hf
    cases hg
    exact .nil
  | a :: l, _, _, hf, hg => by
    rw [mapM_cons_some] at hf hg
    obtain ⟨b, hb, hf⟩ := Option.bind_eq_some_iff.1 hf
    obtain ⟨bs, hbs, rfl⟩ := Option.map_eq_some_iff.1 hf
    obtain ⟨c, hc, hg⟩ := Option.bind_eq_some_iff.1 hg
    obtain ⟨cs, hcs, rfl⟩ := Option.map_eq_some_iff.1 hg
    exact .cons (hfg a b c hb hc) (forall₂_of_mapM hfg hbs hcs)

theorem sameView_refl (m : AccountMove) : m.SameView Edit.apply Account.bare m := by
  cases m with
  | one c => exact .one (sameView_of_rest rfl rfl rfl)
  | pair c d => exact .pair (sameView_of_rest rfl rfl rfl) (sameView_of_rest rfl rfl rfl)

/-- The plan of an instruction, made with other program accounts. -/
theorem Instruction.plan_sameView {ms ms' : List AccountMove} (h : i.plan tx w = some ms)
    (h' : i.plan tx w' = some ms') :
    List.Forall₂ (Move.SameView Edit.apply Account.bare) ms ms' := by
  have hones : ∀ {cs ds : List AccountChange},
      List.Forall₂ (Change.SameView Edit.apply Account.bare) cs ds →
      List.Forall₂ (Move.SameView Edit.apply Account.bare) (cs.map .one) (ds.map .one) :=
    fun h => List.forall₂_map_left_iff.2 (List.forall₂_map_right_iff.2 (h.imp fun _ _ => .one))
  cases i with
  | transfer i =>
    obtain ⟨m, hm, rfl⟩ := Option.map_eq_some_iff.1 h
    obtain ⟨m', hm', rfl⟩ := Option.map_eq_some_iff.1 h'
    obtain ⟨x, y, p, hx, hy, -, rfl⟩ := TransferInstruction.plan_eq_some hm
    obtain ⟨x', y', p', hx', hy', -, rfl⟩ := TransferInstruction.plan_eq_some hm'
    cases hx.symm.trans hx'
    cases hy.symm.trans hy'
    exact .cons (.pair (sameView_of_rest rfl rfl rfl) (sameView_of_rest rfl rfl rfl)) .nil
  | burn i =>
    cases h.symm.trans h'
    exact List.forall₂_same.2 fun m _ => sameView_refl m
  | create i =>
    obtain ⟨cs, hcs, rfl⟩ := Option.map_eq_some_iff.1 h
    obtain ⟨ds, hds, rfl⟩ := Option.map_eq_some_iff.1 h'
    refine List.rel_append (hones (forall₂_of_mapM (fun d c c' hc hc' => ?_) hcs hds))
      (.cons (sameView_refl _) .nil)
    obtain ⟨k, hk, hc⟩ := Option.bind_eq_some_iff.1 hc
    obtain ⟨y, hy, hc⟩ := Option.bind_eq_some_iff.1 hc
    obtain ⟨p, -, hc⟩ := Option.bind_eq_some_iff.1 hc
    obtain ⟨k', hk', hc'⟩ := Option.bind_eq_some_iff.1 hc'
    obtain ⟨y', hy', hc'⟩ := Option.bind_eq_some_iff.1 hc'
    obtain ⟨p', -, hc'⟩ := Option.bind_eq_some_iff.1 hc'
    cases hk.symm.trans hk'
    cases hy.symm.trans hy'
    cases hc
    cases hc'
    exact sameView_of_rest rfl rfl rfl
  | update i =>
    obtain ⟨cs, hcs, rfl⟩ := Option.map_eq_some_iff.1 h
    obtain ⟨ds, hds, rfl⟩ := Option.map_eq_some_iff.1 h'
    refine hones (forall₂_of_mapM (fun u c c' hc hc' => ?_) hcs hds)
    cases u with
    | programUpdate u =>
      cases hc.symm.trans hc'
      exact sameView_of_rest rfl rfl rfl
    | tokenUpdate u =>
      obtain ⟨k, hk, hc⟩ := Option.bind_eq_some_iff.1 hc
      obtain ⟨x, hx, hc⟩ := Option.bind_eq_some_iff.1 hc
      obtain ⟨p, -, hc⟩ := Option.bind_eq_some_iff.1 hc
      obtain ⟨k', hk', hc'⟩ := Option.bind_eq_some_iff.1 hc'
      obtain ⟨x', hx', hc'⟩ := Option.bind_eq_some_iff.1 hc'
      obtain ⟨p', -, hc'⟩ := Option.bind_eq_some_iff.1 hc'
      cases hk.symm.trans hk'
      cases hx.symm.trans hx'
      cases hc
      cases hc'
      exact sameView_of_rest rfl rfl rfl
  | log i =>
    cases h
    cases h'
    exact .nil

/-- An instruction run from alike maps, with whatever program accounts, leaves alike maps. -/
theorem Instruction.alike {F : Set Address} (hs : AlikeOn F s s')
    (h : ((i.plan tx w).bind fun ms => runMoves Edit.apply ms s) = some t)
    (h' : ((i.plan tx w').bind fun ms => runMoves Edit.apply ms s') = some t') :
    AlikeOn F t t' := by
  obtain ⟨ms, hms, hrun⟩ := Option.bind_eq_some_iff.1 h
  obtain ⟨ms', hms', hrun'⟩ := Option.bind_eq_some_iff.1 h'
  exact runMoves_sameView (Instruction.plan_sameView hms hms') hs hrun hrun'

/-- Maps that are alike and have the same metadata and data in their entries are the same. -/
theorem AlikeOn.eq {F : Set Address} (hs : AlikeOn F s s') {x : Address} (hx : x ∈ F)
    (ht : ∀ k, s.entryAt x k = s'.entryAt x k) : s x = s' x := by
  unfold AccountMap.entryAt at ht
  rcases map_eq_map_cases (hs x hx) with ⟨ha, hb⟩ | ⟨a, b, ha, hb, hab⟩
  · rw [ha, hb]
  · rw [ha, hb] at ht
    rw [ha, hb, Account.eq_of_bare hab ht]

end Alike

end Lasr
