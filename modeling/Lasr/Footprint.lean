import Lasr.Sends
import Lasr.Calls

/-!
# Which accounts a future touches

What a batcher future can do, from its transaction and outputs alone (`Op.Within`) : it reads
accounts of one set, writes accounts of a smaller one, and casts nothing but reports of the
outcome. Until it writes its buffer a send or a call only reads the cache, apart from the
nonce a call writes first (`applyInstructions_reads`).

An instruction may change the accounts it names (`Instruction.written`), and consults the
program accounts of the tokens it moves for their metadata (`Instruction.consulted`). The
graph of pending transactions knows nothing of the latter.
-/

set_option linter.unusedSectionVars false

namespace Lasr

/-- A report of how a transaction ended. -/
def Msg.IsReport : Msg → Prop
  | .scheduler (.call _ _) => False
  | .scheduler (.send _ _) => False
  | .scheduler (.registerProgram _ _) => False
  | .scheduler _ => True
  | .pending (.valid _) => True
  | .pending (.validCall _ _) => True
  | .pending (.invalid _ _) => True
  | _ => False

/-- A read of an account in `R`. -/
def Op.Reads (R : Set Address) (o : Op) : Prop :=
  ∃ a ∈ R, o = .getAccount a

/-- An operation of a batcher future that reads in `R` and writes in `W`. -/
def Op.Within (R W : Set Address) : Op → Prop
  | .getAccount a => a ∈ R
  | .cacheAccount account => account.address ∈ W
  | .insertAccount _ => True
  | .insertTransaction _ => True
  | .cast m => m.IsReport
  | .runContainer _ _ _ _ => False
  | .takeHandle _ => False

theorem Op.Reads.within {R W : Set Address} {o : Op} (h : o.Reads R) : o.Within R W := by
  obtain ⟨a, ha, rfl⟩ := h
  exact ha

section Rules

variable {ε α β : Type} {P : Op → Prop} {Q : α → Prop} {Q' : β → Prop} {R : Set Address}

/-- After a read the rest sees no account, or one of the address it asked for. -/
theorem meets_getAccount_bind {a : Address} {f : Option Account → Async ε β}
    (ha : P (.getAccount a))
    (hf : ∀ r, (∀ account, r = some account → account.address = a) → (f r).Meets P Q') :
    Prog.Meets P Q' (getAccount a >>= f) :=
  ⟨ha, fun _ => hf _ fun _ h => Slot.address_of_account h⟩

theorem meets_orCustom {x : AccountResult α} (h : ∀ a, x = .ok a → Q a) :
    Prog.Meets P Q (orCustom x) := by
  refine Prog.meets_ofExcept fun a ha => h a ?_
  cases x with
  | error e => cases ha
  | ok b =>
    cases ha
    rfl

theorem meets_orFailed {tx : Transaction} {x : AccountResult α} (h : ∀ a, x = .ok a → Q a) :
    Prog.Meets P Q (orFailed tx x) := by
  refine Prog.meets_ofExcept fun a ha => h a ?_
  cases x with
  | error e => cases ha
  | ok b =>
    cases ha
    rfl

/-- A program that only reads leaves the cache, whatever comes out. -/
theorem runAlone_of_reads {p : Async ε α} (h : p.Meets (Op.Reads R) Q)
    (storage cache : AccountStore) : (runAlone storage p cache).2 = cache := by
  refine Prog.run_invariant (I := fun c => c = cache) ?_ p cache h rfl
  rintro o c ⟨a, -, rfl⟩ hc
  exact hc

end Rules

/-! ## The sides of a send -/

section Send

variable {R W : Set Address} {tx : Transaction}

theorem creditReceiver_reads (hp : tx.programId ∈ R) (account : Account) :
    (creditReceiver tx account).Meets (Op.Reads R) fun a => a.address = account.address := by
  have happly : ∀ programAccount, (creditWith tx account programAccount).Meets (Op.Reads R)
      fun a => a.address = account.address := by
    intro programAccount
    unfold creditWith
    split
    · next account' token heq =>
      exact Prog.meets_ret (Account.applySendTransaction_sameHeader heq).address
    · exact Prog.meets_ret rfl
    · trivial
  refine meets_getAccount_bind ⟨_, hp, rfl⟩ fun r _ => ?_
  split
  · exact happly _
  · split
    · exact happly _
    · split
      · exact happly _
      · trivial

theorem debitSender_reads (hf : tx.from ∈ R) (hp : tx.programId ∈ R) :
    (debitSender tx).Meets (Op.Reads R) fun r => r.1.address = tx.from := by
  refine meets_getAccount_bind ⟨_, hf, rfl⟩ fun r hr => ?_
  split
  · next account =>
    refine Prog.Meets.bind (fun a ha => ?_)
      (meets_orFailed (Q := fun a => a.address = tx.from) fun a ha => ?_)
    · exact meets_orFailed fun r hr =>
        (Account.applySendTransaction_sameHeader hr).address.trans ha
    · exact (Account.incrementNonce_keeps ha).1.trans (hr account rfl)
  · split
    · trivial
    · refine meets_getAccount_bind ⟨_, hp, rfl⟩ fun pa _ => ?_
      exact meets_orFailed fun r hr => (Account.applySendTransaction_sameHeader hr).address

theorem creditSide_reads (hWR : W ⊆ R) (ht : tx.to ∈ W) (hp : tx.programId ∈ R)
    {buffer : HashMap String Account}
    (hb : ∀ k account, buffer.lookup k = some account → account.address ∈ W) :
    (creditSide tx buffer).Meets (Op.Reads R) fun b =>
      ∀ k account, b.lookup k = some account → account.address ∈ W := by
  have hinsert : ∀ account : Account, account.address ∈ W →
      (creditReceiver tx account >>= fun a => pure (buffer.insert (Address.toFullString tx.to) a) :
        BatcherM _).Meets (Op.Reads R) fun b =>
          ∀ k account, b.lookup k = some account → account.address ∈ W := by
    intro account ha
    refine Prog.Meets.bind (fun a haddr => ?_) (creditReceiver_reads hp account)
    refine Prog.meets_ret fun k acct hk => ?_
    rcases HashMap.lookup_insert_cases hk with rfl | hk
    · rw [haddr]
      exact ha
    · exact hb k acct hk
  unfold creditSide
  split
  · refine meets_getAccount_bind ⟨_, hWR ht, rfl⟩ fun r hr => ?_
    split
    · next account =>
      exact hinsert account (by rw [hr account rfl]; exact ht)
    · exact hinsert _ ht
  · split
    · split
      · next account hacc => exact hinsert account (hb _ _ hacc)
      · refine meets_getAccount_bind ⟨_, hWR ht, rfl⟩ fun r hr => ?_
        split
        · next account =>
          exact hinsert account (by rw [hr account rfl]; exact ht)
        · trivial
    · exact Prog.meets_ret hb

theorem sendAccounts_reads : (sendAccounts tx).Meets (Op.Reads Set.univ) fun _ => True := by
  refine Prog.Meets.bind (fun r _ => ?_) (debitSender_reads (Set.mem_univ _) (Set.mem_univ _))
  refine Prog.Meets.bind (fun _ _ => Prog.meets_ret trivial) (creditSide_reads (Set.Subset.refl _)
    (Set.mem_univ _) (Set.mem_univ _) fun _ _ _ => Set.mem_univ _)

end Send

/-! ## The instructions of a call -/

section Instruction

variable {R W : Set Address} {tx : Transaction} {batchBuffer : BatchBuffer}

/-- Every buffered account is kept under its own address, which is in `W`. -/
def BatchBuffer.In (W : Set Address) (batchBuffer : BatchBuffer) : Prop :=
  ∀ a account, batchBuffer.lookup a = some account → account.address = a ∧ a ∈ W

theorem BatchBuffer.In.insert (hb : BatchBuffer.In W batchBuffer) {a : Address}
    {account : Account} (ha : account.address = a) (hW : a ∈ W) :
    BatchBuffer.In W (batchBuffer.insert a account) := by
  intro b acct h
  by_cases hab : b = a
  · subst hab
    rw [AList.lookup_insert] at h
    cases h
    exact ⟨ha, hW⟩
  · rw [AList.lookup_insert_ne hab] at h
    exact hb b acct h

theorem BatchBuffer.In.add (hb : BatchBuffer.In W batchBuffer) {account : Account}
    (hW : account.address ∈ W) : BatchBuffer.In W (addAccountToBatchBuffer batchBuffer account) :=
  hb.insert rfl hW

theorem meets_fetchAccount_bind {β : Type} {Q : β → Prop} {x : Address}
    {f : Option Account → BatcherM β} (hb : BatchBuffer.In W batchBuffer) (hx : x ∈ R)
    (hf : ∀ r, (∀ account, r = some account → account.address = x) → (f r).Meets (Op.Reads R) Q) :
    Prog.Meets (Op.Reads R) Q (fetchAccount x batchBuffer >>= f) := by
  unfold fetchAccount
  split
  · next account hacc =>
    refine hf (some account) fun a ha => ?_
    cases ha
    exact (hb x account hacc).1
  · exact meets_getAccount_bind ⟨x, hx, rfl⟩ hf

theorem getTransferFromAccount_reads (hWR : W ⊆ R) {ref : AddressOrNamespace}
    (hb : BatchBuffer.In W batchBuffer) (hx : ∀ x, ref.resolve tx = some x → x ∈ W) :
    (getTransferFromAccount tx ref batchBuffer).Meets (Op.Reads R) fun a => a.address ∈ W := by
  unfold getTransferFromAccount
  split
  · next x hres =>
    refine meets_fetchAccount_bind hb (hWR (hx x hres)) fun r hr => ?_
    split
    · next account =>
      refine Prog.meets_ret ?_
      rw [hr account rfl]
      exact hx x hres
    · trivial
  · trivial

/-- A method of an account that keeps its header keeps its place. -/
theorem meets_method {account : Account} {x : AccountResult (Account × Token)}
    (hW : account.address ∈ W)
    (hx : ∀ a t, x = .ok (a, t) → account.SameHeader a) :
    Prog.Meets (Op.Reads R) (fun a : Account => a.address ∈ W) (orCustom (accountOf x)) := by
  refine meets_orCustom fun a ha => ?_
  obtain ⟨token, hok⟩ := accountOf_ok ha
  rw [(hx a token hok).address]
  exact hW

theorem creditTransfer_reads {transfer : TransferInstruction} {account : Account}
    (ht : transfer.token ∈ R) (hW : account.address ∈ W) :
    (creditTransfer transfer account).Meets (Op.Reads R) fun a => a.address ∈ W := by
  refine meets_getAccount_bind ⟨_, ht, rfl⟩ fun r _ => ?_
  split
  · exact meets_method hW fun a t h => (Account.applyTransferToInstruction_ok h).1
  · split
    · exact meets_method hW fun a t h => (Account.applyTransferToInstruction_ok h).1
    · trivial

/-- The accounts an instruction may change. -/
def Instruction.written (tx : Transaction) : Instruction → List Address
  | .transfer i => (i.from.resolve tx).toList ++ (i.to.resolve tx).toList
  | .burn i => (i.from.resolve tx).toList
  | .create i => tx.to :: i.distribution.flatMap fun d => (d.to.resolve tx).toList
  | .update i => i.updates.flatMap fun
      | .tokenUpdate u => (u.account.resolve tx).toList
      | .programUpdate u => (u.account.resolve tx).toList
  | .log _ => []

/-- The program accounts an instruction consults. -/
def Instruction.consulted (tx : Transaction) : Instruction → List Address
  | .transfer i => [i.token]
  | .burn _ => []
  | .create i => i.distribution.flatMap fun d => (d.programId.resolve tx).toList
  | .update i => i.updates.flatMap fun
      | .tokenUpdate u => (u.token.resolve tx).toList
      | .programUpdate _ => []
  | .log _ => []

section Reads

variable (hWR : W ⊆ R)
include hWR

theorem applyTransferInstruction_reads {transfer : TransferInstruction}
    (hb : BatchBuffer.In W batchBuffer)
    (hw : ∀ a ∈ (Instruction.transfer transfer).written tx, a ∈ W)
    (hr : ∀ a ∈ (Instruction.transfer transfer).consulted tx, a ∈ R) :
    (applyTransferInstruction tx transfer batchBuffer).Meets (Op.Reads R) fun r =>
      r.1.address ∈ W ∧ r.2.address ∈ W := by
  have hfrom : ∀ x, transfer.from.resolve tx = some x → x ∈ W := fun x hx =>
    hw x (by simp [Instruction.written, hx])
  have hto : ∀ x, transfer.to.resolve tx = some x → x ∈ W := fun x hx =>
    hw x (by simp [Instruction.written, hx])
  have htoken : transfer.token ∈ R := hr _ (List.mem_singleton_self _)
  have hdebit : (applyTransferFrom tx transfer batchBuffer).Meets (Op.Reads R)
      fun a => a.address ∈ W :=
    Prog.Meets.bind
      (fun account hacc =>
        meets_method hacc fun a t h => (Account.applyTransferFromInstruction_ok h).1)
      (getTransferFromAccount_reads hWR hb hfrom)
  have hcredit : (applyTransferTo tx transfer batchBuffer).Meets (Op.Reads R)
      fun a => a.address ∈ W := by
    unfold applyTransferTo getTransferToAccount
    cases hres : transfer.to.resolve tx with
    | none =>
      split
      · next h => cases h
      · split
        · next a ha => simp [ha, AddressOrNamespace.resolve] at hres
        · trivial
    | some x =>
      refine meets_fetchAccount_bind hb (hWR (hto x hres)) fun r hr => ?_
      split
      · next account => exact creditTransfer_reads htoken (hr account rfl ▸ hto x hres)
      · split
        · next a ha =>
          exact creditTransfer_reads htoken (hto a (by rw [ha]; rfl))
        · trivial
  refine Prog.Meets.bind (fun a ha => ?_) hdebit
  exact Prog.Meets.bind (fun b hb => Prog.meets_ret ⟨ha, hb⟩) hcredit

theorem applyBurnInstruction_reads {burn : BurnInstruction} (hb : BatchBuffer.In W batchBuffer)
    (hw : ∀ a ∈ (Instruction.burn burn).written tx, a ∈ W) :
    (applyBurnInstruction tx burn batchBuffer).Meets (Op.Reads R) fun a => a.address ∈ W := by
  have hfrom : ∀ x, burn.from.resolve tx = some x → x ∈ W := fun x hx =>
    hw x (by simp [Instruction.written, hx])
  exact Prog.Meets.bind
    (fun account hacc => meets_method hacc fun a t h => (Account.applyBurnInstruction_ok h).1)
    (getTransferFromAccount_reads hWR hb hfrom)

omit hWR in
theorem creditDistribution_reads {programId : Address} {distribution : TokenDistribution}
    {account : Account} (hp : programId ∈ R) (hW : account.address ∈ W) :
    (creditDistribution programId distribution account).Meets (Op.Reads R)
      fun a => a.address ∈ W := by
  refine meets_getAccount_bind ⟨_, hp, rfl⟩ fun r _ => ?_
  split
  · exact meets_method hW fun a t h => (Account.applyTokenDistribution_ok h).1
  · trivial

theorem applyDistribution_reads {distribution : TokenDistribution}
    (hb : BatchBuffer.In W batchBuffer)
    (hp : ∀ x, distribution.programId.resolve tx = some x → x ∈ R)
    (ht : ∀ x, distribution.to.resolve tx = some x → x ∈ W) :
    (applyDistribution tx distribution batchBuffer).Meets (Op.Reads R) fun a => a.address ∈ W := by
  unfold applyDistribution
  split
  · trivial
  next programId hres =>
  have hpid := hp programId hres
  split
  · next hto =>
    have hW : tx.to ∈ W := ht _ (by rw [hto]; rfl)
    rw [hto]
    refine meets_fetchAccount_bind hb (hWR hW) fun r hr => ?_
    split
    · next account => exact creditDistribution_reads hpid (hr account rfl ▸ hW)
    · exact creditDistribution_reads hpid hW
  · next a hto =>
    have hW : a ∈ W := ht _ (by rw [hto]; rfl)
    rw [hto]
    refine meets_fetchAccount_bind hb (hWR hW) fun r hr => ?_
    split
    · next account => exact creditDistribution_reads hpid (hr account rfl ▸ hW)
    · exact creditDistribution_reads hpid hW
  · trivial

theorem applyDistributions_reads :
    ∀ {dists : List TokenDistribution} {batchBuffer : BatchBuffer},
      BatchBuffer.In W batchBuffer →
      (∀ a ∈ dists.flatMap fun d => (d.to.resolve tx).toList, a ∈ W) →
      (∀ a ∈ dists.flatMap fun d => (d.programId.resolve tx).toList, a ∈ R) →
      (applyDistributions tx dists batchBuffer).Meets (Op.Reads R) (BatchBuffer.In W)
  | [], _, hb, _, _ => Prog.meets_ret hb
  | dist :: rest, batchBuffer, hb, hw, hr => by
    have hp : ∀ x, dist.programId.resolve tx = some x → x ∈ R := fun x hx =>
      hr x (by simp [hx])
    have ht : ∀ x, dist.to.resolve tx = some x → x ∈ W := fun x hx => hw x (by simp [hx])
    refine Prog.Meets.bind (fun account hacc => ?_) (applyDistribution_reads hWR hb hp ht).mapErr
    refine applyDistributions_reads (hb.add hacc) (fun a ha => hw a ?_) fun a ha => hr a ?_
    · rw [List.flatMap_cons, List.mem_append]
      exact Or.inr ha
    · rw [List.flatMap_cons, List.mem_append]
      exact Or.inr ha

/-- What an update leaves : a buffer and an account, all in `W`. -/
def Updated (W : Set Address) (r : BatchBuffer × Account) : Prop :=
  BatchBuffer.In W r.1 ∧ r.2.address ∈ W

omit hWR in
theorem updateToken_reads {programId : Address} {tokenUpdate : TokenUpdate} {account : Account}
    (hp : programId ∈ R) :
    (updateToken programId tokenUpdate account).Meets (Op.Reads R)
      fun a => a.address = account.address := by
  refine meets_getAccount_bind ⟨_, hp, rfl⟩ fun r _ => ?_
  split
  · refine meets_orCustom fun a ha => ?_
    obtain ⟨token, hok⟩ := accountOf_ok ha
    exact (Account.applyTokenUpdate_ok hok).1.address
  · trivial

theorem applyTokenUpdate_reads {tokenUpdate : TokenUpdate} (hb : BatchBuffer.In W batchBuffer)
    (hp : ∀ x, tokenUpdate.token.resolve tx = some x → x ∈ R)
    (ha : ∀ x, tokenUpdate.account.resolve tx = some x → x ∈ W) :
    (applyTokenUpdate tx tokenUpdate batchBuffer).Meets (Op.Reads R) (Updated W) := by
  unfold applyTokenUpdate
  split
  · trivial
  next programId hpid =>
  split
  · trivial
  next x hx =>
  have hW := ha x hx
  split
  · next account hacc =>
    have haddr := (hb x account hacc).1
    refine Prog.Meets.bind (fun a h => Prog.meets_ret ?_) (updateToken_reads (hp programId hpid))
    exact ⟨hb.insert (h.trans haddr) hW, by rw [h, haddr]; exact hW⟩
  · refine meets_getAccount_bind ⟨x, hWR hW, rfl⟩ fun r hr => ?_
    split
    · next account =>
      refine Prog.Meets.bind (fun a h => Prog.meets_ret ⟨hb, ?_⟩)
        (updateToken_reads (hp programId hpid))
      rw [h, hr account rfl]
      exact hW
    · split
      · trivial
      · refine Prog.Meets.bind (fun a h => Prog.meets_ret ⟨hb, ?_⟩)
          (updateToken_reads (hp programId hpid))
        rw [h]
        exact hW

omit hWR in
theorem updateProgram_reads {programUpdate : ProgramUpdate} {account : Account} :
    (orCustom (account.applyProgramUpdate programUpdate)).Meets (Op.Reads R)
      fun a => a.address = account.address :=
  meets_orCustom fun _ h => (Account.applyProgramUpdate_ok h).1.address

theorem applyProgramUpdate_reads {programUpdate : ProgramUpdate}
    (hb : BatchBuffer.In W batchBuffer)
    (ha : ∀ x, programUpdate.account.resolve tx = some x → x ∈ W) :
    (applyProgramUpdate tx programUpdate batchBuffer).Meets (Op.Reads R) (Updated W) := by
  unfold applyProgramUpdate
  split
  · trivial
  next x hx =>
  have hW := ha x hx
  split
  · next account hacc =>
    have haddr := (hb x account hacc).1
    refine Prog.Meets.bind (fun a h => Prog.meets_ret ?_) updateProgram_reads
    exact ⟨hb.insert (h.trans haddr) hW, by rw [h, haddr]; exact hW⟩
  · refine meets_getAccount_bind ⟨x, hWR hW, rfl⟩ fun r hr => ?_
    split
    · next account =>
      refine Prog.Meets.bind (fun a h => Prog.meets_ret ⟨hb, ?_⟩) updateProgram_reads
      rw [h, hr account rfl]
      exact hW
    · split
      · trivial
      · refine Prog.Meets.bind (fun a h => Prog.meets_ret ⟨hb, ?_⟩) updateProgram_reads
        rw [h]
        exact hW

theorem applyUpdates_reads :
    ∀ {updates : List TokenOrProgramUpdate} {batchBuffer : BatchBuffer},
      BatchBuffer.In W batchBuffer →
      (∀ a ∈ (Instruction.update ⟨updates⟩).written tx, a ∈ W) →
      (∀ a ∈ (Instruction.update ⟨updates⟩).consulted tx, a ∈ R) →
      (applyUpdates tx updates batchBuffer).Meets (Op.Reads R) (BatchBuffer.In W)
  | [], _, hb, _, _ => Prog.meets_ret hb
  | update :: rest, batchBuffer, hb, hw, hr => by
    have hone : (applyUpdate tx update batchBuffer).Meets (Op.Reads R) (Updated W) := by
      cases update with
      | tokenUpdate u =>
        exact applyTokenUpdate_reads hWR hb
          (fun x hx => hr x (by simp [Instruction.consulted, hx]))
          (fun x hx => hw x (by simp [Instruction.written, hx]))
      | programUpdate u =>
        exact applyProgramUpdate_reads hWR hb
          (fun x hx => hw x (by simp [Instruction.written, hx]))
    refine Prog.Meets.bind (fun r hr' => ?_) hone.mapErr
    refine applyUpdates_reads (hr'.1.add hr'.2) (fun a ha => hw a ?_) fun a ha => hr a ?_
    · simp only [Instruction.written, List.flatMap_cons, List.mem_append]
      exact Or.inr ha
    · simp only [Instruction.consulted, List.flatMap_cons, List.mem_append]
      exact Or.inr ha

theorem tryCreateProgramAccount_reads (hb : BatchBuffer.In W batchBuffer) (ht : tx.to ∈ W) :
    (tryCreateProgramAccount tx batchBuffer).Meets (Op.Reads R) fun a => a.address ∈ W := by
  unfold tryCreateProgramAccount
  split
  · next account hacc =>
    refine Prog.meets_ret ?_
    rw [(hb tx.to account hacc).1]
    exact ht
  · refine meets_getAccount_bind ⟨_, hWR ht, rfl⟩ fun r hr => ?_
    split
    · next account =>
      refine Prog.meets_ret ?_
      rw [hr account rfl]
      exact ht
    · exact Prog.meets_ret ht

/-- One instruction reads what it may, and buffers accounts it may change. -/
theorem applyInstruction_reads {instruction : Instruction} (hb : BatchBuffer.In W batchBuffer)
    (hw : ∀ a ∈ instruction.written tx, a ∈ W) (hr : ∀ a ∈ instruction.consulted tx, a ∈ R) :
    (applyInstruction tx instruction batchBuffer).Meets (Op.Reads R) (BatchBuffer.In W) := by
  cases instruction with
  | transfer transfer =>
    refine Prog.Meets.bind (fun r hr => ?_) (applyTransferInstruction_reads hWR hb hw hr).mapErr
    exact Prog.meets_ret ((hb.add hr.1).add hr.2)
  | burn burn =>
    refine Prog.Meets.bind (fun a ha => ?_) (applyBurnInstruction_reads hWR hb hw).mapErr
    exact Prog.meets_ret (hb.add ha)
  | create create =>
    have ht : tx.to ∈ W := hw _ (List.mem_cons_self ..)
    refine Prog.Meets.bind (fun b hb' => ?_)
      (applyDistributions_reads hWR hb (fun a ha => hw a (List.mem_cons_of_mem _ ha)) hr)
    refine Prog.Meets.bind (fun a ha => ?_) (tryCreateProgramAccount_reads hWR hb' ht).mapErr
    exact Prog.meets_ret (hb'.add ha)
  | update update => exact applyUpdates_reads hWR hb hw hr
  | log i => exact Prog.meets_ret hb

/-- The instruction loop only reads. -/
theorem applyInstructions_reads :
    ∀ {instructions : List Instruction} {batchBuffer : BatchBuffer},
      BatchBuffer.In W batchBuffer →
      (∀ a ∈ instructions.flatMap (Instruction.written tx), a ∈ W) →
      (∀ a ∈ instructions.flatMap (Instruction.consulted tx), a ∈ R) →
      (applyInstructions tx instructions batchBuffer).Meets (Op.Reads R) (BatchBuffer.In W)
  | [], _, hb, _, _ => Prog.meets_ret hb
  | i :: rest, batchBuffer, hb, hw, hr => by
    simp only [List.flatMap_cons, List.mem_append] at hw hr
    refine Prog.Meets.bind (fun b hb' => ?_) (applyInstruction_reads hWR hb
      (fun a ha => hw a (Or.inl ha)) fun a ha => hr a (Or.inl ha))
    exact applyInstructions_reads hb' (fun a ha => hw a (Or.inr ha)) fun a ha => hr a (Or.inr ha)

end Reads

end Instruction

/-! ## Whole futures -/

section Future

variable {env : Env} {R W : Set Address} {tx : Transaction}

theorem addAccountToBatch_within {account : Account} (h : account.address ∈ W) :
    (addAccountToBatch account).Meets (Op.Within R W) fun _ => True :=
  ⟨h, fun _ => ⟨trivial, fun _ => trivial⟩⟩

theorem addAccountsToBatch_within :
    ∀ {l : List Account}, (∀ account ∈ l, account.address ∈ W) →
      (addAccountsToBatch l).Meets (Op.Within R W) fun _ => True
  | [], _ => trivial
  | account :: _, h =>
    Prog.Meets.bind
      (fun _ _ => addAccountsToBatch_within fun b hb => h b (List.mem_cons_of_mem account hb))
      (addAccountToBatch_within (h account (List.mem_cons_self ..)))

/-- What is buffered is written, in whatever order the map is walked. -/
theorem flush_within {κ : Type} [DecidableEq κ] (order : HashOrder) {buffer : HashMap κ Account}
    (h : ∀ k account, buffer.lookup k = some account → account.address ∈ W) :
    (addAccountsToBatch ((order.iter buffer.entries).map Sigma.snd)).Meets (Op.Within R W)
      fun _ => True := by
  refine addAccountsToBatch_within fun account hacc => ?_
  obtain ⟨s, hs, rfl⟩ := List.mem_map.1 hacc
  exact h s.1 s.2 (AList.mem_lookup_iff.2 ((order.perm _).mem_iff.1 hs))

/-- A send reads its two accounts and the program account of its token, and writes the
two. -/
theorem addTransactionToAccount_within (hWR : W ⊆ R) (hf : tx.from ∈ W) (ht : tx.to ∈ W)
    (hp : tx.programId ∈ R) :
    (addTransactionToAccount env tx).Meets (Op.Within R W) fun _ => True := by
  have hreads : ∀ o : Op, o.Reads R → o.Within R W := fun o h => h.within
  refine Prog.Meets.bind (fun r hr => ?_)
    ((debitSender_reads (hWR hf) hp).mono hreads fun _ h => h)
  have hbuf : ∀ k account, ((∅ : HashMap String Account).insert
      (Address.toFullString tx.from) r.1).lookup k = some account → account.address ∈ W := by
    intro k account hk
    rcases HashMap.lookup_insert_cases hk with rfl | hk
    · rw [hr]
      exact hf
    · simp at hk
  refine Prog.Meets.bind (fun buffer hbuffer => ?_)
    ((creditSide_reads hWR ht hp hbuf).mono hreads fun _ h => h)
  refine Prog.Meets.bind (fun _ _ => ?_) (flush_within env.order hbuffer)
  exact ⟨trivial, fun _ => ⟨trivial, fun _ => ⟨trivial, fun _ => trivial⟩⟩⟩

/-- A call reads its two accounts and what its instructions do, and writes the account it
calls and what its instructions may change. -/
theorem applyInstructionsToAccounts_within {outputs : Outputs} (hWR : W ⊆ R) (hf : tx.from ∈ R)
    (ht : tx.to ∈ W) (hw : ∀ a ∈ outputs.instructions.flatMap (Instruction.written tx), a ∈ W)
    (hr : ∀ a ∈ outputs.instructions.flatMap (Instruction.consulted tx), a ∈ R) :
    (applyInstructionsToAccounts env tx outputs).Meets (Op.Within R W) fun _ => True := by
  have hreads : ∀ o : Op, o.Reads R → o.Within R W := fun o h => h.within
  refine meets_getAccount_bind (hWR ht) fun r hr' => ?_
  split
  · trivial
  next caller =>
  refine Prog.Meets.bind (fun caller' hcaller => ?_)
    (meets_orFailed (Q := fun a => a.address = tx.to) fun a ha =>
      (Account.incrementNonce_keeps ha).1.trans (hr' caller rfl))
  refine Prog.Meets.bind (fun _ _ => ?_) (addAccountToBatch_within (hcaller ▸ ht))
  have hempty : BatchBuffer.In W ∅ := fun a account h => by simp at h
  refine Prog.Meets.bind (fun batchBuffer hb => ?_)
    ((applyInstructions_reads hWR hempty hw hr).mono hreads fun _ h => h)
  have hbuffer : ∀ k account, batchBuffer.lookup k = some account → account.address ∈ W := by
    intro k account hk
    obtain ⟨haddr, hW⟩ := hb k account hk
    rw [haddr]
    exact hW
  refine Prog.Meets.bind (fun _ _ => ?_) (flush_within env.order hbuffer)
  refine ⟨trivial, fun _ => ⟨trivial, fun _ => ?_⟩⟩
  refine meets_getAccount_bind hf fun r _ => ?_
  split
  · trivial
  · exact ⟨trivial, fun _ => trivial⟩

/-- The address of the program that a registration creates, if it gets that far. -/
def registered (env : Env) (tx : Transaction) : Option Address :=
  match env.contentId tx.inputs with
  | .ok (some (some contentId)) => (createProgramId env contentId tx).toOption
  | _ => none

/-- A registration reads the account of its sender, and writes it and the program's. -/
theorem applyProgramRegistration_within (hWR : W ⊆ R) (hf : tx.from ∈ W)
    (hp : ∀ a ∈ registered env tx, a ∈ W) :
    (applyProgramRegistration env tx).Meets (Op.Within R W) fun _ => True := by
  refine meets_getAccount_bind (hWR hf) fun r hr => ?_
  split
  · exact ⟨trivial, fun _ => trivial⟩
  next deployer =>
  split
  · trivial
  · trivial
  · trivial
  next contentId hcid =>
  split
  · trivial
  next programId hpid =>
  have hprogram : programId ∈ W := hp programId (by simp [registered, hcid, hpid, Except.toOption])
  refine Prog.Meets.bind (fun _ _ => ?_) (addAccountToBatch_within hprogram)
  refine Prog.Meets.bind (fun deployer' hdeployer => ?_)
    (meets_orFailed (Q := fun a => a.address = tx.from) fun a ha =>
      (Account.incrementNonce_keeps ha).1.trans (hr deployer rfl))
  refine Prog.Meets.bind (fun _ _ => ?_) (addAccountToBatch_within (hdeployer ▸ hf))
  exact ⟨trivial, fun _ => trivial⟩

/-- Whatever it works on, a batcher future writes accounts and reports the outcome. -/
theorem appendTransaction_within {outputs : Option Outputs} {p : BatcherM Unit}
    (h : appendTransaction env tx outputs = some p) :
    p.Meets (Op.Within Set.univ Set.univ) fun _ => True := by
  have hsend : (addTransactionToAccount env tx).Meets (Op.Within Set.univ Set.univ)
      fun _ => True :=
    addTransactionToAccount_within (Set.Subset.refl _) (Set.mem_univ _) (Set.mem_univ _)
      (Set.mem_univ _)
  unfold appendTransaction at h
  split at h
  · cases h
    exact hsend
  · cases h
    exact hsend
  · obtain ⟨o, -, rfl⟩ := Option.map_eq_some_iff.1 h
    exact applyInstructionsToAccounts_within (Set.Subset.refl _) (Set.mem_univ _)
      (Set.mem_univ _) (fun _ _ => Set.mem_univ _) fun _ _ => Set.mem_univ _
  · cases h
    exact applyProgramRegistration_within (Set.Subset.refl _) (Set.mem_univ _)
      fun _ _ => Set.mem_univ _
  · cases h

/-- A send that fails has written nothing. -/
theorem addTransactionToAccount_error {storage cache cache' : AccountStore}
    {e : Fault BatcherError}
    (h : runAlone storage (addTransactionToAccount env tx) cache = (.error e, cache')) :
    cache' = cache := by
  rw [addTransactionToAccount_eq] at h
  have hstill := runAlone_of_reads (@sendAccounts_reads tx) storage cache
  rcases runAlone_bind_error h with h₁ | ⟨r, c, -, h₂⟩
  · rw [h₁] at hstill
    exact hstill
  · rw [runAlone_finishSend] at h₂
    cases h₂

end Future

/-! ## What a transaction may touch -/

namespace Append

/-- The future of the batcher. -/
def future (env : Env) (order : HashOrder) (m : Append) : BatcherM Unit :=
  (appendTransaction { env with order := order } m.transaction m.outputs).getD (pure ())

/-- The accounts a transaction may change. -/
def writes (env : Env) (m : Append) : List Address :=
  match m.transaction.transactionType, m.outputs with
  | .send _, _ => [m.transaction.from, m.transaction.to]
  | .bridgeIn _, _ => [m.transaction.from, m.transaction.to]
  | .call _, some outputs =>
    m.transaction.to :: outputs.instructions.flatMap (Instruction.written m.transaction)
  | .registerProgram _, _ => m.transaction.from :: (registered env m.transaction).toList
  | _, _ => []

/-- The accounts it may read, with those it may change. -/
def reads (env : Env) (m : Append) : List Address :=
  m.writes env ++
    match m.transaction.transactionType, m.outputs with
    | .send _, _ => [m.transaction.programId]
    | .bridgeIn _, _ => [m.transaction.programId]
    | .call _, some outputs =>
      m.transaction.from :: outputs.instructions.flatMap (Instruction.consulted m.transaction)
    | _, _ => []

/-- Neither transaction may change what the other may read. -/
def Apart (env : Env) (m m' : Append) : Prop :=
  (∀ a ∈ m.writes env, a ∉ m'.reads env) ∧ ∀ a ∈ m'.writes env, a ∉ m.reads env

instance (a : Address) (l : List Address) : Decidable (a ∈ l) :=
  List.instDecidableMemOfLawfulBEq a l

-- By way of the lists, not of all addresses.
instance (env : Env) (m m' : Append) : Decidable (m.Apart env m') :=
  @instDecidableAnd _ _ (List.decidableBAll _ (m.writes env)) (List.decidableBAll _ (m'.writes env))

variable {env : Env} {order : HashOrder}

theorem writes_subset_reads (env : Env) (m : Append) :
    {a | a ∈ m.writes env} ⊆ {a | a ∈ m.reads env} :=
  fun _ ha => List.mem_append_left _ ha

/-- The future keeps to the accounts of its transaction. -/
theorem within (m : Append) :
    (m.future env order).Meets (Op.Within {a | a ∈ m.reads env} {a | a ∈ m.writes env})
      fun _ => True := by
  have hWR := writes_subset_reads env m
  have hsend : m.writes env = [m.transaction.from, m.transaction.to] →
      m.transaction.programId ∈ m.reads env →
      (addTransactionToAccount { env with order := order } m.transaction).Meets
        (Op.Within {a | a ∈ m.reads env} {a | a ∈ m.writes env}) fun _ => True :=
    fun hw hp => addTransactionToAccount_within hWR (by simp [hw]) (by simp [hw]) hp
  obtain ⟨tx, outputs⟩ := m
  unfold future appendTransaction
  cases htype : tx.transactionType with
  | send n => exact hsend (by simp [writes, htype]) (by simp [reads, htype])
  | bridgeIn n => exact hsend (by simp [writes, htype]) (by simp [reads, htype])
  | call n =>
    cases outputs with
    | none => trivial
    | some outputs =>
      refine applyInstructionsToAccounts_within hWR (by simp [reads, htype])
        (by simp [writes, htype]) (fun a ha => ?_) fun a ha => ?_
      · simp only [writes, htype, Set.mem_ofPred_eq]
        exact List.mem_cons_of_mem _ ha
      · simp only [reads, htype, Set.mem_ofPred_eq]
        exact List.mem_append_right _ (List.mem_cons_of_mem _ ha)
  | registerProgram n =>
    refine applyProgramRegistration_within hWR (by simp [writes, htype]) fun a ha => ?_
    simp only [writes, htype, Set.mem_ofPred_eq]
    exact List.mem_cons_of_mem _ (Option.mem_toList.2 ha)
  | bridgeOut n => trivial

end Append

end Lasr
