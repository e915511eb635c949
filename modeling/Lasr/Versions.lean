import Lasr.Settlement

/-!
# The version of an account that is settled last

A new version of an account goes to the first batch that has room for it, and the batches are
sent from the front. So the version settled last is the one in the last batch of the queue
that has the address (`finalEntry`), a figure that no request and no other insertion changes.

The newest version comes last exactly if no other one is queued behind the batch that takes it
(`newest_settled_iff`).
-/

set_option linter.unusedSectionVars false

namespace Lasr

/-! ## The last entry of a queue -/

/-- The entry under a key in the last batch that has one. -/
def lastEntry (k : String) : List Batch → Option Account
  | [] => none
  | b :: bs => (lastEntry k bs).or (b.accounts.lookup k)

theorem lastEntry_append (k : String) : ∀ l l' : List Batch,
    lastEntry k (l ++ l') = (lastEntry k l').or (lastEntry k l)
  | [], l' => by simp [lastEntry]
  | b :: l, l' => by simp [lastEntry, lastEntry_append k l l', Option.or_assoc]

theorem lastEntry_of_empty {k : String} {b : Batch} (h : b.empty = true) :
    lastEntry k [b] = none := by
  have hnil : b.accounts.entries = [] := by
    simpa using (Bool.and_eq_true_iff.1 h).2
  simp [lastEntry, AList.lookup, hnil]

/-- The batches behind the first one that has room for the account. -/
def behind (checkSize : Batch → Option ℕ) (account : Account) : List Batch → List Batch
  | [] => []
  | b :: bs =>
    if b.accountWouldExceedCapacity checkSize account = some false then bs
    else behind checkSize account bs

section Insertions

variable {checkSize : Batch → Option ℕ} {account : Account} {k : String}

/-- An account comes last under its address, but for what is behind the batch that takes it. -/
theorem lastEntry_firstFit : ∀ {bins bins' : List Batch},
    firstFit (Batch.insertAccount checkSize account) bins = some bins' →
      lastEntry (Address.toFullString account.address) bins' =
        (lastEntry (Address.toFullString account.address)
          (behind checkSize account bins)).or (some account)
  | b :: bs, bins', h => by
    cases hb : b.insertAccount checkSize account with
    | ok b' =>
      have hroom := (Batch.insertAccount_eq_ok_iff.1 hb).1
      have hholds : b'.accounts.lookup (Address.toFullString account.address) = some account :=
        Batch.holds_insertAccount hb
      simp only [firstFit, hb, Option.some.injEq] at h
      subst h
      simp [lastEntry, behind, hroom, hholds]
    | error e =>
      have hfull : b.accountWouldExceedCapacity checkSize account ≠ some false := by
        intro hroom
        rw [Batch.insertAccount_eq_ok_iff.2 ⟨hroom, rfl⟩] at hb
        cases hb
      simp only [firstFit, hb] at h
      obtain ⟨rest, hrest, rfl⟩ := Option.map_eq_some_iff.1 h
      simp [lastEntry, behind, hfull, lastEntry_firstFit hrest]

/-- An insertion that leaves the key of every batch leaves the last entry. -/
theorem lastEntry_firstFit_of_lookup {insert : Batch → Except BatcherError Batch}
    (hins : ∀ bin bin', insert bin = .ok bin' → bin'.accounts.lookup k = bin.accounts.lookup k)
    {bins bins' : List Batch} (h : firstFit insert bins = some bins') :
    lastEntry k bins' = lastEntry k bins := by
  obtain ⟨pre, bin, bin', post, rfl, hbin, rfl⟩ := firstFit_eq_some h
  simp only [lastEntry_append, lastEntry, hins bin bin' hbin]

end Insertions

/-! ## The entry that is settled last -/

/-- What is settled last for a key, once all batches are sent. -/
def Settlement.finalEntry (self : Settlement) (k : String) : Option Account :=
  lastEntry k (self.sent ++ self.queue.batches)

section Steps

variable {env : Env} {encodeBatch : Batch → Option String} {s s' : Settlement} {k : String}

/-- A request changes nothing of it. -/
theorem Settlement.finalEntry_request (world : DaWorld) :
    (s.request env encodeBatch world).finalEntry k = s.finalEntry k := by
  unfold finalEntry request
  rcases s.queue.handleNextBatchRequest_cases env.order encodeBatch world with
    ⟨-, hr⟩ | ⟨-, hnone, hr⟩ | ⟨requestId, hid, hr⟩
  · simp [hr]
  · simp [hr, hnone]
  · simp only [hid, hr.queue, Option.isSome_some, if_true, Batcher.batches, List.append_assoc,
      List.singleton_append]
    cases s.queue.children with
    | cons child children => rfl
    | nil => simp [lastEntry_append, lastEntry, Batch.new]

/-- Nor does another insertion. -/
theorem Settlement.finalEntry_step_of_ne {op : BatchOp}
    (hop : ∀ account, op = .addAccount account → k ≠ Address.toFullString account.address)
    (h : s.step env encodeBatch op = some s') : s'.finalEntry k = s.finalEntry k := by
  cases op with
  | addTransaction transaction =>
    obtain ⟨b, hb, rfl⟩ := Option.map_eq_some_iff.1 h
    have hlast := lastEntry_firstFit_of_lookup (k := k) (fun _ _ hbin => by
      rw [Batch.insertTransaction_accounts hbin]) (Batcher.firstFit_of_addTransaction hb)
    simpa only [finalEntry, withBatcher, lastEntry_append] using
      congrArg (fun x => x.or (lastEntry k s.sent)) hlast
  | addAccount account =>
    obtain ⟨b, hb, rfl⟩ := Option.map_eq_some_iff.1 h
    have hlast := lastEntry_firstFit_of_lookup (k := k) (fun bin bin' hbin => by
      obtain ⟨-, rfl⟩ := Batch.insertAccount_eq_ok_iff.1 hbin
      exact AList.lookup_insert_ne (hop account rfl)) (Batcher.firstFit_of_addAccount hb)
    simpa only [finalEntry, withBatcher, lastEntry_append] using
      congrArg (fun x => x.or (lastEntry k s.sent)) hlast
  | nextBatch world =>
    cases h
    exact finalEntry_request world

/-- The insertion of an account makes it the last, but for what is behind. -/
theorem Settlement.finalEntry_addAccount {account : Account}
    (h : s.step env encodeBatch (.addAccount account) = some s') :
    s'.finalEntry (Address.toFullString account.address) =
      (lastEntry (Address.toFullString account.address)
        (behind (Batch.checkSize encodeBatch) account s.queue.batches)).or (some account) := by
  obtain ⟨b, hb, rfl⟩ := Option.map_eq_some_iff.1 h
  have hlast := lastEntry_firstFit (Batcher.firstFit_of_addAccount hb)
  change lastEntry _ (s.sent ++ b.batches) = _
  rw [lastEntry_append, hlast, Option.or_assoc]
  rfl

end Steps

/-! ## Runs -/

/-- The account added last for each address. -/
def newest (ops : List BatchOp) : AccountMap :=
  AccountMap.putAll (fun _ => none) (ops.filterMap fun
    | .addAccount account => some account
    | _ => none)

/-- No account of the address is added. -/
def NotAdded (ops : List BatchOp) (a : Address) : Prop :=
  ∀ account, .addAccount account ∈ ops → account.address ≠ a

theorem newest_append_singleton (ops : List BatchOp) (op : BatchOp) :
    newest (ops ++ [op]) = match op with
      | .addAccount account => (newest ops).put account
      | _ => newest ops := by
  cases op <;> simp [newest, AccountMap.putAll]

/-- Where an element of a list with one more at its end stands. -/
theorem append_singleton_eq_append_cons {α : Type} {l pre post : List α} {x y : α}
    (h : l ++ [x] = pre ++ y :: post) :
    (x = y ∧ post = []) ∨ ∃ post', post = post' ++ [x] ∧ l = pre ++ y :: post' := by
  rcases List.eq_nil_or_concat post with rfl | ⟨post', last, rfl⟩
  · obtain ⟨-, hlast⟩ := List.append_inj' h rfl
    exact .inl ⟨List.singleton_inj.1 hlast, rfl⟩
  · have h' : l ++ [x] = (pre ++ y :: post') ++ [last] := by simpa using h
    obtain ⟨hinit, hlast⟩ := List.append_inj' h' rfl
    obtain rfl := List.singleton_inj.1 hlast
    exact .inr ⟨post', by simp, hinit⟩

/-- The account is the last one that is added for its address. -/
def LastAdded (ops : List BatchOp) (account : Account) : Prop :=
  ∃ pre post, ops = pre ++ .addAccount account :: post ∧ NotAdded post account.address

theorem lastAdded_append_of_ne {ops : List BatchOp} {op : BatchOp} {account : Account}
    (hop : ∀ other, op = .addAccount other → other.address ≠ account.address) :
    LastAdded (ops ++ [op]) account ↔ LastAdded ops account := by
  constructor
  · rintro ⟨pre, post, h, hpost⟩
    rcases append_singleton_eq_append_cons h with ⟨hadd, -⟩ | ⟨post', rfl, rfl⟩
    · exact absurd rfl (hop account hadd)
    · exact ⟨pre, post', rfl, fun other hmem => hpost other (by simp [hmem])⟩
  · rintro ⟨pre, post, rfl, hpost⟩
    refine ⟨pre, post ++ [op], by simp, fun other hmem => ?_⟩
    rcases List.mem_append.1 hmem with hmem | hmem
    · exact hpost other hmem
    · exact hop other (List.mem_singleton.1 hmem).symm

theorem lastAdded_append_addAccount {ops : List BatchOp} {account other : Account}
    (haddr : other.address = account.address) :
    LastAdded (ops ++ [.addAccount other]) account ↔ other = account := by
  constructor
  · rintro ⟨pre, post, h, hpost⟩
    rcases append_singleton_eq_append_cons h with ⟨hadd, -⟩ | ⟨post', rfl, -⟩
    · cases hadd
      rfl
    · exact absurd haddr (hpost other (by simp))
  · rintro rfl
    exact ⟨ops, [], rfl, (fun _ hmem => nomatch hmem)⟩

theorem newest_append_of_ne {ops : List BatchOp} {op : BatchOp} {a : Address}
    (hop : ∀ other, op = .addAccount other → other.address ≠ a) :
    newest (ops ++ [op]) a = newest ops a := by
  rw [newest_append_singleton]
  cases op with
  | addAccount other => exact AccountMap.put_of_ne _ (hop other rfl).symm
  | addTransaction transaction => rfl
  | nextBatch world => rfl

/-- An account is the newest of its address exactly if no other one is added after it. -/
theorem newest_eq_some_iff {a : Address} {account : Account} {ops : List BatchOp} :
    newest ops a = some account ↔ account.address = a ∧ LastAdded ops account := by
  induction ops using List.reverseRecOn with
  | nil => simp [newest, AccountMap.putAll, LastAdded]
  | append_singleton ops op ih =>
    by_cases hop : ∃ other, op = .addAccount other ∧ other.address = a
    · obtain ⟨other, rfl, rfl⟩ := hop
      rw [newest_append_singleton]
      simp only [AccountMap.put_self, Option.some.injEq]
      constructor
      · rintro rfl
        exact ⟨rfl, (lastAdded_append_addAccount rfl).2 rfl⟩
      · rintro ⟨haddr, hlast⟩
        exact (lastAdded_append_addAccount haddr.symm).1 hlast
    · have hne : ∀ other, op = .addAccount other → other.address ≠ a :=
        fun other h haddr => hop ⟨other, h, haddr⟩
      rw [newest_append_of_ne hne, ih]
      refine and_congr_right fun haddr => ?_
      rw [lastAdded_append_of_ne fun other h => haddr ▸ hne other h]

section Drained

variable {env : Env} {encodeBatch : Batch → Option String} {s s' : Settlement}

/-- After the last addition of an address, nothing changes what is settled last for it. -/
theorem Settlement.finalEntry_run {ops : List BatchOp} {a : Address} (hops : NotAdded ops a)
    (h : s.run env encodeBatch ops = some s') :
    s'.finalEntry (Address.toFullString a) = s.finalEntry (Address.toFullString a) := by
  refine run_keeps (P := fun t => t.finalEntry (Address.toFullString a) =
    s.finalEntry (Address.toFullString a)) ?_ rfl h
  intro op hop t t' ht hstep
  refine (finalEntry_step_of_ne (fun account he hkey => ?_) hstep).trans ht
  exact hops account (he ▸ hop) (Address.toFullString_injective hkey).symm

/-- The batcher has no batch left to send. -/
def Settlement.Drained (self : Settlement) : Prop :=
  self.queue.parent.empty = true ∧ self.queue.children = []

theorem Settlement.Drained.finalEntry_eq (h : s.Drained) (k : String) :
    s.finalEntry k = lastEntry k s.sent := by
  unfold finalEntry Batcher.batches
  rw [h.2, lastEntry_append, lastEntry_of_empty h.1, Option.none_or]

/-- Every request finds an empty parent, or the DA client answers it and the store takes all
accounts of the batch. -/
def Settlement.AllSucceed (env : Env) (encodeBatch : Batch → Option String) :
    Settlement → List BatchOp → Prop
  | _, [] => True
  | s, op :: ops =>
    (∀ world, op = .nextBatch world → s.queue.parent.empty = true ∨
      (∃ requestId, world.Answers encodeBatch s.queue.parent requestId) ∧
        ∀ k account, world.persisted k account = true) ∧
    ∀ t, s.step env encodeBatch op = some t → AllSucceed env encodeBatch t ops

/-- Entries with different keys, written one after another. -/
theorem foldl_update_entries {k : String} : ∀ {l : List (Sigma fun _ : String => Account)}
    {store : String → Option Account}, l.NodupKeys →
      l.foldl (fun (store : String → Option Account) e =>
        Function.update store e.1 (some e.2)) store k = (l.dlookup k).or (store k)
  | [], _, _ => rfl
  | e :: l, store, hnd => by
    obtain ⟨hnot, hnd⟩ := List.nodupKeys_cons.1 hnd
    rw [List.foldl_cons, foldl_update_entries hnd]
    by_cases hk : k = e.1
    · subst hk
      rw [List.dlookup_eq_none.2 hnot, List.dlookup_cons_eq, Function.update_self]
      rfl
    · rw [List.dlookup_cons_ne _ _ hk, Function.update_of_ne hk]

/-- The store has what was sent last. -/
theorem Settlement.store_step {op : BatchOp} {store : String → Option Account}
    (hop : ∀ world, op = .nextBatch world → s.queue.parent.empty = true ∨
      (∃ requestId, world.Answers encodeBatch s.queue.parent requestId) ∧
        ∀ k account, world.persisted k account = true)
    (hs : ∀ k, s.store k = (lastEntry k s.sent).or (store k))
    (h : s.step env encodeBatch op = some s') :
    ∀ k, s'.store k = (lastEntry k s'.sent).or (store k) := by
  cases op with
  | addTransaction transaction =>
    obtain ⟨b, -, rfl⟩ := Option.map_eq_some_iff.1 h
    exact hs
  | addAccount account =>
    obtain ⟨b, -, rfl⟩ := Option.map_eq_some_iff.1 h
    exact hs
  | nextBatch world =>
    cases h
    intro k
    rcases s.queue.handleNextBatchRequest_cases env.order encodeBatch world with
      ⟨-, hr⟩ | ⟨hne, hnone, -⟩ | ⟨requestId, hid, hr⟩
    · simp only [request, hr]
      exact hs k
    · rcases hop world rfl with hempty | ⟨⟨requestId, hans⟩, -⟩
      · rw [hne] at hempty
        cases hempty
      · rw [BatchQueue.answered_eq_some_iff.2 ⟨hne, hans⟩] at hnone
        cases hnone
    · have hall : s.queue.accepted env.order world =
          env.order.iter s.queue.parent.accounts.entries := by
        rcases hop world rfl with hempty | ⟨-, hput⟩
        · rw [hr.nonempty] at hempty
          cases hempty
        · exact List.filter_eq_self.2 fun e _ => hput e.1 e.2
      have hperm := env.order.perm s.queue.parent.accounts.entries
      have hnd := (List.perm_nodupKeys hperm).2 s.queue.parent.accounts.nodupKeys
      simp only [request, hid, hr.puts, hall, Option.isSome_some, if_true]
      rw [foldl_update_entries hnd, List.perm_dlookup k hnd hperm, hs k, lastEntry_append,
        Option.or_assoc]
      rfl

theorem Settlement.store_run {store : String → Option Account} :
    ∀ {ops : List BatchOp} {s s' : Settlement}, s.AllSucceed env encodeBatch ops →
      (∀ k, s.store k = (lastEntry k s.sent).or (store k)) →
      s.run env encodeBatch ops = some s' →
      ∀ k, s'.store k = (lastEntry k s'.sent).or (store k)
  | [], _, _, _, hs, h => by
    cases h
    exact hs
  | op :: ops, s, s', hgood, hs, h => by
    obtain ⟨t, ht, hrun⟩ := Option.bind_eq_some_iff.1 h
    exact store_run (hgood.2 t ht) (store_step hgood.1 hs ht) hrun

end Drained

/-- From any batcher, insertions and successful requests until all batches are sent : the last
batch sent and the store have the newest version of every address that was added, exactly if
at its last addition no batch behind the first with room has another account under the
address, or the last of those that do has that same version. -/
theorem newest_settled_iff (env : Env) (encodeBatch : Batch → Option String) (q : BatchQueue)
    (store : String → Option Account) (ops : List BatchOp) (s' : Settlement)
    (h : Settlement.run env encodeBatch ⟨q, [], store⟩ ops = some s')
    (hgood : Settlement.AllSucceed env encodeBatch ⟨q, [], store⟩ ops) (hdrained : s'.Drained) :
    (∀ a account, newest ops a = some account →
      lastEntry (Address.toFullString a) s'.sent = some account ∧
        s'.store (Address.toFullString a) = some account) ↔
    ∀ pre account post t, ops = pre ++ .addAccount account :: post →
      NotAdded post account.address →
      Settlement.run env encodeBatch ⟨q, [], store⟩ pre = some t →
      ∀ older, lastEntry (Address.toFullString account.address)
        (behind (Batch.checkSize encodeBatch) account t.queue.batches) = some older →
          older = account := by
  -- what is sent last for an address, from the state before its last addition
  have hlast : ∀ pre account post t, ops = pre ++ .addAccount account :: post →
      NotAdded post account.address →
      Settlement.run env encodeBatch ⟨q, [], store⟩ pre = some t →
      lastEntry (Address.toFullString account.address) s'.sent =
        (lastEntry (Address.toFullString account.address)
          (behind (Batch.checkSize encodeBatch) account t.queue.batches)).or (some account) := by
    rintro pre account post t rfl hpost ht
    rw [Settlement.run_append, ht, Option.bind_some] at h
    obtain ⟨t', ht', hrun⟩ := Option.bind_eq_some_iff.1 h
    rw [← hdrained.finalEntry_eq, Settlement.finalEntry_run hpost hrun,
      Settlement.finalEntry_addAccount ht']
  constructor
  · intro hnew pre account post t hops hpost ht older holder
    have hsent := (hnew account.address account
      (newest_eq_some_iff.2 ⟨rfl, pre, post, hops, hpost⟩)).1
    rw [hlast pre account post t hops hpost ht, holder] at hsent
    exact Option.some.inj hsent
  · intro hbehind a account hnew
    obtain ⟨rfl, pre, post, hops, hpost⟩ := newest_eq_some_iff.1 hnew
    obtain ⟨t, ht, -⟩ := Option.bind_eq_some_iff.1 (Settlement.run_append ▸ hops ▸ h)
    have hsent : lastEntry (Address.toFullString account.address) s'.sent = some account := by
      rw [hlast pre account post t hops hpost ht]
      cases holder : lastEntry (Address.toFullString account.address)
          (behind (Batch.checkSize encodeBatch) account t.queue.batches) with
      | none => rfl
      | some older => rw [hbehind pre account post t hops hpost ht older holder]; rfl
    have hstore : ∀ k, s'.store k = (lastEntry k s'.sent).or (store k) :=
      Settlement.store_run hgood (fun _ => rfl) h
    exact ⟨hsent, by rw [hstore, hsent]; rfl⟩

/-- Requests that go through all succeed, with an encoder that does. -/
theorem allSucceed_of_answering {env : Env} {encodeBatch : Batch → Option String}
    (henc : ∀ b, (encodeBatch b).isSome) : ∀ {ops : List BatchOp} {s : Settlement},
    (∀ world, .nextBatch world ∈ ops → ∃ requestId, world = .answering requestId) →
      s.AllSucceed env encodeBatch ops
  | [], _, _ => trivial
  | op :: ops, s, h => by
    refine ⟨fun world hop => .inr ?_, fun t _ => allSucceed_of_answering henc fun world hw =>
      h world (List.mem_cons_of_mem _ hw)⟩
    obtain ⟨requestId, rfl⟩ := h world (hop ▸ List.mem_cons_self)
    exact ⟨⟨requestId, rfl, henc _, rfl⟩, fun _ _ => rfl⟩

/-- A version of the account of user 5. -/
def version (nonce : U256) : Account := { Account.build .user 5#160 with nonce := nonce }

/-- A batcher with an account in the parent and in each of two children. -/
def threeBatches : Settlement :=
  .start (Batch.ofAccount (.build .user 3#160))
    [Batch.ofAccount (.build .user 4#160), Batch.ofAccount (.build .user 6#160)]

/-- The account of user 5 is sent in the first batch, and again, with its program, in the second
one. -/
def versionOps : List BatchOp :=
  [.addAccount (version 0#256), .nextBatch (.answering "7"), .addAccount (version 1#256),
    .addAccount (version 2#256), .addAccount (.build (.program 9#160) 5#160),
    .nextBatch (.answering "8"), .nextBatch (.answering "9")]

/-- Each last version is added while another batch is behind the parent, without an account of its
address. -/
theorem newest_settled_of_three_versions :
    ∃ s' : Settlement, threeBatches.run Env.small (fun _ => some "") versionOps = some s' ∧
      s'.sent.length = 3 ∧
      (lastEntry (Address.toFullString 5#160) s'.sent = some (version 2#256) ∧
        s'.store (Address.toFullString 5#160) = some (version 2#256)) ∧
      lastEntry (Address.toFullString 9#160) s'.sent = some (.build (.program 9#160) 5#160) ∧
        s'.store (Address.toFullString 9#160) = some (.build (.program 9#160) 5#160) := by
  obtain ⟨s', hrun⟩ : ∃ s', threeBatches.run Env.small (fun _ => some "") versionOps = some s' :=
    ⟨_, rfl⟩
  have hgood : threeBatches.AllSucceed Env.small (fun _ => some "") versionOps :=
    allSucceed_of_answering (fun _ => rfl) fun world hw => by
      simp only [versionOps, List.mem_cons, reduceCtorEq, BatchOp.nextBatch.injEq, List.not_mem_nil,
        or_false, false_or] at hw
      rcases hw with rfl | rfl | rfl <;> exact ⟨_, rfl⟩
  have hdrained : s'.Drained := by
    cases hrun
    exact ⟨rfl, rfl⟩
  have hlength : s'.sent.length = 3 := by
    cases hrun
    rfl
  have hnewest := (newest_settled_iff Env.small (fun _ => some "") threeBatches.queue
    (fun _ => none) versionOps s' hrun hgood hdrained).2 ?_
  · exact ⟨s', hrun, hlength, hnewest 5#160 (version 2#256) rfl,
      hnewest 9#160 (.build (.program 9#160) 5#160) rfl⟩
  rintro (_ | ⟨o₁, _ | ⟨o₂, _ | ⟨o₃, _ | ⟨o₄, _ | ⟨o₅, pre⟩⟩⟩⟩⟩) account post t hops hpost ht older
    holder
  · cases hops
    exact absurd rfl (hpost (version 1#256) (by simp))
  · cases hops
  · cases hops
    exact absurd rfl (hpost (version 2#256) (by simp))
  · cases hops
    cases ht
    cases holder
  · cases hops
    cases ht
    cases holder
  · simp only [versionOps, List.cons_append, List.cons.injEq] at hops
    obtain ⟨-, -, -, -, -, hrest⟩ := hops
    have hmem : .addAccount account ∈ pre ++ .addAccount account :: post :=
      List.mem_append_right _ List.mem_cons_self
    rw [← hrest] at hmem
    simp at hmem

/-- The parent is empty, and the child has an older version with another nonce. The new one goes
to the parent, and is sent before the older. -/
theorem older_settled_last :
    ¬∀ (q : BatchQueue) (ops : List BatchOp) (s' : Settlement),
      Settlement.run Env.small (fun _ => some "") ⟨q, [], fun _ => none⟩ ops = some s' →
      Settlement.AllSucceed Env.small (fun _ => some "") ⟨q, [], fun _ => none⟩ ops →
      s'.Drained → ∀ a account, newest ops a = some account →
        lastEntry (Address.toFullString a) s'.sent = some account ∧
          s'.store (Address.toFullString a) = some account := by
  intro h
  let new : Account := { Account.build .user 5#160 with nonce := 1#256 }
  let q : BatchQueue := ⟨⟨Batch.new, [Batch.ofAccount (Account.build .user 5#160)]⟩, ∅⟩
  obtain ⟨s', hrun⟩ : ∃ s', Settlement.run Env.small (fun _ => some "") ⟨q, [], fun _ => none⟩
      [.addAccount new, .nextBatch (.answering "7"), .nextBatch (.answering "8")] = some s' :=
    ⟨_, rfl⟩
  have hdrained : s'.Drained := by
    cases hrun
    exact ⟨rfl, rfl⟩
  have hgood : Settlement.AllSucceed Env.small (fun _ => some "") ⟨q, [], fun _ => none⟩
      [.addAccount new, .nextBatch (.answering "7"), .nextBatch (.answering "8")] := by
    refine allSucceed_of_answering (fun _ => rfl) fun world hw => ?_
    rcases (by simpa using hw : world = .answering "7" ∨ world = .answering "8") with rfl | rfl
    · exact ⟨"7", rfl⟩
    · exact ⟨"8", rfl⟩
  have hsent := (h q _ s' hrun hgood hdrained 5#160 new rfl).1
  cases hrun
  have hnonce := congrArg (Option.map Account.nonce) hsent
  exact absurd hnonce (by decide)

end Lasr
