import Lasr.AccountCache

/-!
# The messages of the account cache

`AccountCacheActor` of `actors/src/account_cache.rs`, message by message, on the `HashMap` it
keeps. `Write` stores an account under its own address (`handle_cache_write`). `Update`
looks for an entry under the address of the owner, for a program account too, and replaces
it; only where there is none it writes.

What the actor is for is `latest` : the account last written or updated for an address since
the address was removed. The cache holds that as long as no `Update` brings a program account
whose owner has an entry (`cache_correct_iff`).
-/

set_option linter.unusedSectionVars false

namespace Lasr

/-! ## The store -/

/-- The persistence store, as `Read` uses it : `PersistenceStore::get`, and
`bincode::deserialize` of the `AccountValue` it returns. -/
structure PersistenceStore where
  get : String → Except String (Option (List UInt8))
  deserialize : List UInt8 → Except String Account

/-- The account the store gives for an address. What it cannot get or read is only logged. -/
def PersistenceStore.account (self : PersistenceStore) (address : Address) : Option Account :=
  match self.get (Address.toFullString address) with
  | .ok (some returnedData) =>
    match self.deserialize returnedData with
    | .ok account => some account
    | .error _ => none
  | .ok none => none
  | .error _ => none

/-! ## The cache -/

/-- `AccountCacheError`, as far as `update` returns it. -/
inductive AccountCacheError where
  | failedAccountAcquisition (addr : Address)

/-- `AccountCacheInner`, the part that is read. -/
structure AccountCacheInner where
  cache : HashMap Address Account

namespace AccountCacheInner

/-- `AccountCacheInner::new`. -/
def new : AccountCacheInner := ⟨∅⟩

/-- `get`. -/
def get (self : AccountCacheInner) (address : Address) : Option Account :=
  self.cache.lookup address

/-- `remove`. -/
def remove (self : AccountCacheInner) (address : Address) : AccountCacheInner :=
  ⟨self.cache.erase address⟩

/-- `update`. The key is the owner's address, whatever the type of the account. -/
def update (self : AccountCacheInner) (account : Account) :
    Except AccountCacheError AccountCacheInner :=
  match self.get account.ownerAddress with
  | some _ => .ok ⟨self.cache.insert account.ownerAddress account⟩
  | none => .error (.failedAccountAcquisition account.ownerAddress)

/-- `handle_cache_write`. What `check_build_batch` says after it, its callers drop. -/
def handleCacheWrite (self : AccountCacheInner) (account : Account) : AccountCacheInner :=
  match account.accountType with
  | .user => ⟨self.cache.insert account.ownerAddress account⟩
  | .program programAddress => ⟨self.cache.insert programAddress account⟩

end AccountCacheInner

/-! ## The messages -/

/-- `AccountCacheMessage`, less the names of the senders. -/
inductive AccountCacheMessage where
  | write (account : Account)
  | read (address : Address)
  | remove (address : Address)
  | update (account : Account)
  | tryGetAccount (address : Address)

/-- What the actor sends back. -/
inductive AccountCacheReply where
  | account (account : Option Account)
  | response (response : Except String Account)

/-- `AccountCacheActor::handle` : what is sent back, and the cache after it. -/
def AccountCacheInner.handle (state : AccountCacheInner) (storage : PersistenceStore) :
    AccountCacheMessage → Option AccountCacheReply × AccountCacheInner
  | .write account => (none, state.handleCacheWrite account)
  | .read address => (some (.account ((state.get address).or (storage.account address))), state)
  | .remove address => (none, state.remove address)
  | .update account =>
    match state.update account with
    | .ok state => (none, state)
    | .error _ => (none, state.handleCacheWrite account)
  | .tryGetAccount address =>
    match state.get address with
    | some account => (some (.response (.ok account)), state)
    | none => (some (.response (.error
        "Unable to acquire account from Persistence Store or Protocol Cache")), state)

/-- The cache after messages, each handled over the store of that moment. -/
def AccountCacheInner.run (l : List (PersistenceStore × AccountCacheMessage)) :
    AccountCacheInner :=
  l.foldl (fun state e => (state.handle e.1 e.2).2) .new

/-! ## What the cache is for -/

/-- What a message makes the current account of an address. -/
def AccountCacheMessage.note (v : AccountMap) : AccountCacheMessage → AccountMap
  | .write account => v.put account
  | .update account => v.put account
  | .remove address => Function.update v address none
  | .read _ => v
  | .tryGetAccount _ => v

/-- The account most recently written or updated for an address, since the address was last
removed. -/
def latest (l : List AccountCacheMessage) : AccountMap :=
  l.foldl AccountCacheMessage.note fun _ => none

/-- Every entry is an account of the address it is stored under. -/
def AccountCacheInner.Keyed (self : AccountCacheInner) : Prop :=
  ∀ k account, self.get k = some account → account.address = k

section Step

variable {state : AccountCacheInner} {storage : PersistenceStore} {account : Account}

theorem AccountCacheInner.get_insert (state : AccountCacheInner) (k : Address)
    (account : Account) : (⟨state.cache.insert k account⟩ : AccountCacheInner).get =
      Function.update state.get k (some account) := by
  funext a
  by_cases ha : a = k
  · subst ha
    simp [get]
  · simp [get, ha]

/-- A write puts the account under its address, as `handleCacheWrite` on a store does. -/
theorem AccountCacheInner.get_handleCacheWrite (state : AccountCacheInner) (account : Account) :
    (state.handleCacheWrite account).get = AccountMap.put state.get account := by
  unfold handleCacheWrite AccountMap.put Account.address
  cases account.accountType <;> exact state.get_insert _ account

theorem AccountCacheInner.get_remove (state : AccountCacheInner) (k : Address) :
    (state.remove k).get = Function.update state.get k none := by
  funext a
  by_cases ha : a = k
  · subst ha
    simp [get, remove]
  · simp [get, remove, ha, AList.lookup_erase_ne ha]

/-- An update that finds the owner replaces the owner's entry. -/
theorem AccountCacheInner.get_update_of_found (h : state.get account.ownerAddress ≠ none) :
    (state.handle storage (.update account)).2.get =
      Function.update state.get account.ownerAddress (some account) := by
  obtain ⟨found, hfound⟩ := Option.ne_none_iff_exists'.1 h
  simp only [handle, update, hfound]
  exact state.get_insert _ account

/-- An update that finds no owner is a write. -/
theorem AccountCacheInner.get_update_of_missing (h : state.get account.ownerAddress = none) :
    (state.handle storage (.update account)).2.get = AccountMap.put state.get account := by
  simp only [handle, update, h]
  exact state.get_handleCacheWrite account

/-- The updates that are made under the account's own address. -/
def AccountCacheMessage.InPlace (v : AccountMap) : AccountCacheMessage → Prop
  | .update account => account.address = account.ownerAddress ∨ v account.ownerAddress = none
  | _ => True

/-- One message : such an update and every other message leave in the cache what they are
for. -/
theorem AccountCacheInner.get_handle {message : AccountCacheMessage}
    (h : message.InPlace state.get) :
    (state.handle storage message).2.get = message.note state.get := by
  cases message with
  | write account => exact state.get_handleCacheWrite account
  | read address => rfl
  | remove address => exact state.get_remove address
  | update account =>
    by_cases hfound : state.get account.ownerAddress = none
    · exact get_update_of_missing hfound
    · rw [get_update_of_found hfound, ← h.resolve_right hfound]
      rfl
  | tryGetAccount address =>
    cases hget : state.get address <;> simp only [handle, hget] <;> rfl

/-- Any other update leaves an account under an address that is not its own. -/
theorem AccountCacheInner.not_keyed_handle {message : AccountCacheMessage}
    (h : ¬message.InPlace state.get) : ¬(state.handle storage message).2.Keyed := by
  cases message with
  | update account =>
    obtain ⟨hne, hfound⟩ := not_or.1 h
    intro hkeyed
    refine hne (hkeyed account.ownerAddress account ?_)
    rw [get_update_of_found hfound, Function.update_self]
  | _ => exact absurd trivial h

end Step

/-! ## Runs -/

section Runs

variable {l : List (PersistenceStore × AccountCacheMessage)}
  {e : PersistenceStore × AccountCacheMessage}

theorem AccountCacheInner.run_append_singleton :
    run (l ++ [e]) = ((run l).handle e.1 e.2).2 := by
  simp [run]

theorem latest_append_singleton (l : List AccountCacheMessage) (message : AccountCacheMessage) :
    latest (l ++ [message]) = message.note (latest l) := by
  simp [latest]

/-- What is current for an address is an account of it. -/
theorem address_of_latest (l : List AccountCacheMessage) {k : Address} {account : Account}
    (h : latest l k = some account) : account.address = k := by
  induction l using List.reverseRecOn generalizing k account with
  | nil => exact nomatch h
  | append_singleton l message ih =>
    rw [latest_append_singleton] at h
    have hput : ∀ {new : Account}, (latest l).put new k = some account → account.address = k := by
      intro new h
      rw [AccountMap.put_apply] at h
      split_ifs at h with hk
      · cases h
        exact hk.symm
      · exact ih h
    cases message with
    | write new => exact hput h
    | update new => exact hput h
    | remove address =>
      by_cases hk : k = address
      · simp [AccountCacheMessage.note, hk] at h
      · exact ih (by simpa [AccountCacheMessage.note, hk] using h)
    | read address => exact ih h
    | tryGetAccount address => exact ih h

/-- Messages whose updates are all in place leave the current accounts in the cache. -/
theorem AccountCacheInner.get_run (l : List (PersistenceStore × AccountCacheMessage))
    (h : ∀ pre e, pre ++ [e] <+: l → e.2.InPlace (latest (pre.map Prod.snd))) :
    (run l).get = latest (l.map Prod.snd) := by
  induction l using List.reverseRecOn with
  | nil => rfl
  | append_singleton l e ih =>
    have hget := ih fun pre e' hpre => h pre e' (hpre.trans (List.prefix_append _ _))
    have hlast : e.2.InPlace (run l).get := hget ▸ h l e List.prefix_rfl
    rw [run_append_singleton, get_handle hlast, hget, List.map_append]
    exact (latest_append_singleton _ _).symm

end Runs

/-- The cache is right all along, every entry under its own address and every `Read` answered
with the current account or else the stored one, exactly if no `Update` brings a program
account whose owner's address is another and has an entry of its own. -/
theorem cache_correct_iff (l : List (PersistenceStore × AccountCacheMessage)) :
    (∀ pre, pre <+: l → (AccountCacheInner.run pre).Keyed ∧
      ∀ storage k, ((AccountCacheInner.run pre).handle storage (.read k)).1 =
        some (.account ((latest (pre.map Prod.snd) k).or (storage.account k)))) ↔
    ∀ pre storage account, pre ++ [(storage, .update account)] <+: l →
      account.address = account.ownerAddress ∨
        latest (pre.map Prod.snd) account.ownerAddress = none := by
  constructor
  · intro h pre storage account hpre
    -- over a store that has nothing, the reads say what is in the cache
    have hget : (AccountCacheInner.run pre).get = latest (pre.map Prod.snd) := by
      funext k
      have hread := (h pre ((List.prefix_append _ _).trans hpre)).2
        ⟨fun _ => .ok none, fun _ => .error ""⟩ k
      simpa [AccountCacheInner.handle, PersistenceStore.account] using hread
    have hkeyed := (h _ hpre).1
    rw [AccountCacheInner.run_append_singleton] at hkeyed
    by_contra hne
    have hout : ¬AccountCacheMessage.InPlace (AccountCacheInner.run pre).get (.update account) := by
      rw [hget]
      exact hne
    exact AccountCacheInner.not_keyed_handle hout hkeyed
  · intro h pre hpre
    have hget : (AccountCacheInner.run pre).get = latest (pre.map Prod.snd) := by
      refine AccountCacheInner.get_run pre fun pre' e he => ?_
      obtain ⟨storage, message⟩ := e
      cases message with
      | update account => exact h pre' storage account (he.trans hpre)
      | _ => trivial
    refine ⟨fun k account hk => address_of_latest _ (hget ▸ hk), fun storage k => ?_⟩
    simp only [AccountCacheInner.handle, hget]

/-- A user's account is written, then a program of that user updated. The user's address now
has the program's account. -/
theorem not_cache_correct_of_shared_owner :
    ¬∀ pre, pre <+: [((⟨fun _ => .ok none, fun _ => .error ""⟩ : PersistenceStore),
        AccountCacheMessage.write (Account.build .user 5#160)),
        (⟨fun _ => .ok none, fun _ => .error ""⟩,
          .update (Account.build (.program 7#160) 5#160))] →
      (AccountCacheInner.run pre).Keyed ∧
      ∀ storage k, ((AccountCacheInner.run pre).handle storage (.read k)).1 =
        some (.account ((latest (pre.map Prod.snd) k).or (storage.account k))) := by
  intro h
  have hkeyed := (h _ List.prefix_rfl).1
  have hget := hkeyed 5#160 (Account.build (.program 7#160) 5#160) (by rfl)
  exact absurd hget (by decide)

end Lasr
