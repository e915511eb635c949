import Lasr.Messages

/-!
# The account cache

`AccountCacheInner` of `actors/src/account_cache.rs` over the persistence store. An
account is written under its own address, its owner's for a user account and the
program's for a program account, so a slot can only hold an account of that address. A
read asks the cache first and the store second (`accounts`).

Nothing the node sends removes an entry, and an account reaches the store by way of a
batch, after it was written to the cache; a read never sees that copy, so the store is
fixed here. The batches are written under the batcher's lock and are read by no future.

`cacheHandler` answers the operations of a future that runs alone.
-/

set_option linter.unusedSectionVars false

namespace Lasr

/-- The `cache` of `AccountCacheInner`; also the persistence store. -/
abbrev AccountStore := (a : Address) → Slot a

/-- The accounts a reader sees. -/
abbrev AccountMap := Address → Option Account

/-- Put an account under its own address. -/
def AccountMap.put (v : AccountMap) (account : Account) : AccountMap :=
  Function.update v account.address (some account)

theorem AccountMap.put_apply (v : AccountMap) (account : Account) (a : Address) :
    v.put account a = if a = account.address then some account else v a := by
  simp [put, Function.update_apply]

@[simp] theorem AccountMap.put_self (v : AccountMap) (account : Account) :
    v.put account account.address = some account := by
  simp [put_apply]

theorem AccountMap.put_of_ne (v : AccountMap) {account : Account} {a : Address}
    (h : a ≠ account.address) : v.put account a = v a := by
  simp [put_apply, h]

/-- Of two accounts of one address the later stays. -/
theorem AccountMap.put_put (v : AccountMap) {account account' : Account}
    (h : account.address = account'.address) : (v.put account).put account' = v.put account' := by
  simp [put, h]

/-- Put accounts one after another. -/
def AccountMap.putAll (v : AccountMap) (l : List Account) : AccountMap :=
  l.foldl AccountMap.put v

theorem AccountMap.putAll_of_not_mem : ∀ {l : List Account} {v : AccountMap} {a : Address},
    a ∉ l.map Account.address → v.putAll l a = v a
  | [], _, _, _ => rfl
  | account :: l, v, a, h => by
    rw [List.map_cons, List.mem_cons, not_or] at h
    have hrest := putAll_of_not_mem (v := v.put account) h.2
    rw [v.put_of_ne h.1] at hrest
    exact hrest

/-- Among accounts of different addresses, each is found again. -/
theorem AccountMap.putAll_of_mem : ∀ {l : List Account} {v : AccountMap} {account : Account},
    (l.map Account.address).Nodup → account ∈ l → v.putAll l account.address = some account
  | b :: l, v, account, hnd, h => by
    rw [List.map_cons, List.nodup_cons] at hnd
    rcases List.mem_cons.1 h with rfl | h
    · have hrest := putAll_of_not_mem (v := v.put account) hnd.1
      rw [v.put_self account] at hrest
      exact hrest
    · exact putAll_of_mem (v := v.put b) hnd.2 h

section Entries

variable {κ : Type} [DecidableEq κ] (order : HashOrder) {m : HashMap κ Account} {key : Address → κ}

/-- The addresses of a map of accounts whose keys name them. -/
theorem AccountMap.keys_of_entries
    (hm : ∀ k account, m.lookup k = some account → key account.address = k) :
    (((order.iter m.entries).map Sigma.snd).map Account.address).map key =
      (order.iter m.entries).map Sigma.fst := by
  rw [List.map_map, List.map_map]
  exact List.map_congr_left fun s hs =>
    hm s.1 s.2 (AList.mem_lookup_iff.2 ((order.perm _).mem_iff.1 hs))

/-- They are all different. -/
theorem AccountMap.nodup_of_entries
    (hm : ∀ k account, m.lookup k = some account → key account.address = k) :
    (((order.iter m.entries).map Sigma.snd).map Account.address).Nodup := by
  refine List.Nodup.of_map key ?_
  rw [keys_of_entries order hm, ((order.perm _).map Sigma.fst).nodup_iff]
  exact m.keys_nodup

/-- Write out a map of accounts whose keys name their addresses, in any order : an
address it has a key for leads to that entry, every other one is as before. -/
theorem AccountMap.putAll_entries (hinj : Function.Injective key)
    (hm : ∀ k account, m.lookup k = some account → key account.address = k)
    (v : AccountMap) (a : Address) :
    v.putAll ((order.iter m.entries).map Sigma.snd) a = (m.lookup (key a)).or (v a) := by
  cases hb : m.lookup (key a) with
  | some account =>
    have ha : account.address = a := hinj (hm _ _ hb)
    subst ha
    have hmem := (order.perm _).mem_iff.2 (AList.mem_lookup_iff.1 hb)
    rw [putAll_of_mem (nodup_of_entries order hm) (List.mem_map_of_mem hmem)]
    rfl
  | none =>
    rw [putAll_of_not_mem, Option.none_or]
    intro ha
    have hmem : key a ∈ (order.iter m.entries).map Sigma.fst :=
      keys_of_entries order hm ▸ List.mem_map_of_mem ha
    rw [((order.perm _).map Sigma.fst).mem_iff] at hmem
    exact AList.lookup_eq_none.1 hb hmem

end Entries

/-- `handle_cache_write`. -/
def handleCacheWrite (cache : AccountStore) (account : Account) : AccountStore :=
  Function.update cache account.address (some ⟨account, rfl⟩)

/-- The answer to `Read` : the cached account, or else the stored one. -/
def accounts (storage cache : AccountStore) : AccountMap := fun a =>
  Slot.account ((cache a).or (storage a))

/-- A write puts the account under its address. -/
theorem accounts_handleCacheWrite (storage cache : AccountStore) (account : Account) :
    accounts storage (handleCacheWrite cache account) =
      (accounts storage cache).put account := by
  funext a
  rw [AccountMap.put_apply]
  split_ifs with h
  · subst h
    simp [accounts, handleCacheWrite, Slot.account]
  · simp [accounts, handleCacheWrite, h]

theorem accounts_foldl_handleCacheWrite (storage : AccountStore) :
    ∀ (l : List Account) (cache : AccountStore),
      accounts storage (l.foldl handleCacheWrite cache) = (accounts storage cache).putAll l
  | [], _ => rfl
  | account :: l, cache => by
    rw [List.foldl_cons, accounts_foldl_handleCacheWrite storage l, accounts_handleCacheWrite]
    rfl

/-- A reader of `a` gets an account of that address. -/
theorem address_of_accounts {storage cache : AccountStore} {a : Address} {account : Account}
    (h : accounts storage cache a = some account) : account.address = a :=
  Slot.address_of_account h

section Cells

variable {storage cache cache' : AccountStore} {x : Address}

theorem accounts_congr (h : cache' x = cache x) :
    accounts storage cache' x = accounts storage cache x := by
  unfold accounts
  rw [h]

/-- A cell that is read as it is. -/
theorem cell_isSome {x : Address} (h : (accounts (fun _ => none) c x).isSome) : (c x).isSome := by
  unfold accounts at h
  cases hx : c x with
  | none => simp [hx, Slot.account] at h
  | some s => rfl

theorem eq_of_accounts {c c' : AccountStore} {x : Address} (h : (c x).isSome) (h' : (c' x).isSome)
    (heq : accounts storage c' x = accounts storage c x) : c' x = c x := by
  obtain ⟨a, ha⟩ := Option.isSome_iff_exists.1 h
  obtain ⟨a', ha'⟩ := Option.isSome_iff_exists.1 h'
  unfold accounts at heq
  rw [ha, ha'] at heq ⊢
  exact congrArg some (Subtype.ext (Option.some.inj heq))

end Cells

/-! ## A future alone -/

/-- The cell an operation reads or writes. -/
def Op.cell : Op → Option Address
  | .getAccount a => some a
  | .cacheAccount account => some account.address
  | _ => none

/-- The answer to an operation, and the cache after it. -/
def answer (storage : AccountStore) : Handler effects AccountStore
  | .getAccount a, cache => ((cache a).or (storage a), cache)
  | .cacheAccount account, cache => ((), handleCacheWrite cache account)
  | .insertAccount _, cache => ((), cache)
  | .insertTransaction _, cache => ((), cache)
  | .cast _, cache => ((), cache)
  | .runContainer _ _ _ _, cache => ((), cache)
  | .takeHandle _, cache => (none, cache)

/-- The account cache, as the handler of a future that runs alone. -/
def cacheHandler (storage : AccountStore) : KeyedHandler effects Address Slot where
  handler := answer storage
  key := Op.cell
  frame o cache a h := by
    cases o with
    | cacheAccount account =>
      have hne : a ≠ account.address := fun he => h (by rw [he]; rfl)
      simp [answer, handleCacheWrite, hne]
    | _ => rfl
  read o cache cache' h := by
    cases o with
    | getAccount a =>
      have ha := h a rfl
      refine ⟨?_, fun k hk => h k hk⟩
      change (cache a).or (storage a) = (cache' a).or (storage a)
      rw [ha]
    | cacheAccount account =>
      refine ⟨rfl, fun k hk => ?_⟩
      cases hk
      simp [answer, handleCacheWrite]
    | _ => exact ⟨rfl, fun _ hk => nomatch hk⟩

/-- Run a future alone on the cache. -/
def runAlone {ε α : Type} (storage : AccountStore) (p : Async ε α) (cache : AccountStore) :
    Except ε α × AccountStore :=
  Prog.run (cacheHandler storage).handler p cache

/-- The accounts that a future running alone writes to the cache, in order. -/
def writesAlone {ε α : Type} (storage : AccountStore) (p : Async ε α) (cache : AccountStore) :
    List Account :=
  (Prog.trace (cacheHandler storage).handler p cache).filterMap fun
    | .cacheAccount account => some account
    | _ => none

section RunAlone

variable {ε α β : Type} {storage cache cache' : AccountStore}

@[simp] theorem runAlone_ofExcept (x : Except ε α) :
    runAlone storage (Prog.ofExcept x : Async ε α) cache = (x, cache) :=
  Prog.run_ofExcept _ x cache

@[simp] theorem runAlone_getAccount_bind (a : Address) (f : Option Account → Async ε β) :
    runAlone storage (getAccount a >>= f) cache =
      runAlone storage (f (accounts storage cache a)) cache := rfl

theorem writesAlone_getAccount_bind (a : Address) (f : Option Account → Async ε β) :
    writesAlone storage (getAccount a >>= f) cache =
      writesAlone storage (f (accounts storage cache a)) cache := rfl

@[simp] theorem runAlone_addTransactionToBatch_bind (tx : Transaction) (f : Unit → Async ε β) :
    runAlone storage (addTransactionToBatch tx >>= f) cache = runAlone storage (f ()) cache :=
  rfl

@[simp] theorem runAlone_cast_bind (m : Msg) (f : Unit → Async ε β) :
    runAlone storage (cast m >>= f) cache = runAlone storage (f ()) cache := rfl

theorem runAlone_bind_ok {p : Async ε α} {f : α → Async ε β} {b : β}
    (h : runAlone storage (p >>= f) cache = (.ok b, cache')) :
    ∃ a c, runAlone storage p cache = (.ok a, c) ∧ runAlone storage (f a) c = (.ok b, cache') :=
  Prog.run_bind_ok h

theorem runAlone_bind_error {p : Async ε α} {f : α → Async ε β} {e : ε}
    (h : runAlone storage (p >>= f) cache = (.error e, cache')) :
    runAlone storage p cache = (.error e, cache') ∨
      ∃ a c, runAlone storage p cache = (.ok a, c) ∧
        runAlone storage (f a) c = (.error e, cache') :=
  Prog.run_bind_error h

end RunAlone

end Lasr
