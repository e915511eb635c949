import Lasr.Batcher
import Mathlib.Data.FinEnum
import Mathlib.Algebra.BigOperators.Finprod
import Mathlib.Algebra.BigOperators.Ring.Nat

/-!
# Balances, nonces and supply

What a map of accounts holds : the balance of a token at an address, the nonce at an
address, and the supply of a token, summed over every address there is. An address
without an account holds nothing and has nonce zero.

A batcher function takes the account at an address, or builds one there, changes the copy
and puts it back. `Stands` says that a copy is what the map holds at the address,
`Credits` and `Debits` that a changed copy differs in one token only. Putting such a
copy back moves the supply by exactly that much.
-/

set_option linter.unusedSectionVars false

namespace Lasr

/-- A sum with one summand replaced. -/
theorem finsum_update_add {α M : Type} [Fintype α] [DecidableEq α] [AddCommMonoid M] (f : α → M)
    (x : α) (m : M) : (∑ᶠ a, Function.update f x m a) + f x = (∑ᶠ a, f a) + m := by
  have hsplit := Finset.sum_update_of_mem (Finset.mem_univ x) f m
  have hold := Finset.sum_sdiff (Finset.subset_univ {x}) (f := f)
  rw [Finset.sum_singleton] at hold
  rw [finsum_eq_sum_of_fintype, finsum_eq_sum_of_fintype, hsplit, ← hold]
  rw [add_assoc, add_comm m]

namespace AccountMap

/-- The balance of token `k` at address `a`. -/
def balanceAt (v : AccountMap) (a k : Address) : ℕ :=
  match v a with
  | some account => (account.balance k).toNat
  | none => 0

/-- The nonce at address `a`. -/
def nonceAt (v : AccountMap) (a : Address) : ℕ :=
  match v a with
  | some account => account.nonce.toNat
  | none => 0

/-- The supply of token `k`, over all accounts. -/
noncomputable def supply (v : AccountMap) (k : Address) : ℕ :=
  ∑ᶠ a, v.balanceAt a k

theorem balanceAt_of_some {v : AccountMap} {a : Address} {account : Account}
    (h : v a = some account) (k : Address) : v.balanceAt a k = (account.balance k).toNat := by
  simp [balanceAt, h]

theorem nonceAt_of_some {v : AccountMap} {a : Address} {account : Account}
    (h : v a = some account) : v.nonceAt a = account.nonce.toNat := by
  simp [nonceAt, h]

theorem balanceAt_put (v : AccountMap) (account : Account) (a k : Address) :
    (v.put account).balanceAt a k =
      if a = account.address then (account.balance k).toNat else v.balanceAt a k := by
  simp only [balanceAt, put_apply]
  split_ifs <;> rfl

theorem nonceAt_put (v : AccountMap) (account : Account) (a : Address) :
    (v.put account).nonceAt a =
      if a = account.address then account.nonce.toNat else v.nonceAt a := by
  simp only [nonceAt, put_apply]
  split_ifs <;> rfl

/-- Putting an account moves the supply by its balance, less the one it replaces. -/
theorem supply_put (v : AccountMap) (account : Account) (k : Address) :
    (v.put account).supply k + v.balanceAt account.address k =
      v.supply k + (account.balance k).toNat := by
  have hput : (fun a => (v.put account).balanceAt a k) =
      Function.update (fun a => v.balanceAt a k) account.address (account.balance k).toNat := by
    funext a
    rw [balanceAt_put, Function.update_apply]
  unfold supply
  rw [hput]
  exact finsum_update_add _ account.address _

end AccountMap

/-! ## Copies of an account -/

/-- `account` is what `v` holds at `x`, or a fresh account where it holds none. -/
structure Stands (v : AccountMap) (x : Address) (account : Account) : Prop where
  address : account.address = x
  nonce : account.nonce.toNat = v.nonceAt x
  balance : ∀ k, (account.balance k).toNat = v.balanceAt x k

/-- `account` is what `v` holds at `x`, with `amt` more of `tok`. -/
structure Credits (v : AccountMap) (x : Address) (account : Account) (tok : Address) (amt : ℕ) :
    Prop where
  address : account.address = x
  nonce : account.nonce.toNat = v.nonceAt x
  balance : ∀ k, (account.balance k).toNat = v.balanceAt x k + if k = tok then amt else 0

/-- `account` is what `v` holds at `x`, with `amt` less of `tok`. -/
structure Debits (v : AccountMap) (x : Address) (account : Account) (tok : Address) (amt : ℕ) :
    Prop where
  address : account.address = x
  nonce : account.nonce.toNat = v.nonceAt x
  balance : ∀ k, (account.balance k).toNat + (if k = tok then amt else 0) = v.balanceAt x k

variable {v : AccountMap} {x tok : Address} {account account' : Account} {amt : ℕ}

theorem Stands.of_some (h : v x = some account) (hx : account.address = x) :
    Stands v x account :=
  ⟨hx, (AccountMap.nonceAt_of_some h).symm, fun k => (AccountMap.balanceAt_of_some h k).symm⟩

/-- An account just built stands for an address that has none. -/
theorem Stands.of_none {accountType : AccountType} {owner : Address} (h : v x = none)
    (hx : (Account.build accountType owner).address = x) :
    Stands v x (Account.build accountType owner) := by
  refine ⟨hx, ?_, fun k => ?_⟩
  · simp [Account.build, AccountMap.nonceAt, h]
  · simp [Account.build, Account.balance, AccountMap.balanceAt, h]

theorem Stands.credits (hs : Stands v x account) (hh : account.SameHeader account')
    (hc : account.Credited account' tok amt) : Credits v x account' tok amt := by
  refine ⟨hh.address.trans hs.address, ?_, fun k => ?_⟩
  · rw [hh.nonce, hs.nonce]
  · rw [hc k, hs.balance k]

theorem Stands.debits (hs : Stands v x account) (hh : account.SameHeader account')
    (hd : account.Debited account' tok amt) : Debits v x account' tok amt := by
  refine ⟨hh.address.trans hs.address, ?_, fun k => ?_⟩
  · rw [hh.nonce, hs.nonce]
  · rw [hd k, hs.balance k]

/-- A copy whose programs and header did not change. -/
theorem Stands.credits_zero (hs : Stands v x account) (hh : account.SameHeader account')
    (hp : account'.programs = account.programs) : Credits v x account' tok 0 := by
  refine hs.credits hh fun k => ?_
  simp [Account.balance, hp]

/-! ## Putting a copy back -/

/-- A copy of one account is not affected by putting another. -/
theorem Credits.put_of_ne (h : Credits v x account tok amt) (hne : x ≠ account'.address) :
    Credits (v.put account') x account tok amt := by
  refine ⟨h.address, ?_, fun k => ?_⟩
  · rw [AccountMap.nonceAt_put, if_neg hne, h.nonce]
  · rw [AccountMap.balanceAt_put, if_neg hne, h.balance k]

theorem Credits.supply (h : Credits v x account tok amt) (k : Address) :
    (v.put account).supply k = v.supply k + if k = tok then amt else 0 := by
  have hput := v.supply_put account k
  rw [h.address, h.balance k] at hput
  omega

theorem Debits.supply (h : Debits v x account tok amt) (k : Address) :
    (v.put account).supply k + (if k = tok then amt else 0) = v.supply k := by
  have hput := v.supply_put account k
  have hb := h.balance k
  rw [h.address] at hput
  omega

theorem Credits.nonceAt (h : Credits v x account tok amt) (a : Address) :
    (v.put account).nonceAt a = v.nonceAt a := by
  rw [AccountMap.nonceAt_put]
  split_ifs with ha
  · rw [ha, h.address, h.nonce]
  · rfl

theorem Debits.nonceAt (h : Debits v x account tok amt) (a : Address) :
    (v.put account).nonceAt a = v.nonceAt a := by
  rw [AccountMap.nonceAt_put]
  split_ifs with ha
  · rw [ha, h.address, h.nonce]
  · rfl

theorem Credits.balanceAt (h : Credits v x account tok amt) (a k : Address) :
    (v.put account).balanceAt a k = v.balanceAt a k + if a = x ∧ k = tok then amt else 0 := by
  rw [AccountMap.balanceAt_put, h.address]
  by_cases ha : a = x
  · simp [ha, h.balance k]
  · simp [ha]

theorem Debits.balanceAt (h : Debits v x account tok amt) (a k : Address) :
    (v.put account).balanceAt a k + (if a = x ∧ k = tok then amt else 0) = v.balanceAt a k := by
  rw [AccountMap.balanceAt_put, h.address]
  by_cases ha : a = x
  · simpa [ha] using h.balance k
  · simp [ha]

/-! ## Small states -/

/-- A user account that holds `amt` of `tok` and nothing else. -/
def Account.holding (owner tok : Address) (amt : U256) : Account :=
  (Account.build .user owner).insertProgram tok
    { Token.fresh tok owner (fun _ => none) (fun _ => none) with balance := amt }

/-- The cache after these accounts were written to it. -/
def storeOf (l : List Account) : AccountStore :=
  l.foldl handleCacheWrite fun _ => none

end Lasr
