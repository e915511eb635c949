import Lasr.Prog
import Mathlib.Algebra.Group.Nat.Defs
import Mathlib.Data.List.AList

/-!
# Tokens

`types/src/token.rs` and the address type of `types/src/account.rs`. A `U256` is a
256-bit word whose `+` and `-` panic on overflow, as the operators of `construct_uint`
do (`U256.add`, `U256.sub`). A `BTreeMap` that is only looked up and written to is the
function of its lookups; a `HashMap` that is also walked keeps its entries.

A method that takes `&mut self` and may fail returns the new value. Its failures are a
returned error, written as the text it displays, or a panic (`Fault`).
-/

set_option linter.unusedSectionVars false

namespace Lasr

/-! ## Failures and words -/

/-- How a call ends without a result : with a returned error, or in a panic. -/
inductive Fault (ε : Type) where
  | err (e : ε)
  | panic
  deriving DecidableEq, Repr

/-- Rename a returned error. A panic passes through. -/
def Fault.map {ε ε' : Type} (g : ε → ε') : Fault ε → Fault ε'
  | .err e => .err (g e)
  | .panic => .panic

/-- `AccountResult`, with a boxed error as the text it displays. -/
abbrev AccountResult (α : Type) := Except (Fault String) α

/-- A 256-bit unsigned integer. -/
abbrev U256 := BitVec 256

/-- `a + b`, which panics on overflow. -/
def U256.add (a b : U256) : AccountResult U256 :=
  if a.toNat + b.toNat < 2 ^ 256 then .ok (a + b) else .error .panic

/-- `a - b`, which panics on underflow. -/
def U256.sub (a b : U256) : AccountResult U256 :=
  if b ≤ a then .ok (a - b) else .error .panic

theorem U256.toNat_add {a b c : U256} (h : U256.add a b = .ok c) :
    c.toNat = a.toNat + b.toNat := by
  unfold U256.add at h
  split_ifs at h with hlt
  cases h
  rw [BitVec.toNat_add, Nat.mod_eq_of_lt hlt]

theorem U256.toNat_sub {a b c : U256} (h : U256.sub a b = .ok c) :
    c.toNat + b.toNat = a.toNat := by
  unfold U256.sub at h
  split_ifs at h with hle
  cases h
  have hn : b.toNat ≤ a.toNat := BitVec.le_def.mp hle
  rw [BitVec.toNat_sub_of_le hle]
  omega

/-- A 20-byte address, as the number its bytes spell. -/
abbrev Address := BitVec 160

/-- `Address::eth_addr`. -/
def ETH_ADDR : Address := 0#160

/-- `Address::verse_addr`. -/
def VERSE_ADDR : Address := 1#160

/-- One lower-case hex digit. -/
def hexDigit (n : ℕ) : Char :=
  if n < 10 then Char.ofNat (48 + n) else Char.ofNat (87 + n)

/-- The `i`-th byte of an address, the most significant first. -/
def Address.byte (a : Address) (i : ℕ) : BitVec 8 :=
  a.extractLsb' (8 * (19 - i)) 8

/-- The two hex digits of a byte. -/
def Address.hexByte (a : Address) (i : ℕ) : List Char :=
  [hexDigit ((Address.byte a i).toNat / 16), hexDigit ((Address.byte a i).toNat % 16)]

/-- `to_full_string` : `0x` and two hex digits a byte. -/
def Address.toFullString (a : Address) : String :=
  String.ofList ('0' :: 'x' :: (List.range 20).flatMap (Address.hexByte a))

/-- The display of an address, which leaves out the digits in between. -/
def Address.toText (a : Address) : String :=
  let hex := ((List.range 20).flatMap (Address.hexByte a))
  String.ofList ('0' :: 'x' :: hex.take 4 ++ ['.', '.', '.'] ++ hex.drop 36)

/-! ## Maps and strings -/

/-- A `BTreeMap`, by its lookups. -/
abbrev BTreeMap (K V : Type) := K → Option V

namespace BTreeMap

variable {K V : Type} [DecidableEq K]

/-- `insert`. -/
def insert (m : BTreeMap K V) (k : K) (v : V) : BTreeMap K V :=
  Function.update m k (some v)

/-- `remove`. -/
def remove (m : BTreeMap K V) (k : K) : BTreeMap K V :=
  Function.update m k none

/-- `extend` with another map : its entries win. -/
def extend (m iter : BTreeMap K V) : BTreeMap K V := fun k =>
  (iter k).or (m k)

/-- `extend` with a list of entries, the later ones winning. -/
def extendList (m : BTreeMap K V) (iter : List (K × V)) : BTreeMap K V :=
  iter.foldl (fun m e => m.insert e.1 e.2) m

@[simp] theorem insert_self (m : BTreeMap K V) (k : K) (v : V) : m.insert k v k = some v := by
  simp [insert]

theorem insert_of_ne (m : BTreeMap K V) {k k' : K} (v : V) (h : k' ≠ k) :
    m.insert k v k' = m k' := by
  simp [insert, h]

@[simp] theorem remove_self (m : BTreeMap K V) (k : K) : m.remove k k = none := by
  simp [remove]

theorem remove_of_ne (m : BTreeMap K V) {k k' : K} (h : k' ≠ k) : m.remove k k' = m k' := by
  simp [remove, h]

end BTreeMap

/-- A `HashMap`. -/
abbrev HashMap (K V : Type) := AList fun _ : K => V

/-- Change every value of a map. -/
def HashMap.mapValues {K V : Type} (f : V → V) (m : HashMap K V) : HashMap K V where
  entries := m.entries.map fun s => ⟨s.1, f s.2⟩
  nodupKeys := by
    have hkeys : (m.entries.map fun s => (⟨s.1, f s.2⟩ : Sigma fun _ : K => V)).keys =
        m.entries.keys := by
      simp [List.keys, List.map_map, Function.comp_def]
    rw [List.NodupKeys, hkeys]
    exact m.nodupKeys

section HashMap

variable {K V : Type} [DecidableEq K]

theorem HashMap.lookup_mapValues {f : V → V} {m : HashMap K V} {k : K} {v : V}
    (h : (HashMap.mapValues f m).lookup k = some v) : ∃ v₀, m.lookup k = some v₀ ∧ v = f v₀ := by
  have hmem := AList.mem_lookup_iff.1 h
  obtain ⟨s, hs, heq⟩ := List.mem_map.1 hmem
  cases heq
  exact ⟨s.2, AList.mem_lookup_iff.2 hs, rfl⟩

theorem HashMap.lookup_insert_cases {m : HashMap K V} {k k' : K} {v w : V}
    (h : (m.insert k' w).lookup k = some v) : v = w ∨ m.lookup k = some v := by
  by_cases hk : k = k'
  · subst hk
    rw [AList.lookup_insert] at h
    cases h
    exact Or.inl rfl
  · rw [AList.lookup_insert_ne hk] at h
    exact Or.inr h

theorem HashMap.lookup_of_lookup_erase {m : HashMap K V} {k k' : K} {v : V}
    (h : (m.erase k').lookup k = some v) : m.lookup k = some v := by
  by_cases hk : k = k'
  · subst hk
    rw [AList.lookup_erase] at h
    cases h
  · rwa [AList.lookup_erase_ne hk] at h

end HashMap

/-- `ArbitraryData`. -/
abbrev ArbitraryData := BTreeMap String String

/-- `Metadata`. -/
abbrev Metadata := BTreeMap String String

/-! ## The token record -/

/-- `Status`. -/
inductive Status where
  | locked
  | free
  deriving DecidableEq, Repr

/-- `Token` : one account's entry for a program. -/
structure Token where
  programId : Address
  ownerId : Address
  balance : U256
  metadata : Metadata
  tokenIds : List U256
  allowance : BTreeMap Address U256
  approvals : BTreeMap Address (List U256)
  data : ArbitraryData
  status : Status

/-- `MetadataValue`. -/
inductive MetadataValue where
  | insert (key value : String)
  | extend (iter : BTreeMap String String)
  | remove (key : String)

/-- `DataValue`. -/
inductive DataValue where
  | insert (key value : String)
  | extend (iter : BTreeMap String String)
  | remove (key : String)

/-- `AllowanceValue`. -/
inductive AllowanceValue where
  | insert (key : Address) (value : U256)
  | extend (values : List (Address × U256))
  | remove (key : Address) (value : U256)
  | revoke (key : Address)

/-- `ApprovalsValue`. -/
inductive ApprovalsValue where
  | insert (key : Address) (value : List U256)
  | extend (values : List (Address × List U256))
  | remove (key : Address) (values : List U256)
  | revoke (key : Address)

/-- `StatusValue`. -/
inductive StatusValue where
  | reverse
  | lock
  | unlock

/-- `TokenFieldValue`. -/
inductive TokenFieldValue where
  | metadata (v : MetadataValue)
  | allowance (v : AllowanceValue)
  | approvals (v : ApprovalsValue)
  | data (v : DataValue)
  | status (v : StatusValue)

namespace Token

/-- A token of zero balance for `programId`, as the builders of `account.rs` make it. -/
def fresh (programId ownerId : Address) (metadata : Metadata) (data : ArbitraryData) : Token where
  programId := programId
  ownerId := ownerId
  balance := 0#256
  metadata := metadata
  tokenIds := []
  allowance := fun _ => none
  approvals := fun _ => none
  data := data
  status := .free

/-- `debit`. -/
def debit (self : Token) (amount : U256) : AccountResult Token :=
  if amount > self.balance then .error (.err "transfer amount exceeds balance")
  else do return { self with balance := ← U256.sub self.balance amount }

/-- `credit`. -/
def credit (self : Token) (amount : U256) : AccountResult Token := do
  return { self with balance := ← U256.add self.balance amount }

/-- `remove_token_ids`. -/
def removeTokenIds (self : Token) (tokenIds : List U256) : AccountResult Token :=
  let positions := tokenIds.filterMap fun nft => self.tokenIds.findIdx? fun i => i == nft
  if positions.length ≠ tokenIds.length then
    .error (.err "one or more of the token ids is not owned by the from account")
  else .ok { self with tokenIds := self.tokenIds.filter fun i => !tokenIds.contains i }

/-- `add_token_ids`. -/
def addTokenIds (self : Token) (tokenIds : List U256) : AccountResult Token :=
  .ok { self with tokenIds := self.tokenIds ++ tokenIds }

/-- `apply_data_update`. -/
def applyDataUpdate (self : Token) : DataValue → AccountResult Token
  | .insert key value => .ok { self with data := self.data.insert key value }
  | .extend iter => .ok { self with data := self.data.extend iter }
  | .remove key => .ok { self with data := self.data.remove key }

/-- `apply_metadata_update`. -/
def applyMetadataUpdate (self : Token) : MetadataValue → AccountResult Token
  | .insert key value => .ok { self with metadata := self.metadata.insert key value }
  | .extend iter => .ok { self with metadata := self.metadata.extend iter }
  | .remove key => .ok { self with metadata := self.metadata.remove key }

/-- `apply_approvals_update`. -/
def applyApprovalsUpdate (self : Token) : ApprovalsValue → AccountResult Token
  | .insert key value =>
    match self.approvals key with
    | some entry => .ok { self with approvals := self.approvals.insert key (entry ++ value) }
    | none => .ok { self with approvals := self.approvals.insert key value }
  | .extend values => .ok { self with approvals := self.approvals.extendList values }
  | .remove key values =>
    match self.approvals key with
    | some entry =>
      let kept := entry.filter fun v => !values.contains v
      if kept.isEmpty then .ok { self with approvals := self.approvals.remove key }
      else .ok { self with approvals := self.approvals.insert key kept }
    | none => .ok self
  | .revoke key => .ok { self with approvals := self.approvals.remove key }

/-- `apply_allowance_update`. A removal that reaches zero removes the key's
*approvals*, as the source does, and keeps the zero allowance. -/
def applyAllowanceUpdate (self : Token) : AllowanceValue → AccountResult Token
  | .insert key value =>
    match self.allowance key with
    | some entry => do
      return { self with allowance := self.allowance.insert key (← U256.add entry value) }
    | none => .ok { self with allowance := self.allowance.insert key value }
  | .extend values => .ok { self with allowance := self.allowance.extendList values }
  | .remove key value =>
    match self.allowance key with
    | some entry => do
      let entry ← U256.sub entry value
      let self := { self with allowance := self.allowance.insert key entry }
      if entry = 0#256 then return { self with approvals := self.approvals.remove key }
      else return self
    | none => .ok self
  | .revoke key => .ok { self with allowance := self.allowance.remove key }

/-- `apply_status_update`. -/
def applyStatusUpdate (self : Token) : StatusValue → AccountResult Token
  | .lock => .ok { self with status := .locked }
  | .unlock => .ok { self with status := .free }
  | .reverse =>
    match self.status with
    | .locked => .ok { self with status := .free }
    | .free => .ok { self with status := .locked }

/-- `apply_token_update_field_values`. -/
def applyTokenUpdateFieldValues (self : Token) : TokenFieldValue → AccountResult Token
  | .data update => self.applyDataUpdate update
  | .metadata update => self.applyMetadataUpdate update
  | .approvals update => self.applyApprovalsUpdate update
  | .allowance update => self.applyAllowanceUpdate update
  | .status update => self.applyStatusUpdate update

end Token

/-! ## Balances -/

theorem Token.debit_ok {t t' : Token} {amount : U256} (h : t.debit amount = .ok t') :
    t'.balance.toNat + amount.toNat = t.balance.toNat ∧ t' = { t with balance := t'.balance } := by
  unfold Token.debit at h
  split_ifs at h with hgt
  obtain ⟨b, hb, ht⟩ := Except.bind_eq_ok_iff.1 h
  cases ht
  exact ⟨U256.toNat_sub hb, rfl⟩

theorem Token.credit_ok {t t' : Token} {amount : U256} (h : t.credit amount = .ok t') :
    t'.balance.toNat = t.balance.toNat + amount.toNat ∧ t' = { t with balance := t'.balance } := by
  unfold Token.credit at h
  obtain ⟨b, hb, ht⟩ := Except.bind_eq_ok_iff.1 h
  cases ht
  exact ⟨U256.toNat_add hb, rfl⟩

end Lasr
