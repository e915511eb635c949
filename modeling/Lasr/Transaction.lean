import Lasr.Program

/-!
# Transactions

`types/src/transaction.rs`, with what the node uses of code outside the repository as
one record of functions (`Env`) : Keccak, secp256k1 recovery, JSON, the batch encoder
and the iteration order of a `HashMap`.

`Token.tryFrom` turns a held token and a transaction into the token after it. It decides
between debit and credit by the owner of the token alone, the sender first.
-/

set_option linter.unusedSectionVars false

namespace Lasr

/-- `TransactionType`. -/
inductive TransactionType where
  | bridgeIn (n : U256)
  | send (n : U256)
  | call (n : U256)
  | bridgeOut (n : U256)
  | registerProgram (n : U256)
  deriving DecidableEq, Repr

namespace TransactionType

/-- `is_send`. -/
def isSend : TransactionType → Bool
  | .send _ => true
  | _ => false

/-- `is_bridge_in`. -/
def isBridgeIn : TransactionType → Bool
  | .bridgeIn _ => true
  | _ => false

/-- `is_call`. -/
def isCall : TransactionType → Bool
  | .call _ => true
  | _ => false

end TransactionType

/-- `Transaction`. -/
structure Transaction where
  transactionType : TransactionType
  «from» : Address
  «to» : Address
  programId : Address
  op : String
  inputs : String
  value : U256
  nonce : U256
  v : Int
  r : BitVec 256
  s : BitVec 256
  deriving DecidableEq, Repr

/-- `Transaction::get_accounts_involved`. -/
def Transaction.getAccountsInvolved (self : Transaction) : List Address :=
  [self.from, self.to]

/-! ## Code outside the repository -/

/-- The order in which a `HashMap` hands out its entries : some order of all of them. -/
structure HashOrder where
  iter : ∀ {α : Type}, List α → List α
  perm : ∀ {α : Type} (l : List α), (iter l).Perm l

/-- What the node calls outside the repository. -/
structure Env where
  /-- `hash_string` : Keccak over the signed bytes, in hex. -/
  hashString : Transaction → String
  /-- `sig()?.recover(&hash())` : the address that signed the transaction. -/
  recover : Transaction → Except String Address
  /-- Keccak-256 over the bytes of a text, the first byte of the digest the most significant. -/
  keccak256 : String → BitVec 256
  /-- `serde_json::from_str` of an object, and its `contentId` : absent, a string, or
  something else. -/
  contentId : String → Except String (Option (Option String))
  /-- `serde_json::from_str` of a program's outputs. -/
  parseOutputs : String → Except String Outputs
  /-- The iteration order of the maps of this process. -/
  order : HashOrder

variable (env : Env)

/-- `verify_signature`. -/
def Transaction.verifySignature (self : Transaction) : Except String Unit :=
  match env.recover self with
  | .error e => .error e
  | .ok addr =>
    if self.from ≠ addr then .error "malformed signature" else .ok ()

/-- The text that `create_program_id` hashes : the content id, and the display of the signer. -/
def programIdText (contentId : String) (pubkey : Address) : String :=
  contentId ++ Address.toText pubkey

/-- The first 20 bytes of the digest of that text. -/
def Env.programIdOf (contentId : String) (pubkey : Address) : Address :=
  (env.keccak256 (programIdText contentId pubkey)).extractLsb' 96 160

/-- `create_program_id` of `contract/src/helpers.rs`. -/
def createProgramId (contentId : String) (transaction : Transaction) : Except String Address :=
  match env.recover transaction with
  | .error e => .error e
  | .ok pubkey => .ok (env.programIdOf contentId pubkey)

/-- The value of a hex digit. -/
def hexValue (c : Char) : ℕ :=
  if c.toNat < 58 then c.toNat - 48 else c.toNat - 87

/-- The number that the last four characters of a text spell in hex. -/
def lastHex (text : String) : ℕ :=
  (text.toList.reverse.take 4).foldr (fun c n => 16 * n + hexValue c) 0

/-- An environment for small runs. A transaction with recovery id 27 is signed by its
sender, and no other carries a signature; a program gets the address of its signer, and
0x1000. -/
def Env.small : Env where
  hashString tx := Address.toFullString (tx.from + tx.nonce.truncate 160)
  recover tx := if tx.v = 27 then .ok tx.from else .error "malformed signature"
  keccak256 text := BitVec.ofNat 256 (lastHex text + 0x1000) <<< 96
  contentId inputs := .ok (some (some inputs))
  parseOutputs _ := .ok ⟨[]⟩
  order := ⟨id, fun _ => List.Perm.refl _⟩

/-! ## Transactions as tokens -/

/-- The display of `ToTokenError::Custom`. -/
def toTokenError (msg : String) : Fault String :=
  .err ("Custom(\"" ++ msg ++ "\")")

/-- `From<Transaction> for Token`. -/
def Token.ofTransaction (tx : Transaction) : Token where
  programId := tx.programId
  ownerId := tx.to
  balance := tx.value
  metadata := fun _ => none
  tokenIds := []
  allowance := fun _ => none
  approvals := fun _ => none
  data := fun _ => none
  status := .free

/-- `TryFrom<(Token, Transaction)> for Token`. -/
def Token.tryFrom (token : Token) (tx : Transaction) : AccountResult Token :=
  if tx.from = token.ownerId then
    if tx.transactionType.isBridgeIn then do
      return { token with balance := ← U256.add token.balance tx.value }
    else do
      return { token with balance := ← U256.sub token.balance tx.value }
  else if tx.to = token.ownerId then do
    return { token with balance := ← U256.add token.balance tx.value }
  else
    .error (toTokenError
      "cannot convert into token, token owner_id does not match sender or receiver")

/-- What a transaction does to a held token : a sender's token pays unless bridged
in, the receiver's is credited, and the rest of the token stays. -/
theorem Token.tryFrom_ok {token token' : Token} {tx : Transaction}
    (h : token.tryFrom tx = .ok token') :
    token' = { token with balance := token'.balance } ∧
      ((tx.from = token.ownerId ∧ tx.transactionType.isBridgeIn = false ∧
          token'.balance.toNat + tx.value.toNat = token.balance.toNat) ∨
        ((tx.from = token.ownerId ∧ tx.transactionType.isBridgeIn = true ∨
            tx.from ≠ token.ownerId ∧ tx.to = token.ownerId) ∧
          token'.balance.toNat = token.balance.toNat + tx.value.toNat)) := by
  unfold Token.tryFrom at h
  split_ifs at h with hf hb ht
  · obtain ⟨b, hs, ht⟩ := Except.bind_eq_ok_iff.1 h
    cases ht
    exact ⟨rfl, Or.inr ⟨Or.inl ⟨hf, hb⟩, U256.toNat_add hs⟩⟩
  · obtain ⟨b, hs, ht⟩ := Except.bind_eq_ok_iff.1 h
    cases ht
    exact ⟨rfl, Or.inl ⟨hf, by simpa using hb, U256.toNat_sub hs⟩⟩
  · obtain ⟨b, hs, ht'⟩ := Except.bind_eq_ok_iff.1 h
    cases ht'
    exact ⟨rfl, Or.inr ⟨Or.inr ⟨hf, ht⟩, U256.toNat_add hs⟩⟩

end Lasr
