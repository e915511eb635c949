import Lasr.BatchCodec

/-!
# What is signed

A wallet signs the hash of a `Payload`, and the node checks the signature against the hash of
the `Transaction` that it has made of the two. Either hash is Keccak over the compact JSON of
the fields, which both write for themselves (`Payload::as_bytes`, `Transaction::as_bytes`).

The text gives back the value it was printed from (`Json.print_injective`), whatever stands in
`op` and `inputs`, so the signed bytes determine the signed fields (`Payload.asBytes_injective`).
The two encoders write the same (`Transaction.asBytes_eq`), and the signature that recovers to
the sender on one side does on the other.
-/

set_option linter.unusedSectionVars false

namespace Lasr

/-! ## The two encoders -/

/-- `to_json`. -/
def TransactionType.toJson : TransactionType → Json
  | .bridgeIn n => .obj [("bridgeIn", .str (U256.serialize n))]
  | .send n => .obj [("send", .str (U256.serialize n))]
  | .call n => .obj [("call", .str (U256.serialize n))]
  | .registerProgram n => .obj [("registerProgram", .str (U256.serialize n))]
  | .bridgeOut n => .obj [("bridgeOut", .str (U256.serialize n))]

/-- `Payload`. -/
structure Payload where
  transactionType : TransactionType
  «from» : Address
  «to» : Address
  programId : Address
  op : String
  inputs : String
  value : U256
  nonce : U256
  deriving DecidableEq, Repr

/-- `RecoverableSignature`. -/
structure RecoverableSignature where
  r : BitVec 256
  s : BitVec 256
  v : Int

/-- The JSON that is signed. -/
def Payload.json (self : Payload) : Json :=
  .obj [
    ("transactionType", self.transactionType.toJson),
    ("from", .str (Address.toFullString self.from)),
    ("to", .str (Address.toFullString self.to)),
    ("programId", .str (Address.toFullString self.programId)),
    ("op", .str self.op),
    ("transactionInputs", .str self.inputs),
    ("value", .str (U256.serialize self.value)),
    ("nonce", .str (U256.serialize self.nonce))]

/-- `Payload::as_bytes`. -/
def Payload.asBytes (self : Payload) : ByteArray :=
  (String.ofList self.json.print).toUTF8

/-- The JSON that is checked. -/
def Transaction.json (self : Transaction) : Json :=
  .obj [
    ("transactionType", self.transactionType.toJson),
    ("from", .str (Address.toFullString self.from)),
    ("to", .str (Address.toFullString self.to)),
    ("programId", .str (Address.toFullString self.programId)),
    ("op", .str self.op),
    ("transactionInputs", .str self.inputs),
    ("value", .str (U256.serialize self.value)),
    ("nonce", .str (U256.serialize self.nonce))]

/-- `Transaction::as_bytes`. -/
def Transaction.asBytes (self : Transaction) : ByteArray :=
  (String.ofList self.json.print).toUTF8

/-- `From<(Payload, RecoverableSignature)> for Transaction`. -/
def Transaction.ofSigned (value : Payload × RecoverableSignature) : Transaction where
  transactionType := value.1.transactionType
  «from» := value.1.from
  «to» := value.1.to
  programId := value.1.programId
  op := value.1.op
  inputs := value.1.inputs
  value := value.1.value
  nonce := value.1.nonce
  v := value.2.v
  r := value.2.r
  s := value.2.s

/-- `sig`. -/
def Transaction.sig (self : Transaction) : RecoverableSignature :=
  ⟨self.r, self.s, self.v⟩

/-! ## Hashes and signatures -/

/-- Keccak, and the address that a signature of a digest recovers to. -/
structure Crypto where
  keccak256 : ByteArray → BitVec 256
  recover : RecoverableSignature → BitVec 256 → Except String Address

namespace Crypto

variable (crypto : Crypto)

/-- `Payload::hash`. -/
def payloadHash (payload : Payload) : BitVec 256 :=
  crypto.keccak256 payload.asBytes

/-- `Transaction::hash`. -/
def transactionHash (transaction : Transaction) : BitVec 256 :=
  crypto.keccak256 transaction.asBytes

/-- `Transaction::hash_string`. -/
def hashString (transaction : Transaction) : String :=
  String.ofList ('0' :: 'x' :: hexEncode (wordBytes 32 (crypto.transactionHash transaction)))

/-- An environment that hashes and recovers as `transaction.rs` does. -/
def env (rest : Env) : Env :=
  { rest with
    hashString := crypto.hashString
    recover := fun transaction =>
      crypto.recover transaction.sig (crypto.transactionHash transaction) }

end Crypto

/-! ## The bytes determine the fields -/

/-- The type is written as serde would. -/
theorem TransactionType.toJson_eq (t : TransactionType) :
    t.toJson = transactionTypeCodec.ser t := by
  cases t <;> rfl

theorem TransactionType.toJson_injective : Function.Injective toJson := by
  intro t t' h
  rw [toJson_eq, toJson_eq] at h
  exact transactionTypeCodec.ser_injective h

theorem U256.serialize_injective : Function.Injective U256.serialize := by
  intro n n' h
  exact u256Codec.ser_injective (congrArg Json.str h)

theorem Payload.json_injective : Function.Injective json := by
  intro p q h
  simp only [json, Json.obj.injEq, List.cons.injEq, Prod.mk.injEq, Json.str.injEq, true_and,
    and_true] at h
  obtain ⟨htype, hfrom, hto, hprogram, hop, hinputs, hvalue, hnonce⟩ := h
  cases p
  cases q
  congr
  · exact TransactionType.toJson_injective htype
  · exact Address.toFullString_injective hfrom
  · exact Address.toFullString_injective hto
  · exact Address.toFullString_injective hprogram
  · exact U256.serialize_injective hvalue
  · exact U256.serialize_injective hnonce

/-- Two payloads with the same bytes are the same. -/
theorem Payload.asBytes_injective : Function.Injective asBytes := by
  intro p q h
  rw [asBytes, asBytes, String.toUTF8_eq_toByteArray, String.toUTF8_eq_toByteArray,
    String.toByteArray_inj, String.ofList_inj] at h
  exact json_injective (Json.print_injective h)

/-- What of a transaction is signed. -/
def Transaction.payload (self : Transaction) : Payload :=
  ⟨self.transactionType, self.from, self.to, self.programId, self.op, self.inputs, self.value,
    self.nonce⟩

/-- The two encoders write the same. -/
theorem Transaction.asBytes_eq (t : Transaction) : t.asBytes = t.payload.asBytes :=
  rfl

theorem Transaction.payload_ofSigned (p : Payload) (sig : RecoverableSignature) :
    (ofSigned (p, sig)).payload = p :=
  rfl

theorem Transaction.payload_eq_iff {t t' : Transaction} : t.payload = t'.payload ↔
    t.transactionType = t'.transactionType ∧ t.from = t'.from ∧ t.to = t'.to ∧
      t.programId = t'.programId ∧ t.op = t'.op ∧ t.inputs = t'.inputs ∧ t.value = t'.value ∧
      t.nonce = t'.nonce := by
  simp only [payload, Payload.mk.injEq]

/-- The hash leaves the signature out. -/
theorem Crypto.hashesPayload (crypto : Crypto) (rest : Env) : (crypto.env rest).HashesPayload :=
  fun _ _ _ _ => rfl

/-- The signed bytes determine all that is signed, and nothing else. A transaction made of a
payload and a signature has the bytes of the payload, so it is verified if the signature of the
payload's hash recovers to the sender. -/
theorem signed_bytes_determine :
    (∀ t t' : Transaction, t.asBytes = t'.asBytes ↔
      t.transactionType = t'.transactionType ∧ t.from = t'.from ∧ t.to = t'.to ∧
        t.programId = t'.programId ∧ t.op = t'.op ∧ t.inputs = t'.inputs ∧ t.value = t'.value ∧
        t.nonce = t'.nonce) ∧
    (∀ (p : Payload) (sig : RecoverableSignature),
      (Transaction.ofSigned (p, sig)).asBytes = p.asBytes) ∧
    ∀ (crypto : Crypto) (rest : Env) (p : Payload) (sig : RecoverableSignature),
      (Transaction.ofSigned (p, sig)).verifySignature (crypto.env rest) = .ok () ↔
        crypto.recover sig (crypto.payloadHash p) = .ok p.from := by
  refine ⟨fun t t' => ?_, fun p sig => ?_, fun crypto rest p sig => ?_⟩
  · rw [Transaction.asBytes_eq, Transaction.asBytes_eq, Payload.asBytes_injective.eq_iff,
      Transaction.payload_eq_iff]
  · rw [Transaction.asBytes_eq, Transaction.payload_ofSigned]
  · have hrecover : (crypto.env rest).recover (Transaction.ofSigned (p, sig)) =
        crypto.recover sig (crypto.payloadHash p) := rfl
    rw [Transaction.verifySignature, hrecover]
    cases crypto.recover sig (crypto.payloadHash p) with
    | error e => simp
    | ok addr => simp [Transaction.ofSigned, eq_comm]

end Lasr
