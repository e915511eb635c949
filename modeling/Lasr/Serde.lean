import Lasr.JsonText
import Lasr.Account
import Mathlib.Algebra.GroupWithZero.Nat
import Mathlib.Data.Prod.Lex
import Mathlib.Data.String.Basic

/-!
# How accounts and transactions are written

The serializers of `types/src` : the ones written by hand for addresses, 256-bit words and the
byte arrays of a transaction, and the derived ones of the records around them. Each is a
`Codec`, so it comes with the proof that what is written is read back.

The readers written by hand accept more than is written : a list of numbers in brackets, an
array of bytes, an address without `0x`.

Here the maps of a token and an account are kept with their entries, in the order of their keys
(`SerdeToken`, `SerdeAccount`), and a transaction has the recovery id of an `i32`. By their
lookups they are the records of the other modules (`SerdeToken.token`, `SerdeAccount.account`).
-/

set_option linter.unusedSectionVars false

namespace Lasr

/-! ## Bytes of a word -/

/-- The bytes of a word, the most significant first. -/
def wordBytes (n : ℕ) {m : ℕ} (w : BitVec m) : List (BitVec 8) :=
  (List.range n).map fun i => w.extractLsb' (8 * (n - 1 - i)) 8

/-- The word that bytes spell. -/
def ofWordBytes (m : ℕ) (bytes : List (BitVec 8)) : BitVec m :=
  BitVec.ofNat m (bytes.foldl (fun n b => 256 * n + b.toNat) 0)

theorem length_wordBytes (n : ℕ) {m : ℕ} (w : BitVec m) : (wordBytes n w).length = n := by
  simp [wordBytes]

/-- The first bytes spell the number without its last ones. -/
theorem foldl_wordBytes {n m : ℕ} (hm : m = 8 * n) (w : BitVec m) : ∀ k ≤ n,
    ((List.range k).map fun i => w.extractLsb' (8 * (n - 1 - i)) 8).foldl
      (fun a b => 256 * a + b.toNat) 0 = w.toNat / 2 ^ (8 * (n - k))
  | 0, _ => by
    have hlt : w.toNat < 2 ^ (8 * (n - 0)) := by
      rw [Nat.sub_zero, ← hm]
      exact w.isLt
    exact (Nat.div_eq_of_lt hlt).symm
  | k + 1, hk => by
    have hpow : 2 ^ (8 * (n - k)) = 2 ^ (8 * (n - 1 - k)) * 256 := by
      rw [show 8 * (n - k) = 8 * (n - 1 - k) + 8 by omega, Nat.pow_add]
    rw [List.range_succ, List.map_append, List.foldl_append, foldl_wordBytes hm w k (by omega),
      hpow, ← Nat.div_div_eq_div_mul]
    simp only [List.map_cons, List.map_nil, List.foldl_cons, List.foldl_nil,
      BitVec.extractLsb'_toNat, Nat.shiftRight_eq_div_pow]
    rw [show n - (k + 1) = n - 1 - k by omega]
    exact Nat.div_add_mod _ 256

/-- A word is spelled by its bytes. -/
theorem ofWordBytes_wordBytes {n m : ℕ} (hm : m = 8 * n) (w : BitVec m) :
    ofWordBytes m (wordBytes n w) = w := by
  rw [ofWordBytes, wordBytes, foldl_wordBytes hm w n le_rfl, Nat.sub_self, Nat.mul_zero,
    Nat.pow_zero, Nat.div_one, BitVec.ofNat_toNat, BitVec.setWidth_eq]

/-! ## Hex -/

/-- `hex::FromHexError`. -/
inductive FromHexError where
  | invalidHexCharacter (c : Char) (index : ℕ)
  | oddLength
  | invalidStringLength

/-- `hex::encode`. -/
def hexEncode (bytes : List (BitVec 8)) : List Char :=
  bytes.flatMap fun b => [hexDigit (b.toNat / 16), hexDigit (b.toNat % 16)]

/-- The length of a text in bytes. -/
def utf8Len (l : List Char) : ℕ := (l.map Char.utf8Size).sum

/-- The value of one digit. A character of several bytes fails at its first one. -/
def hexVal (c : Char) (index : ℕ) : Except FromHexError ℕ :=
  match Json.hexDigitValue c with
  | some n => .ok n
  | none => .error (.invalidHexCharacter
      (Char.ofNat ((String.utf8EncodeChar c).headD 0).toNat) index)

/-- Two digits a byte. -/
def hexPairs : ℕ → List Char → Except FromHexError (List (BitVec 8))
  | _, [] => .ok []
  | i, [c] => do
    let _ ← hexVal c i
    .error .oddLength
  | i, c :: c' :: l => do
    let high ← hexVal c i
    let low ← hexVal c' (i + 1)
    let rest ← hexPairs (i + 2) l
    return BitVec.ofNat 8 (16 * high + low) :: rest

/-- `hex::decode`. -/
def hexDecode (l : List Char) : Except FromHexError (List (BitVec 8)) :=
  if utf8Len l % 2 = 1 then .error .oddLength else hexPairs 0 l

theorem hexVal_hexDigit {n : ℕ} (h : n < 16) (i : ℕ) : hexVal (hexDigit n) i = .ok n := by
  have hall : ∀ n < 16, Json.hexDigitValue (hexDigit n) = some n := by decide
  rw [hexVal, hall n h]

theorem utf8Size_hexDigit : ∀ n < 16, (hexDigit n).utf8Size = 1 := by decide

theorem hexPairs_hexEncode : ∀ (bytes : List (BitVec 8)) (i : ℕ),
    hexPairs i (hexEncode bytes) = .ok bytes
  | [], _ => rfl
  | b :: bytes, i => by
    have hb := b.isLt
    have hval : BitVec.ofNat 8 (16 * (b.toNat / 16) + b.toNat % 16) = b := by
      rw [Nat.div_add_mod, BitVec.ofNat_toNat, BitVec.setWidth_eq]
    have ih := hexPairs_hexEncode bytes (i + 2)
    simp only [hexEncode, List.flatMap_cons, List.cons_append, List.nil_append, hexPairs] at ih ⊢
    rw [hexVal_hexDigit (by omega), hexVal_hexDigit (by omega), ih]
    simp only [bind, Except.bind, pure, Except.pure, hval]

theorem utf8Len_hexEncode : ∀ bytes : List (BitVec 8), utf8Len (hexEncode bytes) = 2 * bytes.length
  | [] => rfl
  | b :: bytes => by
    have hb := b.isLt
    have ih := utf8Len_hexEncode bytes
    simp only [utf8Len, hexEncode, List.flatMap_cons, List.cons_append, List.nil_append,
      List.map_cons, List.sum_cons, utf8Size_hexDigit _ (by omega : b.toNat / 16 < 16),
      utf8Size_hexDigit _ (by omega : b.toNat % 16 < 16), List.length_cons] at ih ⊢
    omega

/-- Bytes are read back from their digits. -/
theorem hexDecode_hexEncode (bytes : List (BitVec 8)) :
    hexDecode (hexEncode bytes) = .ok bytes := by
  have heven : ¬utf8Len (hexEncode bytes) % 2 = 1 := by
    rw [utf8Len_hexEncode]
    omega
  rw [hexDecode, if_neg heven, hexPairs_hexEncode]

/-! ## Numbers in a list -/

/-- `std::num::IntErrorKind`. -/
inductive IntErrorKind where
  | empty
  | invalidDigit
  | posOverflow

/-- What the readers written by hand report : a text of their own, or the error of a number or
of hex digits. -/
inductive SerdeError where
  | text (msg : String)
  | hex (e : FromHexError)
  | int (e : IntErrorKind)

/-- The result of a reader. -/
abbrev SerdeResult (α : Type) := Except (DeError SerdeError) α

/-- `Error::custom` of a text. -/
def failWith {α : Type} (msg : String) : SerdeResult α := .error (.custom (.text msg))

/-- `hex::decode`, as the readers report its errors. -/
def decodeHex (l : List Char) : SerdeResult (List (BitVec 8)) :=
  (hexDecode l).mapError fun e => .custom (.hex e)

/-- The decimal digits of an unsigned number up to a maximum. -/
def parseDigits (max : ℕ) (l : List Char) : Except IntErrorKind ℕ :=
  l.foldlM (fun n c =>
    if ¬c.isDigit then .error .invalidDigit
    else if max < 10 * n + (c.toNat - 48) then .error .posOverflow
    else .ok (10 * n + (c.toNat - 48))) 0

/-- `str::parse` for an unsigned type. -/
def parseUInt (max : ℕ) : List Char → Except IntErrorKind ℕ
  | [] => .error .empty
  | ['+'] => .error .invalidDigit
  | '+' :: l => parseDigits max l
  | l => parseDigits max l

/-- The white space of Unicode. -/
def isWhiteSpace (c : Char) : Bool :=
  let n := c.toNat
  (9 ≤ n && n ≤ 13) || n = 32 || n = 0x85 || n = 0xA0 || n = 0x1680 ||
    (0x2000 ≤ n && n ≤ 0x200A) || n = 0x2028 || n = 0x2029 || n = 0x202F || n = 0x205F ||
    n = 0x3000

/-- `str::trim`. -/
def trim (l : List Char) : List Char :=
  ((l.dropWhile isWhiteSpace).reverse.dropWhile isWhiteSpace).reverse

/-- The numbers of a list with commas. -/
def parseNumbers (max : ℕ) (l : List Char) : SerdeResult (List ℕ) :=
  (l.splitOn ',').mapM fun s => (parseUInt max (trim s)).mapError fun e => .custom (.int e)

/-- The bytes of a list with commas. -/
def parseBytes (l : List Char) : SerdeResult (List (BitVec 8)) :=
  (List.map (BitVec.ofNat 8)) <$> parseNumbers 255 l

/-- The text between brackets. -/
def bracketed (l : List Char) : Option (List Char) :=
  if l.head? = some '[' ∧ l.getLast? = some ']' then some l.tail.dropLast else none

/-! ## Addresses and words -/

/-- `Address::serialize`. -/
def Address.serialize (a : Address) : String :=
  String.ofList ('0' :: 'x' :: hexEncode (wordBytes 20 a))

/-- `AddressVisitor::visit_str`. -/
def Address.visitStr (value : String) : SerdeResult Address :=
  match value.toList with
  | '0' :: 'x' :: v => do
    let bytes ← decodeHex v
    if bytes.length = 20 then .ok (ofWordBytes 160 bytes)
    else failWith "Hex string does not represent a valid Address"
  | v =>
    match bracketed v with
    | some inner => do
      let bytes ← parseBytes inner
      if bytes.length = 20 then .ok (ofWordBytes 160 bytes)
      else failWith "invalid length for address"
    | none => failWith "Invalid address format"

/-- The digits of `{:064x}`. -/
def U256.lowerHex (w : U256) : List Char :=
  (List.range 64).map fun i => hexDigit (w.toNat / 16 ^ (63 - i) % 16)

/-- `U256::serialize`. -/
def U256.serialize (w : U256) : String :=
  String.ofList ('0' :: 'x' :: U256.lowerHex w)

/-- `strip_prefix("0x")`, or the text itself. -/
def strip0x : List Char → List Char
  | '0' :: 'x' :: l => l
  | l => l

/-- `U256Visitor::visit_str`. The numbers between brackets are cut out of the text as it came,
with its `0x`. -/
def U256.visitStr (v : String) : SerdeResult U256 :=
  let value := strip0x v.toList
  if value.head? = some '[' ∧ v.toList.getLast? = some ']' then do
    match ← parseNumbers (2 ^ 64 - 1) v.toList.tail.dropLast with
    | [n₀, n₁, n₂, n₃] =>
      .ok (BitVec.ofNat 256 (n₀ + 2 ^ 64 * n₁ + 2 ^ 128 * n₂ + 2 ^ 192 * n₃))
    | _ => failWith "Array does not have 4 elements"
  else if utf8Len value = 64 then do
    let decoded ← decodeHex value
    if decoded.length = 32 then .ok (ofWordBytes 256 decoded)
    else failWith "decoded result is improper length"
  else failWith "Invalid format for U256"

theorem decodeHex_hexEncode (bytes : List (BitVec 8)) :
    decodeHex (hexEncode bytes) = .ok bytes := by
  rw [decodeHex, hexDecode_hexEncode]
  rfl

/-- An address is written as the text that is its key in a batch. -/
theorem Address.serialize_eq (a : Address) : a.serialize = a.toFullString := by
  rw [serialize, toFullString, hexEncode, wordBytes, List.flatMap_map]
  rfl

theorem Address.visitStr_serialize (a : Address) : visitStr a.serialize = .ok a := by
  simp only [serialize, visitStr, String.toList_ofList, decodeHex_hexEncode, bind, Except.bind,
    length_wordBytes, if_true, ofWordBytes_wordBytes (n := 20) rfl a]

theorem map_range_pairs {α : Type} (f : ℕ → α) : ∀ n : ℕ,
    (List.range (2 * n)).map f = (List.range n).flatMap fun i => [f (2 * i), f (2 * i + 1)]
  | 0 => rfl
  | n + 1 => by
    rw [Nat.mul_succ, List.range_succ, List.range_succ, List.range_succ, List.flatMap_append,
      ← map_range_pairs f n]
    simp

/-- The digits of a word are those of its bytes. -/
theorem U256.lowerHex_eq (w : U256) : U256.lowerHex w = hexEncode (wordBytes 32 w) := by
  rw [lowerHex, show 64 = 2 * 32 from rfl, map_range_pairs, hexEncode, wordBytes,
    List.flatMap_map]
  refine List.flatMap_congr fun i hi => ?_
  have hi32 : i < 32 := List.mem_range.1 hi
  have hhigh : (w.extractLsb' (8 * (32 - 1 - i)) 8).toNat / 16 =
      w.toNat / 16 ^ (63 - 2 * i) % 16 := by
    rw [BitVec.extractLsb'_toNat, Nat.shiftRight_eq_div_pow, show (2 : ℕ) ^ 8 = 16 * 16 from rfl,
      Nat.mod_mul_right_div_self, Nat.div_div_eq_div_mul, show (2 : ℕ) ^ (8 * (32 - 1 - i)) * 16 =
        16 ^ (63 - 2 * i) by
        rw [show (16 : ℕ) = 2 ^ 4 from rfl, ← Nat.pow_mul, ← Nat.pow_add]
        congr 1
        omega]
  have hlow : (w.extractLsb' (8 * (32 - 1 - i)) 8).toNat % 16 =
      w.toNat / 16 ^ (63 - (2 * i + 1)) % 16 := by
    rw [BitVec.extractLsb'_toNat, Nat.shiftRight_eq_div_pow, show (2 : ℕ) ^ 8 = 16 * 16 from rfl,
      Nat.mod_mul_right_mod, show (2 : ℕ) ^ (8 * (32 - 1 - i)) = 16 ^ (63 - (2 * i + 1)) by
        rw [show (16 : ℕ) = 2 ^ 4 from rfl, ← Nat.pow_mul]
        congr 1
        omega]
  rw [hhigh, hlow]

theorem head_hexEncode (bytes : List (BitVec 8)) : (hexEncode bytes).head? ≠ some '[' := by
  cases bytes with
  | nil => simp [hexEncode]
  | cons b bytes =>
    have hne : ∀ n < 16, hexDigit n ≠ '[' := by decide
    have hb := b.isLt
    simpa [hexEncode] using hne (b.toNat / 16) (by omega)

theorem U256.visitStr_serialize (w : U256) : U256.visitStr (U256.serialize w) = .ok w := by
  have hlen : utf8Len (hexEncode (wordBytes 32 w)) = 64 := by
    rw [utf8Len_hexEncode, length_wordBytes]
  simp only [serialize, visitStr, String.toList_ofList, strip0x, U256.lowerHex_eq,
    head_hexEncode, false_and, if_false, hlen, if_true, decodeHex_hexEncode, bind, Except.bind,
    length_wordBytes, ofWordBytes_wordBytes (n := 32) rfl w]

/-! ## The byte arrays of a transaction -/

/-- `serialize_as_hex`. -/
def serializeAsHex (bytes : List (BitVec 8)) : Json :=
  .str (String.ofList ('0' :: 'x' :: hexEncode bytes))

/-- `try_into` an array of a fixed length. -/
def tryInto (n : ℕ) (msg : String) (bytes : List (BitVec 8)) : SerdeResult (List (BitVec 8)) :=
  if bytes.length = n then .ok bytes else failWith msg

/-- A number that is a byte. -/
def jsonByte : Json → Option (BitVec 8)
  | .num n => if 0 ≤ n ∧ n < 256 then some (BitVec.ofInt 8 n) else none
  | _ => none

/-- The two readers of byte arrays : a text, or an array of bytes. They differ in what they do
with a text that has no `0x` and no brackets. -/
def deserializeBytesOrString (n : ℕ) (name : String)
    (plain : List Char → SerdeResult (List (BitVec 8))) : Json → SerdeResult (List (BitVec 8))
  | .str value =>
    match value.toList with
    | '0' :: 'x' :: v =>
      decodeHex v >>= tryInto n "Hex string does not represent valid 20-byte array"
    | v =>
      match bracketed v with
      | some inner =>
        parseBytes inner >>= tryInto n "Bytes string does not represent a value 20-byte array"
      | none => plain v
  | .arr elems =>
    match elems.mapM jsonByte with
    | some bytes => tryInto n ("data did not match any variant of untagged enum " ++ name) bytes
    | none => failWith ("data did not match any variant of untagged enum " ++ name)
  | _ => failWith ("data did not match any variant of untagged enum " ++ name)

/-- `deserialize_address_bytes_or_string`. -/
def deserializeAddressBytesOrString : Json → SerdeResult (List (BitVec 8)) :=
  deserializeBytesOrString 20 "HexOr20Bytes" fun v =>
    decodeHex v >>= tryInto 20 "Hex string does not represent valid 20 byte array"

/-- `deserialize_sig_bytes_or_string`. -/
def deserializeSigBytesOrString : Json → SerdeResult (List (BitVec 8)) :=
  deserializeBytesOrString 32 "HexOr32Bytes" fun _ =>
    failWith "unable to deserialize as a string"

theorem deserializeBytesOrString_serializeAsHex {n : ℕ} (name : String)
    (plain : List Char → SerdeResult (List (BitVec 8))) {bytes : List (BitVec 8)}
    (h : bytes.length = n) :
    deserializeBytesOrString n name plain (serializeAsHex bytes) = .ok bytes := by
  simp only [serializeAsHex, deserializeBytesOrString, String.toList_ofList, decodeHex_hexEncode,
    bind, Except.bind, tryInto, h, if_true]

/-! ## Codecs of the parts -/

/-- Addresses, also as keys. -/
def addressText : TextCodec SerdeError Address where
  ser := Address.serialize
  de := Address.visitStr
  de_ser := Address.visitStr_serialize

def addressCodec : Codec SerdeError Address := addressText.value

def u256Codec : Codec SerdeError U256 :=
  TextCodec.value ⟨U256.serialize, U256.visitStr, U256.visitStr_serialize⟩

def stringCodec : Codec SerdeError String := TextCodec.string.value

/-- The `[u8; 20]` of a transaction. -/
def bytes20Codec : Codec SerdeError Address where
  ser a := serializeAsHex (wordBytes 20 a)
  de j := ofWordBytes 160 <$> deserializeAddressBytesOrString j
  de_ser a := by
    rw [deserializeAddressBytesOrString,
      deserializeBytesOrString_serializeAsHex _ _ (length_wordBytes 20 a)]
    exact congrArg Except.ok (ofWordBytes_wordBytes (n := 20) rfl a)

/-- The `[u8; 32]` of a transaction. -/
def bytes32Codec : Codec SerdeError (BitVec 256) where
  ser w := serializeAsHex (wordBytes 32 w)
  de j := ofWordBytes 256 <$> deserializeSigBytesOrString j
  de_ser w := by
    rw [deserializeSigBytesOrString,
      deserializeBytesOrString_serializeAsHex _ _ (length_wordBytes 32 w)]
    exact congrArg Except.ok (ofWordBytes_wordBytes (n := 32) rfl w)

/-- The values of an `i32`. -/
abbrev I32 := {n : Int // -2 ^ 31 ≤ n ∧ n < 2 ^ 31}

def i32Codec : Codec SerdeError I32 where
  ser n := .num n.1
  de
    | .num n => if h : -2 ^ 31 ≤ n ∧ n < 2 ^ 31 then .ok ⟨n, h⟩ else .error .invalidType
    | _ => .error .invalidType
  de_ser n := dif_pos n.2

/-- `TransactionType`. -/
def transactionTypeCodec : Codec SerdeError TransactionType where
  ser
    | .bridgeIn n => .obj [("bridgeIn", u256Codec.ser n)]
    | .send n => .obj [("send", u256Codec.ser n)]
    | .call n => .obj [("call", u256Codec.ser n)]
    | .bridgeOut n => .obj [("bridgeOut", u256Codec.ser n)]
    | .registerProgram n => .obj [("registerProgram", u256Codec.ser n)]
  de j := do
    match ← j.variant with
    | ("bridgeIn", n) => .bridgeIn <$> u256Codec.de n
    | ("send", n) => .send <$> u256Codec.de n
    | ("call", n) => .call <$> u256Codec.de n
    | ("bridgeOut", n) => .bridgeOut <$> u256Codec.de n
    | ("registerProgram", n) => .registerProgram <$> u256Codec.de n
    | _ => .error .unknownVariant
  de_ser t := by
    cases t <;> simp [Json.variant, bind, Except.bind, Functor.map, Except.map]

/-- `AccountType`. -/
def accountTypeCodec : Codec SerdeError AccountType where
  ser
    | .user => .str "user"
    | .program address => .obj [("program", addressCodec.ser address)]
  de j := do
    match ← j.variant with
    | ("user", .null) => .ok .user
    | ("program", address) => .program <$> addressCodec.de address
    | _ => .error .unknownVariant
  de_ser t := by
    cases t <;> simp [Json.variant, bind, Except.bind, Functor.map, Except.map]

/-- `AddressOrNamespace`. -/
def addressOrNamespaceCodec : Codec SerdeError AddressOrNamespace where
  ser
    | .address a => .obj [("address", addressCodec.ser a)]
    | .namespace name => .obj [("namespace", stringCodec.ser name)]
    | .this => .str "this"
  de j := do
    match ← j.variant with
    | ("address", a) => .address <$> addressCodec.de a
    | ("namespace", name) => .namespace <$> stringCodec.de name
    | ("this", .null) => .ok .this
    | _ => .error .unknownVariant
  de_ser x := by
    cases x <;> simp [Json.variant, bind, Except.bind, Functor.map, Except.map]

/-- `Status`. -/
def statusCodec : Codec SerdeError Status where
  ser
    | .locked => .str "locked"
    | .free => .str "free"
  de j := do
    match ← j.variant with
    | ("locked", .null) => .ok .locked
    | ("free", .null) => .ok .free
    | _ => .error .unknownVariant
  de_ser status := by
    cases status <;> simp [Json.variant, bind, Except.bind]

/-! ## Transactions -/

/-- `Transaction`, with the recovery id an `i32`. -/
abbrev SerdeTransaction := {tx : Transaction // -2 ^ 31 ≤ tx.v ∧ tx.v < 2 ^ 31}

/-- `Transaction::serialize`. -/
def SerdeTransaction.serialize (tx : SerdeTransaction) : Json :=
  .obj [("transactionType", transactionTypeCodec.ser tx.1.transactionType),
    ("from", bytes20Codec.ser tx.1.from), ("to", bytes20Codec.ser tx.1.to),
    ("programId", bytes20Codec.ser tx.1.programId), ("op", stringCodec.ser tx.1.op),
    ("transactionInputs", stringCodec.ser tx.1.inputs), ("value", u256Codec.ser tx.1.value),
    ("nonce", u256Codec.ser tx.1.nonce), ("v", i32Codec.ser ⟨tx.1.v, tx.2⟩),
    ("r", bytes32Codec.ser tx.1.r), ("s", bytes32Codec.ser tx.1.s)]

/-- `Transaction::deserialize`. -/
def SerdeTransaction.deserialize (j : Json) : SerdeResult SerdeTransaction := do
  let transactionType ← transactionTypeCodec.field ["transactionType"] j
  let «from» ← bytes20Codec.field ["from"] j
  let «to» ← bytes20Codec.field ["to"] j
  let programId ←
    bytes20Codec.field ["programId", "token", "token_address", "program_address"] j
  let op ← stringCodec.field ["op"] j
  let inputs ← stringCodec.field ["transactionInputs"] j
  let value ← u256Codec.field ["value"] j
  let nonce ← u256Codec.field ["nonce"] j
  let v ← i32Codec.field ["v"] j
  let r ← bytes32Codec.field ["r"] j
  let s ← bytes32Codec.field ["s"] j
  return ⟨⟨transactionType, «from», «to», programId, op, inputs, value, nonce, v.1, r, s⟩, v.2⟩

theorem SerdeTransaction.deserialize_serialize (tx : SerdeTransaction) :
    deserialize (serialize tx) = .ok tx := by
  obtain ⟨tx, hv⟩ := tx
  cases tx
  simp [deserialize, serialize, Codec.field, Json.field, Json.named, bind, Except.bind, pure,
    Except.pure]

def transactionCodec : Codec SerdeError SerdeTransaction where
  ser := SerdeTransaction.serialize
  de := SerdeTransaction.deserialize
  de_ser := SerdeTransaction.deserialize_serialize

/-! ## Tokens and accounts -/

instance : LinearOrder Address :=
  LinearOrder.lift' BitVec.toNat fun _ _ => BitVec.eq_of_toNat_eq

/-- The derived order : by the variant, then by what it carries. -/
def AddressOrNamespace.rank : AddressOrNamespace → ℕ ×ₗ ℕ ×ₗ String
  | .address a => toLex (0, toLex (a.toNat, ""))
  | .namespace name => toLex (1, toLex (0, name))
  | .this => toLex (2, toLex (0, ""))

theorem AddressOrNamespace.rank_injective : Function.Injective rank := by
  intro x y h
  cases x <;> cases y <;> simp_all [rank, BitVec.toNat_inj]

instance : LinearOrder AddressOrNamespace :=
  LinearOrder.lift' AddressOrNamespace.rank AddressOrNamespace.rank_injective

/-- `ArbitraryData` and `Metadata`. -/
def dataCodec : Codec SerdeError (OrderedMap String String) :=
  OrderedMap.codec TextCodec.string stringCodec

/-- `Token`. -/
structure SerdeToken where
  programId : Address
  ownerId : Address
  balance : U256
  metadata : OrderedMap String String
  tokenIds : List U256
  allowance : OrderedMap Address U256
  approvals : OrderedMap Address (List U256)
  data : OrderedMap String String
  status : Status

/-- The token, by its lookups. -/
def SerdeToken.token (self : SerdeToken) : Token where
  programId := self.programId
  ownerId := self.ownerId
  balance := self.balance
  metadata := self.metadata.get
  tokenIds := self.tokenIds
  allowance := self.allowance.get
  approvals := self.approvals.get
  data := self.data.get
  status := self.status

/-- Nothing of a token is lost in its lookups. -/
theorem SerdeToken.token_injective : Function.Injective SerdeToken.token := by
  rintro ⟨p, o, n, md, ids, al, ap, d, st⟩ ⟨p', o', n', md', ids', al', ap', d', st'⟩ h
  simp only [token, Token.mk.injEq] at h
  obtain ⟨rfl, rfl, rfl, hmd, rfl, hal, hap, hd, rfl⟩ := h
  obtain rfl := OrderedMap.ext_get (congrFun hmd)
  obtain rfl := OrderedMap.ext_get (congrFun hal)
  obtain rfl := OrderedMap.ext_get (congrFun hap)
  obtain rfl := OrderedMap.ext_get (congrFun hd)
  rfl

def allowanceCodec : Codec SerdeError (OrderedMap Address U256) :=
  OrderedMap.codec addressText u256Codec

def approvalsCodec : Codec SerdeError (OrderedMap Address (List U256)) :=
  OrderedMap.codec addressText u256Codec.list

/-- `Token::serialize`. -/
def SerdeToken.serialize (self : SerdeToken) : Json :=
  .obj [("programId", addressCodec.ser self.programId),
    ("ownerId", addressCodec.ser self.ownerId), ("balance", u256Codec.ser self.balance),
    ("metadata", dataCodec.ser self.metadata), ("tokenIds", u256Codec.list.ser self.tokenIds),
    ("allowance", allowanceCodec.ser self.allowance),
    ("approvals", approvalsCodec.ser self.approvals), ("data", dataCodec.ser self.data),
    ("status", statusCodec.ser self.status)]

/-- `Token::deserialize`. -/
def SerdeToken.deserialize (j : Json) : SerdeResult SerdeToken := do
  let programId ← addressCodec.field ["programId"] j
  let ownerId ← addressCodec.field ["ownerId"] j
  let balance ← u256Codec.field ["balance"] j
  let metadata ← dataCodec.field ["metadata"] j
  let tokenIds ← u256Codec.list.field ["tokenIds"] j
  let allowance ← allowanceCodec.field ["allowance"] j
  let approvals ← approvalsCodec.field ["approvals"] j
  let data ← dataCodec.field ["data"] j
  let status ← statusCodec.field ["status"] j
  return ⟨programId, ownerId, balance, metadata, tokenIds, allowance, approvals, data, status⟩

theorem SerdeToken.deserialize_serialize (token : SerdeToken) :
    deserialize (serialize token) = .ok token := by
  simp [deserialize, serialize, Codec.field, Json.field, Json.named, bind, Except.bind, pure,
    Except.pure]

def tokenCodec : Codec SerdeError SerdeToken where
  ser := SerdeToken.serialize
  de := SerdeToken.deserialize
  de_ser := SerdeToken.deserialize_serialize

/-- `Account`. -/
structure SerdeAccount where
  accountType : AccountType
  programNamespace : Option AddressOrNamespace
  ownerAddress : Address
  programs : OrderedMap Address SerdeToken
  nonce : U256
  programAccountData : OrderedMap String String
  programAccountMetadata : OrderedMap String String
  programAccountLinkedPrograms : OrderedMap AddressOrNamespace Unit

/-- The account, by its lookups. -/
def SerdeAccount.account (self : SerdeAccount) : Account where
  accountType := self.accountType
  programNamespace := self.programNamespace
  ownerAddress := self.ownerAddress
  programs a := (self.programs.get a).map SerdeToken.token
  nonce := self.nonce
  programAccountData := self.programAccountData.get
  programAccountMetadata := self.programAccountMetadata.get
  programAccountLinkedPrograms :=
    (self.programAccountLinkedPrograms.entries.map Prod.fst).toFinset

/-- Nothing of an account is lost in its lookups. -/
theorem SerdeAccount.account_injective : Function.Injective SerdeAccount.account := by
  rintro ⟨t, ns, o, ps, n, d, md, lp⟩ ⟨t', ns', o', ps', n', d', md', lp'⟩ h
  simp only [account, Account.mk.injEq] at h
  obtain ⟨rfl, rfl, rfl, hps, rfl, hd, hmd, hlp⟩ := h
  have hprograms : ∀ a, ps.get a = ps'.get a := fun a =>
    Option.map_injective SerdeToken.token_injective (congrFun hps a)
  obtain rfl := OrderedMap.ext_get hprograms
  obtain rfl := OrderedMap.ext_get (congrFun hd)
  obtain rfl := OrderedMap.ext_get (congrFun hmd)
  have hlinked : ∀ x, x ∈ lp.entries.map Prod.fst ↔ x ∈ lp'.entries.map Prod.fst := fun x => by
    rw [← List.mem_toFinset, hlp, List.mem_toFinset]
  obtain rfl := OrderedMap.eq_of_keys hlinked
  rfl

def namespaceCodec : Codec SerdeError (Option AddressOrNamespace) :=
  addressOrNamespaceCodec.option fun x => by cases x <;> exact fun h => nomatch h

def programsCodec : Codec SerdeError (OrderedMap Address SerdeToken) :=
  OrderedMap.codec addressText tokenCodec

def linkedProgramsCodec : Codec SerdeError (OrderedMap AddressOrNamespace Unit) :=
  OrderedMap.setCodec addressOrNamespaceCodec

/-- `Account::serialize`. -/
def SerdeAccount.serialize (self : SerdeAccount) : Json :=
  .obj [("accountType", accountTypeCodec.ser self.accountType),
    ("programNamespace", namespaceCodec.ser self.programNamespace),
    ("ownerAddress", addressCodec.ser self.ownerAddress),
    ("programs", programsCodec.ser self.programs), ("nonce", u256Codec.ser self.nonce),
    ("programAccountData", dataCodec.ser self.programAccountData),
    ("programAccountMetadata", dataCodec.ser self.programAccountMetadata),
    ("programAccountLinkedPrograms",
      linkedProgramsCodec.ser self.programAccountLinkedPrograms)]

/-- `Account::deserialize`. -/
def SerdeAccount.deserialize (j : Json) : SerdeResult SerdeAccount := do
  let accountType ← accountTypeCodec.field ["accountType"] j
  let programNamespace ← namespaceCodec.fieldOrNull ["programNamespace"] j
  let ownerAddress ← addressCodec.field ["ownerAddress"] j
  let programs ← programsCodec.field ["programs"] j
  let nonce ← u256Codec.field ["nonce"] j
  let programAccountData ← dataCodec.field ["programAccountData"] j
  let programAccountMetadata ← dataCodec.field ["programAccountMetadata"] j
  let programAccountLinkedPrograms ←
    linkedProgramsCodec.field ["programAccountLinkedPrograms"] j
  return ⟨accountType, programNamespace, ownerAddress, programs, nonce, programAccountData,
    programAccountMetadata, programAccountLinkedPrograms⟩

theorem SerdeAccount.deserialize_serialize (account : SerdeAccount) :
    deserialize (serialize account) = .ok account := by
  simp [deserialize, serialize, Codec.field, Codec.fieldOrNull, Json.field, Json.fieldOrNull,
    Json.named, bind, Except.bind, pure, Except.pure]

def accountCodec : Codec SerdeError SerdeAccount where
  ser := SerdeAccount.serialize
  de := SerdeAccount.deserialize
  de_ser := SerdeAccount.deserialize_serialize

end Lasr
