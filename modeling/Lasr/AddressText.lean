import Lasr.WordText

/-!
# The texts of an address

Four readers take a text for an address : `AddressVisitor::visit_str`, `Address::from_hex`,
`Address::from_str` and `deserialize_address_bytes_or_string`. A text may be 40 hex digits, a
list of 20 bytes in brackets, or one of the short forms `0` and `1`, and no text is two of these
(`AddressText.unique`). Each reader takes some of the forms, with or without `0x`, for the
address that the form means (`AddressParser.addressText`), so two of them agree wherever they
both accept (`address_parsers_agree`).
-/

set_option linter.unusedSectionVars false

namespace Lasr

/-! ## The readers -/

/-- `Address::from_hex`. -/
def Address.fromHex (hexStr : String) : Except (Fault FromHexError) Address := do
  let bytes ← returned (hexDecode (strip0x hexStr.toList))
  if bytes.length = 20 then ofWordBytes 160 <$> copyFromSlice 20 bytes
  else returned (.error .oddLength)

/-- `Address::from_str`. -/
def Address.fromStr (s : String) : Except (Fault FromHexError) Address :=
  let hexStr := strip0x s.toList
  if hexStr = ['0'] then .ok 0#160
  else if hexStr = ['1'] then .ok 1#160
  else do
    let decoded ← returned (hexDecode hexStr)
    if decoded.length = 20 then ofWordBytes 160 <$> copyFromSlice 20 decoded
    else returned (.error .invalidStringLength)

/-- The readers of addresses. -/
inductive AddressParser where
  | visitStr
  | fromHex
  | fromStr
  | deserialize

/-- A reader with the errors of all of them. -/
def AddressParser.parse : AddressParser → String → ReadResult Address
  | .visitStr, s => AddressVisitor.visitStr s
  | .fromHex, s => (Address.fromHex s).mapError (Fault.map fun e => .custom (.hex e))
  | .fromStr, s => (Address.fromStr s).mapError (Fault.map fun e => .custom (.hex e))
  | .deserialize, s => ofWordBytes 160 <$> deserializeAddressText s

/-! ## What a text means -/

/-- 40 hex digits. -/
def HexAddress (digits : List Char) (a : Address) : Prop :=
  (∀ c ∈ digits, IsHexDigit c) ∧ digits.length = 40 ∧ a = BitVec.ofNat 160 (hexNumber digits)

/-- 20 bytes in brackets. -/
def ByteListAddress (l : List Char) (a : Address) : Prop :=
  (l.head? = some '[' ∧ l.getLast? = some ']') ∧
    ∃ bytes, parseBytes l.tail.dropLast = .ok bytes ∧ bytes.length = 20 ∧
      ofWordBytes 160 bytes = a

/-- The short forms. -/
def ShortAddress (digits : List Char) (a : Address) : Prop :=
  (digits = ['0'] ∧ a = 0#160) ∨ (digits = ['1'] ∧ a = 1#160)

/-- What a text means as an address, if it is of one of the forms. -/
def AddressText (l : List Char) (a : Address) : Prop :=
  HexAddress (strip0x l) a ∨ ByteListAddress l a ∨ ShortAddress (strip0x l) a

theorem HexAddress.iff_hexDecode {l : List Char} {a : Address} :
    HexAddress l a ↔ ∃ bytes, hexDecode l = .ok bytes ∧ bytes.length = 20 ∧
      ofWordBytes 160 bytes = a := by
  rw [hexDecode_eq_ok_iff (n := 20)]
  rfl

theorem strip0x_of_head {l : List Char} (h : l.head? = some '[') : strip0x l = l := by
  unfold strip0x
  split
  · cases h
  · rfl

theorem HexAddress.not_byteList {l : List Char} {a b : Address} (ha : HexAddress (strip0x l) a) :
    ¬ByteListAddress l b := by
  rintro ⟨⟨hhead, -⟩, -⟩
  rw [strip0x_of_head hhead] at ha
  exact not_isHexDigit_bracket (ha.1 '[' (List.mem_of_mem_head? hhead))

theorem HexAddress.not_short {l : List Char} {a b : Address} (ha : HexAddress l a) :
    ¬ShortAddress l b := by
  have hlen := ha.2.1
  rintro (⟨rfl, -⟩ | ⟨rfl, -⟩)
  · cases hlen
  · cases hlen

theorem ByteListAddress.not_short {l : List Char} {a b : Address} (ha : ByteListAddress l a) :
    ¬ShortAddress (strip0x l) b := by
  obtain ⟨⟨hhead, -⟩, -⟩ := ha
  rw [strip0x_of_head hhead]
  rintro (⟨rfl, -⟩ | ⟨rfl, -⟩)
  · cases hhead
  · cases hhead

/-- A text means at most one address. -/
theorem AddressText.unique {l : List Char} {a b : Address} (ha : AddressText l a)
    (hb : AddressText l b) : a = b := by
  rcases ha with ha | ha | ha
  · rcases hb with hb | hb | hb
    · exact ha.2.2.trans hb.2.2.symm
    · exact absurd hb ha.not_byteList
    · exact absurd hb ha.not_short
  · rcases hb with hb | hb | hb
    · exact absurd ha hb.not_byteList
    · obtain ⟨-, bytes, hbytes, -, rfl⟩ := ha
      obtain ⟨-, bytes', hbytes', -, rfl⟩ := hb
      rw [hbytes] at hbytes'
      rw [Except.ok.inj hbytes']
    · exact absurd hb ha.not_short
  · rcases hb with hb | hb | hb
    · exact absurd ha hb.not_short
    · exact absurd ha hb.not_short
    · rcases ha with ⟨h₀, rfl⟩ | ⟨h₁, rfl⟩ <;> rcases hb with ⟨h₀', rfl⟩ | ⟨h₁', rfl⟩
      · rfl
      · rw [h₀] at h₁'
        cases h₁'
      · rw [h₁] at h₀'
        cases h₀'
      · rfl

/-! ## What each reader accepts -/

section Accepts

variable {s : String} {a : Address}

theorem strip0x_cases (l : List Char) : (∃ digits, l = '0' :: 'x' :: digits) ∨ strip0x l = l := by
  unfold strip0x
  split
  · exact .inl ⟨_, rfl⟩
  · exact .inr rfl

/-- The bytes in brackets, with their number checked. -/
theorem byteListAddress_iff {l : List Char} {msg : String}
    (h : l.head? = some '[' ∧ l.getLast? = some ']') :
    (parseBytes l.tail.dropLast >>= fun bytes =>
      if bytes.length = 20 then .ok (ofWordBytes 160 bytes) else failWith msg) = .ok a ↔
      ByteListAddress l a := by
  simp only [Except.bind_eq_ok_iff, ite_failWith_eq_ok_iff, ByteListAddress, h, and_self, true_and]

/-- The digits, with the number of bytes checked. -/
theorem hexAddress_iff {l : List Char} {msg : String} :
    (decodeHex l >>= fun bytes =>
      if bytes.length = 20 then .ok (ofWordBytes 160 bytes) else failWith msg) = .ok a ↔
      HexAddress l a := by
  simp only [Except.bind_eq_ok_iff, ite_failWith_eq_ok_iff, decodeHex_eq_ok_iff,
    HexAddress.iff_hexDecode]

/-- A prefix is no bracket. -/
theorem not_byteListAddress_prefixed {digits : List Char} :
    ¬ByteListAddress ('0' :: 'x' :: digits) a := by
  intro h
  cases h.1.1

theorem Address.visitStr_eq_ok_iff : Address.visitStr s = .ok a ↔
    (∃ digits, s.toList = '0' :: 'x' :: digits ∧ HexAddress digits a) ∨
      ByteListAddress s.toList a := by
  unfold Address.visitStr
  generalize s.toList = l
  split
  · rename_i digits
    rw [hexAddress_iff]
    simp [not_byteListAddress_prefixed]
  · rename_i hplain
    have hhex : ¬∃ digits, l = '0' :: 'x' :: digits ∧ HexAddress digits a := by
      rintro ⟨digits, hl, -⟩
      exact hplain digits hl
    rw [or_iff_right hhex]
    by_cases h : l.head? = some '[' ∧ l.getLast? = some ']'
    · rw [bracketed, if_pos h]
      exact byteListAddress_iff h
    · rw [bracketed, if_neg h]
      exact iff_of_false (by simp [failWith]) fun hbytes => h hbytes.1

theorem Address.fromHex_eq (s : String) : Address.fromHex s =
    returned (hexDecode (strip0x s.toList) >>= fun bytes =>
      if bytes.length = 20 then .ok (ofWordBytes 160 bytes) else .error .oddLength) := by
  unfold Address.fromHex
  simp only [copyFromSlice_of_length, returned_bind]

theorem Address.fromHex_eq_ok_iff :
    Address.fromHex s = .ok a ↔ HexAddress (strip0x s.toList) a := by
  rw [Address.fromHex_eq, returned_eq_ok_iff, Except.bind_eq_ok_iff, HexAddress.iff_hexDecode]
  simp only [Except.ite_eq_ok_iff]

theorem Address.fromStr_eq (s : String) : Address.fromStr s =
    returned (if strip0x s.toList = ['0'] then .ok 0#160
      else if strip0x s.toList = ['1'] then .ok 1#160
      else hexDecode (strip0x s.toList) >>= fun bytes =>
        if bytes.length = 20 then .ok (ofWordBytes 160 bytes)
        else .error .invalidStringLength) := by
  unfold Address.fromStr
  simp only [copyFromSlice_of_length, returned_bind]
  split_ifs <;> rfl

theorem Address.fromStr_eq_ok_iff : Address.fromStr s = .ok a ↔
    HexAddress (strip0x s.toList) a ∨ ShortAddress (strip0x s.toList) a := by
  rw [Address.fromStr_eq, returned_eq_ok_iff]
  generalize strip0x s.toList = l
  split_ifs with h₀ h₁
  · subst h₀
    have hhex : ¬HexAddress ['0'] a := fun h => nomatch h.2.1
    rw [or_iff_right hhex, Except.ok.injEq]
    constructor
    · rintro rfl
      exact .inl ⟨rfl, rfl⟩
    · rintro (⟨-, rfl⟩ | ⟨h, -⟩)
      · rfl
      · cases h
  · subst h₁
    have hhex : ¬HexAddress ['1'] a := fun h => nomatch h.2.1
    rw [or_iff_right hhex, Except.ok.injEq]
    constructor
    · rintro rfl
      exact .inr ⟨rfl, rfl⟩
    · rintro (⟨h, -⟩ | ⟨-, rfl⟩)
      · cases h
      · rfl
  · have hshort : ¬ShortAddress l a := by simp [ShortAddress, h₀, h₁]
    rw [or_iff_left hshort, Except.bind_eq_ok_iff, HexAddress.iff_hexDecode]
    simp only [Except.ite_eq_ok_iff]

/-- An array of the right length, as an address. -/
theorem map_tryInto_eq_ok_iff {x : SerdeResult (List (BitVec 8))} {msg : String} :
    ofWordBytes 160 <$> (x >>= tryInto 20 msg) = .ok a ↔
      ∃ bytes, x = .ok bytes ∧ bytes.length = 20 ∧ ofWordBytes 160 bytes = a := by
  simp only [Except.map_eq_ok_iff, Except.bind_eq_ok_iff, tryInto, ite_failWith_eq_ok_iff]
  constructor
  · rintro ⟨_, ⟨bytes, hx, hlength, rfl⟩, ha⟩
    exact ⟨bytes, hx, hlength, ha⟩
  · rintro ⟨bytes, hx, hlength, ha⟩
    exact ⟨bytes, ⟨bytes, hx, hlength, rfl⟩, ha⟩

theorem deserializeAddress_eq_ok_iff :
    ofWordBytes 160 <$> deserializeAddressBytesOrString (.str s) = .ok a ↔
      HexAddress (strip0x s.toList) a ∨ ByteListAddress s.toList a := by
  unfold deserializeAddressBytesOrString deserializeBytesOrString
  simp only
  generalize s.toList = l
  split
  · rename_i digits
    rw [or_iff_left not_byteListAddress_prefixed, map_tryInto_eq_ok_iff, HexAddress.iff_hexDecode]
    simp only [decodeHex_eq_ok_iff, strip0x]
  · rename_i hplain
    have hstrip : strip0x l = l := (strip0x_cases l).resolve_left (not_exists.2 hplain)
    rw [hstrip]
    by_cases h : l.head? = some '[' ∧ l.getLast? = some ']'
    · have hhex : ¬HexAddress l a := fun hhex =>
        not_isHexDigit_bracket (hhex.1 '[' (List.mem_of_mem_head? h.1))
      rw [bracketed, if_pos h, or_iff_right hhex]
      simp only [map_tryInto_eq_ok_iff, ByteListAddress, h, and_self, true_and]
    · have hbytes : ¬ByteListAddress l a := fun hbytes => h hbytes.1
      rw [bracketed, if_neg h, or_iff_left hbytes, HexAddress.iff_hexDecode]
      simp only [map_tryInto_eq_ok_iff, decodeHex_eq_ok_iff]

end Accepts

/-! ## Agreement -/

theorem deserializeAddress_parse_eq (s : String) : AddressParser.deserialize.parse s =
    returned (ofWordBytes 160 <$> deserializeAddressBytesOrString (.str s)) := by
  rw [AddressParser.parse, deserializeAddressText_eq]
  cases deserializeAddressBytesOrString (.str s) <;> rfl

/-- A reader returns the address that the text means. -/
theorem AddressParser.addressText {p : AddressParser} {s : String} {a : Address}
    (h : p.parse s = .ok a) : AddressText s.toList a := by
  cases p with
  | visitStr =>
    rw [parse, AddressVisitor.visitStr_eq, returned_eq_ok_iff, Address.visitStr_eq_ok_iff] at h
    rcases h with ⟨digits, hs, hhex⟩ | hbytes
    · rw [hs]
      exact .inl hhex
    · exact .inr (.inl hbytes)
  | fromHex =>
    rw [parse, Except.mapError_eq_ok_iff, Address.fromHex_eq_ok_iff] at h
    exact .inl h
  | fromStr =>
    rw [parse, Except.mapError_eq_ok_iff, Address.fromStr_eq_ok_iff] at h
    exact h.imp_right .inr
  | deserialize =>
    rw [deserializeAddress_parse_eq, returned_eq_ok_iff, deserializeAddress_eq_ok_iff] at h
    exact h.imp_right .inl

/-- What is written of an address, by its digits. -/
theorem Address.toList_toFullString (a : Address) :
    a.toFullString.toList = '0' :: 'x' :: hexEncode (wordBytes 20 a) := by
  rw [← Address.serialize_eq, Address.serialize, String.toList_ofList]

theorem hexAddress_hexEncode (a : Address) : HexAddress (hexEncode (wordBytes 20 a)) a := by
  rw [HexAddress.iff_hexDecode]
  exact ⟨wordBytes 20 a, hexDecode_hexEncode _, length_wordBytes 20 a,
    ofWordBytes_wordBytes (n := 20) rfl a⟩

theorem AddressParser.parse_toFullString (p : AddressParser) (a : Address) :
    p.parse a.toFullString = .ok a := by
  have hhex := hexAddress_hexEncode a
  have hstrip : HexAddress (strip0x a.toFullString.toList) a := by
    rw [Address.toList_toFullString]
    exact hhex
  cases p with
  | visitStr =>
    rw [parse, AddressVisitor.visitStr_eq, returned_eq_ok_iff, Address.visitStr_eq_ok_iff]
    exact .inl ⟨_, Address.toList_toFullString a, hhex⟩
  | fromHex =>
    rw [parse, Except.mapError_eq_ok_iff, Address.fromHex_eq_ok_iff]
    exact hstrip
  | fromStr =>
    rw [parse, Except.mapError_eq_ok_iff, Address.fromStr_eq_ok_iff]
    exact .inl hstrip
  | deserialize =>
    rw [deserializeAddress_parse_eq, returned_eq_ok_iff, deserializeAddress_eq_ok_iff]
    exact .inl hstrip

theorem mapError_returned_ne_panic {ε ε' α : Type} (f : ε → ε') (x : Except ε α) :
    (returned x).mapError (Fault.map f) ≠ .error .panic := by
  cases x <;> simp [returned, Except.mapError, Fault.map]

theorem AddressParser.parse_ne_panic (p : AddressParser) (s : String) :
    p.parse s ≠ .error .panic := by
  cases p with
  | visitStr =>
    rw [parse, AddressVisitor.visitStr_eq]
    exact returned_ne_panic _
  | fromHex =>
    rw [parse, Address.fromHex_eq]
    exact mapError_returned_ne_panic _ _
  | fromStr =>
    rw [parse, Address.fromStr_eq]
    exact mapError_returned_ne_panic _ _
  | deserialize =>
    rw [deserializeAddress_parse_eq]
    exact returned_ne_panic _

/-- Any two readers that accept a text return the same address for it, each of them reads back
an address from all that is written for it, and none panics. -/
theorem address_parsers_agree :
    (∀ (p q : AddressParser) (s : String) (a b : Address),
      p.parse s = .ok a → q.parse s = .ok b → a = b) ∧
    (∀ (p : AddressParser) (a : Address), p.parse a.toFullString = .ok a ∧
      p.parse a.serialize = .ok a ∧
      ∃ text, serializeAsHex (wordBytes 20 a) = .str text ∧ p.parse text = .ok a) ∧
    ∀ (p : AddressParser) (s : String), p.parse s ≠ .error .panic := by
  refine ⟨fun p q s a b hp hq => ?_, fun p a => ⟨?_, ?_, a.serialize, rfl, ?_⟩, fun p s => ?_⟩
  · exact (AddressParser.addressText hp).unique (AddressParser.addressText hq)
  · exact p.parse_toFullString a
  · rw [Address.serialize_eq]
    exact p.parse_toFullString a
  · rw [Address.serialize_eq]
    exact p.parse_toFullString a
  · exact p.parse_ne_panic s

end Lasr
