import Lasr.Serde

/-!
# Slices and panics of the readers

The readers of `Serde.lean` take a text in brackets apart as a list of characters. The code
slices it by the positions of its bytes, and copies what it has decoded into arrays of a fixed
length. A slice panics off the boundaries of characters or out of range, a copy from a source of
another length, a subtraction below zero, and an index past the end.

`AddressVisitor.visitStr`, `deserializeAddressText` and `U256Visitor.visitStr` are the readers
with these steps written as they stand in the code. None of them panics, and they return what
the readers of `Serde.lean` do (`AddressVisitor.visitStr_eq`, `deserializeAddressText_eq`,
`U256Visitor.visitStr_eq`).
-/

set_option linter.unusedSectionVars false

namespace Lasr

/-! ## Positions in bytes -/

section Positions

variable {ε α : Type}

/-- A step that panics if it has no result. -/
def orPanic : Option α → Except (Fault ε) α
  | some a => .ok a
  | none => .error .panic

/-- A step that fails with an error. -/
def returned (x : Except ε α) : Except (Fault ε) α :=
  x.mapError .err

/-- Cut a text at a position in bytes, if a character starts or the text ends there. -/
def splitAtByte : ℕ → List Char → Option (List Char × List Char)
  | 0, l => some ([], l)
  | _ + 1, [] => none
  | n + 1, c :: l =>
    if c.utf8Size ≤ n + 1 then
      (splitAtByte (n + 1 - c.utf8Size) l).map fun r => (c :: r.1, r.2)
    else none

/-- `&l[i..j]`. -/
def slice (i j : ℕ) (l : List Char) : Except (Fault ε) (List Char) :=
  if i ≤ j then do
    let r ← orPanic (splitAtByte i l)
    let r ← orPanic (splitAtByte (j - i) r.2)
    return r.1
  else .error .panic

/-- `x - y` of a `usize`. -/
def usizeSub (x y : ℕ) : Except (Fault ε) ℕ :=
  if y ≤ x then .ok (x - y) else .error .panic

/-- `copy_from_slice` into an array. -/
def copyFromSlice (n : ℕ) (bytes : List (BitVec 8)) : Except (Fault ε) (List (BitVec 8)) :=
  if bytes.length = n then .ok bytes else .error .panic

/-- `&l[1..l.len() - 1]`. -/
def withoutEnds (l : List Char) : Except (Fault ε) (List Char) := do
  slice 1 (← usizeSub (utf8Len l) 1) l

theorem utf8Len_append (l l' : List Char) : utf8Len (l ++ l') = utf8Len l + utf8Len l' := by
  simp [utf8Len]

/-- A text can be cut after its first characters. -/
theorem splitAtByte_append (l l' : List Char) :
    splitAtByte (utf8Len l) (l ++ l') = some (l, l') := by
  induction l with
  | nil => simp [utf8Len, splitAtByte]
  | cons c l ih =>
    have hpos := c.utf8Size_pos
    have hlen : utf8Len (c :: l) = c.utf8Size + utf8Len l := rfl
    obtain ⟨n, hn⟩ : ∃ n, c.utf8Size + utf8Len l = n + 1 := ⟨c.utf8Size + utf8Len l - 1, by omega⟩
    have hrest : n + 1 - c.utf8Size = utf8Len l := by omega
    rw [hlen, hn, List.cons_append, splitAtByte, if_pos (by omega), hrest, ih]
    rfl

/-- Between its first and its last characters it can be sliced. -/
theorem slice_append (a b c : List Char) :
    (slice (utf8Len a) (utf8Len a + utf8Len b) (a ++ b ++ c) : Except (Fault ε) (List Char)) =
      .ok b := by
  rw [slice, if_pos (Nat.le_add_right _ _), List.append_assoc, splitAtByte_append,
    Nat.add_sub_cancel_left]
  simp only [orPanic, bind, Except.bind, splitAtByte_append, pure, Except.pure]

/-- A text with different characters at its ends. -/
theorem eq_of_ends {l : List Char} {c c' : Char} (hne : c ≠ c') (hhead : l.head? = some c)
    (hlast : l.getLast? = some c') : l = c :: l.tail.dropLast ++ [c'] := by
  cases l with
  | nil => cases hhead
  | cons d l =>
    obtain rfl : d = c := Option.some.inj hhead
    rcases List.eq_nil_or_concat l with rfl | ⟨inner, d', rfl⟩
    · exact absurd (Option.some.inj hlast) hne
    · rw [List.concat_eq_append] at hlast ⊢
      obtain rfl : d' = c' := by
        rw [← List.cons_append, List.getLast?_append_of_ne_nil _ (List.cons_ne_nil _ _)] at hlast
        exact Option.some.inj hlast
      simp

/-- A text between characters of one byte loses these. -/
theorem withoutEnds_append {c c' : Char} (hc : c.utf8Size = 1) (hc' : c'.utf8Size = 1)
    (inner : List Char) :
    (withoutEnds (c :: inner ++ [c']) : Except (Fault ε) (List Char)) = .ok inner := by
  have hone : utf8Len [c] = 1 := by simp [utf8Len, hc]
  have hlen : utf8Len (c :: inner ++ [c']) = 1 + utf8Len inner + 1 := by
    rw [utf8Len_append, ← List.singleton_append, utf8Len_append, hone]
    simp [utf8Len, hc']
  have hslice : (slice _ _ ([c] ++ inner ++ [c']) : Except (Fault ε) (List Char)) = .ok inner :=
    slice_append [c] inner [c']
  rw [hone] at hslice
  rw [withoutEnds, hlen, usizeSub, if_pos (by omega), Nat.add_sub_cancel]
  exact hslice

theorem withoutEnds_of_ends {l : List Char} {c c' : Char} (hc : c.utf8Size = 1)
    (hc' : c'.utf8Size = 1) (hne : c ≠ c') (hhead : l.head? = some c)
    (hlast : l.getLast? = some c') :
    (withoutEnds l : Except (Fault ε) (List Char)) = .ok l.tail.dropLast := by
  have hsplit : (withoutEnds (c :: l.tail.dropLast ++ [c']) : Except (Fault ε) (List Char)) =
      .ok l.tail.dropLast := withoutEnds_append hc hc' l.tail.dropLast
  rwa [← eq_of_ends hne hhead hlast] at hsplit

end Positions

/-! ## The readers with their panics -/

/-- A result of a reader that may panic. -/
abbrev ReadResult (α : Type) := Except (Fault (DeError SerdeError)) α

/-- `AddressVisitor::visit_str`. -/
def AddressVisitor.visitStr (value : String) : ReadResult Address :=
  match value.toList with
  | '0' :: 'x' :: v => do
    let bytes ← returned (decodeHex v)
    if bytes.length = 20 then ofWordBytes 160 <$> copyFromSlice 20 bytes
    else returned (failWith "Hex string does not represent a valid Address")
  | v =>
    if v.head? = some '[' ∧ v.getLast? = some ']' then do
      let inner ← withoutEnds v
      let bytes ← returned (parseBytes inner)
      if bytes.length = 20 then ofWordBytes 160 <$> copyFromSlice 20 bytes
      else returned (failWith "invalid length for address")
    else returned (failWith "Invalid address format")

/-- `deserialize_address_bytes_or_string`, of a text. -/
def deserializeAddressText (value : String) : ReadResult (List (BitVec 8)) :=
  match value.toList with
  | '0' :: 'x' :: v => do
    let bytes ← returned (decodeHex v)
    returned (tryInto 20 "Hex string does not represent valid 20-byte array" bytes)
  | v =>
    if v.head? = some '[' ∧ v.getLast? = some ']' then do
      let inner ← withoutEnds v
      let bytes ← returned (parseBytes inner)
      returned (tryInto 20 "Bytes string does not represent a value 20-byte array" bytes)
    else do
      let bytes ← returned (decodeHex v)
      returned (tryInto 20 "Hex string does not represent valid 20 byte array" bytes)

/-- `U256Visitor::visit_str`. -/
def U256Visitor.visitStr (v : String) : ReadResult U256 :=
  let value := strip0x v.toList
  if value.head? = some '[' ∧ v.toList.getLast? = some ']' then do
    let inner ← withoutEnds v.toList
    let nums ← returned (parseNumbers (2 ^ 64 - 1) inner)
    if nums.length = 4 then do
      let n₀ ← orPanic nums[0]?
      let n₁ ← orPanic nums[1]?
      let n₂ ← orPanic nums[2]?
      let n₃ ← orPanic nums[3]?
      return BitVec.ofNat 256 (n₀ + 2 ^ 64 * n₁ + 2 ^ 128 * n₂ + 2 ^ 192 * n₃)
    else returned (failWith "Array does not have 4 elements")
  else if utf8Len value = 64 then do
    let decoded ← returned (decodeHex value)
    if decoded.length = 32 then ofWordBytes 256 <$> copyFromSlice 32 decoded
    else returned (failWith "decoded result is improper length")
  else returned (failWith "Invalid format for U256")

/-! ## They do not panic -/

section Returned

variable {ε α β : Type}

theorem ok_bind (a : α) (f : α → Except ε β) : (Except.ok a >>= f) = f a := rfl

theorem returned_bind (x : Except ε α) (f : α → Except ε β) :
    (returned x >>= fun a => returned (f a)) = returned (x >>= f) := by
  cases x <;> rfl

theorem returned_ne_panic (x : Except ε α) : returned x ≠ .error .panic := by
  cases x <;> simp [returned, Except.mapError]

theorem returned_eq_ok_iff {x : Except ε α} {a : α} : returned x = .ok a ↔ x = .ok a := by
  cases x <;> simp [returned, Except.mapError]

/-- A checked length makes the copy safe. -/
theorem copyFromSlice_of_length {n m : ℕ} {bytes : List (BitVec 8)} {e : Except ε (BitVec m)} :
    (if bytes.length = n then ofWordBytes m <$> copyFromSlice n bytes else returned e) =
      returned (if bytes.length = n then .ok (ofWordBytes m bytes) else e) := by
  split_ifs with h
  · rw [copyFromSlice, if_pos h]
    rfl
  · rfl

theorem withoutEnds_of_brackets {l : List Char} (h : l.head? = some '[' ∧ l.getLast? = some ']') :
    (withoutEnds l : Except (Fault ε) (List Char)) = .ok l.tail.dropLast :=
  withoutEnds_of_ends (by decide) (by decide) (by decide) h.1 h.2

/-- A checked length makes the indices safe. -/
theorem index_of_length {nums : List ℕ} {e : Except ε α} {f : ℕ → ℕ → ℕ → ℕ → α} :
    (if nums.length = 4 then do
        let n₀ ← orPanic nums[0]?
        let n₁ ← orPanic nums[1]?
        let n₂ ← orPanic nums[2]?
        let n₃ ← orPanic nums[3]?
        return f n₀ n₁ n₂ n₃
      else returned e) =
      returned (match nums with
        | [n₀, n₁, n₂, n₃] => .ok (f n₀ n₁ n₂ n₃)
        | _ => e) := by
  match nums with
  | [] | [_] | [_, _] | [_, _, _] | [_, _, _, _] | _ :: _ :: _ :: _ :: _ :: _ => rfl

/-- Also behind `0x` a bracket can be cut off with the first character. -/
theorem withoutEnds_of_strip0x {l : List Char}
    (h : (strip0x l).head? = some '[' ∧ l.getLast? = some ']') :
    (withoutEnds l : Except (Fault ε) (List Char)) = .ok l.tail.dropLast := by
  obtain ⟨hhead, hlast⟩ := h
  unfold strip0x at hhead
  split at hhead
  · exact withoutEnds_of_ends (c := '0') (by decide) (by decide) (by decide) rfl hlast
  · exact withoutEnds_of_brackets ⟨hhead, hlast⟩

end Returned

theorem AddressVisitor.visitStr_eq (value : String) :
    visitStr value = returned (Address.visitStr value) := by
  unfold visitStr Address.visitStr
  generalize value.toList = l
  split
  · simp only [copyFromSlice_of_length, returned_bind]
  · rename_i hplain
    simp only [bracketed]
    split_ifs with h
    · rw [withoutEnds_of_brackets h, ok_bind]
      simp only [copyFromSlice_of_length, returned_bind]
    · rfl

theorem deserializeAddressText_eq (value : String) :
    deserializeAddressText value = returned (deserializeAddressBytesOrString (.str value)) := by
  unfold deserializeAddressText deserializeAddressBytesOrString deserializeBytesOrString
  simp only
  generalize value.toList = l
  split
  · exact returned_bind _ _
  · rename_i hplain
    simp only [bracketed]
    split_ifs with h
    · rw [withoutEnds_of_brackets h, ok_bind]
      exact returned_bind _ _
    · exact returned_bind _ _

theorem U256Visitor.visitStr_eq (v : String) : visitStr v = returned (U256.visitStr v) := by
  unfold visitStr U256.visitStr
  simp only
  split_ifs with hbrackets hlen
  · rw [withoutEnds_of_strip0x hbrackets, ok_bind]
    simp only [index_of_length]
    exact returned_bind _ _
  · simp only [copyFromSlice_of_length, returned_bind]
  · rfl

end Lasr
