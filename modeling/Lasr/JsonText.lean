import Lasr.Codec
import Mathlib.Algebra.Order.Group.Int

/-!
# The compact text of a JSON value

`Json.print` writes a value without spaces, with the short escapes where there are any, and
`Json.parse` reads such a text. A reader takes a value off the front of the text and leaves the
rest (`readValue`), so what it makes of a text is settled by what it makes of a value followed
by any rest that does not go on with a digit (`readValue_print`).

The readers count down a fuel that a text of its own length provides.
-/

set_option linter.unusedSectionVars false

namespace Json

/-! ## Strings -/

/-- The quotation mark. -/
def quote : Char := '\x22'

/-- The backslash. -/
def backslash : Char := '\x5c'

/-- A character inside a string. -/
def escape (c : Char) : List Char :=
  if c = quote then [backslash, quote]
  else if c = backslash then [backslash, backslash]
  else if c.toNat = 8 then [backslash, 'b']
  else if c.toNat = 9 then [backslash, 't']
  else if c.toNat = 10 then [backslash, 'n']
  else if c.toNat = 12 then [backslash, 'f']
  else if c.toNat = 13 then [backslash, 'r']
  else if c.toNat < 32 then
    [backslash, 'u', '0', '0', Nat.digitChar (c.toNat / 16), Nat.digitChar (c.toNat % 16)]
  else [c]

/-- A string with its quotation marks. -/
def printStr (s : String) : List Char :=
  quote :: s.toList.flatMap escape ++ [quote]

/-- The value of a hex digit. -/
def hexDigitValue (c : Char) : Option ℕ :=
  if '0' ≤ c ∧ c ≤ '9' then some (c.toNat - 48)
  else if 'a' ≤ c ∧ c ≤ 'f' then some (c.toNat - 87)
  else if 'A' ≤ c ∧ c ≤ 'F' then some (c.toNat - 55)
  else none

/-- The character of an escape with four hex digits, outside the surrogates. -/
def readHex (a b c d : Char) : Option Char := do
  let a ← hexDigitValue a
  let b ← hexDigitValue b
  let c ← hexDigitValue c
  let d ← hexDigitValue d
  let n := 4096 * a + 256 * b + 16 * c + d
  if n.isValidChar then some (Char.ofNat n) else none

/-- The character of a short escape. -/
def unescape (c : Char) : Option Char :=
  if c = quote ∨ c = backslash ∨ c = '/' then some c
  else if c = 'b' then some (Char.ofNat 8)
  else if c = 't' then some (Char.ofNat 9)
  else if c = 'n' then some (Char.ofNat 10)
  else if c = 'f' then some (Char.ofNat 12)
  else if c = 'r' then some (Char.ofNat 13)
  else none

/-- Read one character of a string. -/
def readChar : List Char → Option (Char × List Char)
  | [] => none
  | c :: l =>
    if c = quote ∨ c.toNat < 32 then none
    else if c = backslash then
      match l with
      | 'u' :: h₁ :: h₂ :: h₃ :: h₄ :: l => (readHex h₁ h₂ h₃ h₄).map fun c => (c, l)
      | e :: l => (unescape e).map fun c => (c, l)
      | [] => none
    else some (c, l)

/-- Read a string up to its closing mark. -/
def readStr : ℕ → List Char → Option (List Char × List Char)
  | 0, _ => none
  | n + 1, l =>
    if l.head? = some quote then some ([], l.tail)
    else do
      let (c, l) ← readChar l
      let (s, l) ← readStr n l
      return (c :: s, l)

theorem escape_ne_nil (c : Char) : ∃ c' l, escape c = c' :: l ∧ c' ≠ quote := by
  unfold escape
  split_ifs with hquote
  all_goals first
    | exact ⟨_, _, rfl, hquote⟩
    | exact ⟨_, _, rfl, by decide⟩

theorem hexDigitValue_digitChar : ∀ n < 16, hexDigitValue (Nat.digitChar n) = some n := by
  decide

theorem ofNat_toNat_of_eq {c : Char} {n : ℕ} (h : c.toNat = n) : Char.ofNat n = c := by
  rw [← h, Char.ofNat_toNat]

theorem readHex_of_lt {c : Char} (h : c.toNat < 32) :
    readHex '0' '0' (Nat.digitChar (c.toNat / 16)) (Nat.digitChar (c.toNat % 16)) = some c := by
  have hzero : hexDigitValue '0' = some 0 := by decide
  have hval : 4096 * 0 + 256 * 0 + 16 * (c.toNat / 16) + c.toNat % 16 = c.toNat := by omega
  have hvalid : c.toNat.isValidChar := Or.inl (by omega)
  simp only [readHex, hzero, hexDigitValue_digitChar _ (by omega : c.toNat / 16 < 16),
    hexDigitValue_digitChar _ (by omega : c.toNat % 16 < 16), Option.bind_eq_bind,
    Option.bind_some, hval, if_pos hvalid, Char.ofNat_toNat]

/-- A character is read back from its escape. -/
theorem readChar_escape (c : Char) (rest : List Char) :
    readChar (escape c ++ rest) = some (c, rest) := by
  have hb : ¬(backslash = quote ∨ backslash.toNat < 32) := by decide
  unfold escape
  split_ifs with h₁ h₂ h₃ h₄ h₅ h₆ h₇ h₈
  · subst h₁
    rfl
  · subst h₂
    rfl
  · simp only [readChar, List.cons_append, List.nil_append, if_neg hb, if_true]
    exact congrArg (fun c => some (c, rest)) (ofNat_toNat_of_eq h₃)
  · exact congrArg (fun c => some (c, rest)) (ofNat_toNat_of_eq h₄)
  · exact congrArg (fun c => some (c, rest)) (ofNat_toNat_of_eq h₅)
  · exact congrArg (fun c => some (c, rest)) (ofNat_toNat_of_eq h₆)
  · exact congrArg (fun c => some (c, rest)) (ofNat_toNat_of_eq h₇)
  · simp only [readChar, List.cons_append, List.nil_append, if_neg hb, if_true, readHex_of_lt h₈,
      Option.map_some]
  · simp only [readChar, List.singleton_append, if_neg (not_or.2 ⟨h₁, h₈⟩), if_neg h₂]

/-- A string is read back, with enough fuel. -/
theorem readStr_escape : ∀ (s : List Char) {n : ℕ} (rest : List Char), s.length < n →
    readStr n (s.flatMap escape ++ quote :: rest) = some (s, rest)
  | [], n + 1, rest, _ => rfl
  | c :: s, n + 1, rest, h => by
    obtain ⟨c', l, hc, hne⟩ := escape_ne_nil c
    have hhead : (escape c ++ (s.flatMap escape ++ quote :: rest)).head? ≠ some quote := by
      rw [hc]
      simpa using hne
    rw [List.flatMap_cons, List.append_assoc, readStr, if_neg hhead, readChar_escape]
    have ih := readStr_escape s (n := n) rest (by simpa using h)
    simp only [Option.bind_eq_bind, Option.bind_some, ih]
    rfl

theorem length_le_flatMap_escape : ∀ s : List Char, s.length ≤ (s.flatMap escape).length
  | [] => le_rfl
  | c :: s => by
    obtain ⟨c', l, hc, -⟩ := escape_ne_nil c
    have ih := length_le_flatMap_escape s
    simp only [List.flatMap_cons, hc, List.length_append, List.length_cons]
    omega

/-! ## Numbers -/

/-- An integer in decimal. -/
def printInt (n : Int) : List Char :=
  if n < 0 then '-' :: Nat.toDigits 10 n.natAbs else Nat.toDigits 10 n.natAbs

/-- Read the digits at the front. -/
def readNat (l : List Char) : Option (ℕ × List Char) :=
  if l.takeWhile Char.isDigit = [] then none
  else some (Nat.ofDigitChars 10 (l.takeWhile Char.isDigit) 0, l.dropWhile Char.isDigit)

/-- The text does not go on with a digit. -/
def Ends (rest : List Char) : Prop := ∀ c ∈ rest.head?, ¬c.isDigit

theorem readNat_toDigits (n : ℕ) {rest : List Char} (hrest : Ends rest) :
    readNat (Nat.toDigits 10 n ++ rest) = some (n, rest) := by
  have hdigits : ∀ c ∈ Nat.toDigits 10 n, c.isDigit := fun c hc =>
    Nat.isDigit_of_mem_toDigits (by decide) (by decide) hc
  have htake : rest.takeWhile Char.isDigit = [] := by
    cases rest with
    | nil => rfl
    | cons c rest => exact List.takeWhile_cons_of_neg (hrest c rfl)
  have hdrop : rest.dropWhile Char.isDigit = rest := by
    cases rest with
    | nil => rfl
    | cons c rest => exact List.dropWhile_cons_of_neg (hrest c rfl)
  rw [readNat, List.takeWhile_append_of_pos hdigits, List.dropWhile_append_of_pos hdigits, htake,
    hdrop, List.append_nil, if_neg Nat.toDigits_ne_nil,
    Nat.ofDigitChars_toDigits (by decide) (by decide)]

/-! ## Values -/

/-- The elements of a sequence come after commas, but for the first one. -/
def dropComma : List Char → List Char
  | [] => []
  | c :: l => if c = ',' then l else c :: l

/-- Put the comma before the first element back, if there is one. -/
def addComma (close : Char) (l : List Char) : List Char :=
  if l.head? = some close then l else ',' :: l

mutual

/-- The compact text of a value. -/
def print : Json → List Char
  | .null => ['n', 'u', 'l', 'l']
  | .bool true => ['t', 'r', 'u', 'e']
  | .bool false => ['f', 'a', 'l', 's', 'e']
  | .num n => printInt n
  | .str s => printStr s
  | .arr elems => '[' :: dropComma (printElems elems)
  | .obj members => '\x7b' :: dropComma (printMembers members)

/-- Elements, each after a comma, and the closing bracket. -/
def printElems : List Json → List Char
  | [] => [']']
  | j :: elems => ',' :: (print j ++ printElems elems)

/-- Members, each after a comma, and the closing brace. -/
def printMembers : List (String × Json) → List Char
  | [] => ['\x7d']
  | (k, j) :: members => ',' :: (printStr k ++ ':' :: (print j ++ printMembers members))

end

/-- Read the rest of a word. -/
def readWord (word : List Char) (j : Json) (l : List Char) : Option (Json × List Char) :=
  if l.take word.length = word then some (j, l.drop word.length) else none

mutual

/-- Take a value off the front of a text. -/
def readValue : ℕ → List Char → Option (Json × List Char)
  | 0, _ => none
  | _, [] => none
  | n + 1, c :: l =>
    if c = 'n' then readWord ['u', 'l', 'l'] .null l
    else if c = 't' then readWord ['r', 'u', 'e'] (.bool true) l
    else if c = 'f' then readWord ['a', 'l', 's', 'e'] (.bool false) l
    else if c = quote then (readStr n l).map fun r => (.str (String.ofList r.1), r.2)
    else if c = '[' then (readElems n (addComma ']' l)).map fun r => (.arr r.1, r.2)
    else if c = '\x7b' then (readMembers n (addComma '\x7d' l)).map fun r => (.obj r.1, r.2)
    else if c = '-' then (readNat l).map fun r => (.num (-r.1), r.2)
    else (readNat (c :: l)).map fun r => (.num r.1, r.2)

/-- Take elements off the front, each after a comma, and the closing bracket. -/
def readElems : ℕ → List Char → Option (List Json × List Char)
  | 0, _ => none
  | _, [] => none
  | n + 1, c :: l =>
    if c = ']' then some ([], l)
    else if c = ',' then do
      let (j, l) ← readValue n l
      let (elems, l) ← readElems n l
      return (j :: elems, l)
    else none

/-- Take members off the front, each after a comma, and the closing brace. -/
def readMembers : ℕ → List Char → Option (List (String × Json) × List Char)
  | 0, _ => none
  | _, [] => none
  | n + 1, c :: l =>
    if c = '\x7d' then some ([], l)
    else if c = ',' ∧ l.head? = some quote then do
      let (k, l) ← readStr n l.tail
      if l.head? = some ':' then
        let (j, l) ← readValue n l.tail
        let (members, l) ← readMembers n l
        return ((String.ofList k, j) :: members, l)
      else none
    else none

end

/-- The value of a text. -/
def parse (text : String) : Option Json :=
  match readValue (text.toList.length + 1) text.toList with
  | some (j, []) => some j
  | _ => none

/-! ## The round trip -/

/-- A digit starts a number, and nothing else. -/
theorem readValue_of_isDigit {n : ℕ} {c : Char} {l : List Char} (h : c.isDigit) :
    readValue (n + 1) (c :: l) = (readNat (c :: l)).map fun r => (.num r.1, r.2) := by
  have hne : ∀ c' : Char, ¬c'.isDigit → c ≠ c' := fun c' hc' he => hc' (he ▸ h)
  simp only [readValue, if_neg (hne 'n' (by decide)), if_neg (hne 't' (by decide)),
    if_neg (hne 'f' (by decide)), if_neg (hne quote (by decide)), if_neg (hne '[' (by decide)),
    if_neg (hne '\x7b' (by decide)), if_neg (hne '-' (by decide))]

theorem readValue_printInt (n : Int) {m : ℕ} {rest : List Char} (hrest : Ends rest) :
    readValue (m + 1) (printInt n ++ rest) = some (.num n, rest) := by
  unfold printInt
  split_ifs with hneg
  · have hval : (-(n.natAbs : Int)) = n := by omega
    change (readNat (Nat.toDigits 10 n.natAbs ++ rest)).map _ = _
    rw [readNat_toDigits _ hrest, Option.map_some, hval]
  · have hval : (n.natAbs : Int) = n := by omega
    have hread := readNat_toDigits n.natAbs hrest
    obtain ⟨c, l, hc⟩ := List.exists_cons_of_ne_nil (@Nat.toDigits_ne_nil n.natAbs 10)
    have hdigit : c.isDigit :=
      Nat.isDigit_of_mem_toDigits (by decide) (by decide) (hc ▸ List.mem_cons_self)
    rw [hc, List.cons_append] at hread ⊢
    rw [readValue_of_isDigit hdigit, hread, Option.map_some, hval]

/-- No value starts with a closing bracket. -/
theorem print_head (j : Json) (l : List Char) : (print j ++ l).head? ≠ some ']' := by
  cases j with
  | bool b => cases b <;> simp [print]
  | num n =>
    simp only [print, printInt]
    split_ifs
    · simp
    · obtain ⟨c, ds, hc⟩ := List.exists_cons_of_ne_nil (@Nat.toDigits_ne_nil n.natAbs 10)
      have hdigit : c.isDigit :=
        Nat.isDigit_of_mem_toDigits (by decide) (by decide) (hc ▸ List.mem_cons_self)
      rw [hc]
      rintro h
      cases h
      exact absurd hdigit (by decide)
  | str s => simp [print, printStr, quote]
  | _ => simp [print]

theorem addComma_elems (elems : List Json) (rest : List Char) :
    addComma ']' (dropComma (printElems elems) ++ rest) = printElems elems ++ rest := by
  cases elems with
  | nil => rfl
  | cons j elems =>
    have hhead := print_head j (printElems elems ++ rest)
    simp only [printElems, dropComma, if_true, addComma, List.append_assoc, List.cons_append]
    rw [if_neg hhead]

theorem addComma_members (members : List (String × Json)) (rest : List Char) :
    addComma '\x7d' (dropComma (printMembers members) ++ rest) = printMembers members ++ rest := by
  cases members with
  | nil => rfl
  | cons m members => rfl

theorem ends_elems (elems : List Json) (rest : List Char) : Ends (printElems elems ++ rest) := by
  cases elems <;> simp [printElems, Ends]

theorem ends_members (members : List (String × Json)) (rest : List Char) :
    Ends (printMembers members ++ rest) := by
  cases members <;> simp [printMembers, Ends]

theorem length_dropComma (l : List Char) : l.length ≤ (dropComma l).length + 1 := by
  cases l with
  | nil => simp
  | cons c l =>
    simp only [dropComma]
    split_ifs <;> simp

theorem length_printElems_pos (elems : List Json) : 0 < (printElems elems).length := by
  cases elems <;> simp [printElems]

theorem length_printMembers_pos (members : List (String × Json)) :
    0 < (printMembers members).length := by
  cases members <;> simp [printMembers]

mutual

/-- A value is read back from the front of a text. -/
theorem readValue_print : ∀ (j : Json) {n : ℕ} {rest : List Char}, (print j).length < n →
    Ends rest → readValue n (print j ++ rest) = some (j, rest)
  | .null, n + 1, rest, _, _ => by simp [print, readValue, readWord]
  | .bool true, n + 1, rest, _, _ => by simp [print, readValue, readWord]
  | .bool false, n + 1, rest, _, _ => by simp [print, readValue, readWord]
  | .num k, n + 1, rest, _, hrest => by
    rw [print]
    exact readValue_printInt k hrest
  | .str s, n + 1, rest, h, _ => by
    have hlen : s.toList.length < n := by
      have hle := length_le_flatMap_escape s.toList
      simp only [print, printStr, List.length_cons, List.length_append, List.length_nil] at h
      omega
    have hread := readStr_escape s.toList rest hlen
    simp only [print, printStr, List.cons_append, List.append_assoc, List.nil_append]
    change (readStr n (s.toList.flatMap escape ++ quote :: rest)).map _ = _
    rw [hread, Option.map_some, String.ofList_toList]
  | .arr elems, n + 1, rest, h, _ => by
    have hlen := length_dropComma (printElems elems)
    simp only [print, List.length_cons] at h
    have hread := readElems_print elems rest (n := n) (by omega)
    rw [print]
    change (readElems n (addComma ']' (dropComma (printElems elems) ++ rest))).map _ = _
    rw [addComma_elems, hread, Option.map_some]
  | .obj members, n + 1, rest, h, _ => by
    have hlen := length_dropComma (printMembers members)
    simp only [print, List.length_cons] at h
    have hread := readMembers_print members rest (n := n) (by omega)
    rw [print]
    change (readMembers n (addComma '\x7d' (dropComma (printMembers members) ++ rest))).map _ = _
    rw [addComma_members, hread, Option.map_some]

theorem readElems_print : ∀ (elems : List Json) (rest : List Char) {n : ℕ},
    (printElems elems).length ≤ n → readElems n (printElems elems ++ rest) = some (elems, rest)
  | [], rest, n + 1, _ => by simp [printElems, readElems]
  | j :: elems, rest, n + 1, h => by
    have hpos := length_printElems_pos elems
    simp only [printElems, List.length_cons, List.length_append] at h
    have hj := readValue_print j (n := n) (by omega) (ends_elems elems rest)
    have helems := readElems_print elems rest (n := n) (by omega)
    simp only [printElems, List.cons_append, List.append_assoc, readElems]
    simp only [if_neg (by decide : ',' ≠ ']'), if_true, hj, helems, Option.bind_eq_bind,
      Option.bind_some]
    rfl

theorem readMembers_print : ∀ (members : List (String × Json)) (rest : List Char) {n : ℕ},
    (printMembers members).length ≤ n →
      readMembers n (printMembers members ++ rest) = some (members, rest)
  | [], rest, n + 1, _ => by simp [printMembers, readMembers]
  | (k, j) :: members, rest, n + 1, h => by
    have hpos := length_printMembers_pos members
    have hle := length_le_flatMap_escape k.toList
    simp only [printMembers, printStr, List.length_cons, List.length_append, List.length_nil] at h
    have hk := readStr_escape k.toList (n := n)
      (':' :: (print j ++ (printMembers members ++ rest))) (by omega)
    have hj := readValue_print j (n := n) (by omega) (ends_members members rest)
    have hmembers := readMembers_print members rest (n := n) (by omega)
    simp only [printMembers, printStr, List.cons_append, List.append_assoc, List.nil_append,
      readMembers]
    simp only [if_neg (by decide : ',' ≠ '\x7d'), List.head?_cons, and_self, if_true,
      List.tail_cons, hk, hj, hmembers, Option.bind_eq_bind, Option.bind_some,
      String.ofList_toList]
    rfl

end

/-- The text of a value is read as that value. -/
theorem parse_print (j : Json) : parse (String.ofList (print j)) = some j := by
  have hends : Ends [] := fun _ hc => nomatch hc
  have hread := readValue_print j (Nat.lt_succ_self _) hends
  rw [List.append_nil] at hread
  simp only [parse, String.toList_ofList, hread]

/-- Different values have different texts. -/
theorem print_injective : Function.Injective print := by
  intro j j' h
  have hparse := parse_print j
  rw [h, parse_print] at hparse
  exact (Option.some.inj hparse).symm

end Json
