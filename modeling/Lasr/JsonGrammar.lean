import Lasr.JsonText
import Mathlib.Data.List.TakeWhile

/-!
# The texts of a JSON value

A value may be written in many ways : with white space between the tokens, and with the
characters of a string as they are or behind escapes. `Json.Spells` is the grammar, and
`Json.fromStr` a reader that goes over a text once, one token at a time, and skips white space
before each.

The reader takes the texts of the grammar for what they spell (`fromStr_of_spells`), so a text
spells at most one value (`SpellsText.unique`), and the compact text is one of them
(`spells_print`).
-/

set_option linter.unusedSectionVars false

namespace Json

/-! ## The grammar -/

/-- White space between tokens. -/
def isBlank (c : Char) : Bool :=
  c = ' ' || c = '\t' || c = '\n' || c = '\r'

/-- Nothing but white space. -/
def Blank (w : List Char) : Prop := ∀ c ∈ w, isBlank c = true

/-- The number of four hex digits. -/
def hexNumber (a b c d : Char) : Option ℕ := do
  let a ← hexDigitValue a
  let b ← hexDigitValue b
  let c ← hexDigitValue c
  let d ← hexDigitValue d
  return 4096 * a + 256 * b + 16 * c + d

/-- The first half of a surrogate pair. -/
def IsLeading (n : ℕ) : Prop := 0xD800 ≤ n ∧ n < 0xDC00

/-- The second half of a surrogate pair. -/
def IsTrailing (n : ℕ) : Prop := 0xDC00 ≤ n ∧ n < 0xE000

instance (n : ℕ) : Decidable (IsLeading n) := inferInstanceAs (Decidable (_ ∧ _))

instance (n : ℕ) : Decidable (IsTrailing n) := inferInstanceAs (Decidable (_ ∧ _))

/-- The character of a surrogate pair. -/
def ofSurrogates (n m : ℕ) : Char :=
  Char.ofNat (0x10000 + 1024 * (n - 0xD800) + (m - 0xDC00))

/-- A character inside a string : as it is, behind a backslash, by its number, or by a pair of
surrogates. -/
inductive SpellsChar : Char → List Char → Prop
  | plain {c : Char} (hquote : c ≠ quote) (hbackslash : c ≠ backslash) (h : 32 ≤ c.toNat) :
    SpellsChar c [c]
  | short {e c : Char} (h : unescape e = some c) : SpellsChar c [backslash, e]
  | number {a b c d : Char} {n : ℕ} (h : hexNumber a b c d = some n) (hn : n.isValidChar) :
    SpellsChar (Char.ofNat n) [backslash, 'u', a, b, c, d]
  | pair {a b c d a' b' c' d' : Char} {n m : ℕ} (h : hexNumber a b c d = some n)
    (hn : IsLeading n) (h' : hexNumber a' b' c' d' = some m) (hm : IsTrailing m) :
    SpellsChar (ofSurrogates n m) [backslash, 'u', a, b, c, d, backslash, 'u', a', b', c', d']

/-- The characters of a string, one after another. -/
inductive SpellsChars : List Char → List Char → Prop
  | nil : SpellsChars [] []
  | cons {c : Char} {s t t' : List Char} (h : SpellsChar c t) (hs : SpellsChars s t') :
    SpellsChars (c :: s) (t ++ t')

/-- A string with its quotation marks. -/
def SpellsStr (s : String) (l : List Char) : Prop :=
  ∃ t, SpellsChars s.toList t ∧ l = quote :: (t ++ [quote])

/-- What comes before an element : a comma, but for the first, and white space. -/
def Separator (first : Bool) (w : List Char) : Prop :=
  if first then Blank w else ∃ w₁ w₂, Blank w₁ ∧ Blank w₂ ∧ w = w₁ ++ ',' :: w₂

mutual

/-- The text spells the value. -/
def Spells : Json → List Char → Prop
  | .null, l => l = ['n', 'u', 'l', 'l']
  | .bool true, l => l = ['t', 'r', 'u', 'e']
  | .bool false, l => l = ['f', 'a', 'l', 's', 'e']
  | .num n, l => l = printInt n
  | .str s, l => SpellsStr s l
  | .arr elems, l => ∃ t, SpellsElems true elems t ∧ l = '[' :: t
  | .obj members, l => ∃ t, SpellsMembers true members t ∧ l = '\x7b' :: t

/-- The elements of an array, and the closing bracket. -/
def SpellsElems : Bool → List Json → List Char → Prop
  | _, [], l => ∃ w, Blank w ∧ l = w ++ [']']
  | first, j :: elems, l => ∃ w t t', Separator first w ∧ Spells j t ∧ SpellsElems false elems t' ∧
      l = w ++ (t ++ t')

/-- The members of an object, and the closing brace. -/
def SpellsMembers : Bool → List (String × Json) → List Char → Prop
  | _, [], l => ∃ w, Blank w ∧ l = w ++ ['\x7d']
  | first, (k, j) :: members, l => ∃ w s w₁ w₂ t t', Separator first w ∧ SpellsStr k s ∧
      Blank w₁ ∧ Blank w₂ ∧ Spells j t ∧ SpellsMembers false members t' ∧
      l = w ++ (s ++ (w₁ ++ ':' :: (w₂ ++ (t ++ t'))))

end

/-- A text spells a value, with white space around it. -/
def SpellsText (j : Json) (text : String) : Prop :=
  ∃ w t w', Blank w ∧ Spells j t ∧ Blank w' ∧ text.toList = w ++ (t ++ w')

/-! ## The reader -/

/-- Skip white space. -/
def skip (l : List Char) : List Char := l.dropWhile isBlank

/-- Read a number behind `\u`, and a second one where the first is half of a pair. -/
def scanNumber : List Char → Option (Char × List Char)
  | a :: b :: c :: d :: l => do
    let n ← hexNumber a b c d
    if IsLeading n then
      match l with
      | e :: 'u' :: a' :: b' :: c' :: d' :: l => do
        let m ← hexNumber a' b' c' d'
        if e = backslash ∧ IsTrailing m then some (ofSurrogates n m, l) else none
      | _ => none
    else if n.isValidChar then some (Char.ofNat n, l)
    else none
  | _ => none

/-- Read one character of a string. -/
def scanChar : List Char → Option (Char × List Char)
  | [] => none
  | c :: l =>
    if c = quote ∨ c.toNat < 32 then none
    else if c = backslash then
      match l with
      | [] => none
      | e :: l => if e = 'u' then scanNumber l else (unescape e).map fun c => (c, l)
    else some (c, l)

/-- Read a string up to its closing mark. -/
def scanChars : ℕ → List Char → Option (List Char × List Char)
  | 0, _ => none
  | n + 1, l =>
    if l.head? = some quote then some ([], l.tail)
    else do
      let (c, l) ← scanChar l
      let (s, l) ← scanChars n l
      return (c :: s, l)

/-- Read an integer : digits without a leading zero, and a sign unless it is zero. -/
def scanInt (l : List Char) : Option (Int × List Char) :=
  match l with
  | '-' :: l => do
    let (n, rest) ← readNat l
    if n ≠ 0 ∧ l.takeWhile Char.isDigit = Nat.toDigits 10 n then some (-n, rest) else none
  | l => do
    let (n, rest) ← readNat l
    if l.takeWhile Char.isDigit = Nat.toDigits 10 n then some (n, rest) else none

/-- Go to the next element, past a comma if it is not the first. -/
def nextElem (first : Bool) (c : Char) (l : List Char) : Option (List Char) :=
  if first then some (c :: l)
  else if c = ',' then some (skip l)
  else none

/-- Read a colon, with white space around it. -/
def scanColon (l : List Char) : Option (List Char) :=
  match skip l with
  | ':' :: l => some (skip l)
  | _ => none

mutual

/-- Take a value off the front of a text. -/
def scanValue : ℕ → List Char → Option (Json × List Char)
  | 0, _ => none
  | _, [] => none
  | n + 1, c :: l =>
    if c = 'n' then readWord ['u', 'l', 'l'] .null l
    else if c = 't' then readWord ['r', 'u', 'e'] (.bool true) l
    else if c = 'f' then readWord ['a', 'l', 's', 'e'] (.bool false) l
    else if c = quote then (scanChars n l).map fun r => (.str (String.ofList r.1), r.2)
    else if c = '[' then (scanElems n true l).map fun r => (.arr r.1, r.2)
    else if c = '\x7b' then (scanMembers n true l).map fun r => (.obj r.1, r.2)
    else (scanInt (c :: l)).map fun r => (.num r.1, r.2)

/-- Take the elements of an array off the front, and the closing bracket. -/
def scanElems : ℕ → Bool → List Char → Option (List Json × List Char)
  | 0, _, _ => none
  | n + 1, first, l =>
    match skip l with
    | [] => none
    | c :: l =>
      if c = ']' then some ([], l)
      else do
        let l ← nextElem first c l
        let (j, l) ← scanValue n l
        let (elems, l) ← scanElems n false l
        return (j :: elems, l)

/-- Take the members of an object off the front, and the closing brace. -/
def scanMembers : ℕ → Bool → List Char → Option (List (String × Json) × List Char)
  | 0, _, _ => none
  | n + 1, first, l =>
    match skip l with
    | [] => none
    | c :: l =>
      if c = '\x7d' then some ([], l)
      else do
        let l ← nextElem first c l
        if l.head? = some quote then
          let (k, l) ← scanChars n l.tail
          let l ← scanColon l
          let (j, l) ← scanValue n l
          let (members, l) ← scanMembers n false l
          return ((String.ofList k, j) :: members, l)
        else none

end

/-- The value of a text. -/
def fromStr (text : String) : Option Json :=
  match scanValue (text.toList.length + 1) (skip text.toList) with
  | some (j, rest) => if skip rest = [] then some j else none
  | none => none

/-! ## Tokens -/

theorem Blank.cons {c : Char} {w : List Char} (h : Blank (c :: w)) : isBlank c = true ∧ Blank w :=
  List.forall_mem_cons.1 h

theorem skip_append {w l : List Char} (h : Blank w) : skip (w ++ l) = skip l :=
  List.dropWhile_append_of_pos h

/-- Nothing is skipped before a token. -/
theorem skip_cons {c : Char} {l : List Char} (h : isBlank c = false) : skip (c :: l) = c :: l :=
  List.dropWhile_cons_of_neg (by simp [h])

theorem skip_blank {w : List Char} (h : Blank w) : skip w = [] := by
  have hskip := skip_append (l := []) h
  rwa [List.append_nil] at hskip

theorem isDigit_of_isBlank {c : Char} (h : isBlank c = true) : ¬c.isDigit := by
  simp only [isBlank, Bool.or_eq_true, decide_eq_true_eq] at h
  rcases h with ((rfl | rfl) | rfl) | rfl <;> decide

/-- After white space a number has ended if what comes next is no digit. -/
theorem ends_append {w l : List Char} (hw : Blank w) (hl : Ends l) : Ends (w ++ l) := by
  cases w with
  | nil => exact hl
  | cons c w =>
    intro c' hc'
    cases hc'
    exact isDigit_of_isBlank hw.cons.1

theorem ends_cons {c : Char} {l : List Char} (h : ¬c.isDigit) : Ends (c :: l) := by
  intro c' hc'
  cases hc'
  exact h

/-! ## Strings -/

theorem scanNumber_number {a b c d : Char} {n : ℕ} (h : hexNumber a b c d = some n)
    (hn : n.isValidChar) (rest : List Char) :
    scanNumber (a :: b :: c :: d :: rest) = some (Char.ofNat n, rest) := by
  have hlead : ¬IsLeading n := by
    unfold IsLeading
    rcases hn with hn | hn <;> omega
  simp only [scanNumber, h, Option.bind_eq_bind, Option.bind_some, if_neg hlead, if_pos hn]

theorem scanChar_spells {c : Char} {t : List Char} (h : SpellsChar c t) (rest : List Char) :
    scanChar (t ++ rest) = some (c, rest) := by
  have hb : ¬(backslash = quote ∨ backslash.toNat < 32) := by decide
  cases h with
  | plain hquote hbackslash h =>
    have hplain : ¬(c = quote ∨ c.toNat < 32) := not_or.2 ⟨hquote, Nat.not_lt.2 h⟩
    simp only [List.singleton_append, scanChar, if_neg hplain, if_neg hbackslash]
  | @short e c h =>
    have hu : e ≠ 'u' := by
      rintro rfl
      cases h
    simp only [List.cons_append, List.nil_append, scanChar, if_neg hb, if_true, if_neg hu, h,
      Option.map_some]
  | number h hn =>
    simp only [List.cons_append, List.nil_append, scanChar, if_neg hb, if_true,
      scanNumber_number h hn]
  | pair h hn h' hm =>
    simp only [List.cons_append, List.nil_append, scanChar, if_neg hb, if_true, scanNumber, h,
      h', Option.bind_eq_bind, Option.bind_some, if_pos hn, hm, and_self]

theorem SpellsChar.head {c : Char} {t : List Char} (h : SpellsChar c t) :
    ∃ c' l, t = c' :: l ∧ c' ≠ quote := by
  cases h with
  | plain hquote _ _ => exact ⟨_, _, rfl, hquote⟩
  | _ => exact ⟨_, _, rfl, by decide⟩

/-- A string is read, with enough fuel. -/
theorem scanChars_spells {s t : List Char} (h : SpellsChars s t) :
    ∀ {n : ℕ} (rest : List Char), t.length < n →
      scanChars n (t ++ quote :: rest) = some (s, rest) := by
  induction h with
  | nil =>
    intro n rest hn
    obtain ⟨n, rfl⟩ := Nat.exists_eq_succ_of_ne_zero (Nat.ne_of_gt hn)
    rfl
  | @cons c s t t' h hs ih =>
    intro n rest hn
    obtain ⟨c', l, rfl, hne⟩ := h.head
    obtain ⟨n, rfl⟩ := Nat.exists_eq_succ_of_ne_zero (Nat.ne_of_gt (Nat.zero_lt_of_lt hn))
    have hhead : (c' :: l ++ (t' ++ quote :: rest)).head? ≠ some quote := by simpa using hne
    have hlen : t'.length < n := by
      simp only [List.length_append, List.length_cons] at hn
      omega
    rw [List.append_assoc, scanChars, if_neg hhead, scanChar_spells h]
    simp only [Option.bind_eq_bind, Option.bind_some, ih rest hlen]
    rfl

/-! ## Numbers -/

theorem takeWhile_toDigits (n : ℕ) {rest : List Char} (hrest : Ends rest) :
    (Nat.toDigits 10 n ++ rest).takeWhile Char.isDigit = Nat.toDigits 10 n := by
  have hdigits : ∀ c ∈ Nat.toDigits 10 n, c.isDigit := fun c hc =>
    Nat.isDigit_of_mem_toDigits (by decide) (by decide) hc
  have htake : rest.takeWhile Char.isDigit = [] := by
    cases rest with
    | nil => rfl
    | cons c rest => exact List.takeWhile_cons_of_neg (hrest c rfl)
  rw [List.takeWhile_append_of_pos hdigits, htake, List.append_nil]

theorem head_toDigits (n : ℕ) : ∃ c l, Nat.toDigits 10 n = c :: l ∧ c.isDigit := by
  obtain ⟨c, l, hc⟩ := List.exists_cons_of_ne_nil (@Nat.toDigits_ne_nil n 10)
  exact ⟨c, l, hc, Nat.isDigit_of_mem_toDigits (by decide) (by decide) (hc ▸ List.mem_cons_self)⟩

theorem scanInt_printInt (n : Int) {rest : List Char} (hrest : Ends rest) :
    scanInt (printInt n ++ rest) = some (n, rest) := by
  have hread := readNat_toDigits n.natAbs hrest
  have htake := takeWhile_toDigits n.natAbs hrest
  unfold printInt
  split_ifs with hneg
  · have hval : (-(n.natAbs : Int)) = n := by omega
    have hne : n.natAbs ≠ 0 := by omega
    simp only [List.cons_append, scanInt, hread, htake, Option.bind_eq_bind, Option.bind_some, hne,
      ne_eq, not_false_eq_true, and_self, if_true, hval]
  · have hval : (n.natAbs : Int) = n := by omega
    obtain ⟨c, l, hc, hdigit⟩ := head_toDigits n.natAbs
    have hminus : c ≠ '-' := fun he => absurd (he ▸ hdigit) (by decide)
    unfold scanInt
    split
    · next l' hl' =>
      rw [hc, List.cons_append] at hl'
      exact absurd (List.cons.inj hl').1 hminus
    · simp only [hread, htake, Option.bind_eq_bind, Option.bind_some, if_true, hval]

/-! ## Values -/

/-- How the text of a value begins. -/
def StartsValue (c : Char) : Prop := isBlank c = false ∧ c ≠ ']' ∧ c ≠ '\x7d'

theorem startsValue_of_isDigit {c : Char} (h : c.isDigit) : StartsValue c := by
  refine ⟨?_, fun he => absurd (he ▸ h) (by decide), fun he => absurd (he ▸ h) (by decide)⟩
  by_contra hb
  exact isDigit_of_isBlank (by simpa using hb) h

theorem head_printInt (n : Int) :
    ∃ c l, printInt n = c :: l ∧ StartsValue c ∧ (c = '-' ∨ c.isDigit) := by
  obtain ⟨c, l, hc, hdigit⟩ := head_toDigits n.natAbs
  unfold printInt
  split_ifs
  · exact ⟨_, _, rfl, ⟨by decide, by decide, by decide⟩, Or.inl rfl⟩
  · exact ⟨c, l, hc, startsValue_of_isDigit hdigit, Or.inr hdigit⟩

theorem Spells.head {j : Json} {t : List Char} (h : Spells j t) :
    ∃ c l, t = c :: l ∧ StartsValue c := by
  have hconst : ∀ {c : Char} {l : List Char}, isBlank c = false → c ≠ ']' → c ≠ '\x7d' →
      ∃ c' l', c :: l = c' :: l' ∧ StartsValue c' := fun h₁ h₂ h₃ => ⟨_, _, rfl, h₁, h₂, h₃⟩
  cases j with
  | null =>
    rw [Spells] at h
    exact h ▸ hconst (by decide) (by decide) (by decide)
  | bool b =>
    cases b <;> rw [Spells] at h <;> exact h ▸ hconst (by decide) (by decide) (by decide)
  | num n =>
    rw [Spells] at h
    obtain ⟨c, l, hc, hstart, -⟩ := head_printInt n
    exact ⟨c, l, h.trans hc, hstart⟩
  | str s =>
    rw [Spells] at h
    obtain ⟨t', -, rfl⟩ := h
    exact hconst (by decide) (by decide) (by decide)
  | arr elems =>
    rw [Spells] at h
    obtain ⟨t', -, rfl⟩ := h
    exact hconst (by decide) (by decide) (by decide)
  | obj members =>
    rw [Spells] at h
    obtain ⟨t', -, rfl⟩ := h
    exact hconst (by decide) (by decide) (by decide)

/-- The next element is found behind its separator. -/
theorem nextElem_separator {first : Bool} {w l : List Char} {c e : Char}
    (hw : Separator first w) (hc : isBlank c = false) (hne : c ≠ e) (hclose : e ≠ ',') :
    ∃ c' l', skip (w ++ c :: l) = c' :: l' ∧ c' ≠ e ∧ nextElem first c' l' = some (c :: l) := by
  unfold Separator at hw
  cases first with
  | true => exact ⟨c, l, by rw [skip_append hw, skip_cons hc], hne, rfl⟩
  | false =>
    obtain ⟨w₁, w₂, h₁, h₂, rfl⟩ := hw
    refine ⟨',', w₂ ++ c :: l, ?_, hclose.symm, ?_⟩
    · rw [List.append_assoc, skip_append h₁, List.cons_append, skip_cons (by decide)]
    · simp only [nextElem, Bool.false_eq_true, if_false, if_true, skip_append h₂, skip_cons hc]

theorem ends_separator {w l : List Char} (h : Separator false w) : Ends (w ++ l) := by
  obtain ⟨w₁, w₂, h₁, -, rfl⟩ := h
  rw [List.append_assoc]
  exact ends_append h₁ (ends_cons (by decide))

theorem SpellsElems.ends {elems : List Json} {t : List Char} (h : SpellsElems false elems t)
    (rest : List Char) : Ends (t ++ rest) ∧ 0 < t.length := by
  cases elems with
  | nil =>
    rw [SpellsElems] at h
    obtain ⟨w, hw, rfl⟩ := h
    rw [List.append_assoc]
    exact ⟨ends_append hw (ends_cons (by decide)), by simp⟩
  | cons j elems =>
    rw [SpellsElems] at h
    obtain ⟨w, t, t', hw, ht, -, rfl⟩ := h
    obtain ⟨c, l, rfl, -⟩ := ht.head
    rw [List.append_assoc]
    exact ⟨ends_separator hw, by simp only [List.length_append, List.length_cons]; omega⟩

theorem SpellsMembers.ends {members : List (String × Json)} {t : List Char}
    (h : SpellsMembers false members t) (rest : List Char) : Ends (t ++ rest) ∧ 0 < t.length := by
  cases members with
  | nil =>
    rw [SpellsMembers] at h
    obtain ⟨w, hw, rfl⟩ := h
    rw [List.append_assoc]
    exact ⟨ends_append hw (ends_cons (by decide)), by simp⟩
  | cons m members =>
    rw [SpellsMembers] at h
    obtain ⟨w, s, w₁, w₂, t, t', hw, -, -, -, -, -, rfl⟩ := h
    rw [List.append_assoc]
    exact ⟨ends_separator hw, by simp only [List.length_append, List.length_cons]; omega⟩

theorem scanColon_spells {w₁ w₂ l : List Char} {c : Char} (h₁ : Blank w₁) (h₂ : Blank w₂)
    (hc : isBlank c = false) : scanColon (w₁ ++ ':' :: (w₂ ++ c :: l)) = some (c :: l) := by
  unfold scanColon
  rw [skip_append h₁, skip_cons (by decide)]
  simp only [skip_append h₂, skip_cons hc]

/-- A sign or a digit starts a number, and nothing else. -/
theorem scanValue_number {n : ℕ} {c : Char} {l : List Char} (h : c = '-' ∨ c.isDigit) :
    scanValue (n + 1) (c :: l) = (scanInt (c :: l)).map fun r => (.num r.1, r.2) := by
  have hne : ∀ c' : Char, c' ≠ '-' → ¬c'.isDigit → c ≠ c' := by
    rintro c' hminus hdigit rfl
    exact h.elim hminus hdigit
  simp only [scanValue, if_neg (hne 'n' (by decide) (by decide)),
    if_neg (hne 't' (by decide) (by decide)), if_neg (hne 'f' (by decide) (by decide)),
    if_neg (hne quote (by decide) (by decide)), if_neg (hne '[' (by decide) (by decide)),
    if_neg (hne '\x7b' (by decide) (by decide))]

mutual

/-- A value is taken off the front of any text that goes on after it. -/
theorem scanValue_spells : ∀ (j : Json) {t : List Char} {n : ℕ} {r : List Char}, Spells j t →
    t.length < n → Ends r → scanValue n (t ++ r) = some (j, r)
  | .null, t, n + 1, rest, h, hn, _ => by
    rw [Spells] at h
    subst h
    rfl
  | .bool true, t, n + 1, rest, h, hn, _ => by
    rw [Spells] at h
    subst h
    rfl
  | .bool false, t, n + 1, rest, h, hn, _ => by
    rw [Spells] at h
    subst h
    rfl
  | .num k, t, n + 1, rest, h, hn, hrest => by
    rw [Spells] at h
    subst h
    obtain ⟨c, l, hc, -, hstart⟩ := head_printInt k
    have hread := scanInt_printInt k hrest
    rw [hc, List.cons_append] at hread ⊢
    rw [scanValue_number hstart, hread, Option.map_some]
  | .str s, t, n + 1, rest, h, hn, _ => by
    rw [Spells] at h
    obtain ⟨t, ht, rfl⟩ := h
    have hread := scanChars_spells ht (n := n) rest (by simp at hn; omega)
    have hquote : quote ≠ 'n' ∧ quote ≠ 't' ∧ quote ≠ 'f' := by decide
    simp only [List.cons_append, List.append_assoc, List.nil_append, scanValue, if_neg hquote.1,
      if_neg hquote.2.1, if_neg hquote.2.2, if_true, hread, Option.map_some, String.ofList_toList]
  | .arr elems, t, n + 1, rest, h, hn, _ => by
    rw [Spells] at h
    obtain ⟨t, ht, rfl⟩ := h
    have hread := scanElems_spells elems (n := n) (r := rest) ht (by simpa using hn)
    rw [List.cons_append]
    change (scanElems n true (t ++ rest)).map _ = _
    rw [hread, Option.map_some]
  | .obj members, t, n + 1, rest, h, hn, _ => by
    rw [Spells] at h
    obtain ⟨t, ht, rfl⟩ := h
    have hread := scanMembers_spells members (n := n) (r := rest) ht (by simpa using hn)
    rw [List.cons_append]
    change (scanMembers n true (t ++ rest)).map _ = _
    rw [hread, Option.map_some]

theorem scanElems_spells : ∀ (elems : List Json) {first : Bool} {t : List Char} {n : ℕ}
    {r : List Char}, SpellsElems first elems t → t.length < n →
      scanElems n first (t ++ r) = some (elems, r)
  | [], first, t, n + 1, rest, h, hn => by
    rw [SpellsElems] at h
    obtain ⟨w, hw, rfl⟩ := h
    have hskip : skip (w ++ [']'] ++ rest) = ']' :: rest := by
      rw [List.append_assoc, skip_append hw]
      exact skip_cons (by decide)
    simp only [scanElems, hskip, if_true]
  | j :: elems, first, t, n + 1, rest, h, hn => by
    rw [SpellsElems] at h
    obtain ⟨w, t, t', hw, ht, ht', rfl⟩ := h
    obtain ⟨c, l, rfl, hblank, hne, -⟩ := ht.head
    obtain ⟨hends, hpos⟩ := ht'.ends rest
    simp only [List.length_append, List.length_cons] at hn
    have hj := scanValue_spells j (n := n) (r := t' ++ rest) ht (by simp; omega) hends
    have hrest := scanElems_spells elems (n := n) (r := rest) ht' (by omega)
    obtain ⟨c', l', hskip, hclose, hnext⟩ :=
      nextElem_separator (l := l ++ (t' ++ rest)) hw hblank hne (by decide)
    rw [List.cons_append] at hj
    simp only [List.append_assoc, List.cons_append, scanElems, hskip, if_neg hclose, hnext, hj,
      hrest, Option.bind_eq_bind, Option.bind_some]
    rfl

theorem scanMembers_spells : ∀ (members : List (String × Json)) {first : Bool} {t : List Char}
    {n : ℕ} {r : List Char}, SpellsMembers first members t → t.length < n →
      scanMembers n first (t ++ r) = some (members, r)
  | [], first, t, n + 1, rest, h, hn => by
    rw [SpellsMembers] at h
    obtain ⟨w, hw, rfl⟩ := h
    have hskip : skip (w ++ ['\x7d'] ++ rest) = '\x7d' :: rest := by
      rw [List.append_assoc, skip_append hw]
      exact skip_cons (by decide)
    simp only [scanMembers, hskip, if_true]
  | (k, j) :: members, first, t, n + 1, rest, h, hn => by
    rw [SpellsMembers] at h
    obtain ⟨w, s, w₁, w₂, t, t', hw, ⟨s, hs, rfl⟩, h₁, h₂, ht, ht', rfl⟩ := h
    obtain ⟨c, l, rfl, hblank, -, -⟩ := ht.head
    obtain ⟨hends, hpos⟩ := ht'.ends rest
    simp only [List.length_append, List.length_cons, List.length_nil] at hn
    have hk := scanChars_spells hs (n := n) (w₁ ++ ':' :: (w₂ ++ (c :: l ++ (t' ++ rest))))
      (by omega)
    have hcolon := scanColon_spells (l := l ++ (t' ++ rest)) h₁ h₂ hblank
    have hj := scanValue_spells j (n := n) (r := t' ++ rest) ht (by simp; omega) hends
    have hrest := scanMembers_spells members (n := n) (r := rest) ht' (by omega)
    obtain ⟨c', l', hskip, hclose, hnext⟩ := nextElem_separator (e := '\x7d')
      (l := s ++ quote :: (w₁ ++ ':' :: (w₂ ++ (c :: l ++ (t' ++ rest))))) hw
      (by decide : isBlank quote = false) (by decide) (by decide)
    rw [List.cons_append] at hj hk hskip hnext
    simp only [List.append_assoc, List.cons_append, List.nil_append, scanMembers, hskip,
      if_neg hclose, hnext, Option.bind_eq_bind, Option.bind_some, List.head?_cons, if_true,
      List.tail_cons, hk, hcolon, hj, hrest, String.ofList_toList]
    rfl

end

/-- The reader takes a text for what it spells. -/
theorem fromStr_of_spells {j : Json} {text : String} (h : SpellsText j text) :
    fromStr text = some j := by
  obtain ⟨w, t, w', hw, ht, hw', htext⟩ := h
  obtain ⟨c, l, rfl, hblank, -⟩ := ht.head
  have hends : Ends w' := by
    have hends := ends_append (l := []) hw' fun c hc => nomatch hc
    rwa [List.append_nil] at hends
  have hread := scanValue_spells j (n := text.toList.length + 1) ht
    (by rw [htext]; simp; omega) hends
  have hskip : skip text.toList = c :: l ++ w' := by
    rw [htext, skip_append hw, List.cons_append, skip_cons hblank]
  simp only [fromStr, hskip, hread, skip_blank hw', if_true]

/-- A text spells at most one value. -/
theorem SpellsText.unique {j j' : Json} {text : String} (h : SpellsText j text)
    (h' : SpellsText j' text) : j = j' :=
  Option.some.inj ((fromStr_of_spells h).symm.trans (fromStr_of_spells h'))

/-! ## Nothing else is read -/

theorem exists_skip (l : List Char) : ∃ w, Blank w ∧ l = w ++ skip l :=
  ⟨l.takeWhile isBlank, fun _ hc => List.mem_takeWhile_imp hc, List.takeWhile_append_dropWhile.symm⟩

theorem spells_of_scanNumber {l rest : List Char} {c : Char}
    (h : scanNumber l = some (c, rest)) :
    ∃ t, SpellsChar c (backslash :: 'u' :: t) ∧ l = t ++ rest := by
  unfold scanNumber at h
  split at h
  · next a b c' d l =>
    obtain ⟨n, hn, h⟩ := Option.bind_eq_some_iff.1 h
    split_ifs at h with hlead hvalid
    · split at h
      · next e a' b' c'' d' l _ =>
        obtain ⟨m, hm, hread⟩ := Option.bind_eq_some_iff.1 h
        split_ifs at hread with htrail
        · obtain ⟨rfl, rfl⟩ := Prod.mk.inj (Option.some.inj hread)
          obtain ⟨rfl, htrail⟩ := htrail
          exact ⟨_, .pair hn hlead hm htrail, rfl⟩
      · cases h
    · cases h
      exact ⟨_, .number hn hvalid, rfl⟩
  · cases h

theorem spells_of_scanChar {l rest : List Char} {c : Char} (h : scanChar l = some (c, rest)) :
    ∃ t, SpellsChar c t ∧ l = t ++ rest := by
  cases l with
  | nil => cases h
  | cons c' l =>
    unfold scanChar at h
    dsimp only at h
    split_ifs at h with hplain hbackslash
    · subst hbackslash
      cases l with
      | nil => cases h
      | cons e l =>
        dsimp only at h
        split_ifs at h with hu
        · subst hu
          obtain ⟨t, ht, rfl⟩ := spells_of_scanNumber h
          exact ⟨_, ht, rfl⟩
        · obtain ⟨c, hc, h⟩ := Option.map_eq_some_iff.1 h
          cases h
          exact ⟨_, .short hc, rfl⟩
    · cases h
      obtain ⟨hquote, hlt⟩ := not_or.1 hplain
      exact ⟨[c], .plain hquote hbackslash (Nat.not_lt.1 hlt), rfl⟩

theorem spells_of_scanChars : ∀ {n : ℕ} {l rest s : List Char},
    scanChars n l = some (s, rest) → ∃ t, SpellsChars s t ∧ l = t ++ quote :: rest
  | n + 1, l, rest, s, h => by
    unfold scanChars at h
    split_ifs at h with hquote
    · cases h
      exact ⟨[], .nil, List.eq_cons_of_mem_head? hquote⟩
    · obtain ⟨⟨c, l'⟩, hc, h⟩ := Option.bind_eq_some_iff.1 h
      obtain ⟨⟨s, l''⟩, hs, h⟩ := Option.bind_eq_some_iff.1 h
      cases h
      obtain ⟨t, ht, rfl⟩ := spells_of_scanChar hc
      obtain ⟨t', ht', rfl⟩ := spells_of_scanChars hs
      exact ⟨t ++ t', .cons ht ht', (List.append_assoc _ _ _).symm⟩

/-- The digits of a number without leading zeros. -/
theorem digits_of_readNat {l rest : List Char} {n : ℕ} (h : readNat l = some (n, rest))
    (hn : l.takeWhile Char.isDigit = Nat.toDigits 10 n) : l = Nat.toDigits 10 n ++ rest := by
  unfold readNat at h
  split_ifs at h
  cases h
  rw [← hn]
  exact List.takeWhile_append_dropWhile.symm

theorem spells_of_scanInt {l rest : List Char} {n : Int} (h : scanInt l = some (n, rest)) :
    l = printInt n ++ rest := by
  unfold scanInt at h
  split at h
  · next l =>
    obtain ⟨⟨k, l'⟩, hk, h⟩ := Option.bind_eq_some_iff.1 h
    dsimp only at h
    split_ifs at h with hcond
    cases h
    have hneg : (-(k : Int)) < 0 := by omega
    rw [printInt, if_pos hneg, Int.natAbs_neg, Int.natAbs_natCast]
    exact congrArg ('-' :: ·) (digits_of_readNat hk hcond.2)
  · obtain ⟨⟨k, l'⟩, hk, h⟩ := Option.bind_eq_some_iff.1 h
    dsimp only at h
    split_ifs at h with hcond
    cases h
    have hpos : ¬(k : Int) < 0 := by omega
    rw [printInt, if_neg hpos, Int.natAbs_natCast]
    exact digits_of_readNat hk hcond

theorem spells_of_readWord {word l rest : List Char} {j j' : Json}
    (h : readWord word j l = some (j', rest)) : j' = j ∧ l = word ++ rest := by
  unfold readWord at h
  split_ifs at h with hword
  cases h
  refine ⟨rfl, ?_⟩
  rw [← hword, List.length_take]
  conv_lhs => rw [← List.take_append_drop word.length l]
  congr 2
  have hlen := congrArg List.length hword
  rw [List.length_take] at hlen
  exact hlen.symm

theorem separator_of_nextElem {first : Bool} {w l l' : List Char} {c : Char} (hw : Blank w)
    (h : nextElem first c l = some l') : ∃ w', Separator first w' ∧ w ++ c :: l = w' ++ l' := by
  unfold nextElem at h
  split_ifs at h with hfirst hcomma
  · cases h
    subst hfirst
    exact ⟨w, hw, rfl⟩
  · cases h
    subst hcomma
    obtain rfl : first = false := by simpa using hfirst
    obtain ⟨w', hw', hl⟩ := exists_skip l
    refine ⟨w ++ ',' :: w', ⟨w, w', hw, hw', rfl⟩, ?_⟩
    rw [List.append_assoc, List.cons_append, ← hl]

theorem spells_of_scanColon {l l' : List Char} (h : scanColon l = some l') :
    ∃ w₁ w₂, Blank w₁ ∧ Blank w₂ ∧ l = w₁ ++ ':' :: (w₂ ++ l') := by
  unfold scanColon at h
  obtain ⟨w₁, hw₁, hl⟩ := exists_skip l
  split at h
  · next l₂ heq =>
    cases h
    obtain ⟨w₂, hw₂, hl₂⟩ := exists_skip l₂
    exact ⟨w₁, w₂, hw₁, hw₂, by rw [← hl₂, ← heq]; exact hl⟩
  · cases h

mutual

theorem spells_of_scanValue : ∀ {n : ℕ} {l rest : List Char} {j : Json},
    scanValue n l = some (j, rest) → ∃ t, Spells j t ∧ l = t ++ rest
  | n + 1, c :: l, rest, j, h => by
    unfold scanValue at h
    split_ifs at h with h₁ h₂ h₃ h₄ h₅ h₆
    · obtain ⟨rfl, rfl⟩ := spells_of_readWord h
      exact ⟨_, by rw [Spells], by rw [h₁]; rfl⟩
    · obtain ⟨rfl, rfl⟩ := spells_of_readWord h
      exact ⟨_, by rw [Spells], by rw [h₂]; rfl⟩
    · obtain ⟨rfl, rfl⟩ := spells_of_readWord h
      exact ⟨_, by rw [Spells], by rw [h₃]; rfl⟩
    · obtain ⟨⟨s, l'⟩, hs, h⟩ := Option.map_eq_some_iff.1 h
      cases h
      obtain ⟨t, ht, rfl⟩ := spells_of_scanChars hs
      refine ⟨quote :: (t ++ [quote]), ?_, by rw [h₄]; simp⟩
      rw [Spells]
      exact ⟨t, by rwa [String.toList_ofList], rfl⟩
    · obtain ⟨⟨elems, l'⟩, he, h⟩ := Option.map_eq_some_iff.1 h
      cases h
      obtain ⟨t, ht, rfl⟩ := spells_of_scanElems he
      refine ⟨'[' :: t, ?_, by rw [h₅]; rfl⟩
      rw [Spells]
      exact ⟨t, ht, rfl⟩
    · obtain ⟨⟨members, l'⟩, hm, h⟩ := Option.map_eq_some_iff.1 h
      cases h
      obtain ⟨t, ht, rfl⟩ := spells_of_scanMembers hm
      refine ⟨'\x7b' :: t, ?_, by rw [h₆]; rfl⟩
      rw [Spells]
      exact ⟨t, ht, rfl⟩
    · obtain ⟨⟨k, l'⟩, hk, h⟩ := Option.map_eq_some_iff.1 h
      cases h
      exact ⟨_, by rw [Spells], spells_of_scanInt hk⟩

theorem spells_of_scanElems : ∀ {n : ℕ} {first : Bool} {l rest : List Char} {elems : List Json},
    scanElems n first l = some (elems, rest) → ∃ t, SpellsElems first elems t ∧ l = t ++ rest
  | n + 1, first, l, rest, elems, h => by
    unfold scanElems at h
    obtain ⟨w, hw, hl⟩ := exists_skip l
    cases hskip : skip l with
    | nil =>
      rw [hskip] at h
      cases h
    | cons c l' =>
      rw [hskip] at h hl
      dsimp only at h
      split_ifs at h with hclose
      · cases h
        refine ⟨w ++ [']'], ?_, by rw [hl, hclose]; simp⟩
        rw [SpellsElems]
        exact ⟨w, hw, rfl⟩
      · obtain ⟨l₁, h₁, h⟩ := Option.bind_eq_some_iff.1 h
        obtain ⟨⟨j, l₂⟩, h₂, h⟩ := Option.bind_eq_some_iff.1 h
        obtain ⟨⟨elems, l₃⟩, h₃, h⟩ := Option.bind_eq_some_iff.1 h
        cases h
        obtain ⟨w', hw', heq⟩ := separator_of_nextElem hw h₁
        obtain ⟨t, ht, rfl⟩ := spells_of_scanValue h₂
        obtain ⟨t', ht', rfl⟩ := spells_of_scanElems h₃
        refine ⟨w' ++ (t ++ t'), ?_, by rw [hl, heq]; simp⟩
        rw [SpellsElems]
        exact ⟨w', t, t', hw', ht, ht', rfl⟩

theorem spells_of_scanMembers : ∀ {n : ℕ} {first : Bool} {l rest : List Char}
    {members : List (String × Json)}, scanMembers n first l = some (members, rest) →
      ∃ t, SpellsMembers first members t ∧ l = t ++ rest
  | n + 1, first, l, rest, members, h => by
    unfold scanMembers at h
    obtain ⟨w, hw, hl⟩ := exists_skip l
    cases hskip : skip l with
    | nil =>
      rw [hskip] at h
      cases h
    | cons c l' =>
      rw [hskip] at h hl
      dsimp only at h
      split_ifs at h with hclose
      · cases h
        refine ⟨w ++ ['\x7d'], ?_, by rw [hl, hclose]; simp⟩
        rw [SpellsMembers]
        exact ⟨w, hw, rfl⟩
      · obtain ⟨l₁, h₁, h⟩ := Option.bind_eq_some_iff.1 h
        split_ifs at h with hquote
        obtain ⟨⟨k, l₂⟩, h₂, h⟩ := Option.bind_eq_some_iff.1 h
        obtain ⟨l₃, h₃, h⟩ := Option.bind_eq_some_iff.1 h
        obtain ⟨⟨j, l₄⟩, h₄, h⟩ := Option.bind_eq_some_iff.1 h
        obtain ⟨⟨members, l₅⟩, h₅, h⟩ := Option.bind_eq_some_iff.1 h
        cases h
        obtain ⟨w', hw', heq⟩ := separator_of_nextElem hw h₁
        obtain ⟨s, hs, hl₁⟩ := spells_of_scanChars h₂
        obtain ⟨w₁, w₂, hw₁, hw₂, rfl⟩ := spells_of_scanColon h₃
        obtain ⟨t, ht, rfl⟩ := spells_of_scanValue h₄
        obtain ⟨t', ht', rfl⟩ := spells_of_scanMembers h₅
        have hkey : l₁ = quote :: (s ++ quote :: (w₁ ++ ':' :: (w₂ ++ (t ++ (t' ++ l₅))))) := by
          rw [← hl₁]
          exact List.eq_cons_of_mem_head? hquote
        refine ⟨w' ++ ((quote :: (s ++ [quote])) ++ (w₁ ++ ':' :: (w₂ ++ (t ++ t')))), ?_, by
          rw [hl, heq, hkey]; simp⟩
        rw [SpellsMembers]
        exact ⟨w', _, w₁, w₂, t, t', hw', ⟨s, by rwa [String.toList_ofList], rfl⟩, hw₁, hw₂, ht,
          ht', rfl⟩

end

/-- The reader is the grammar. -/
theorem fromStr_eq_some_iff {j : Json} {text : String} :
    fromStr text = some j ↔ SpellsText j text := by
  refine ⟨fun h => ?_, fromStr_of_spells⟩
  unfold fromStr at h
  obtain ⟨w, hw, hl⟩ := exists_skip text.toList
  split at h
  · next j' rest hread =>
    split_ifs at h with hrest
    cases h
    obtain ⟨t, ht, heq⟩ := spells_of_scanValue hread
    obtain ⟨w', hw', hrest'⟩ := exists_skip rest
    rw [hrest, List.append_nil] at hrest'
    exact ⟨w, t, rest, hw, ht, hrest' ▸ hw', by rw [hl, heq]⟩
  · cases h

/-! ## The compact text -/

theorem spellsChar_escape (c : Char) : SpellsChar c (escape c) := by
  unfold escape
  split_ifs with h₁ h₂ h₃ h₄ h₅ h₆ h₇ h₈
  · subst h₁
    exact .short (by decide)
  · subst h₂
    exact .short (by decide)
  · exact .short (congrArg some (ofNat_toNat_of_eq h₃))
  · exact .short (congrArg some (ofNat_toNat_of_eq h₄))
  · exact .short (congrArg some (ofNat_toNat_of_eq h₅))
  · exact .short (congrArg some (ofNat_toNat_of_eq h₆))
  · exact .short (congrArg some (ofNat_toNat_of_eq h₇))
  · have hzero : hexDigitValue '0' = some 0 := by decide
    have hnumber : hexNumber '0' '0' (Nat.digitChar (c.toNat / 16))
        (Nat.digitChar (c.toNat % 16)) = some c.toNat := by
      have hval : 4096 * 0 + 256 * 0 + 16 * (c.toNat / 16) + c.toNat % 16 = c.toNat := by omega
      simp only [hexNumber, hzero, hexDigitValue_digitChar _ (by omega : c.toNat / 16 < 16),
        hexDigitValue_digitChar _ (by omega : c.toNat % 16 < 16), Option.bind_eq_bind,
        Option.bind_some, hval, Option.pure_def]
    have hspells := SpellsChar.number hnumber (Or.inl (by omega))
    rwa [Char.ofNat_toNat] at hspells
  · exact .plain h₁ h₂ (Nat.not_lt.1 h₈)

theorem spellsChars_escape : ∀ s : List Char, SpellsChars s (s.flatMap escape)
  | [] => .nil
  | c :: s => .cons (spellsChar_escape c) (spellsChars_escape s)

theorem spellsStr_printStr (s : String) : SpellsStr s (printStr s) :=
  ⟨_, spellsChars_escape s.toList, rfl⟩

theorem blank_nil : Blank [] := fun _ h => nomatch h

theorem separator_true : Separator true [] := blank_nil

theorem separator_comma : Separator false [','] := ⟨[], [], blank_nil, blank_nil, rfl⟩

mutual

/-- The compact text spells the value. -/
theorem spells_print : ∀ j : Json, Spells j (print j)
  | .null => by
    rw [Spells]
    rfl
  | .bool true => by
    rw [Spells]
    rfl
  | .bool false => by
    rw [Spells]
    rfl
  | .num n => by
    rw [Spells]
    rfl
  | .str s => by
    rw [Spells]
    exact spellsStr_printStr s
  | .arr elems => by
    rw [Spells]
    exact ⟨_, (spells_printElems elems).1, rfl⟩
  | .obj members => by
    rw [Spells]
    exact ⟨_, (spells_printMembers members).1, rfl⟩

theorem spells_printElems : ∀ elems : List Json,
    SpellsElems true elems (dropComma (printElems elems)) ∧
      SpellsElems false elems (printElems elems)
  | [] => by
    rw [SpellsElems, SpellsElems]
    exact ⟨⟨[], blank_nil, rfl⟩, ⟨[], blank_nil, rfl⟩⟩
  | j :: elems => by
    have hj := spells_print j
    have hrest := (spells_printElems elems).2
    rw [SpellsElems, SpellsElems]
    exact ⟨⟨[], _, _, separator_true, hj, hrest, rfl⟩,
      ⟨[','], _, _, separator_comma, hj, hrest, rfl⟩⟩

theorem spells_printMembers : ∀ members : List (String × Json),
    SpellsMembers true members (dropComma (printMembers members)) ∧
      SpellsMembers false members (printMembers members)
  | [] => by
    rw [SpellsMembers, SpellsMembers]
    exact ⟨⟨[], blank_nil, rfl⟩, ⟨[], blank_nil, rfl⟩⟩
  | (k, j) :: members => by
    have hk := spellsStr_printStr k
    have hj := spells_print j
    have hrest := (spells_printMembers members).2
    rw [SpellsMembers, SpellsMembers]
    exact ⟨⟨[], _, [], [], _, _, separator_true, hk, blank_nil, blank_nil, hj, hrest, rfl⟩,
      ⟨[','], _, [], [], _, _, separator_comma, hk, blank_nil, blank_nil, hj, hrest, rfl⟩⟩

end

theorem spellsText_print (j : Json) : SpellsText j (String.ofList (print j)) := by
  refine ⟨[], print j, [], blank_nil, spells_print j, blank_nil, ?_⟩
  rw [String.toList_ofList, List.append_nil, List.nil_append]

/-- The compact text is read for the value. -/
theorem fromStr_print (j : Json) : fromStr (String.ofList (print j)) = some j :=
  fromStr_of_spells (spellsText_print j)

end Json
