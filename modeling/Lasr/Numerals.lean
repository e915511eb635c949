import Lasr.Serde
import Mathlib.Data.List.TakeWhile

/-!
# Numbers in texts

Which texts the readers of `Serde.lean` take for a number, and for which. Hex digits are read
two to a byte, the digits of a decimal number one by one with an early end on overflow, and the
numbers of a list between commas after trimming. Each comes down to the number that the digits
spell (`hexDecode_eq_ok_iff`, `parseUInt_trim_iff`, `parseNumbers_eq_ok_iff`).
-/

set_option linter.unusedSectionVars false

theorem Except.mapError_eq_ok_iff {ε ε' α : Type} {f : ε → ε'} {x : Except ε α} {a : α} :
    x.mapError f = .ok a ↔ x = .ok a := by
  cases x <;> simp [Except.mapError]

theorem Except.map_eq_ok_iff {ε α β : Type} {f : α → β} {x : Except ε α} {b : β} :
    f <$> x = .ok b ↔ ∃ a, x = .ok a ∧ f a = b := by
  cases x <;> simp [Functor.map, Except.map]

theorem Except.ite_eq_ok_iff {ε α : Type} {p : Prop} [Decidable p] {a b : α} {e : ε} :
    (if p then .ok a else .error e) = Except.ok b ↔ p ∧ a = b := by
  split_ifs with h <;> simp [h]

/-- Steps over a list return when each of them does. -/
theorem Except.mapM_eq_ok_iff {ε α β : Type} {f : α → Except ε β} {l : List α} {l' : List β} :
    l.mapM f = .ok l' ↔ List.Forall₂ (fun a b => f a = .ok b) l l' := by
  induction l generalizing l' with
  | nil => simp [pure, Except.pure, eq_comm]
  | cons a l ih =>
    rw [List.mapM_cons, Except.bind_eq_ok_iff, List.forall₂_cons_left_iff]
    constructor
    · rintro ⟨b, hb, h⟩
      obtain ⟨bs, hbs, h⟩ := Except.bind_eq_ok_iff.1 h
      cases h
      exact ⟨b, bs, hb, ih.1 hbs, rfl⟩
    · rintro ⟨b, bs, hb, hbs, rfl⟩
      exact ⟨b, hb, Except.bind_eq_ok_iff.2 ⟨bs, ih.2 hbs, rfl⟩⟩

namespace Lasr

/-! ## Hex digits -/

/-- A hex digit, of either case. -/
def IsHexDigit (c : Char) : Prop := (Json.hexDigitValue c).isSome

/-- The number that hex digits spell. -/
def hexNumber (l : List Char) : ℕ :=
  l.foldl (fun n c => 16 * n + (Json.hexDigitValue c).getD 0) 0

theorem hexVal_eq_ok_iff {c : Char} {i n : ℕ} :
    hexVal c i = .ok n ↔ Json.hexDigitValue c = some n := by
  unfold hexVal
  cases Json.hexDigitValue c <;> simp

theorem hexDigitValue_cases {c : Char} {n : ℕ} (h : Json.hexDigitValue c = some n) :
    n < 16 ∧ c.toNat < 128 := by
  have hle : ∀ {a b : Char}, a ≤ b → a.toNat ≤ b.toNat := fun h => UInt32.le_iff_toNat_le.1 h
  unfold Json.hexDigitValue at h
  split_ifs at h with hdigit hlower hupper
  · obtain rfl := Option.some.inj h
    have hc : c.toNat ≤ 57 := hle hdigit.2
    omega
  · obtain rfl := Option.some.inj h
    have hc : c.toNat ≤ 102 := hle hlower.2
    omega
  · obtain rfl := Option.some.inj h
    have hc : c.toNat ≤ 70 := hle hupper.2
    omega

theorem IsHexDigit.utf8Size_eq {c : Char} (h : IsHexDigit c) : c.utf8Size = 1 := by
  obtain ⟨n, hn⟩ := Option.isSome_iff_exists.1 h
  have hc := (hexDigitValue_cases hn).2
  have hval : c.val ≤ 127 := UInt32.le_iff_toNat_le.2 (by change c.toNat ≤ 127; omega)
  exact Char.utf8Size_eq_one_iff.2 hval

theorem utf8Len_of_isHexDigit {l : List Char} (h : ∀ c ∈ l, IsHexDigit c) :
    utf8Len l = l.length := by
  induction l with
  | nil => rfl
  | cons c l ih =>
    have hc := (h c List.mem_cons_self).utf8Size_eq
    have hl := ih fun c' hc' => h c' (List.mem_cons_of_mem _ hc')
    simp only [utf8Len, List.map_cons, List.sum_cons, List.length_cons] at hl ⊢
    omega

/-- Bytes are read off hex digits, two by two, and spell the same number. -/
theorem hexPairs_eq_ok : ∀ {l : List Char} {i : ℕ} {bytes : List (BitVec 8)},
    hexPairs i l = .ok bytes → (∀ c ∈ l, IsHexDigit c) ∧ l.length = 2 * bytes.length ∧
      ∀ n, bytes.foldl (fun n b => 256 * n + b.toNat) n =
        l.foldl (fun n c => 16 * n + (Json.hexDigitValue c).getD 0) n
  | [], i, bytes, h => by
    cases h
    simp
  | [c], i, bytes, h => by
    obtain ⟨n, -, h⟩ := Except.bind_eq_ok_iff.1 h
    cases h
  | c :: c' :: l, i, bytes, h => by
    obtain ⟨high, hhigh, h⟩ := Except.bind_eq_ok_iff.1 h
    obtain ⟨low, hlow, h⟩ := Except.bind_eq_ok_iff.1 h
    obtain ⟨rest, hrest, h⟩ := Except.bind_eq_ok_iff.1 h
    cases h
    rw [hexVal_eq_ok_iff] at hhigh hlow
    obtain ⟨hdigits, hlength, hnumber⟩ := hexPairs_eq_ok hrest
    have hhigh16 := (hexDigitValue_cases hhigh).1
    have hlow16 := (hexDigitValue_cases hlow).1
    refine ⟨?_, by simp only [List.length_cons]; omega, fun n => ?_⟩
    · simp only [List.mem_cons, forall_eq_or_imp]
      exact ⟨Option.isSome_of_eq_some hhigh, Option.isSome_of_eq_some hlow, hdigits⟩
    · have hbyte : (BitVec.ofNat 8 (16 * high + low)).toNat = 16 * high + low := by
        rw [BitVec.toNat_ofNat, Nat.mod_eq_of_lt (by omega)]
      have hn : 256 * n + (16 * high + low) = 16 * (16 * n + high) + low := by omega
      rw [List.foldl_cons, List.foldl_cons, List.foldl_cons, hbyte, hhigh, hlow, hnumber]
      simp only [Option.getD_some, hn]

theorem exists_hexPairs : ∀ {l : List Char} (i : ℕ), (∀ c ∈ l, IsHexDigit c) →
    l.length % 2 = 0 → ∃ bytes, hexPairs i l = .ok bytes
  | [], _, _, _ => ⟨[], rfl⟩
  | [c], _, _, h => absurd h (by simp)
  | c :: c' :: l, i, hdigits, h => by
    simp only [List.mem_cons, forall_eq_or_imp] at hdigits
    obtain ⟨hc, hc', hl⟩ := hdigits
    obtain ⟨high, hhigh⟩ := Option.isSome_iff_exists.1 hc
    obtain ⟨low, hlow⟩ := Option.isSome_iff_exists.1 hc'
    obtain ⟨rest, hrest⟩ := exists_hexPairs (i + 2) hl (by simp only [List.length_cons] at h; omega)
    refine ⟨BitVec.ofNat 8 (16 * high + low) :: rest, ?_⟩
    refine Except.bind_eq_ok_iff.2 ⟨high, hexVal_eq_ok_iff.2 hhigh, ?_⟩
    refine Except.bind_eq_ok_iff.2 ⟨low, hexVal_eq_ok_iff.2 hlow, ?_⟩
    exact Except.bind_eq_ok_iff.2 ⟨rest, hrest, rfl⟩

/-- A text decodes to a number of bytes that spell a word if it is twice as many hex digits, and
these spell the word. -/
theorem hexDecode_eq_ok_iff {l : List Char} {n m : ℕ} {w : BitVec m} :
    (∃ bytes, hexDecode l = .ok bytes ∧ bytes.length = n ∧ ofWordBytes m bytes = w) ↔
      (∀ c ∈ l, IsHexDigit c) ∧ l.length = 2 * n ∧ w = BitVec.ofNat m (hexNumber l) := by
  constructor
  · rintro ⟨bytes, hdecode, rfl, rfl⟩
    unfold hexDecode at hdecode
    split_ifs at hdecode
    obtain ⟨hdigits, hlength, hnumber⟩ := hexPairs_eq_ok hdecode
    exact ⟨hdigits, hlength, congrArg (BitVec.ofNat m) (hnumber 0)⟩
  · rintro ⟨hdigits, hlength, rfl⟩
    obtain ⟨bytes, hbytes⟩ := exists_hexPairs 0 hdigits (by omega)
    obtain ⟨-, hlength', hnumber⟩ := hexPairs_eq_ok hbytes
    refine ⟨bytes, ?_, by omega, congrArg (BitVec.ofNat m) (hnumber 0)⟩
    have heven : ¬utf8Len l % 2 = 1 := by
      rw [utf8Len_of_isHexDigit hdigits]
      omega
    rw [hexDecode, if_neg heven, hbytes]

theorem decodeHex_eq_ok_iff {l : List Char} {bytes : List (BitVec 8)} :
    decodeHex l = .ok bytes ↔ hexDecode l = .ok bytes :=
  Except.mapError_eq_ok_iff

/-- What is checked before a result. -/
theorem ite_failWith_eq_ok_iff {α : Type} {p : Prop} [Decidable p] {a b : α} {msg : String} :
    (if p then .ok a else failWith msg : SerdeResult α) = .ok b ↔ p ∧ a = b :=
  Except.ite_eq_ok_iff

/-! ## Decimal numbers -/

theorem le_ofDigitChars (l : List Char) (n : ℕ) : n ≤ Nat.ofDigitChars 10 l n := by
  rw [Nat.ofDigitChars_eq_ofDigitChars_zero]
  exact le_add_right (Nat.le_mul_of_pos_left n (Nat.pow_pos (by decide)))

/-- The digits so far are below the maximum if all of them are. -/
theorem parseDigits_go_iff {max : ℕ} : ∀ {l : List Char} {n₀ n : ℕ}, n₀ ≤ max →
    (l.foldlM (fun n c =>
        if ¬c.isDigit then .error .invalidDigit
        else if max < 10 * n + (c.toNat - 48) then .error .posOverflow
        else .ok (10 * n + (c.toNat - 48)) : ℕ → Char → Except IntErrorKind ℕ) n₀ = .ok n ↔
      (∀ c ∈ l, c.isDigit) ∧ n = Nat.ofDigitChars 10 l n₀ ∧ n ≤ max)
  | [], n₀, n, h => by
    simp only [List.foldlM_nil, pure, Except.pure, Except.ok.injEq, List.not_mem_nil,
      IsEmpty.forall_iff, implies_true, true_and, Nat.ofDigitChars_nil]
    constructor
    · rintro rfl
      exact ⟨rfl, h⟩
    · rintro ⟨rfl, -⟩
      rfl
  | c :: l, n₀, n, h => by
    rw [List.foldlM_cons, Except.bind_eq_ok_iff, List.forall_mem_cons, Nat.ofDigitChars_cons]
    constructor
    · rintro ⟨n₁, hc, hl⟩
      split_ifs at hc with hdigit hmax
      cases hc
      obtain ⟨hdigits, rfl, hle⟩ := (parseDigits_go_iff (not_lt.1 hmax)).1 hl
      exact ⟨⟨hdigit, hdigits⟩, rfl, hle⟩
    · rintro ⟨⟨hdigit, hdigits⟩, rfl, hle⟩
      have hmax : 10 * n₀ + (c.toNat - 48) ≤ max := le_trans (le_ofDigitChars l _) hle
      refine ⟨10 * n₀ + (c.toNat - 48), ?_, (parseDigits_go_iff hmax).2 ⟨hdigits, rfl, hle⟩⟩
      rw [if_neg (not_not.2 hdigit), if_neg (not_lt.2 hmax)]

theorem parseDigits_eq_ok_iff {max n : ℕ} {l : List Char} : parseDigits max l = .ok n ↔
    (∀ c ∈ l, c.isDigit) ∧ n = Nat.ofDigitChars 10 l 0 ∧ n ≤ max :=
  parseDigits_go_iff (Nat.zero_le max)

/-- A number without white space around it : digits after at most one `+`. -/
def UIntText (max : ℕ) (l : List Char) (n : ℕ) : Prop :=
  ∃ sign digits, l = sign ++ digits ∧ (sign = [] ∨ sign = ['+']) ∧ digits ≠ [] ∧
    (∀ c ∈ digits, c.isDigit) ∧ n = Nat.ofDigitChars 10 digits 0 ∧ n ≤ max

theorem parseUInt_cons {max : ℕ} {c : Char} {l : List Char} (h : c ≠ '+') :
    parseUInt max (c :: l) = parseDigits max (c :: l) := by
  unfold parseUInt
  split
  · rename_i heq
    cases heq
  · rename_i heq
    exact absurd (List.head_eq_of_cons_eq heq) h
  · rename_i heq
    exact absurd (List.head_eq_of_cons_eq heq) h
  · rfl

theorem parseUInt_eq_ok_iff {max n : ℕ} {l : List Char} :
    parseUInt max l = .ok n ↔ UIntText max l n := by
  have hplus : ¬ ('+').isDigit := by decide
  unfold UIntText
  constructor
  · intro h
    unfold parseUInt at h
    split at h
    · cases h
    · cases h
    · rename_i l hne
      obtain ⟨hdigits, hn⟩ := parseDigits_eq_ok_iff.1 h
      exact ⟨['+'], l, rfl, .inr rfl, hne, hdigits, hn⟩
    · rename_i hnil _ _
      obtain ⟨hdigits, hn⟩ := parseDigits_eq_ok_iff.1 h
      exact ⟨[], l, rfl, .inl rfl, hnil, hdigits, hn⟩
  · rintro ⟨sign, digits, rfl, hsign, hne, hdigits, hn⟩
    have hparse := parseDigits_eq_ok_iff.2 ⟨hdigits, hn⟩
    cases digits with
    | nil => exact absurd rfl hne
    | cons c digits =>
      have hc : c ≠ '+' := by
        rintro rfl
        exact hplus (hdigits '+' List.mem_cons_self)
      rcases hsign with rfl | rfl
      · rw [List.nil_append, parseUInt_cons hc]
        exact hparse
      · exact hparse

/-! ## White space -/

theorem isWhiteSpace_of_isDigit {c : Char} (h : c.isDigit) : isWhiteSpace c = false := by
  obtain ⟨hlow, hhigh⟩ := Char.isDigit_iff_toNat.1 h
  have h₀ : 48 ≤ c.toNat := hlow
  have h₉ : c.toNat ≤ 57 := hhigh
  simp only [isWhiteSpace, Bool.or_eq_false_iff, Bool.and_eq_false_iff, decide_eq_false_iff_not]
  omega

/-- A text is its trimmed text with white space around it. -/
theorem exists_trim (l : List Char) : ∃ before after, l = before ++ trim l ++ after ∧
    (∀ c ∈ before, isWhiteSpace c) ∧ ∀ c ∈ after, isWhiteSpace c := by
  refine ⟨l.takeWhile isWhiteSpace,
    ((l.dropWhile isWhiteSpace).reverse.takeWhile isWhiteSpace).reverse, ?_, ?_, ?_⟩
  · rw [trim, List.append_assoc, ← List.reverse_append, List.takeWhile_append_dropWhile,
      List.reverse_reverse, List.takeWhile_append_dropWhile]
  · exact fun c hc => List.mem_takeWhile_imp hc
  · exact fun c hc => List.mem_takeWhile_imp (List.mem_reverse.1 hc)

theorem dropWhile_append_of_head {p : Char → Bool} {l l' : List Char} (hl : ∀ c ∈ l, p c)
    (hl' : ∀ c ∈ l'.head?, p c = false) : (l ++ l').dropWhile p = l' := by
  rw [List.dropWhile_append_of_pos hl]
  cases l' with
  | nil => rfl
  | cons c l' => exact List.dropWhile_cons_of_neg (by simp [hl' c rfl])

theorem trim_append {before l after : List Char} (hbefore : ∀ c ∈ before, isWhiteSpace c)
    (hafter : ∀ c ∈ after, isWhiteSpace c) (hne : l ≠ [])
    (hhead : ∀ c ∈ l.head?, isWhiteSpace c = false)
    (hlast : ∀ c ∈ l.getLast?, isWhiteSpace c = false) : trim (before ++ l ++ after) = l := by
  have hstart : (before ++ (l ++ after)).dropWhile isWhiteSpace = l ++ after := by
    refine dropWhile_append_of_head hbefore fun c hc => hhead c ?_
    rwa [List.head?_append_of_ne_nil _ hne] at hc
  have hend : (after.reverse ++ l.reverse).dropWhile isWhiteSpace = l.reverse :=
    dropWhile_append_of_head (fun c hc => hafter c (List.mem_reverse.1 hc))
      (by rwa [List.head?_reverse])
  rw [trim, List.append_assoc, hstart, List.reverse_append, hend, List.reverse_reverse]

/-- A number with white space around it. -/
def UIntLiteral (max : ℕ) (l : List Char) (n : ℕ) : Prop :=
  ∃ before text after, l = before ++ text ++ after ∧ (∀ c ∈ before, isWhiteSpace c) ∧
    (∀ c ∈ after, isWhiteSpace c) ∧ UIntText max text n

theorem parseUInt_trim_iff {max n : ℕ} {l : List Char} :
    parseUInt max (trim l) = .ok n ↔ UIntLiteral max l n := by
  rw [parseUInt_eq_ok_iff]
  constructor
  · intro h
    obtain ⟨before, after, hl, hbefore, hafter⟩ := exists_trim l
    exact ⟨before, trim l, after, hl, hbefore, hafter, h⟩
  · rintro ⟨before, text, after, rfl, hbefore, hafter, htext⟩
    have hcopy := htext
    obtain ⟨sign, digits, rfl, hsign, hne, hdigits, -⟩ := hcopy
    rw [trim_append hbefore hafter (by simp [hne]) ?_ ?_]
    · exact htext
    · intro c hc
      rcases hsign with rfl | rfl
      · exact isWhiteSpace_of_isDigit (hdigits c (List.mem_of_mem_head? hc))
      · obtain rfl : '+' = c := Option.some.inj hc
        decide
    · intro c hc
      rw [List.getLast?_append_of_ne_nil _ hne] at hc
      exact isWhiteSpace_of_isDigit (hdigits c (List.mem_of_mem_getLast? hc))

/-- The numbers of a list, between commas. -/
theorem parseNumbers_eq_ok_iff {max : ℕ} {l : List Char} {ns : List ℕ} :
    parseNumbers max l = .ok ns ↔ List.Forall₂ (UIntLiteral max) (l.splitOn ',') ns := by
  have hone : ∀ s n, (parseUInt max (trim s)).mapError
      (fun e => (.custom (.int e) : DeError SerdeError)) = .ok n ↔ UIntLiteral max s n :=
    fun s n => Except.mapError_eq_ok_iff.trans parseUInt_trim_iff
  rw [parseNumbers, Except.mapM_eq_ok_iff]
  simp only [hone]

end Lasr
