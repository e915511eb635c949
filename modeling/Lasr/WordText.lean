import Lasr.Numerals
import Lasr.Slices

/-!
# The texts of a word

`U256Visitor::visit_str` reads two formats with opposite orders : 64 hex digits, the most
significant first, and four 64-bit numbers in brackets, the least significant first. It tests
for the opening bracket behind a `0x` and slices in front of it, so a text `0x[..]` goes to the
numbers, and fails at the `x` (`U256.visitStr_bracketed_iff`). Everything else it accepts is of
one of the two formats, and the text that is written is of the first (`u256_text_format`).
-/

set_option linter.unusedSectionVars false

namespace Lasr

/-! ## The two formats -/

/-- 64 hex digits that spell the word, alone or after `0x`. -/
def HexText (s : String) (w : U256) : Prop :=
  ∃ digits, (s.toList = digits ∨ s.toList = '0' :: 'x' :: digits) ∧ digits.length = 64 ∧
    (∀ c ∈ digits, IsHexDigit c) ∧ w.toNat = hexNumber digits

/-- The four 64-bit limbs of the word in brackets, the least significant first. -/
def LimbText (s : String) (w : U256) : Prop :=
  ∃ l₀ l₁ l₂ l₃ n₀ n₁ n₂ n₃,
    s.toList = '[' :: (l₀ ++ ',' :: (l₁ ++ ',' :: (l₂ ++ ',' :: l₃))) ++ [']'] ∧
    UIntLiteral (2 ^ 64 - 1) l₀ n₀ ∧ UIntLiteral (2 ^ 64 - 1) l₁ n₁ ∧
    UIntLiteral (2 ^ 64 - 1) l₂ n₂ ∧ UIntLiteral (2 ^ 64 - 1) l₃ n₃ ∧
    w.toNat = n₀ + 2 ^ 64 * n₁ + 2 ^ 128 * n₂ + 2 ^ 192 * n₃

/-! ## Hex digits -/

theorem foldl_hex_lt {l : List Char} {n : ℕ} (h : ∀ c ∈ l, IsHexDigit c) :
    l.foldl (fun n c => 16 * n + (Json.hexDigitValue c).getD 0) n < 16 ^ l.length * (n + 1) := by
  induction l generalizing n with
  | nil => simp
  | cons c l ih =>
    obtain ⟨d, hd⟩ := Option.isSome_iff_exists.1 (h c List.mem_cons_self)
    have hlt := (hexDigitValue_cases hd).1
    have hl := ih (n := 16 * n + d) fun c' hc' => h c' (List.mem_cons_of_mem _ hc')
    rw [List.foldl_cons, hd, Option.getD_some, List.length_cons, pow_succ, mul_assoc]
    exact lt_of_lt_of_le hl (Nat.mul_le_mul_left _ (by omega))

theorem hexNumber_lt {l : List Char} (h : ∀ c ∈ l, IsHexDigit c) :
    hexNumber l < 16 ^ l.length := by
  have hlt := foldl_hex_lt (n := 0) h
  rwa [zero_add, mul_one] at hlt

theorem not_isHexDigit_bracket : ¬IsHexDigit '[' := by
  unfold IsHexDigit
  decide

theorem strip0x_of_isHexDigit {l : List Char} (h : ∀ c ∈ l, IsHexDigit c) : strip0x l = l := by
  have hx : ¬IsHexDigit 'x' := by
    unfold IsHexDigit
    decide
  unfold strip0x
  split
  · exact absurd (h 'x' (by simp)) hx
  · rfl

/-- A text behind an optional `0x`. -/
theorem strip0x_eq_iff {l digits : List Char} (h : ∀ c ∈ digits, IsHexDigit c) :
    strip0x l = digits ↔ l = digits ∨ l = '0' :: 'x' :: digits := by
  constructor
  · rintro rfl
    unfold strip0x
    split
    · exact .inr rfl
    · exact .inl rfl
  · rintro (rfl | rfl)
    · exact strip0x_of_isHexDigit h
    · rfl

/-! ## Numbers in brackets -/

theorem UIntLiteral.not_mem {max n : ℕ} {l : List Char} (h : UIntLiteral max l n) {c : Char}
    (hspace : isWhiteSpace c = false) (hdigit : ¬c.isDigit) (hplus : c ≠ '+') :
    c ∉ l := by
  obtain ⟨before, text, after, rfl, hbefore, hafter, sign, digits, rfl, hsign, -, hdigits, -⟩ := h
  simp only [List.mem_append, not_or]
  refine ⟨⟨fun hc => ?_, fun hc => ?_, fun hc => hdigit (hdigits c hc)⟩, fun hc => ?_⟩
  · rw [hbefore c hc] at hspace
    exact nomatch hspace
  · rcases hsign with rfl | rfl
    · exact nomatch hc
    · exact hplus (List.mem_singleton.1 hc)
  · rw [hafter c hc] at hspace
    exact nomatch hspace

theorem UIntLiteral.le {max n : ℕ} {l : List Char} (h : UIntLiteral max l n) : n ≤ max := by
  obtain ⟨-, -, -, -, -, -, -, -, -, -, -, -, -, hle⟩ := h
  exact hle

/-- Four numbers between commas. -/
theorem parseNumbers_four_iff {max n₀ n₁ n₂ n₃ : ℕ} {l : List Char} :
    parseNumbers max l = .ok [n₀, n₁, n₂, n₃] ↔
      ∃ l₀ l₁ l₂ l₃, l = l₀ ++ ',' :: (l₁ ++ ',' :: (l₂ ++ ',' :: l₃)) ∧
        UIntLiteral max l₀ n₀ ∧ UIntLiteral max l₁ n₁ ∧ UIntLiteral max l₂ n₂ ∧
        UIntLiteral max l₃ n₃ := by
  rw [parseNumbers_eq_ok_iff]
  constructor
  · intro h
    have hjoin : [','].intercalate (l.splitOn ',') = l := List.intercalate_splitOn ','
    generalize l.splitOn ',' = parts at h hjoin
    cases h with | cons h₀ h =>
    cases h with | cons h₁ h =>
    cases h with | cons h₂ h =>
    cases h with | cons h₃ h =>
    cases h
    exact ⟨_, _, _, _, by simpa using hjoin.symm, h₀, h₁, h₂, h₃⟩
  · rintro ⟨l₀, l₁, l₂, l₃, rfl, h₀, h₁, h₂, h₃⟩
    have hcomma : ∀ part ∈ [l₀, l₁, l₂, l₃], ',' ∉ part := by
      simp only [List.mem_cons, List.not_mem_nil, or_false]
      rintro part (rfl | rfl | rfl | rfl)
      · exact h₀.not_mem (by decide) (by decide) (by decide)
      · exact h₁.not_mem (by decide) (by decide) (by decide)
      · exact h₂.not_mem (by decide) (by decide) (by decide)
      · exact h₃.not_mem (by decide) (by decide) (by decide)
    have hsplit := List.splitOn_intercalate ',' hcomma (by simp)
    have hjoin : [','].intercalate [l₀, l₁, l₂, l₃] =
        l₀ ++ ',' :: (l₁ ++ ',' :: (l₂ ++ ',' :: l₃)) := by simp
    rw [hjoin] at hsplit
    rw [hsplit]
    exact .cons h₀ (.cons h₁ (.cons h₂ (.cons h₃ .nil)))

/-! ## What is accepted -/

theorem ofNat_eq_iff {n : ℕ} {w : U256} (h : n < 2 ^ 256) :
    BitVec.ofNat 256 n = w ↔ w.toNat = n := by
  constructor
  · rintro rfl
    rw [BitVec.toNat_ofNat, Nat.mod_eq_of_lt h]
  · rintro rfl
    rw [BitVec.ofNat_toNat, BitVec.setWidth_eq]

theorem limbs_lt {l₀ l₁ l₂ l₃ : List Char} {n₀ n₁ n₂ n₃ : ℕ}
    (h₀ : UIntLiteral (2 ^ 64 - 1) l₀ n₀) (h₁ : UIntLiteral (2 ^ 64 - 1) l₁ n₁)
    (h₂ : UIntLiteral (2 ^ 64 - 1) l₂ n₂) (h₃ : UIntLiteral (2 ^ 64 - 1) l₃ n₃) :
    n₀ + 2 ^ 64 * n₁ + 2 ^ 128 * n₂ + 2 ^ 192 * n₃ < 2 ^ 256 := by
  have hle₀ := h₀.le
  have hle₁ := h₁.le
  have hle₂ := h₂.le
  have hle₃ := h₃.le
  omega

/-- Behind a `0x` the first number starts with the `x`. -/
theorem head_of_numbers {max n₀ : ℕ} {l l₀ rest : List Char}
    (h : (strip0x l).head? = some '[' ∧ l.getLast? = some ']')
    (hinner : l.tail.dropLast = l₀ ++ ',' :: rest) (h₀ : UIntLiteral max l₀ n₀) :
    l.head? = some '[' := by
  obtain ⟨hhead, -⟩ := h
  unfold strip0x at hhead
  split at hhead
  · rename_i v
    exfalso
    cases v with
    | nil => cases hhead
    | cons c v =>
      rw [List.tail_cons, List.dropLast_cons_cons] at hinner
      cases l₀ with
      | nil => exact absurd (List.head_eq_of_cons_eq hinner) (by decide)
      | cons d l₀ =>
        obtain rfl : 'x' = d := List.head_eq_of_cons_eq hinner
        exact h₀.not_mem (by decide) (by decide) (by decide) List.mem_cons_self
  · exact hhead

theorem LimbText.brackets {s : String} {w : U256} (h : LimbText s w) :
    (strip0x s.toList).head? = some '[' ∧ s.toList.getLast? = some ']' := by
  obtain ⟨l₀, l₁, l₂, l₃, n₀, n₁, n₂, n₃, hs, -⟩ := h
  rw [hs, List.getLast?_concat]
  exact ⟨rfl, rfl⟩

/-- Where the reader looks for numbers it accepts the limbs in brackets, and nothing after a
`0x`. -/
theorem U256.visitStr_bracketed_iff {s : String} {w : U256}
    (h : (strip0x s.toList).head? = some '[' ∧ s.toList.getLast? = some ']') :
    U256.visitStr s = .ok w ↔ LimbText s w := by
  have hread : U256.visitStr s = .ok w ↔ ∃ n₀ n₁ n₂ n₃,
      parseNumbers (2 ^ 64 - 1) s.toList.tail.dropLast = .ok [n₀, n₁, n₂, n₃] ∧
        BitVec.ofNat 256 (n₀ + 2 ^ 64 * n₁ + 2 ^ 128 * n₂ + 2 ^ 192 * n₃) = w := by
    unfold U256.visitStr
    simp only [if_pos h]
    rw [Except.bind_eq_ok_iff]
    constructor
    · rintro ⟨nums, hnums, hw⟩
      split at hw
      · exact ⟨_, _, _, _, hnums, Except.ok.inj hw⟩
      · cases hw
    · rintro ⟨n₀, n₁, n₂, n₃, hnums, rfl⟩
      exact ⟨_, hnums, rfl⟩
  rw [hread]
  constructor
  · rintro ⟨n₀, n₁, n₂, n₃, hnums, hw⟩
    obtain ⟨l₀, l₁, l₂, l₃, hinner, h₀, h₁, h₂, h₃⟩ := parseNumbers_four_iff.1 hnums
    have hhead := head_of_numbers h hinner h₀
    refine ⟨l₀, l₁, l₂, l₃, n₀, n₁, n₂, n₃, ?_, h₀, h₁, h₂, h₃, ?_⟩
    · rw [← hinner]
      exact eq_of_ends (by decide) hhead h.2
    · exact (ofNat_eq_iff (limbs_lt h₀ h₁ h₂ h₃)).1 hw
  · rintro ⟨l₀, l₁, l₂, l₃, n₀, n₁, n₂, n₃, hs, h₀, h₁, h₂, h₃, hw⟩
    refine ⟨n₀, n₁, n₂, n₃, parseNumbers_four_iff.2 ⟨l₀, l₁, l₂, l₃, ?_, h₀, h₁, h₂, h₃⟩, ?_⟩
    · rw [hs, List.cons_append, List.tail_cons, List.dropLast_concat]
    · exact (ofNat_eq_iff (limbs_lt h₀ h₁ h₂ h₃)).2 hw

/-- Elsewhere it accepts hex digits. -/
theorem U256.visitStr_plain_iff {s : String} {w : U256}
    (h : ¬((strip0x s.toList).head? = some '[' ∧ s.toList.getLast? = some ']')) :
    U256.visitStr s = .ok w ↔ HexText s w := by
  have hread : U256.visitStr s = .ok w ↔ utf8Len (strip0x s.toList) = 64 ∧
      ∃ bytes, hexDecode (strip0x s.toList) = .ok bytes ∧ bytes.length = 32 ∧
        ofWordBytes 256 bytes = w := by
    unfold U256.visitStr
    simp only [if_neg h]
    split_ifs with hlen
    · simp only [Except.bind_eq_ok_iff, decodeHex_eq_ok_iff, ite_failWith_eq_ok_iff, hlen,
        true_and]
    · simp [failWith, hlen]
  rw [hread, hexDecode_eq_ok_iff]
  constructor
  · rintro ⟨-, hdigits, hlength, rfl⟩
    refine ⟨strip0x s.toList, (strip0x_eq_iff hdigits).1 rfl, hlength, hdigits, ?_⟩
    have hlt := hexNumber_lt hdigits
    rw [hlength] at hlt
    exact (ofNat_eq_iff hlt).1 rfl
  · rintro ⟨digits, hs, hlength, hdigits, hw⟩
    have hlt := hexNumber_lt hdigits
    rw [hlength] at hlt
    rw [(strip0x_eq_iff hdigits).2 hs]
    exact ⟨(utf8Len_of_isHexDigit hdigits).trans hlength, hdigits, hlength,
      ((ofNat_eq_iff hlt).2 hw).symm⟩

/-- The reader of words accepts 64 hex digits with or without `0x`, and four 64-bit literals in
brackets, for the word that these spell, and nothing else. It does not panic, and reads back what
is written. -/
theorem u256_text_format :
    (∀ s w, U256Visitor.visitStr s = .ok w ↔ HexText s w ∨ LimbText s w) ∧
    (∀ s, U256Visitor.visitStr s ≠ .error .panic) ∧
    ∀ w, U256Visitor.visitStr (U256.serialize w) = .ok w := by
  refine ⟨fun s w => ?_, fun s => ?_, fun w => ?_⟩
  · rw [U256Visitor.visitStr_eq, returned_eq_ok_iff]
    by_cases h : (strip0x s.toList).head? = some '[' ∧ s.toList.getLast? = some ']'
    · rw [U256.visitStr_bracketed_iff h]
      refine (or_iff_right ?_).symm
      rintro ⟨digits, hs, hlength, hdigits, -⟩
      rw [(strip0x_eq_iff hdigits).2 hs] at h
      exact not_isHexDigit_bracket (hdigits '[' (List.mem_of_mem_head? h.1))
    · rw [U256.visitStr_plain_iff h]
      exact (or_iff_left fun hlimbs => h hlimbs.brackets).symm
  · rw [U256Visitor.visitStr_eq]
    exact returned_ne_panic _
  · rw [U256Visitor.visitStr_eq, U256.visitStr_serialize]
    rfl

end Lasr
