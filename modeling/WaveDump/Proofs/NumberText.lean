import Mathlib.Data.Nat.Basic
import WaveDump.Text.Blank
import WaveDump.Text.Number

/-!
# Numbers as text

A text is read as a number exactly if it is made of digits, after a plus sign perhaps, and their
value is within the bound of the reader; so every number within the bound is read back from its
decimal digits. White space around a text is taken off and nothing else.
-/

namespace WaveDump

namespace Text

/-! ## Decimal digits -/

section Digits

variable {bound value : Nat} {digits : List Char}

theorem digitValue?_of_isDigit {char : Char} (isDigit : char.isDigit) :
    digitValue? char = some (char.toNat - '0'.toNat) := by
  apply if_pos
  simpa [Char.isDigit, Char.le_def] using isDigit

theorem le_ofDigitChars (digits : List Char) (value : Nat) :
    value ≤ Nat.ofDigitChars 10 digits value := by
  rw [Nat.ofDigitChars_eq_ofDigitChars_zero]
  calc value
    _ ≤ 10 ^ digits.length * value := Nat.le_mul_of_pos_left value (Nat.pow_pos (by decide))
    _ ≤ 10 ^ digits.length * value + Nat.ofDigitChars 10 digits 0 := Nat.le_add_right _ _

/-- Digits are read up to a number within the bound: the numbers on the way are not larger. -/
theorem readDigits_of_le (overflow : NumberError) (allDigits : ∀ char ∈ digits, char.isDigit)
    (within : Nat.ofDigitChars 10 digits value ≤ bound) :
    readDigits bound overflow value digits = .ok (Nat.ofDigitChars 10 digits value) := by
  induction digits generalizing value with
  | nil => rfl
  | cons char rest ih =>
      rw [Nat.ofDigitChars_cons, Nat.mul_comm] at within ⊢
      have soFar := Nat.le_trans (le_ofDigitChars rest _) within
      simp only [readDigits, digitValue?_of_isDigit (allDigits char List.mem_cons_self), soFar,
        ↓reduceIte]
      exact ih (fun other member => allDigits other (List.mem_cons_of_mem _ member)) within

theorem isDigit_of_digitValue? {char : Char} {digit : Nat} (read : digitValue? char = some digit) :
    char.isDigit ∧ digit = char.toNat - '0'.toNat := by
  simp only [digitValue?, Option.ite_none_right_eq_some, Option.some.injEq] at read
  rcases read with ⟨within, rfl⟩
  exact ⟨by simpa [Char.isDigit, Char.le_def] using within, rfl⟩

/-- Reading succeeds on digits alone, and only up to the bound: a number that leaves it on the way
does not come back. -/
theorem readDigits_eq_ok_iff {overflow : NumberError} {number : Nat} (within : value ≤ bound) :
    readDigits bound overflow value digits = .ok number ↔
      (∀ char ∈ digits, char.isDigit) ∧ number = Nat.ofDigitChars 10 digits value ∧
        number ≤ bound := by
  constructor
  · intro read
    induction digits generalizing value with
    | nil =>
        obtain rfl := Except.ok.inj read
        exact ⟨by simp, rfl, within⟩
    | cons char rest ih =>
        simp only [readDigits] at read
        split at read
        · contradiction
        · rename_i digit isDigit
          rcases isDigit_of_digitValue? isDigit with ⟨charDigit, rfl⟩
          split at read
          · rename_i nextWithin
            rcases ih nextWithin read with ⟨restDigits, isNumber, atMost⟩
            rw [Nat.ofDigitChars_cons, Nat.mul_comm 10]
            exact ⟨List.forall_mem_cons.mpr ⟨charDigit, restDigits⟩, isNumber, atMost⟩
          · contradiction
  · rintro ⟨allDigits, rfl, atMost⟩
    exact readDigits_of_le overflow allDigits atMost

/-- Without a sign there is nothing to a number but its digits. -/
theorem readNat_eq_readDigits (someDigit : digits ≠ [])
    (allDigits : ∀ char ∈ digits, char.isDigit) :
    readNat bound digits = readDigits bound .tooLarge 0 digits := by
  have noSign (rest : List Char) : digits ≠ '+' :: rest := by
    rintro rfl
    exact absurd (allDigits '+' List.mem_cons_self) (by decide)
  unfold readNat
  split
  · contradiction
  · exact absurd rfl (noSign [])
  · exact absurd rfl (noSign _)
  · rfl

theorem readNat_of_le (someDigit : digits ≠ []) (allDigits : ∀ char ∈ digits, char.isDigit)
    (within : Nat.ofDigitChars 10 digits 0 ≤ bound) :
    readNat bound digits = .ok (Nat.ofDigitChars 10 digits 0) := by
  rw [readNat_eq_readDigits someDigit allDigits, readDigits_of_le .tooLarge allDigits within]

/-- A natural number is read from digits, which may follow a plus sign. -/
theorem readNat_eq_ok_iff {text : List Char} {number : Nat} :
    readNat bound text = .ok number ↔
      ∃ sign digits, text = sign ++ digits ∧ (sign = [] ∨ sign = ['+']) ∧ digits ≠ [] ∧
        (∀ char ∈ digits, char.isDigit) ∧ number = Nat.ofDigitChars 10 digits 0 ∧
        number ≤ bound := by
  constructor
  · intro read
    unfold readNat at read
    split at read
    · contradiction
    · contradiction
    · rename_i digits someDigit
      rcases (readDigits_eq_ok_iff (Nat.zero_le bound)).mp read with ⟨allDigits, isNumber, atMost⟩
      exact ⟨['+'], digits, rfl, .inr rfl, someDigit, allDigits, isNumber, atMost⟩
    · rename_i someDigit _ _
      rcases (readDigits_eq_ok_iff (Nat.zero_le bound)).mp read with ⟨allDigits, isNumber, atMost⟩
      exact ⟨[], text, rfl, .inl rfl, someDigit, allDigits, isNumber, atMost⟩
  · rintro ⟨sign, digits, rfl, rfl | rfl, someDigit, allDigits, rfl, atMost⟩
    · exact readNat_of_le someDigit allDigits atMost
    · rcases List.exists_cons_of_ne_nil someDigit with ⟨first, rest, rfl⟩
      exact readDigits_of_le .tooLarge allDigits atMost

theorem isDigit_of_mem_repr {number : Nat} {char : Char} (member : char ∈ number.repr.toList) :
    char.isDigit := by
  rw [Nat.toList_repr] at member
  exact Nat.isDigit_of_mem_toDigits (by decide) (by decide) member

theorem repr_toList_ne_nil (number : Nat) : number.repr.toList ≠ [] := by
  rw [Nat.toList_repr]
  exact Nat.toDigits_ne_nil

theorem readNat_repr {number : Nat} (within : number ≤ bound) :
    readNat bound number.repr.toList = .ok number := by
  have spelled : Nat.ofDigitChars 10 number.repr.toList 0 = number := by
    rw [Nat.toList_repr, Nat.ofDigitChars_ten_toDigits]
  rw [readNat_of_le (repr_toList_ne_nil number) (fun _ => isDigit_of_mem_repr) (by rwa [spelled]),
    spelled]

end Digits

/-! ## White space at the ends -/

section Ends

variable {text : List Char}

theorem trimStart_eq_self (shown : ∀ char ∈ text.head?, isBlank char = false) :
    trimStart text = text := by
  cases text with
  | nil => rfl
  | cons first rest => simp [trimStart, shown first rfl]

theorem trimEnd_eq_self (shown : ∀ char ∈ text.getLast?, isBlank char = false) :
    trimEnd text = text := by
  rw [trimEnd, ← trimStart, trimStart_eq_self, List.reverse_reverse]
  rwa [List.head?_reverse]

theorem trimEnd_append_blanks {gap : List Char} (blank : ∀ char ∈ gap, isBlank char)
    (text : List Char) : trimEnd (text ++ gap) = trimEnd text := by
  have reversedBlank : ∀ char ∈ gap.reverse, isBlank char = true := by
    simpa using blank
  rw [trimEnd, List.reverse_append, List.dropWhile_append_of_pos reversedBlank, trimEnd]

/-- Only white space is taken off the end of a text. -/
theorem exists_trimEnd (text : List Char) :
    ∃ gap, text = trimEnd text ++ gap ∧ ∀ char ∈ gap, isBlank char := by
  refine ⟨(text.reverse.takeWhile isBlank).reverse, ?_, ?_⟩
  · rw [trimEnd, ← List.reverse_append, List.takeWhile_append_dropWhile, List.reverse_reverse]
  · intro char member
    exact List.all_eq_true.mp (List.all_takeWhile (l := text.reverse)) char
      (List.mem_reverse.mp member)

theorem exists_trimStart (text : List Char) :
    ∃ lead, text = lead ++ trimStart text ∧ ∀ char ∈ lead, isBlank char := by
  refine ⟨text.takeWhile isBlank, ?_, ?_⟩
  · rw [trimStart, List.takeWhile_append_dropWhile]
  · intro char member
    exact List.all_eq_true.mp (List.all_takeWhile (l := text)) char member

theorem exists_trim (text : List Char) :
    ∃ lead gap, text = lead ++ trim text ++ gap ∧ (∀ char ∈ lead, isBlank char) ∧
      ∀ char ∈ gap, isBlank char := by
  rcases exists_trimStart text with ⟨lead, isStart, leadBlank⟩
  rcases exists_trimEnd (trimStart text) with ⟨gap, isEnd, gapBlank⟩
  refine ⟨lead, gap, ?_, leadBlank, gapBlank⟩
  rw [trim, List.append_assoc, ← isEnd]
  exact isStart

/-- A text without white space around it does not begin with any. -/
theorem head?_trim (text : List Char) : ∀ first ∈ (trim text).head?, isBlank first = false := by
  intro first isFirst
  rcases exists_trimEnd (trimStart text) with ⟨gap, isEnd, _⟩
  have isFirstBefore : (trimStart text).head? = some first := by
    rw [isEnd, ← trim, List.head?_append, Option.mem_def.mp isFirst, Option.some_or]
  have kept := List.head?_dropWhile_not isBlank text
  rw [← trimStart, isFirstBefore] at kept
  simpa using kept

theorem trim_append_blanks {gap : List Char} (someText : text ≠ [])
    (shownFirst : ∀ char ∈ text.head?, isBlank char = false)
    (shownLast : ∀ char ∈ text.getLast?, isBlank char = false)
    (blank : ∀ char ∈ gap, isBlank char) : trim (text ++ gap) = text := by
  have first : (text ++ gap).head? = text.head? := by
    rcases List.exists_cons_of_ne_nil someText with ⟨char, rest, rfl⟩
    rfl
  rw [trim, trimStart_eq_self (by rwa [first]), trimEnd_append_blanks blank,
    trimEnd_eq_self shownLast]

theorem isBlank_of_isDigit {char : Char} (isDigit : char.isDigit) : isBlank char = false := by
  simp only [Char.isDigit, ge_iff_le, Bool.and_eq_true, decide_eq_true_eq,
    UInt32.le_iff_toNat_le] at isDigit
  rcases isDigit with ⟨atLeast, atMost⟩
  change 48 ≤ char.toNat at atLeast
  change char.toNat ≤ 57 at atMost
  simp only [isBlank, Bool.or_eq_false_iff, Bool.and_eq_false_iff, decide_eq_false_iff_not,
    beq_eq_false_iff_ne]
  omega

end Ends

end Text

end WaveDump
