import Mathlib
import WaveDump.Proofs.NumberText
import WaveDump.SampleRate

/-!
# Sample rates as text

A text denotes a rate if it is made of digits, which a plus sign may precede, of a scale letter if
any, and of `Hz` if anything, with white space between them. Such a text is read as the product of
its digits and its scale, unless the product is more than a word, and no other text is read at all.
The text that a rate is printed as denotes the rate, so it is read back.
-/

namespace WaveDump

namespace SampleRate

open Text

/-! ## Texts that denote a rate -/

/-- The scale letters and their factors; without a letter the factor is one. -/
def letters : List (List Char × Nat) :=
  [([], 1), (['k'], 10 ^ 3), (['K'], 10 ^ 3), (['m'], 10 ^ 6), (['M'], 10 ^ 6), (['g'], 10 ^ 9),
    (['G'], 10 ^ 9)]

def hertzTexts : List (List Char) :=
  [[], ['H', 'z'], ['h', 'z']]

/-- A text without white space around it, and the number that it stands for. -/
inductive Denotes : List Char → Nat → Prop
  | parts {sign digits gap letter space hertz : List Char} {factor : Nat}
      (isSign : sign = [] ∨ sign = ['+'])
      (someDigit : digits ≠ []) (allDigits : ∀ char ∈ digits, char.isDigit)
      (gapBlank : ∀ char ∈ gap, isBlank char)
      (isLetter : (letter, factor) ∈ letters)
      (spaceBlank : ∀ char ∈ space, isBlank char)
      (isHertz : hertz ∈ hertzTexts) :
      Denotes (sign ++ digits ++ gap ++ letter ++ space ++ hertz)
        (Nat.ofDigitChars 10 digits 0 * factor)

/-! ## Scales -/

section Scales

variable {factor : Nat}

/-- The characters that scale a number. -/
def scales : List (Char × Nat) :=
  [('k', kilohertz), ('K', kilohertz), ('m', megahertz), ('M', megahertz), ('g', gigahertz),
    ('G', gigahertz)]

theorem scale?_eq_some_iff {char : Char} : scale? char = some factor ↔ (char, factor) ∈ scales := by
  constructor
  · intro scaled
    unfold scale? at scaled
    split at scaled <;> simp_all [scales]
  · have onScales : ∀ scale ∈ scales, scale? scale.1 = some scale.2 := by decide
    exact onScales (char, factor)

/-- Scale letters are neither digits nor white space, and the end of a unit is none of them. -/
theorem scale_distinct :
    ∀ scale ∈ scales, scale.1.isDigit = false ∧ isBlank scale.1 = false ∧ scale.1 ≠ 'z' := by
  decide

theorem scale?_of_isDigit {char : Char} (isDigit : char.isDigit) : scale? char = none := by
  rw [Option.eq_none_iff_forall_ne_some]
  intro factor scaled
  rw [(scale_distinct _ (scale?_eq_some_iff.mp scaled)).1] at isDigit
  contradiction

theorem mem_letters_iff {letter : List Char} :
    (letter, factor) ∈ letters ↔
      letter = [] ∧ factor = 1 ∨ ∃ char, letter = [char] ∧ (char, factor) ∈ scales := by
  constructor
  · intro isLetter
    simp only [letters, List.mem_cons, Prod.mk.injEq, List.not_mem_nil, or_false] at isLetter
    rcases isLetter with ⟨rfl, rfl⟩ | ⟨rfl, rfl⟩ | ⟨rfl, rfl⟩ | ⟨rfl, rfl⟩ | ⟨rfl, rfl⟩ |
      ⟨rfl, rfl⟩ | ⟨rfl, rfl⟩
    · exact .inl ⟨rfl, rfl⟩
    all_goals exact .inr ⟨_, rfl, by decide⟩
  · rintro (⟨rfl, rfl⟩ | ⟨char, rfl, scaled⟩)
    · decide
    · have onScales : ∀ scale ∈ scales, ([scale.1], scale.2) ∈ letters := by decide
      exact onScales (char, factor) scaled

theorem splitScale_cases (body : List Char) :
    ∃ letter, body = (splitScale body).1 ++ letter ∧ (letter, (splitScale body).2) ∈ letters := by
  unfold splitScale
  split
  · rename_i noText
    exact ⟨[], by simpa using noText, by decide⟩
  · rename_i last front reversed
    have whole : body = front.reverse ++ [last] := by
      rw [← List.reverse_inj, reversed]
      simp
    split
    · rename_i factor scaled
      exact ⟨[last], whole, mem_letters_iff.mpr (.inr ⟨last, rfl, scale?_eq_some_iff.mp scaled⟩)⟩
    · exact ⟨[], (List.append_nil body).symm, mem_letters_iff.mpr (.inl ⟨rfl, rfl⟩)⟩

theorem splitScale_of_digit {text : List Char} {last : Char} (isLast : text.getLast? = some last)
    (isDigit : last.isDigit) : splitScale text = (text, 1) := by
  rcases List.getLast?_eq_some_iff.mp isLast with ⟨front, rfl⟩
  simp [splitScale, scale?_of_isDigit isDigit]

theorem splitScale_append {char : Char} (scaled : (char, factor) ∈ scales) (text : List Char) :
    splitScale (text ++ [char]) = (text, factor) := by
  simp [splitScale, scale?_eq_some_iff.mpr scaled]

theorem dropHertz_cases (text : List Char) :
    ∃ hertz ∈ hertzTexts, text = dropHertz text ++ hertz := by
  unfold dropHertz
  split
  · rename_i rest reversed
    refine ⟨['H', 'z'], by decide, ?_⟩
    rw [← List.reverse_inj, reversed]
    simp
  · rename_i rest reversed
    refine ⟨['h', 'z'], by decide, ?_⟩
    rw [← List.reverse_inj, reversed]
    simp
  · exact ⟨[], by decide, (List.append_nil text).symm⟩

theorem dropHertz_append {text hertz : List Char} (isHertz : hertz ∈ hertzTexts)
    (other : 'z' ∉ text) : dropHertz (text ++ hertz) = text := by
  simp only [hertzTexts, List.mem_cons, List.not_mem_nil, or_false] at isHertz
  rcases isHertz with rfl | rfl | rfl
  · have notLast (rest : List Char) : text.reverse ≠ 'z' :: rest := by
      intro reversed
      exact other (List.mem_reverse.mp (reversed ▸ List.mem_cons_self))
    rw [List.append_nil, dropHertz]
    split
    · rename_i reversed
      exact absurd reversed (notLast _)
    · rename_i reversed
      exact absurd reversed (notLast _)
    · rfl
  · simp [dropHertz]
  · simp [dropHertz]

end Scales

/-! ## Reading -/

section Reading

variable {sign digits gap letter space : List Char} {factor : Nat}

theorem denotes_of_read {text : String} {value : Nat} (isRate : read text = .ok value) :
    Denotes (trim text.toList) value ∧ value ≤ maxWord := by
  simp only [read] at isRate
  split at isRate
  · simp at isRate
  · split at isRate
    · simp at isRate
    · rename_i count counted
      split at isRate
      · rename_i within
        obtain rfl := Except.ok.inj isRate
        refine ⟨?_, within⟩
        rcases dropHertz_cases (trim text.toList) with ⟨hertz, isHertz, withHertz⟩
        rcases exists_trimEnd (dropHertz (trim text.toList)) with ⟨space, withSpace, spaceBlank⟩
        obtain ⟨body, isBody⟩ : ∃ body, body = trimEnd (dropHertz (trim text.toList)) := ⟨_, rfl⟩
        rw [← isBody] at counted withSpace ⊢
        rcases splitScale_cases body with ⟨letter, withLetter, isLetter⟩
        rcases exists_trim (splitScale body).1 with ⟨lead, gap, withGaps, leadBlank, gapBlank⟩
        rcases readNat_eq_ok_iff.mp counted with
          ⟨sign, digits, isNumber, isSign, someDigit, allDigits, rfl, _⟩
        have whole : trim text.toList =
            lead ++ (sign ++ digits) ++ gap ++ letter ++ space ++ hertz := by
          rw [← isNumber, ← withGaps, ← withLetter, ← withSpace, ← withHertz]
        -- The text does not begin with white space, so there is none before the number either.
        have noLead : lead = [] := by
          cases lead with
          | nil => rfl
          | cons first rest =>
              have shown := head?_trim text.toList first (by rw [whole]; rfl)
              rw [leadBlank first List.mem_cons_self] at shown
              contradiction
        rw [whole, noLead, List.nil_append]
        exact .parts isSign someDigit allDigits gapBlank isLetter spaceBlank isHertz
      · simp at isRate

/-- A number has no white space at its ends. -/
theorem trim_number (isSign : sign = [] ∨ sign = ['+']) (someDigit : digits ≠ [])
    (allDigits : ∀ char ∈ digits, char.isDigit) (gapBlank : ∀ char ∈ gap, isBlank char) :
    trim (sign ++ digits ++ gap) = sign ++ digits := by
  have shown : ∀ char ∈ sign ++ digits, isBlank char = false := by
    simp only [List.mem_append]
    rintro char (inSign | inDigits)
    · rcases isSign with rfl | rfl
      · contradiction
      · rw [List.mem_singleton.mp inSign]
        decide
    · exact isBlank_of_isDigit (allDigits char inDigits)
  apply trim_append_blanks _ _ _ gapBlank
  · simp [someDigit]
  · exact fun char isFirst => shown char (List.mem_of_mem_head? isFirst)
  · exact fun char isLast => shown char (List.mem_of_mem_getLast? isLast)

theorem exists_lastDigit (sign : List Char) (someDigit : digits ≠ [])
    (allDigits : ∀ char ∈ digits, char.isDigit) :
    ∃ last, (sign ++ digits).getLast? = some last ∧ last.isDigit := by
  rcases digits.eq_nil_or_concat' with rfl | ⟨front, last, rfl⟩
  · contradiction
  · refine ⟨last, ?_, allDigits last (by simp)⟩
    rw [← List.append_assoc, List.getLast?_concat]

/-- Before the unit stands no letter of it. -/
theorem z_not_mem (isSign : sign = [] ∨ sign = ['+']) (allDigits : ∀ char ∈ digits, char.isDigit)
    (gapBlank : ∀ char ∈ gap, isBlank char) (isLetter : (letter, factor) ∈ letters)
    (spaceBlank : ∀ char ∈ space, isBlank char) :
    'z' ∉ sign ++ digits ++ gap ++ letter ++ space := by
  simp only [List.mem_append, not_or, and_assoc]
  refine ⟨?_, ?_, ?_, ?_, ?_⟩
  · rcases isSign with rfl | rfl <;> decide
  · exact fun member => absurd (allDigits 'z' member) (by decide)
  · exact fun member => absurd (gapBlank 'z' member) (by decide)
  · rcases mem_letters_iff.mp isLetter with ⟨rfl, _⟩ | ⟨char, rfl, scaled⟩
    · exact List.not_mem_nil
    · rw [List.mem_singleton]
      exact (scale_distinct _ scaled).2.2.symm
  · exact fun member => absurd (spaceBlank 'z' member) (by decide)

/-- The number and the scale of a text whose unit has been taken off. -/
theorem splitScale_trimEnd (isSign : sign = [] ∨ sign = ['+']) (someDigit : digits ≠ [])
    (allDigits : ∀ char ∈ digits, char.isDigit) (gapBlank : ∀ char ∈ gap, isBlank char)
    (isLetter : (letter, factor) ∈ letters) :
    ∃ number, splitScale (trimEnd (sign ++ digits ++ gap ++ letter)) = (number, factor) ∧
      trim number = sign ++ digits ∧ trimEnd (sign ++ digits ++ gap ++ letter) ≠ [] := by
  have number := trim_number isSign someDigit allDigits gapBlank
  rcases exists_lastDigit sign someDigit allDigits with ⟨last, isLast, lastDigit⟩
  rcases mem_letters_iff.mp isLetter with ⟨rfl, rfl⟩ | ⟨char, rfl, scaled⟩
  · have ended : trimEnd (sign ++ digits ++ gap ++ []) = sign ++ digits := by
      rw [List.append_nil, trimEnd_append_blanks gapBlank, trimEnd_eq_self]
      rw [isLast]
      rintro _ ⟨⟩
      exact isBlank_of_isDigit lastDigit
    rw [ended]
    refine ⟨_, splitScale_of_digit isLast lastDigit, ?_, by simp [someDigit]⟩
    simpa using trim_number isSign someDigit allDigits (List.forall_mem_nil (isBlank ·))
  · have ended : trimEnd (sign ++ digits ++ gap ++ [char]) = sign ++ digits ++ gap ++ [char] := by
      rw [trimEnd_eq_self]
      simpa using (scale_distinct _ scaled).2.1
    rw [ended]
    exact ⟨_, splitScale_append scaled _, number, by simp⟩

theorem factor_pos (isLetter : (letter, factor) ∈ letters) : 0 < factor := by
  have positive : ∀ scale ∈ letters, 0 < scale.2 := by decide
  exact positive (letter, factor) isLetter

/-- The text determines the number and the scale, and the number is counted right within any
limit that it keeps to. -/
theorem exists_number {trimmed : List Char} {value : Nat} (denotes : Denotes trimmed value) :
    ∃ number factor count, splitScale (trimEnd (dropHertz trimmed)) = (number, factor) ∧
      (trimEnd (dropHertz trimmed)).isEmpty = false ∧ 0 < factor ∧ value = count * factor ∧
      ∀ limit, count ≤ limit → readNat limit (trim number) = .ok count := by
  cases denotes with
  | @parts sign digits gap letter space hertz factor isSign someDigit allDigits gapBlank isLetter
      spaceBlank isHertz =>
      rw [dropHertz_append isHertz (z_not_mem isSign allDigits gapBlank isLetter spaceBlank),
        trimEnd_append_blanks spaceBlank]
      rcases splitScale_trimEnd isSign someDigit allDigits gapBlank isLetter with
        ⟨number, parted, isNumber, someText⟩
      refine ⟨number, factor, _, parted, by simpa using someText, factor_pos isLetter, rfl, ?_⟩
      intro limit within
      exact readNat_eq_ok_iff.mpr
        ⟨sign, digits, isNumber, isSign, someDigit, allDigits, rfl, within⟩

theorem read_of_denotes {text : String} {value : Nat} (denotes : Denotes (trim text.toList) value)
    (within : value ≤ maxWord) : read text = .ok value := by
  rcases exists_number denotes with ⟨number, factor, count, parted, someText, positive, rfl, counts⟩
  have counted : readNat maxWord (trim number) = .ok count :=
    counts maxWord (Nat.le_trans (Nat.le_mul_of_pos_right count positive) within)
  simp only [read, someText, Bool.false_eq_true, ↓reduceIte, parted, counted, within]

/-- No text denotes two numbers. -/
theorem Denotes.unique {text : List Char} {value other : Nat} (denotes : Denotes text value)
    (denotesOther : Denotes text other) : value = other := by
  rcases exists_number denotes with ⟨_, _, count, parted, _, _, rfl, counts⟩
  rcases exists_number denotesOther with ⟨_, _, otherCount, otherParted, _, _, rfl, otherCounts⟩
  obtain ⟨rfl, rfl⟩ := Prod.mk.inj (parted.symm.trans otherParted)
  have counted := counts (max count otherCount) (Nat.le_max_left _ _)
  rw [otherCounts _ (Nat.le_max_right _ _)] at counted
  rw [Except.ok.inj counted]

/-- A text is read exactly if it denotes a rate of at most 64 bits, and as that rate. -/
theorem read_eq_ok_iff {text : String} {value : Nat} :
    read text = .ok value ↔ Denotes (trim text.toList) value ∧ value ≤ maxWord :=
  ⟨denotes_of_read, fun ⟨denotes, within⟩ => read_of_denotes denotes within⟩

end Reading

/-! ## Printing -/

section Printing

theorem units_descending : units.Pairwise fun unit next => next.2 ≤ unit.2 := by
  decide

/-- A rate is printed in a unit that divides it: in hertz if it is zero or no larger unit divides
it, and otherwise in the largest that does. -/
theorem exists_largestUnit (rate : Nat) : ∃ unit ∈ ("Hz", 1) :: units,
    render rate = (rate / unit.2).repr ++ " " ++ unit.1 ∧ unit.2 ∣ rate ∧
      (rate = 0 → unit.2 = 1) ∧
      (rate ≠ 0 → ∀ other ∈ ("Hz", 1) :: units, other.2 ∣ rate → other.2 ≤ unit.2) := by
  unfold render
  split
  · rename_i name size found
    obtain ⟨suits, larger, smaller, inOrder, unsuitable⟩ := List.find?_eq_some_iff_append.mp found
    obtain ⟨notZero, divides⟩ : rate ≠ 0 ∧ size ∣ rate := by
      simpa [Nat.dvd_iff_mod_eq_zero] using suits
    refine ⟨(name, size), List.mem_cons_of_mem _ (List.mem_of_find?_eq_some found), rfl, divides,
      fun isZero => absurd isZero notZero, fun _ other isOther otherDivides => ?_⟩
    have descending := units_descending
    rw [inOrder, List.pairwise_append, List.pairwise_cons] at descending
    rw [inOrder, List.mem_cons, List.mem_append, List.mem_cons] at isOther
    rcases isOther with rfl | isLarger | rfl | isSmaller
    · exact Nat.pos_of_dvd_of_pos divides (Nat.pos_of_ne_zero notZero)
    · have notDivides := unsuitable other isLarger
      simp [notZero, Nat.dvd_iff_mod_eq_zero.mp otherDivides] at notDivides
    · exact Nat.le_refl size
    · exact descending.2.1.1 other isSmaller
  · rename_i notFound
    refine ⟨("Hz", 1), List.mem_cons_self, by rw [Nat.div_one, String.append_assoc]; rfl,
      Nat.one_dvd rate, fun _ => rfl, fun notZero other isOther otherDivides => ?_⟩
    rcases List.mem_cons.mp isOther with rfl | isOther
    · exact Nat.le_refl 1
    · have unsuitable := List.find?_eq_none.mp notFound other isOther
      simp [notZero, Nat.dvd_iff_mod_eq_zero.mp otherDivides] at unsuitable

theorem render_spells (rate : Nat) : ∃ count, ∃ unit ∈ ("Hz", 1) :: units,
    render rate = count.repr ++ " " ++ unit.1 ∧ count * unit.2 = rate := by
  rcases exists_largestUnit rate with ⟨unit, isUnit, rendered, divides, _⟩
  exact ⟨rate / unit.2, unit, isUnit, rendered, Nat.div_mul_cancel divides⟩

/-- The names of units are scale letters and `Hz`. -/
theorem exists_letter {unit : String × Nat} (isUnit : unit ∈ ("Hz", 1) :: units) :
    ∃ letter, unit.1.toList = letter ++ ['H', 'z'] ∧ (letter, unit.2) ∈ letters := by
  simp only [units, List.mem_cons, List.not_mem_nil, or_false] at isUnit
  rcases isUnit with rfl | rfl | rfl | rfl
  · exact ⟨[], by decide, by decide⟩
  · exact ⟨['G'], by decide, by decide⟩
  · exact ⟨['M'], by decide, by decide⟩
  · exact ⟨['k'], by decide, by decide⟩

theorem denotes_render (rate : Nat) : Denotes (trim (render rate).toList) rate := by
  rcases render_spells rate with ⟨count, unit, isUnit, rendered, rfl⟩
  rcases exists_letter isUnit with ⟨letter, named, isLetter⟩
  have spelled : (render (count * unit.2)).toList =
      [] ++ count.repr.toList ++ [' '] ++ letter ++ [] ++ ['H', 'z'] := by
    rw [rendered]
    simp [named]
  have trimmed : trim (render (count * unit.2)).toList = (render (count * unit.2)).toList := by
    rw [trim, trimStart_eq_self, trimEnd_eq_self]
    · rw [spelled, List.append_assoc, List.getLast?_append]
      simp [isBlank]
    · rw [spelled]
      intro first isFirst
      rcases List.exists_cons_of_ne_nil (repr_toList_ne_nil count) with ⟨digit, rest, isCons⟩
      rw [isCons] at isFirst
      obtain rfl : digit = first := by simpa using isFirst
      exact isBlank_of_isDigit (isDigit_of_mem_repr (isCons ▸ List.mem_cons_self))
  have counted : count = Nat.ofDigitChars 10 count.repr.toList 0 := by
    rw [Nat.toList_repr, Nat.ofDigitChars_ten_toDigits]
  have product : count * unit.2 = Nat.ofDigitChars 10 count.repr.toList 0 * unit.2 := by
    rw [← counted]
  rw [trimmed, spelled, product]
  exact .parts (.inl rfl) (repr_toList_ne_nil count) (fun _ => isDigit_of_mem_repr)
    (by simp [isBlank]) isLetter (by simp) (by decide)

/-- Reading gives back every rate of at most 64 bits. -/
theorem read_render {rate : Nat} (within : rate ≤ maxWord) : read (render rate) = .ok rate :=
  read_eq_ok_iff.mpr ⟨denotes_render rate, within⟩

/-- A rate is spelled with digits, a blank and the letters of its unit. -/
theorem not_mem_render {rate : Nat} {char : Char} (notDigit : char.isDigit = false)
    (notLetter : char ∉ " GMkHz".toList) : char ∉ (render rate).toList := by
  rcases render_spells rate with ⟨count, unit, unitMem, rendered, _⟩
  have unitChars : ∀ unit ∈ ("Hz", 1) :: units, unit.1.toList ⊆ " GMkHz".toList := by decide
  have blank : " ".toList ⊆ " GMkHz".toList := by decide
  simp only [rendered, String.toList_append, List.mem_append, not_or]
  refine ⟨⟨?_, fun isBlank => notLetter (blank isBlank)⟩,
    fun isLetter => notLetter (unitChars unit unitMem isLetter)⟩
  intro digit
  rw [isDigit_of_mem_repr digit] at notDigit
  contradiction

/-- A text is read exactly if it denotes a number of at most 64 bits, and as that number; all other
texts, those of larger numbers among them, are errors. Rates are printed in the largest unit that
divides them exactly, and read back. -/
theorem read_exactly :
    (∀ (text : String) (value : Nat),
      read text = .ok value ↔ Denotes (trim text.toList) value ∧ value < 2 ^ 64) ∧
    (∀ text : String, (∀ value, Denotes (trim text.toList) value → 2 ^ 64 ≤ value) →
      ∃ failure, read text = .error failure) ∧
    (∀ text value other, Denotes text value → Denotes text other → value = other) ∧
    (∀ rate < 2 ^ 64, read (render rate) = .ok rate) ∧
    ∀ rate, ∃ unit ∈ [("Hz", 1), ("GHz", 10 ^ 9), ("MHz", 10 ^ 6), ("kHz", 10 ^ 3)],
      render rate = (rate / unit.2).repr ++ " " ++ unit.1 ∧ unit.2 ∣ rate ∧
        (rate = 0 → unit.2 = 1) ∧
        (rate ≠ 0 → ∀ other ∈ [("Hz", 1), ("GHz", 10 ^ 9), ("MHz", 10 ^ 6), ("kHz", 10 ^ 3)],
          other.2 ∣ rate → other.2 ≤ unit.2) := by
  have below_iff (value : Nat) : value ≤ maxWord ↔ value < 2 ^ 64 := by
    rw [maxWord]
    omega
  refine ⟨?accepted, ?rejected, fun _ _ _ => Denotes.unique, ?readBack, exists_largestUnit⟩
  case accepted =>
    intro text value
    rw [← below_iff]
    exact read_eq_ok_iff
  case rejected =>
    intro text tooLarge
    cases isRead : read text with
    | error failure => exact ⟨failure, rfl⟩
    | ok value =>
        obtain ⟨denotes, within⟩ := read_eq_ok_iff.mp isRead
        exact absurd ((below_iff value).mp within) (Nat.not_lt.mpr (tooLarge value denotes))
  case readBack =>
    intro rate within
    exact read_render ((below_iff rate).mpr within)

theorem read_exactly_kilohertz :
    read "\u3000+012 k Hz\t" = .ok 12000 ∧
    (∃ failure, read "18446744073709552k" = .error failure) ∧
    read (render 3000000) = .ok 3000000 := by
  have denotes : Denotes (['+'] ++ ['0', '1', '2'] ++ [' '] ++ ['k'] ++ [' '] ++ ['H', 'z'])
      (Nat.ofDigitChars 10 ['0', '1', '2'] 0 * 1000) :=
    .parts (.inr rfl) (by decide) (by simp) (by simp [isBlank]) (by decide) (by simp [isBlank])
      (by decide)
  have denotesLarge : Denotes ([] ++ "18446744073709552".toList ++ [] ++ ['k'] ++ [] ++ [])
      (Nat.ofDigitChars 10 "18446744073709552".toList 0 * 1000) :=
    .parts (.inl rfl) (by decide) (by simp) (by simp) (by decide) (by simp) (by decide)
  refine ⟨(read_exactly.1 _ 12000).mpr ⟨denotes, by decide⟩,
    read_exactly.2.1 _ fun value denotesValue => ?_, read_exactly.2.2.2.1 3000000 (by decide)⟩
  rw [read_exactly.2.2.1 _ value _ denotesValue denotesLarge]
  decide

end Printing

end SampleRate

end WaveDump
