import Mathlib
import WaveDump.Channel
import WaveDump.Proofs.NumberText

/-!
# Names of vector bits

A name spells a vector bit if a base that is not empty is followed by decimal digits between angle
brackets and by nothing else. The digits are all that stand in front of the last bracket, so there
is at most one way to part a name, whatever brackets and digits its base holds.

A name can be read off its bytes as well as off its characters. No byte of a longer character looks
like a digit, so a scan for digits from the end stops between two characters, and no cut that it
makes falls inside of one.
-/

namespace WaveDump

namespace VectorBit

/-- A name that is made of a base and of digits between angle brackets. -/
structure Spells (name base : String) (digits : List Char) : Prop where
  parts : name = base ++ "<" ++ String.ofList digits ++ ">"
  someBase : base ≠ ""
  someDigit : digits ≠ []
  allDigits : ∀ char ∈ digits, char.isDigit

section Grammar

variable {name base : String} {digits : List Char}

theorem isSome_digitValue? (char : Char) : (Text.digitValue? char).isSome = char.isDigit := by
  cases read : Text.digitValue? char with
  | none =>
      symm
      rw [Option.isSome_none, Bool.eq_false_iff]
      intro isDigit
      simp [Text.digitValue?_of_isDigit isDigit] at read
  | some digit =>
      rw [Option.isSome_some, (Text.isDigit_of_digitValue? read).1]

theorem splitIndex_eq (reversed : List Char) :
    splitIndex reversed =
      ((reversed.takeWhile Char.isDigit).reverse, reversed.dropWhile Char.isDigit) := by
  simp only [splitIndex, isSome_digitValue?]

theorem splitIndex_append (allDigits : ∀ char ∈ digits, char.isDigit) (rest : List Char) :
    splitIndex (digits.reverse ++ '<' :: rest) = (digits, '<' :: rest) := by
  have reversedDigits : ∀ char ∈ digits.reverse, char.isDigit = true := by
    simpa using allDigits
  rw [splitIndex_eq, List.takeWhile_append_of_pos reversedDigits,
    List.dropWhile_append_of_pos reversedDigits]
  simp [Char.isDigit]

theorem Spells.reverse_toList (spells : Spells name base digits) :
    name.toList.reverse = '>' :: (digits.reverse ++ '<' :: base.toList.reverse) := by
  simp [spells.parts]

/-- A name has no other parts: the digits are the longest run in front of the last bracket. -/
theorem Spells.unique {otherBase : String} {otherDigits : List Char}
    (spells : Spells name base digits) (other : Spells name otherBase otherDigits) :
    base = otherBase ∧ digits = otherDigits := by
  have sameBody := spells.reverse_toList.symm.trans other.reverse_toList
  rw [List.cons.injEq] at sameBody
  have sameParts : (digits, '<' :: base.toList.reverse) =
      (otherDigits, '<' :: otherBase.toList.reverse) := by
    rw [← splitIndex_append spells.allDigits, sameBody.2, splitIndex_append other.allDigits]
  simp only [Prod.mk.injEq, List.cons.injEq, true_and, List.reverse_inj, String.toList_inj]
    at sameParts
  exact ⟨sameParts.2, sameParts.1⟩

theorem ofName?_of_spells (spells : Spells name base digits) :
    ofName? name =
      if Nat.ofDigitChars 10 digits 0 < indexBound then
        some { base, bit := Nat.ofDigitChars 10 digits 0 }
      else
        none := by
  have notEmpty : (digits.isEmpty || base.toList.reverse.isEmpty) = false := by
    simpa [spells.someDigit] using spells.someBase
  have positive : 0 < indexBound := by decide
  simp only [ofName?, spells.reverse_toList, splitIndex_append spells.allDigits, notEmpty,
    Bool.false_eq_true, ↓reduceIte, List.reverse_reverse, String.ofList_toList]
  split
  · rename_i bit read
    rcases (Text.readDigits_eq_ok_iff (Nat.zero_le _)).mp read with ⟨_, isValue, atMost⟩
    rw [← isValue, if_pos (by omega)]
  · rename_i read
    rw [if_neg]
    intro within
    have readValue := Text.readDigits_of_le .tooLarge spells.allDigits
      (show Nat.ofDigitChars 10 digits 0 ≤ indexBound - 1 by omega)
    simp [readValue] at read

theorem spells_of_ofName?_eq_some {spelled : VectorBit} (isBit : ofName? name = some spelled) :
    ∃ digits, Spells name spelled.base digits := by
  unfold ofName? at isBit
  split at isBit
  · rename_i body reversed
    split at isBit
    · rename_i digits base parted
      simp only [splitIndex_eq, Prod.mk.injEq] at parted
      have whole : body = digits.reverse ++ '<' :: base := by
        rw [← parted.1, ← parted.2, List.reverse_reverse, List.takeWhile_append_dropWhile]
      split at isBit
      · contradiction
      · rename_i notEmpty
        simp only [Bool.or_eq_true, List.isEmpty_iff, not_or] at notEmpty
        split at isBit
        · rename_i bit read
          obtain rfl := Option.some.inj isBit
          refine ⟨digits, ?_, ?_, notEmpty.1, ?_⟩
          · rw [← String.toList_inj, ← List.reverse_inj, reversed, whole]
            simp
          · simpa using notEmpty.2
          · exact ((Text.readDigits_eq_ok_iff (Nat.zero_le _)).mp read).1
        · contradiction
    · contradiction
  · contradiction

theorem ofName?_eq_some_iff {bit : Nat} :
    ofName? name = some { base, bit } ↔
      ∃ digits, Spells name base digits ∧ bit = Nat.ofDigitChars 10 digits 0 ∧
        bit < indexBound := by
  constructor
  · intro isBit
    rcases spells_of_ofName?_eq_some isBit with ⟨digits, spells⟩
    rw [ofName?_of_spells spells] at isBit
    simp only [Option.ite_none_right_eq_some, Option.some.injEq, mk.injEq, true_and] at isBit
    rcases isBit with ⟨within, rfl⟩
    exact ⟨digits, spells, rfl, within⟩
  · rintro ⟨digits, spells, rfl, within⟩
    rw [ofName?_of_spells spells, if_pos within]

theorem spells_repr (someBase : base ≠ "") (bit : Nat) :
    Spells (base ++ "<" ++ bit.repr ++ ">") base bit.repr.toList where
  parts := by rw [String.ofList_toList]
  someBase := someBase
  someDigit := Text.repr_toList_ne_nil bit
  allDigits := fun _ => Text.isDigit_of_mem_repr

end Grammar

/-! ## Reading bytes -/

/-- The bytes that a text is kept in. -/
def keptBytes (text : List Char) : List UInt8 :=
  (String.ofList text).toUTF8.data.toList

/-- Cuts a text behind a number of its bytes. There is no result unless the cut falls between two
characters or at an end of the text. -/
def cutBehind? : Nat → List Char → Option (List Char × List Char)
  | 0, text => some ([], text)
  | _ + 1, [] => none
  | count + 1, char :: rest =>
    if char.utf8Size ≤ count + 1 then
      (cutBehind? (count + 1 - char.utf8Size) rest).map fun (front, back) => (char :: front, back)
    else
      none

def isDigitByte (byte : UInt8) : Bool :=
  48 ≤ byte.toNat && byte.toNat ≤ 57

/-- The place behind the last byte that is no digit, or the start if there is none. -/
def digitsStart (bytes : List UInt8) : Nat :=
  match bytes.reverse.findIdx? fun byte => !isDigitByte byte with
  | none => 0
  | some passed => bytes.length - passed

/-- Reads a name by scanning its bytes from the end. There is no result at all if a cut would fall
inside a character. -/
def ofBytes? (name : String) : Option (Option VectorBit) :=
  match ['>'].isSuffixOf? name.toList with
  | none => some none
  | some body =>
    (cutBehind? (digitsStart (keptBytes body)) body).map fun (front, digits) =>
      match ['<'].isSuffixOf? front with
      | none => none
      | some base =>
        if digits.isEmpty || base.isEmpty then
          none
        else
          match Text.readNat (indexBound - 1) digits with
          | .ok bit => some { base := String.ofList base, bit }
          | .error _ => none

section Bytes

theorem keptBytes_eq (text : List Char) : keptBytes text = text.flatMap String.utf8EncodeChar := by
  rw [keptBytes, String.toUTF8_eq_toByteArray, String.toByteArray_ofList]
  simp [List.utf8Encode]

theorem keptBytes_append (front back : List Char) :
    keptBytes (front ++ back) = keptBytes front ++ keptBytes back := by
  simp only [keptBytes_eq, List.flatMap_append]

theorem length_keptBytes (text : List Char) :
    (keptBytes text).length = (text.map Char.utf8Size).sum := by
  simp only [keptBytes_eq, List.length_flatMap, String.length_utf8EncodeChar]

/-- Behind the bytes of a beginning is a place to cut. -/
theorem cutBehind?_append (front back : List Char) :
    cutBehind? (keptBytes front).length (front ++ back) = some (front, back) := by
  rw [length_keptBytes]
  induction front with
  | nil => rw [List.map_nil, List.sum_nil, cutBehind?, List.nil_append]
  | cons char rest ih =>
      have positive := char.utf8Size_pos
      obtain ⟨count, isSucc⟩ : ∃ count, ((char :: rest).map Char.utf8Size).sum = count + 1 :=
        Nat.exists_eq_add_one.mpr (by rw [List.map_cons, List.sum_cons]; omega)
      have left : count + 1 - char.utf8Size = (rest.map Char.utf8Size).sum := by
        rw [← isSucc, List.map_cons, List.sum_cons, Nat.add_sub_cancel_left]
      have fits : char.utf8Size ≤ count + 1 := by
        rw [← isSucc, List.map_cons, List.sum_cons]
        exact Nat.le_add_right _ _
      rw [isSucc, List.cons_append, cutBehind?, if_pos fits, left, ih, Option.map_some]

theorem isDigit_iff_toNat {char : Char} :
    char.isDigit ↔ 48 ≤ char.val.toNat ∧ char.val.toNat ≤ 57 := by
  simp [Char.isDigit, UInt32.le_iff_toNat_le]

/-- A byte that looks like a digit is one: the bytes of longer characters are out of its range. -/
theorem isDigitByte_iff_of_mem {char : Char} {byte : UInt8}
    (member : byte ∈ String.utf8EncodeChar char) : isDigitByte byte ↔ char.isDigit := by
  rw [isDigit_iff_toNat]
  simp only [isDigitByte, Bool.and_eq_true, decide_eq_true_eq]
  unfold String.utf8EncodeChar at member
  dsimp only at member
  split at member
  · rename_i short
    rw [List.mem_singleton] at member
    subst member
    simp only [UInt8.toNat_ofNat']
    omega
  · split at member
    · simp only [List.mem_cons, List.not_mem_nil, or_false] at member
      rcases member with rfl | rfl <;> simp only [UInt8.toNat_ofNat'] <;> omega
    · split at member
      · simp only [List.mem_cons, List.not_mem_nil, or_false] at member
        rcases member with rfl | rfl | rfl <;> simp only [UInt8.toNat_ofNat'] <;> omega
      · simp only [List.mem_cons, List.not_mem_nil, or_false] at member
        rcases member with rfl | rfl | rfl | rfl <;> simp only [UInt8.toNat_ofNat'] <;> omega

theorem forall_mem_keptBytes {digits : List Char} (allDigits : ∀ char ∈ digits, char.isDigit) :
    ∀ byte ∈ keptBytes digits, isDigitByte byte := by
  intro byte member
  rw [keptBytes_eq, List.mem_flatMap] at member
  rcases member with ⟨char, charMem, byteMem⟩
  exact (isDigitByte_iff_of_mem byteMem).mpr (allDigits char charMem)

theorem findIdx?_keptBytes_concat {last : Char} (notDigit : last.isDigit = false)
    (front : List Char) :
    (keptBytes (front ++ [last])).reverse.findIdx? (fun byte => !isDigitByte byte) = some 0 := by
  rw [keptBytes_append, List.reverse_append]
  have lastBytes : keptBytes [last] = String.utf8EncodeChar last := by
    simp [keptBytes_eq]
  have someByte : (String.utf8EncodeChar last).reverse ≠ [] := by
    rw [ne_eq, List.reverse_eq_nil_iff, ← List.length_eq_zero_iff, String.length_utf8EncodeChar]
    exact Nat.ne_of_gt last.utf8Size_pos
  rcases List.exists_cons_of_ne_nil someByte with ⟨byte, others, isCons⟩
  have byteMem : byte ∈ String.utf8EncodeChar last := by
    rw [← List.mem_reverse, isCons]
    exact List.mem_cons_self
  have noDigitByte : isDigitByte byte = false := by
    rw [Bool.eq_false_iff]
    intro isDigit
    rw [(isDigitByte_iff_of_mem byteMem).mp isDigit] at notDigit
    contradiction
  rw [lastBytes, isCons, List.cons_append, List.findIdx?_cons, noDigitByte]
  rfl

/-- The scan stops behind the last character that is no digit. -/
theorem digitsStart_keptBytes {front digits : List Char}
    (notDigit : ∀ last ∈ front.getLast?, last.isDigit = false)
    (allDigits : ∀ char ∈ digits, char.isDigit) :
    digitsStart (keptBytes (front ++ digits)) = (keptBytes front).length := by
  have passed : (keptBytes digits).reverse.findIdx? (fun byte => !isDigitByte byte) = none := by
    rw [List.findIdx?_eq_none_iff]
    intro byte member
    rw [forall_mem_keptBytes allDigits byte (List.mem_reverse.mp member), Bool.not_true]
  simp only [digitsStart, keptBytes_append, List.reverse_append, List.findIdx?_append, passed,
    Option.none_or]
  rcases front.eq_nil_or_concat' with rfl | ⟨earlier, last, rfl⟩
  · simp [keptBytes_eq]
  · have lastNotDigit : last.isDigit = false := notDigit last (by simp)
    simp only [findIdx?_keptBytes_concat lastNotDigit, Option.map_some, List.length_append,
      List.length_reverse]
    omega

/-- A text parts at the place behind its last character that is no digit. -/
theorem exists_splitIndex (body : List Char) :
    ∃ front digits, body = front ++ digits ∧ splitIndex body.reverse = (digits, front.reverse) ∧
      (∀ last ∈ front.getLast?, last.isDigit = false) ∧ ∀ char ∈ digits, char.isDigit := by
  refine ⟨(body.reverse.dropWhile Char.isDigit).reverse,
    (body.reverse.takeWhile Char.isDigit).reverse, ?_, ?_, ?_, ?_⟩
  · rw [← List.reverse_append, List.takeWhile_append_dropWhile, List.reverse_reverse]
  · rw [splitIndex_eq, List.reverse_reverse]
  · intro last isLast
    rw [List.getLast?_reverse] at isLast
    have kept := List.head?_dropWhile_not Char.isDigit body.reverse
    rw [Option.mem_def.mp isLast] at kept
    simpa using kept
  · intro char member
    exact List.all_eq_true.mp (List.all_takeWhile (l := body.reverse)) char
      (List.mem_reverse.mp member)

theorem isSuffixOf?_concat (mark last : Char) (front : List Char) :
    [mark].isSuffixOf? (front ++ [last]) = if last = mark then some front else none := by
  split
  · rename_i same
    rw [List.isSuffixOf?_eq_some_iff_append_eq, same]
  · rename_i differ
    rw [Option.eq_none_iff_forall_ne_some]
    intro rest isRest
    rw [List.isSuffixOf?_eq_some_iff_append_eq] at isRest
    have sameLast := (List.append_inj' isRest rfl).2
    exact differ (List.singleton_inj.mp sameLast).symm

/-- Reading by bytes always comes to a result, and it is the one that characters give. -/
theorem ofBytes?_eq (name : String) : ofBytes? name = some (ofName? name) := by
  unfold ofBytes? ofName?
  rcases name.toList.eq_nil_or_concat' with isEmpty | ⟨body, last, whole⟩
  · rw [isEmpty]
    rfl
  · rw [whole, isSuffixOf?_concat, List.reverse_append, List.reverse_singleton,
      List.singleton_append]
    by_cases marked : last = '>'
    · rcases exists_splitIndex body with ⟨front, digits, rfl, parted, notDigit, allDigits⟩
      subst marked
      simp only [↓reduceIte, digitsStart_keptBytes notDigit allDigits, cutBehind?_append,
        Option.map_some, parted, Option.some.injEq]
      rcases front.eq_nil_or_concat' with rfl | ⟨base, bracket, rfl⟩
      · rfl
      · rw [isSuffixOf?_concat, List.reverse_append, List.reverse_singleton, List.singleton_append]
        by_cases opened : bracket = '<'
        · subst opened
          by_cases someDigit : digits = []
          · simp [someDigit]
          · cases read : Text.readDigits (indexBound - 1) .tooLarge 0 digits <;>
              simp [Text.readNat_eq_readDigits someDigit allDigits, read]
        · simp [opened]
    · simp [marked]

end Bytes

/-- Names of vector bits are exactly the texts of their grammar, each of which has one reading: a
base, digits of any number between brackets, and a value below the bound. Printing a bit behind any
base is read back, and reading the bytes of a name instead of its characters comes to the same
result without ever cutting a character. -/
theorem ofName?_grammar :
    (∀ name base bit, ofName? name = some { base, bit } ↔
      ∃ digits, Spells name base digits ∧ bit = Nat.ofDigitChars 10 digits 0 ∧ bit < 2 ^ 32) ∧
    (∀ name, ofName? name = none ↔
      ¬ ∃ base digits, Spells name base digits ∧ Nat.ofDigitChars 10 digits 0 < 2 ^ 32) ∧
    (∀ name base digits otherBase otherDigits, Spells name base digits →
      Spells name otherBase otherDigits → base = otherBase ∧ digits = otherDigits) ∧
    (∀ base bit, base ≠ "" → bit < 2 ^ 32 →
      ofName? (base ++ "<" ++ bit.repr ++ ">") = some { base, bit }) ∧
    ∀ name, ofBytes? name = some (ofName? name) := by
  have bound : indexBound = 2 ^ 32 := by decide
  refine ⟨?_, ?_, ?_, ?_, ofBytes?_eq⟩
  · intro name base bit
    rw [ofName?_eq_some_iff, bound]
  · intro name
    rw [Option.eq_none_iff_forall_ne_some]
    constructor
    · rintro noBit ⟨base, digits, spells, within⟩
      exact noBit _ (ofName?_eq_some_iff.mpr ⟨digits, spells, rfl, bound ▸ within⟩)
    · rintro none ⟨base, bit⟩ isBit
      rcases ofName?_eq_some_iff.mp isBit with ⟨digits, spells, rfl, within⟩
      exact none ⟨base, digits, spells, bound ▸ within⟩
  · intro name base digits otherBase otherDigits spells other
    exact spells.unique other
  · intro base bit someBase within
    apply ofName?_eq_some_iff.mpr
    refine ⟨_, spells_repr someBase bit, ?_, bound ▸ within⟩
    rw [Nat.toList_repr, Nat.ofDigitChars_ten_toDigits]

/-- A base of several bytes a character that ends like a vector bit itself, and an index behind
leading zeros. -/
theorem ofName?_grammar_nestedBase :
    "Δ<1>" ≠ "" ∧ 7 < 2 ^ 32 ∧ Spells "Δ<1><007>" "Δ<1>" "007".toList ∧
      ofName? "Δ<1><007>" = some { base := "Δ<1>", bit := 7 } ∧
      ofName? ("Δ<1>" ++ "<" ++ (7).repr ++ ">") = some { base := "Δ<1>", bit := 7 } ∧
      ofBytes? "Δ<1><007>" = some (some { base := "Δ<1>", bit := 7 }) := by
  have spells : Spells "Δ<1><007>" "Δ<1>" "007".toList :=
    { parts := by decide, someBase := by decide, someDigit := by decide, allDigits := by simp }
  rcases ofName?_grammar with ⟨reads, _, _, printed, bytes⟩
  have isBit := (reads "Δ<1><007>" "Δ<1>" 7).mpr ⟨"007".toList, spells, by decide, by decide⟩
  refine ⟨by decide, by decide, spells, isBit, printed "Δ<1>" 7 (by decide) (by decide), ?_⟩
  rw [bytes, isBit]

end VectorBit

end WaveDump
