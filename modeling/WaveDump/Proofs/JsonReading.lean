import Mathlib.Data.List.Nodup
import WaveDump.Proofs.LineReader
import WaveDump.Proofs.NumberText
import WaveDump.Text.Json

/-!
# Reading JSON text

JSON is read in two passes. The first cuts a text into tokens: it looks at one character after the
other and knows whether it stands in a word, in a text or in an escape. The second puts values
together from the tokens and keeps the arrays and objects that are still open. Reading what was
printed gives back the value, whatever characters its texts hold.
-/

namespace WaveDump.Text.Json

/-! ## Tokens -/

inductive Token where
  | mark (char : Char)
  | word (chars : List Char)
  | text (content : String)
deriving DecidableEq, Repr

/-- Where in a token a text has been read to. -/
inductive Lexing where
  | between
  | word (chars : List Char)
  | text (content : List Char)
  | escape (content : List Char)
  /-- In the number of a character, before the given count of further digits. -/
  | code (content : List Char) (digits value : Nat)
deriving DecidableEq, Repr

def marks : List Char :=
  ['[', ']', '\x7b', '\x7d', ',', ':']

def spaces : List Char :=
  [' ', '\n', '\r', '\t']

def endsWord (char : Char) : Bool :=
  ('"' :: marks ++ spaces).contains char

/-- The token that a character is, if it is one, and what it begins. -/
def begin (char : Char) : List Token × Lexing :=
  if char = '"' then ([], .text [])
  else if marks.contains char then ([.mark char], .between)
  else if spaces.contains char then ([], .between)
  else ([], .word [char])

def unescape? : Char → Option Char
  | '"' => some '"'
  | '\\' => some '\\'
  | '/' => some '/'
  | 'n' => some '\n'
  | 'r' => some '\r'
  | 't' => some '\t'
  | 'b' => some '\x08'
  | 'f' => some '\x0c'
  | _ => none

def hexValue? (char : Char) : Option Nat :=
  if char.isDigit then some (char.toNat - '0'.toNat)
  else if 'a' ≤ char ∧ char ≤ 'f' then some (char.toNat - 'a'.toNat + 10)
  else if 'A' ≤ char ∧ char ≤ 'F' then some (char.toNat - 'A'.toNat + 10)
  else none

/-- The tokens of a text from the given place in a token on. -/
def lex : Lexing → List Char → Option (List Token)
  | .between, [] => some []
  | .word chars, [] => some [.word chars]
  | .text _, [] | .escape _, [] | .code _ _ _, [] => none
  | .between, char :: rest => (lex (begin char).2 rest).map ((begin char).1 ++ ·)
  | .word chars, char :: rest =>
    if endsWord char then (lex (begin char).2 rest).map (.word chars :: (begin char).1 ++ ·)
    else lex (.word (chars ++ [char])) rest
  | .text content, char :: rest =>
    if char = '"' then (lex .between rest).map (.text (String.ofList content) :: ·)
    else if char = '\\' then lex (.escape content) rest
    else if char.toNat < 0x20 then none
    else lex (.text (content ++ [char])) rest
  | .escape content, char :: rest =>
    if char = 'u' then lex (.code content 3 0) rest
    else
      match unescape? char with
      | some meant => lex (.text (content ++ [meant])) rest
      | none => none
  | .code content digits value, char :: rest =>
    match hexValue? char, digits with
    | none, _ => none
    | some digit, digits + 1 => lex (.code content digits (16 * value + digit)) rest
    | some digit, 0 =>
      if (16 * value + digit).isValidChar then
        lex (.text (content ++ [Char.ofNat (16 * value + digit)])) rest
      else
        none

def tokens? (text : List Char) : Option (List Token) :=
  lex .between text

/-! ## Values -/

/-- An array or an object that has been opened, with what it holds so far. -/
inductive Frame where
  | array (elements : List Json)
  | object (fields : List (String × Json))
  /-- An object in which a field of the given name comes next. -/
  | field (fields : List (String × Json)) (name : String)

/-- What comes next. Behind an opening bracket it may be closed at once. -/
inductive Due where
  | value
  | firstElement
  | name
  | firstName
  | colon
  | separator
  | nothing (whole : Json)

/-- The frames that are open, the innermost first, and what comes next. -/
structure Assembly where
  frames : List Frame
  due : Due

namespace Assembly

def put (value : Json) : List Frame → Option Assembly
  | [] => some { frames := [], due := .nothing value }
  | .array elements :: frames =>
    some { frames := .array (elements ++ [value]) :: frames, due := .separator }
  | .field fields name :: frames =>
    some { frames := .object (fields ++ [(name, value)]) :: frames, due := .separator }
  | .object _ :: _ => none

def wordValue? (chars : List Char) : Option Json :=
  if chars = "null".toList then some .null
  else if chars = "true".toList then some (.bool true)
  else if chars = "false".toList then some (.bool false)
  else (readDecimal? chars).map .number

def takeValue (frames : List Frame) : Token → Option Assembly
  | .word chars =>
    match wordValue? chars with
    | some value => put value frames
    | none => none
  | .text content => put (.text content) frames
  | .mark '[' => some { frames := .array [] :: frames, due := .firstElement }
  | .mark '\x7b' => some { frames := .object [] :: frames, due := .firstName }
  | .mark _ => none

def takeName : List Frame → Token → Option Assembly
  | .object fields :: frames, .text name =>
    some { frames := .field fields name :: frames, due := .colon }
  | _, _ => none

def takeEnd : List Frame → Token → Option Assembly
  | .array elements :: frames, .mark ']' => put (.array elements) frames
  | .object fields :: frames, .mark '\x7d' => put (.object fields) frames
  | _, _ => none

def takeComma : List Frame → Token → Option Assembly
  | .array elements :: frames, .mark ',' =>
    some { frames := .array elements :: frames, due := .value }
  | .object fields :: frames, .mark ',' =>
    some { frames := .object fields :: frames, due := .name }
  | _, _ => none

def take (assembly : Assembly) (token : Token) : Option Assembly :=
  match assembly.due with
  | .value => takeValue assembly.frames token
  | .firstElement => (takeEnd assembly.frames token).or (takeValue assembly.frames token)
  | .name => takeName assembly.frames token
  | .firstName => (takeEnd assembly.frames token).or (takeName assembly.frames token)
  | .colon => if token = .mark ':' then some { assembly with due := .value } else none
  | .separator => (takeEnd assembly.frames token).or (takeComma assembly.frames token)
  | .nothing _ => none

end Assembly

/-- The value that a text spells. -/
def read? (text : List Char) : Option Json :=
  (tokens? text).bind fun tokens =>
    (tokens.foldlM Assembly.take { frames := [], due := .value }).bind fun assembly =>
      match assembly.due with
      | .nothing whole => some whole
      | _ => none

/-! ## The tokens of a value -/

mutual

def tokens : Json → List Token
  | .null => [.word "null".toList]
  | .bool true => [.word "true".toList]
  | .bool false => [.word "false".toList]
  | .number value => [.word (Nat.toDigits 10 value)]
  | .text value => [.text value]
  | .array elements => .mark '[' :: (elementTokens elements ++ [.mark ']'])
  | .object fields => .mark '\x7b' :: (fieldTokens fields ++ [.mark '\x7d'])

def elementTokens : List Json → List Token
  | [] => []
  | [last] => last.tokens
  | element :: rest => element.tokens ++ .mark ',' :: elementTokens rest

def fieldTokens : List (String × Json) → List Token
  | [] => []
  | [(name, last)] => .text name :: .mark ':' :: last.tokens
  | (name, value) :: rest =>
    .text name :: .mark ':' :: (value.tokens ++ .mark ',' :: fieldTokens rest)

end

/-! ## From characters to tokens -/

section Lexing

variable {char : Char} {rest : List Char}

theorem hexValue?_hexDigit : ∀ value < 16, hexValue? (hexDigit value) = some value := by
  decide

theorem lex_escape (content : List Char) (char : Char) (rest : List Char) :
    lex (.text content) (escape char ++ rest) = lex (.text (content ++ [char])) rest := by
  unfold escape
  split
  all_goals try rfl
  split
  · -- A control character is written as its number, of which two digits are zero.
    rename_i control
    have high := hexValue?_hexDigit (char.toNat / 16) (by omega)
    have low := hexValue?_hexDigit (char.toNat % 16) (by omega)
    have value : 16 * (char.toNat / 16) + char.toNat % 16 = char.toNat := Nat.div_add_mod _ _
    have valid : char.toNat.isValidChar := char.valid
    have zero : hexValue? '0' = some 0 := by decide
    simp [lex, high, low, value, valid, zero]
  · rename_i isQuote isSlash _ _ _ _ _ shown
    have notQuote : char ≠ '"' := isQuote
    have notSlash : char ≠ '\\' := isSlash
    simp [lex, notQuote, notSlash, shown]

theorem lex_escaped (content chars : List Char) (rest : List Char) :
    lex (.text content) (chars.flatMap escape ++ '"' :: rest) =
      (lex .between rest).map (.text (String.ofList (content ++ chars)) :: ·) := by
  induction chars generalizing content with
  | nil => simp [lex]
  | cons char others ih =>
      rw [List.flatMap_cons, List.append_assoc, lex_escape, ih, List.append_assoc,
        List.singleton_append]

theorem lex_quote (text : String) (rest : List Char) :
    lex .between ((quote text).toList ++ rest) = (lex .between rest).map (.text text :: ·) := by
  have opened : begin '"' = ([], .text []) := rfl
  simp only [quote, String.toList_ofList, List.cons_append, List.append_assoc, List.nil_append, lex,
    opened, lex_escaped, Option.map_map, String.ofList_toList]
  rfl

theorem lex_mark (isMark : char ∈ marks) (rest : List Char) :
    lex .between (char :: rest) = (lex .between rest).map (.mark char :: ·) := by
  have begins : ∀ char ∈ marks, begin char = ([.mark char], .between) := by
    simp [marks, begin]
  rw [lex, begins char isMark]
  rfl

theorem lex_spaces {gap : List Char} (areSpaces : ∀ char ∈ gap, char ∈ spaces)
    (rest : List Char) : lex .between (gap ++ rest) = lex .between rest := by
  have begins : ∀ char ∈ spaces, begin char = ([], .between) := by
    simp [marks, spaces, begin]
  induction gap with
  | nil => rfl
  | cons char others ih =>
      rw [List.cons_append, lex, begins char (areSpaces char List.mem_cons_self),
        ih fun other member => areSpaces other (List.mem_cons_of_mem char member)]
      simp

theorem lex_rest_of_word {chars : List Char} (taken : List Char)
    (inside : ∀ char ∈ chars, endsWord char = false) (ended : ∀ char ∈ rest.head?, endsWord char) :
    lex (.word taken) (chars ++ rest) = (lex .between rest).map (.word (taken ++ chars) :: ·) := by
  induction chars generalizing taken with
  | nil =>
      cases rest with
      | nil => simp [lex]
      | cons char others =>
          have ends : endsWord char := ended char rfl
          simp [lex, ends, Function.comp_def]
  | cons char others ih =>
      have goesOn := inside char List.mem_cons_self
      have othersInside : ∀ other ∈ others, endsWord other = false := fun other member =>
        inside other (List.mem_cons_of_mem char member)
      simp only [List.cons_append, lex, goesOn, Bool.false_eq_true, ↓reduceIte, ih _ othersInside,
        List.append_assoc, List.nil_append]

/-- A word reaches to the first character that cannot be part of it. -/
theorem lex_word {chars : List Char} (someChar : chars ≠ [])
    (inside : ∀ char ∈ chars, endsWord char = false) (ended : ∀ char ∈ rest.head?, endsWord char) :
    lex .between (chars ++ rest) = (lex .between rest).map (.word chars :: ·) := by
  rcases List.exists_cons_of_ne_nil someChar with ⟨first, others, rfl⟩
  have goesOn := inside first List.mem_cons_self
  have begins : begin first = ([], .word [first]) := by
    simp only [endsWord, List.contains_eq_mem, List.mem_cons, List.mem_append,
      decide_eq_false_iff_not, not_or, List.cons_append] at goesOn
    simp [begin, goesOn]
  have othersInside : ∀ other ∈ others, endsWord other = false := fun other member =>
    inside other (List.mem_cons_of_mem first member)
  rw [List.cons_append, lex, begins]
  simp only [List.nil_append, Option.map_id', lex_rest_of_word [first] othersInside ended,
    List.singleton_append]

end Lexing

/-! ## The tokens of a printed value -/

theorem endsWord_of_isDigit {char : Char} (isDigit : char.isDigit) : endsWord char = false := by
  have noDigit : ∀ char ∈ '"' :: marks ++ spaces, char.isDigit = false := by
    simp [marks, spaces]
  rw [← Bool.not_eq_true]
  intro ends
  rw [noDigit char (List.contains_iff_mem.mp ends)] at isDigit
  contradiction

theorem ended_of_endsWord (char : Char) (ends : endsWord char) (after : List Char) :
    ∀ next ∈ (char :: after).head?, endsWord next := by
  rintro _ ⟨⟩
  exact ends

theorem lex_space {char : Char} (isSpace : char ∈ spaces) (rest : List Char) :
    lex .between (char :: rest) = lex .between rest := by
  apply @lex_spaces [char]
  simpa using isSpace

theorem lex_indent (depth : Nat) (rest : List Char) :
    lex .between ((indent depth).toList ++ rest) = lex .between rest := by
  apply lex_spaces
  rw [indent, String.toList_ofList]
  intro char member
  rw [List.eq_of_mem_replicate member]
  decide

/-- The marks of an array or an object are on lines of their own; what is between them is indented
further. -/
theorem lex_enclosed {opening closing : Char} (opens : opening ∈ marks) (closes : closing ∈ marks)
    (depth : Nat) {content : List Char} {inside : List Token} (rest : List Char)
    (read : ∀ rest, lex .between (content ++ rest) = (lex .between rest).map (inside ++ ·)) :
    lex .between (opening :: '\n' :: (content ++ ((indent depth).toList ++ closing :: rest))) =
      (lex .between rest).map (.mark opening :: (inside ++ [.mark closing]) ++ ·) := by
  rw [lex_mark opens, lex_space (by decide), read, lex_indent, lex_mark closes]
  simp [Function.comp_def]

mutual

/-- A value that was printed is cut into its tokens, if what follows ends a word. -/
theorem lex_render (depth : Nat) (value : Json) {rest : List Char}
    (ended : ∀ char ∈ rest.head?, endsWord char) :
    lex .between ((value.render depth).toList ++ rest) =
      (lex .between rest).map (value.tokens ++ ·) := by
  cases value with
  | null =>
      rw [render, tokens]
      exact lex_word (by decide) (by simp [endsWord, marks, spaces]) ended
  | bool value =>
      cases value with
      | true =>
          rw [render, tokens]
          exact lex_word (by decide) (by simp [endsWord, marks, spaces]) ended
      | false =>
          rw [render, tokens]
          exact lex_word (by decide) (by simp [endsWord, marks, spaces]) ended
  | number value =>
      rw [render, tokens, Nat.toList_repr]
      apply lex_word Nat.toDigits_ne_nil _ ended
      intro char member
      exact endsWord_of_isDigit (isDigit_of_mem_toDigits member)
  | text value =>
      rw [render, tokens]
      exact lex_quote value rest
  | array elements =>
      cases elements with
      | nil =>
          have closed := lex_mark (show ']' ∈ marks by decide) rest
          have opened := lex_mark (show '[' ∈ marks by decide) (']' :: rest)
          simpa [render, tokens, elementTokens, closed, Function.comp_def] using opened
      | cons element others =>
          have enclosed := lex_enclosed (show '[' ∈ marks by decide) (show ']' ∈ marks by decide)
            depth rest (lex_renderElements (depth + 1) (element :: others))
          simpa [render, tokens] using enclosed
  | object fields =>
      cases fields with
      | nil =>
          have closed := lex_mark (show '\x7d' ∈ marks by decide) rest
          have opened := lex_mark (show '\x7b' ∈ marks by decide) ('\x7d' :: rest)
          simpa [render, tokens, fieldTokens, closed, Function.comp_def] using opened
      | cons field others =>
          have enclosed := lex_enclosed (show '\x7b' ∈ marks by decide)
            (show '\x7d' ∈ marks by decide) depth rest
            (lex_renderFields (depth + 1) (field :: others))
          simpa [render, tokens] using enclosed

theorem lex_renderElements (depth : Nat) (elements : List Json) (rest : List Char) :
    lex .between ((renderElements depth elements).toList ++ rest) =
      (lex .between rest).map (elementTokens elements ++ ·) := by
  cases elements with
  | nil => simp [renderElements, elementTokens]
  | cons element others =>
      cases others with
      | nil =>
          have last := lex_render depth element (ended_of_endsWord '\n' (by decide) rest)
          rw [lex_space (by decide)] at last
          simpa [renderElements, elementTokens, lex_indent] using last
      | cons next more =>
          have here := lex_render depth element (ended_of_endsWord ',' (by decide)
            ('\n' :: ((renderElements depth (next :: more)).toList ++ rest)))
          rw [lex_mark (by decide), lex_space (by decide),
            lex_renderElements depth (next :: more) rest] at here
          simpa [renderElements, elementTokens, lex_indent, Function.comp_def] using here

theorem lex_renderFields (depth : Nat) (fields : List (String × Json)) (rest : List Char) :
    lex .between ((renderFields depth fields).toList ++ rest) =
      (lex .between rest).map (fieldTokens fields ++ ·) := by
  cases fields with
  | nil => simp [renderFields, fieldTokens]
  | cons field others =>
      rcases field with ⟨name, value⟩
      have named (after : List Char) :
          lex .between ((quote name).toList ++ ':' :: ' ' :: after) =
            (lex .between after).map ([.text name, .mark ':'] ++ ·) := by
        rw [lex_quote, lex_mark (by decide), lex_space (by decide)]
        simp [Function.comp_def]
      cases others with
      | nil =>
          have last := lex_render depth value (ended_of_endsWord '\n' (by decide) rest)
          rw [lex_space (by decide)] at last
          simp [renderFields, fieldTokens, lex_indent, named, last, Function.comp_def]
      | cons next more =>
          have here := lex_render depth value (ended_of_endsWord ',' (by decide)
            ('\n' :: ((renderFields depth (next :: more)).toList ++ rest)))
          rw [lex_mark (by decide), lex_space (by decide),
            lex_renderFields depth (next :: more) rest] at here
          simp [renderFields, fieldTokens, lex_indent, named, here, Function.comp_def]

end

/-! ## From tokens to values -/

namespace Assembly

theorem wordValue?_toDigits (value : Nat) :
    wordValue? (Nat.toDigits 10 value) = some (.number value) := by
  -- The three words hold letters.
  have noWord {word : List Char} (letter : ∃ char ∈ word, char.isDigit = false) :
      Nat.toDigits 10 value ≠ word := by
    rintro rfl
    rcases letter with ⟨char, member, noDigit⟩
    rw [isDigit_of_mem_toDigits member] at noDigit
    contradiction
  rw [wordValue?, if_neg (noWord (by simp)), if_neg (noWord (by simp)), if_neg (noWord (by simp)),
    readDecimal?_toDigits]
  rfl

/-- Behind an opening bracket the first element is read as any other value. -/
theorem foldlM_firstElement (frames : List Frame) (element : Json) (others : List Json) :
    (elementTokens (element :: others)).foldlM take
        { frames := .array [] :: frames, due := .firstElement } =
      (elementTokens (element :: others)).foldlM take
        { frames := .array [] :: frames, due := .value } := by
  have asValue (rest : List Token) :
      (element.tokens ++ rest).foldlM take
          { frames := .array [] :: frames, due := .firstElement } =
        (element.tokens ++ rest).foldlM take { frames := .array [] :: frames, due := .value } := by
    cases element with
    | bool value => cases value <;> simp [tokens, take, takeEnd]
    | _ => simp [tokens, take, takeEnd]
  cases others with
  | nil => simpa [elementTokens] using asValue []
  | cons next more =>
      simpa [elementTokens] using asValue (.mark ',' :: elementTokens (next :: more))

theorem foldlM_firstName (frames : List Frame) (field : String × Json)
    (others : List (String × Json)) :
    (fieldTokens (field :: others)).foldlM take
        { frames := .object [] :: frames, due := .firstName } =
      (fieldTokens (field :: others)).foldlM take
        { frames := .object [] :: frames, due := .name } := by
  cases others <;> simp [fieldTokens, take, takeEnd]

theorem take_end_of_array (frames : List Frame) (elements : List Json) {due : Due}
    (mayEnd : due = .firstElement ∨ due = .separator) :
    take { frames := .array elements :: frames, due } (.mark ']') =
      put (.array elements) frames := by
  rcases mayEnd with rfl | rfl <;> simp [take, takeEnd, takeValue, takeComma]

theorem take_end_of_object (frames : List Frame) (fields : List (String × Json)) {due : Due}
    (mayEnd : due = .firstName ∨ due = .separator) :
    take { frames := .object fields :: frames, due } (.mark '\x7d') =
      put (.object fields) frames := by
  rcases mayEnd with rfl | rfl <;> simp [take, takeEnd, takeName, takeComma]

mutual

/-- The tokens of a value are put together to this value. -/
theorem foldlM_tokens (frames : List Frame) (value : Json) :
    value.tokens.foldlM take { frames, due := .value } = put value frames := by
  cases value with
  | null => simp [tokens, take, takeValue, wordValue?]
  | bool value => cases value <;> simp [tokens, take, takeValue, wordValue?]
  | number value => simp [tokens, take, takeValue, wordValue?_toDigits]
  | text value => simp [tokens, take, takeValue]
  | array elements =>
      have opened : take { frames, due := .value } (.mark '[') =
          some { frames := .array [] :: frames, due := .firstElement } := rfl
      cases elements with
      | nil => simp [tokens, elementTokens, opened, take_end_of_array]
      | cons element others =>
          have inside := foldlM_elementTokens frames [] (element :: others)
            (List.cons_ne_nil element others)
          rw [← foldlM_firstElement, List.nil_append] at inside
          simp [tokens, opened, inside, take_end_of_array]
  | object fields =>
      have opened : take { frames, due := .value } (.mark '\x7b') =
          some { frames := .object [] :: frames, due := .firstName } := rfl
      cases fields with
      | nil => simp [tokens, fieldTokens, opened, take_end_of_object]
      | cons field others =>
          have inside := foldlM_fieldTokens frames [] (field :: others)
            (List.cons_ne_nil field others)
          rw [← foldlM_firstName, List.nil_append] at inside
          simp [tokens, opened, inside, take_end_of_object]

theorem foldlM_elementTokens (frames : List Frame) (taken elements : List Json)
    (someElement : elements ≠ []) :
    (elementTokens elements).foldlM take { frames := .array taken :: frames, due := .value } =
      some { frames := .array (taken ++ elements) :: frames, due := .separator } := by
  cases elements with
  | nil => contradiction
  | cons element others =>
      have first := foldlM_tokens (.array taken :: frames) element
      rw [put] at first
      cases others with
      | nil => simpa [elementTokens] using first
      | cons next more =>
          have rest := foldlM_elementTokens frames (taken ++ [element]) (next :: more)
            (List.cons_ne_nil next more)
          simp [elementTokens, first, take, takeEnd, takeComma, rest]

theorem foldlM_fieldTokens (frames : List Frame) (taken fields : List (String × Json))
    (someField : fields ≠ []) :
    (fieldTokens fields).foldlM take { frames := .object taken :: frames, due := .name } =
      some { frames := .object (taken ++ fields) :: frames, due := .separator } := by
  cases fields with
  | nil => contradiction
  | cons field others =>
      rcases field with ⟨name, value⟩
      have first := foldlM_tokens (.field taken name :: frames) value
      rw [put] at first
      cases others with
      | nil => simpa [fieldTokens, take, takeName] using first
      | cons next more =>
          have rest := foldlM_fieldTokens frames (taken ++ [(name, value)]) (next :: more)
            (List.cons_ne_nil next more)
          simp [fieldTokens, take, takeName, first, takeEnd, takeComma, rest]

end

end Assembly

/-- What was printed is read back, whatever characters the texts in it hold. -/
theorem read?_render (depth : Nat) (value : Json) {gap : List Char}
    (areSpaces : ∀ char ∈ gap, char ∈ spaces) :
    read? ((value.render depth).toList ++ gap) = some value := by
  have ended : ∀ char ∈ gap.head?, endsWord char := by
    have ends : ∀ char ∈ spaces, endsWord char := by simp [endsWord, marks, spaces]
    exact fun char isFirst => ends char (areSpaces char (List.mem_of_mem_head? isFirst))
  have nothing : lex .between gap = some [] := by
    simpa [lex] using lex_spaces areSpaces []
  have isCut : tokens? ((value.render depth).toList ++ gap) = some value.tokens := by
    rw [tokens?, lex_render depth value ended, nothing, Option.map_some, List.append_nil]
  simp [read?, isCut, Assembly.foldlM_tokens, Assembly.put]

/-! ## Fields -/

def field? (name : String) : Json → Option Json
  | .object fields => (fields.find? fun field => field.1 = name).map Prod.snd
  | _ => none

/-- Fields of different names are found where they were given, in whatever order they stand. -/
theorem field?_ofFields {fields : List (String × Json)} (distinct : (fields.map Prod.fst).Nodup)
    {name : String} {value : Json} (member : (name, value) ∈ fields) :
    (ofFields fields).field? name = some value := by
  have sorted := fields.mergeSort_perm fun left right => decide (left.1 ≤ right.1)
  have distinctSorted := (sorted.map Prod.fst).nodup_iff.mpr distinct
  have memberSorted := sorted.mem_iff.mpr member
  rw [ofFields, field?, Option.map_eq_some_iff]
  cases found : (fields.mergeSort fun left right => left.1 ≤ right.1).find?
      fun field => field.1 = name with
  | none => simpa using List.find?_eq_none.mp found _ memberSorted
  | some field =>
      have named : field.1 = name := by simpa using List.find?_some found
      have same := List.inj_on_of_nodup_map distinctSorted (List.mem_of_find?_eq_some found)
        memberSorted named
      exact ⟨field, rfl, by rw [same]⟩

end WaveDump.Text.Json
