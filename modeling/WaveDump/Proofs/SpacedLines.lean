import WaveDump.Proofs.TrimmedNames

/-!
# White space in command lines

Names may be given behind an equals sign, behind a short name among flags, or in a text of their
own. Command lines that differ in the white space around these names are read in lock step: what has
been read of them is alike after every text, and in the end both stop or both are accepted. The runs
then have the same outcome if the same channels are left out.
-/

namespace WaveDump

namespace CommandLine

/-! ## Readings in lock step -/

/-- Two results of reading: both stop, or both go on and what they have come to is related. -/
inductive Ends {α β : Type} (related : α → β → Prop) : Except Stop α → Except Stop β → Prop
  | stopped (stop other : Stop) : Ends related (.error stop) (.error other)
  | passed {first : α} {second : β} (alike : related first second) :
      Ends related (.ok first) (.ok second)

section Bind

variable {α β γ δ : Type} {related : α → β → Prop} {reached : γ → δ → Prop}
  {first : Except Stop α} {second : Except Stop β} {next : α → Except Stop γ}
  {other : β → Except Stop δ}

theorem Ends.bind (ends : Ends related first second)
    (goesOn : ∀ value same, related value same → Ends reached (next value) (other same)) :
    Ends reached (first >>= next) (second >>= other) := by
  cases ends with
  | stopped stop other => exact .stopped stop other
  | passed alike => exact goesOn _ _ alike

end Bind

namespace Reading

/-- The options that take names. -/
def nameLists : List Argument :=
  [.channels, .disable]

theorem mem_nameLists {list : Argument} :
    list ∈ nameLists ↔ list = .channels ∨ list = .disable := by
  simp only [nameLists, List.mem_cons, List.not_mem_nil, or_false]

/-- Arguments that have been named, with the same value or with values that hold the same names. -/
inductive SamePending :
    Option (Argument × Option String) → Option (Argument × Option String) → Prop
  | same (pending : Option (Argument × Option String)) : SamePending pending pending
  | names {list : Argument} (isList : list ∈ nameLists) {value other : String}
      (sameNames : SameNames value other) :
      SamePending (some (list, some value)) (some (list, some other))

/-- Readings that differ in the white space around names. Both take options, or both take only
positions. -/
structure Alike (only : Bool) (first second : Reading) : Prop where
  settings : first.settings.map Setting.trimmed = second.settings.map Setting.trimmed
  pending : SamePending first.pending second.pending
  positions : first.positions = second.positions
  onlyPositions : first.onlyPositions = only
  onlyPositionsToo : second.onlyPositions = only

theorem Alike.refl (reading : Reading) : Alike reading.onlyPositions reading reading where
  settings := rfl
  pending := .same _
  positions := rfl
  onlyPositions := rfl
  onlyPositionsToo := rfl

variable {only : Bool} {first second : Reading} {part : Part}

theorem Alike.given_eq (alike : Alike only first second) (argument : Argument) :
    given argument first.settings = given argument second.settings := by
  simp only [← given_map_trimmed argument first.settings, alike.settings, given_map_trimmed]

theorem Alike.add (alike : Alike only first second) (argument : Argument)
    {made other : Except UsageError Setting}
    (same : made.map Setting.trimmed = other.map Setting.trimmed) :
    Ends (Alike only) (first.add argument made) (second.add argument other) := by
  simp only [Reading.add, alike.given_eq argument]
  split
  · exact .stopped _ _
  · cases made <;> cases other <;> simp only [Except.map, reduceCtorEq, Except.ok.injEq] at same
    · exact .stopped _ _
    · apply Ends.passed
      exact
        { settings := by simp only [List.map_append, alike.settings, List.map_cons, same]
          pending := alike.pending
          positions := alike.positions
          onlyPositions := alike.onlyPositions
          onlyPositionsToo := alike.onlyPositionsToo }

theorem map_trimmed_setting {list : Argument} (isList : list ∈ nameLists) {value other : String}
    (sameNames : SameNames value other) :
    (list.setting value).map Setting.trimmed = (list.setting other).map Setting.trimmed := by
  have trimmed := map_trimName_of_respaced sameNames
  rcases mem_nameLists.mp isList with rfl | rfl <;>
    simp only [Argument.setting, Except.map, Setting.trimmed, trimmed]

theorem Alike.withPending (alike : Alike only first second)
    {pending other : Option (Argument × Option String)} (same : SamePending pending other) :
    Alike only { first with pending } { second with pending := other } where
  settings := alike.settings
  pending := same
  positions := alike.positions
  onlyPositions := alike.onlyPositions
  onlyPositionsToo := alike.onlyPositionsToo

theorem Alike.settle (alike : Alike only first second) :
    Ends (Alike only) first.settle second.settle := by
  have withoutPending := alike.withPending (.same none)
  rcases first with ⟨settings, pending, positions, onlyPositions⟩
  rcases second with ⟨others, otherPending, otherPositions, otherOnly⟩
  cases alike.pending with
  | same =>
      rcases pending with _ | ⟨argument, _ | value⟩
      · exact .passed withoutPending
      · exact .stopped _ _
      · exact withoutPending.add argument rfl
  | names isList sameNames => exact withoutPending.add _ (map_trimmed_setting isList sameNames)

theorem Alike.takeFlag (alike : Alike only first second) (flag : Argument) :
    Ends (Alike only) (first.takeFlag flag) (second.takeFlag flag) := by
  apply alike.settle.bind
  intro settled other settledAlike
  cases flag.flagSetting? with
  | none => exact .stopped _ _
  | some setting => exact settledAlike.add flag rfl

theorem Alike.takeOption (alike : Alike only first second) {option : Argument}
    {value other : Option String}
    (same : SamePending (some (option, value)) (some (option, other))) :
    Ends (Alike only) (first.takeOption option value) (second.takeOption option other) := by
  apply alike.settle.bind
  intro settled otherSettled settledAlike
  cases same with
  | same =>
      cases value with
      | none => exact .passed (settledAlike.withPending (.same _))
      | some value => exact settledAlike.add option rfl
  | names isList sameNames => exact settledAlike.add option (map_trimmed_setting isList sameNames)

theorem Alike.takeLong (alike : Alike only first second) (body : List Char) :
    Ends (Alike only) (first.takeLong part body) (second.takeLong part body) := by
  simp only [Reading.takeLong]
  split
  · exact .stopped _ _
  · split
    · exact alike.takeOption (.same _)
    · split
      · exact alike.takeFlag _
      · exact .stopped _ _

theorem Alike.takeShorts (alike : Alike only first second) (names : List Char) :
    Ends (Alike only) (first.takeShorts part names) (second.takeShorts part names) := by
  induction names generalizing first second with
  | nil => exact .passed alike
  | cons name rest ih =>
      simp only [Reading.takeShorts]
      split
      · exact .stopped _ _
      · split
        · exact alike.takeOption (.same _)
        · apply (alike.takeFlag _).bind
          intro flagged other flaggedAlike
          exact ih flaggedAlike

theorem Alike.takePosition (alike : Alike only first second) (text : String) :
    Ends (Alike only) (first.takePosition part text) (second.takePosition part text) := by
  simp only [Reading.takePosition, alike.positions]
  split
  · apply alike.settle.bind
    intro settled other settledAlike
    apply Ends.passed
    exact
      { settings := settledAlike.settings
        pending := .same _
        positions := rfl
        onlyPositions := settledAlike.onlyPositions
        onlyPositionsToo := settledAlike.onlyPositionsToo }
  · exact .stopped _ _

/-! ### Kinds of texts -/

/-- Takes a text that does not look like an option: the value of an option that waits for one, or a
position. -/
def takeText (part : Part) (reading : Reading) (text : String) : Except Stop Reading :=
  match reading.pending with
  | some (argument, none) => .ok { reading with pending := some (argument, some text) }
  | _ => reading.takePosition part text

/-- A text of a dash and more. -/
def LooksLikeOption (text : String) : Prop :=
  ∃ name rest, text.toList = '-' :: name :: rest

section Kinds

variable {reading : Reading} {text : String}

theorem take_of_onlyPositions (onlyPositions : reading.onlyPositions = true) :
    reading.take part text = reading.takePosition part text := by
  simp only [Reading.take, onlyPositions, ↓reduceIte]

theorem take_dashes (notOnly : reading.onlyPositions = false) :
    reading.take part "--" = .ok { reading with onlyPositions := true } := by
  simp only [Reading.take, notOnly, Bool.false_eq_true, ↓reduceIte]
  rfl

theorem take_long (notOnly : reading.onlyPositions = false) {name : Char} {rest : List Char}
    (isLong : text.toList = '-' :: '-' :: name :: rest) :
    reading.take part text = reading.takeLong part (name :: rest) := by
  simp only [Reading.take, notOnly, Bool.false_eq_true, ↓reduceIte, isLong]

theorem take_shorts (notOnly : reading.onlyPositions = false) {name : Char} {rest : List Char}
    (isShort : text.toList = '-' :: name :: rest) (oneDash : name ≠ '-') :
    reading.take part text = reading.takeShorts part (name :: rest) := by
  simp only [Reading.take, notOnly, Bool.false_eq_true, ↓reduceIte, isShort]
  split <;> simp_all

theorem take_text (notOnly : reading.onlyPositions = false) (isText : ¬LooksLikeOption text) :
    reading.take part text = reading.takeText part text := by
  rw [Reading.take, if_neg (by simp [notOnly])]
  split
  · rename_i dashes
    exact absurd ⟨_, _, dashes⟩ isText
  · rename_i isLong
    exact absurd ⟨_, _, isLong⟩ isText
  · rename_i isShort
    exact absurd ⟨_, _, isShort⟩ isText
  · rfl

end Kinds

theorem Alike.takeText (alike : Alike only first second) (text : String) :
    Ends (Alike only) (first.takeText part text) (second.takeText part text) := by
  have position :
      Ends (Alike only) (first.takePosition part text) (second.takePosition part text) :=
    alike.takePosition text
  have waiting (argument : Argument) := alike.withPending (.same (some (argument, some text)))
  rcases first with ⟨settings, pending, positions, onlyPositions⟩
  rcases second with ⟨others, otherPending, otherPositions, otherOnly⟩
  cases alike.pending with
  | same =>
      rcases pending with _ | ⟨argument, _ | value⟩
      · exact position
      · exact .passed (waiting argument)
      · exact position
  | names => exact position

/-- Taking one text keeps readings alike; after two dashes both take only positions. -/
theorem Alike.take (alike : Alike only first second) (text : String) :
    Ends (Alike (only || text == "--")) (first.take part text) (second.take part text) := by
  cases only with
  | true =>
      simp only [take_of_onlyPositions alike.onlyPositions,
        take_of_onlyPositions alike.onlyPositionsToo, Bool.true_or]
      exact alike.takePosition text
  | false =>
      by_cases isDashes : text = "--"
      · subst isDashes
        simp only [take_dashes alike.onlyPositions, take_dashes alike.onlyPositionsToo]
        exact .passed ⟨alike.settings, alike.pending, alike.positions, rfl, rfl⟩
      · have goesOn : (false || text == "--") = false := by simp [isDashes]
        simp only [goesOn]
        by_cases looks : LooksLikeOption text
        · rcases looks with ⟨name, rest, isOption⟩
          by_cases twoDashes : name = '-'
          · subst twoDashes
            cases rest with
            | nil => exact absurd (String.toList_inj.mp isOption) isDashes
            | cons name rest =>
                simp only [take_long alike.onlyPositions isOption,
                  take_long alike.onlyPositionsToo isOption]
                exact alike.takeLong _
          · simp only [take_shorts alike.onlyPositions isOption twoDashes,
              take_shorts alike.onlyPositionsToo isOption twoDashes]
            exact alike.takeShorts _
        · simp only [take_text alike.onlyPositions looks, take_text alike.onlyPositionsToo looks]
          exact alike.takeText text

theorem Alike.takeAll (alike : Alike only first second) (texts : List String) :
    Ends (fun next other => ∃ only, Alike only next other)
      (texts.foldlM (Reading.take part) first) (texts.foldlM (Reading.take part) second) := by
  induction texts generalizing only first second with
  | nil => exact .passed ⟨only, alike⟩
  | cons text rest ih =>
      simp only [List.foldlM_cons]
      apply (alike.take text).bind
      intro next other nextAlike
      exact ih nextAlike

/-! ### Texts that name an option -/

/-- The value that is attached to a short name, with or without an equals sign. -/
def attachedValue : List Char → Option String
  | [] => none
  | '=' :: value => some (String.ofList value)
  | value => some (String.ofList value)

/-- Flags that take no value and do not end the reading. -/
def plainFlags : List Char :=
  ['c', 'f', 'q', 'v', 'z']

end Reading

open Reading (attachedValue plainFlags nameLists)

/-- A text that names an option, behind flags that are joined to it, with the value that is attached
to it, if one is. -/
inductive NamesOption (option : Argument) : List Char → String → Option String → Prop
  | long {name : String} (isName : option.long? = some name) :
      NamesOption option [] ("--" ++ name) none
  | longWith {name : String} (isName : option.long? = some name) (value : String) :
      NamesOption option [] ("--" ++ name ++ "=" ++ value) (some value)
  | short {name : Char} (isName : option.short? = some name) {flags : List Char}
      (plain : ∀ flag ∈ flags, flag ∈ plainFlags) (tail : List Char) :
      NamesOption option flags (String.ofList ('-' :: flags ++ name :: tail)) (attachedValue tail)

namespace Reading

variable {reading : Reading} {part : Part}

def takeFlags (part : Part) (reading : Reading) (flags : List Char) : Except Stop Reading :=
  flags.foldlM (fun reading flag =>
    match part.ofShort? flag with
    | none => .error (.error (.unexpectedArgument (String.ofList ['-', flag])))
    | some argument => reading.takeFlag argument) reading

theorem takesValue_of_plain {flag : Char} (plain : flag ∈ plainFlags) {argument : Argument}
    (found : part.ofShort? flag = some argument) : argument.takesValue = false := by
  have named : argument.short? = some flag := by simpa using List.find?_some found
  simp only [plainFlags, List.mem_cons, List.not_mem_nil, or_false] at plain
  rcases plain with rfl | rfl | rfl | rfl | rfl <;>
    cases argument <;> simp [Argument.short?] at named <;> rfl

theorem takeShorts_flags {flags : List Char} (plain : ∀ flag ∈ flags, flag ∈ plainFlags)
    (rest : List Char) :
    reading.takeShorts part (flags ++ rest) =
      (reading.takeFlags part flags) >>= fun flagged => flagged.takeShorts part rest := by
  induction flags generalizing reading with
  | nil => rfl
  | cons flag others ih =>
      have isPlain := plain flag List.mem_cons_self
      have othersPlain : ∀ other ∈ others, other ∈ plainFlags :=
        fun other member => plain other (List.mem_cons_of_mem _ member)
      simp only [List.cons_append, takeShorts, takeFlags, List.foldlM_cons]
      cases found : part.ofShort? flag with
      | none => rfl
      | some argument =>
          simp only [takesValue_of_plain isPlain found, Bool.false_eq_true, ↓reduceIte]
          cases reading.takeFlag argument with
          | error stop => rfl
          | ok flagged => exact ih othersPlain

theorem ofLong?_long {option : Argument} {name : String} (isName : option.long? = some name)
    (part : Part) :
    part.ofLong? name = if option ∈ part.options then some option else none := by
  rcases part with _ | _ | _ | _ <;> cases option <;> cases isName <;> rfl

theorem ofShort?_short {option : Argument} {name : Char} (isName : option.short? = some name)
    (part : Part) :
    part.ofShort? name = if option ∈ part.options then some option else none := by
  rcases part with _ | _ | _ | _ <;> cases option <;> cases isName <;> rfl

theorem long_spelled {option : Argument} {name : String} (isName : option.long? = some name) :
    (∃ first rest, name.toList = first :: rest) ∧ ∀ char ∈ name.toList, char != '=' := by
  cases option <;> cases isName <;> exact ⟨⟨_, _, rfl⟩, List.all_eq_true.mp rfl⟩

theorem short_ne_dash {option : Argument} {name : Char} (isName : option.short? = some name) :
    name ≠ '-' := by
  cases option <;> cases isName <;> decide

section Options

variable {option : Argument} {name text : String} {flags : List Char} {value : Option String}

theorem takeLong_name (takesValue : option.takesValue = true) (isName : option.long? = some name) :
    reading.takeLong part name.toList =
      if option ∈ part.options then reading.takeOption option none
      else .error (.error (.unexpectedArgument ("--" ++ name))) := by
  have spelled := (long_spelled isName).2
  have isWhole : name.toList.takeWhile (· != '=') = name.toList := by
    simpa [List.takeWhile_eq_self_iff] using spelled
  have noValue : name.toList.dropWhile (· != '=') = [] := List.dropWhile_eq_nil_iff.mpr spelled
  simp only [takeLong, isWhole, noValue, String.ofList_toList, ofLong?_long isName]
  by_cases known : option ∈ part.options
  · simp only [known, takesValue, ↓reduceIte]
  · simp only [known, ↓reduceIte]

theorem takeLong_nameWith (takesValue : option.takesValue = true)
    (isName : option.long? = some name) (value : List Char) :
    reading.takeLong part (name.toList ++ '=' :: value) =
      if option ∈ part.options then reading.takeOption option (some (String.ofList value))
      else .error (.error (.unexpectedArgument ("--" ++ name))) := by
  have spelled := (long_spelled isName).2
  have isBody : (name.toList ++ '=' :: value).takeWhile (· != '=') = name.toList := by
    simp [List.takeWhile_append_of_pos spelled]
  have isValue : (name.toList ++ '=' :: value).dropWhile (· != '=') = '=' :: value := by
    simp [List.dropWhile_append_of_pos spelled]
  simp only [takeLong, isBody, isValue, String.ofList_toList, ofLong?_long isName]
  by_cases known : option ∈ part.options
  · simp only [known, takesValue, ↓reduceIte]
  · simp only [known, ↓reduceIte]

/-- A text that names an option stops the reading of a part that has no such option. Elsewhere its
flags are taken, and then its value. -/
theorem take_namesOption (takesValue : option.takesValue = true) (part : Part)
    (names : NamesOption option flags text value) (notOnly : reading.onlyPositions = false) :
    (option ∉ part.options ∧ ∃ stop, reading.take part text = .error stop) ∨
      option ∈ part.options ∧ reading.take part text =
        (reading.takeFlags part flags) >>= fun flagged => flagged.takeOption option value := by
  cases names with
  | @long name isName =>
      rcases (long_spelled isName).1 with ⟨first, rest, spelled⟩
      have isLong : ("--" ++ name).toList = '-' :: '-' :: first :: rest := by
        simp only [String.toList_append, spelled]
        rfl
      simp only [take_long notOnly isLong, ← spelled, takeLong_name takesValue isName]
      by_cases known : option ∈ part.options
      · simp only [known, ↓reduceIte]
        exact .inr ⟨trivial, rfl⟩
      · simp only [known, ↓reduceIte]
        exact .inl ⟨not_false, _, rfl⟩
  | @longWith name isName value =>
      rcases (long_spelled isName).1 with ⟨first, rest, spelled⟩
      have isLong : ("--" ++ name ++ "=" ++ value).toList =
          '-' :: '-' :: first :: (rest ++ '=' :: value.toList) := by
        simp only [String.toList_append, spelled, List.append_assoc]
        rfl
      simp only [take_long notOnly isLong, ← List.cons_append, ← spelled,
        takeLong_nameWith takesValue isName, String.ofList_toList]
      by_cases known : option ∈ part.options
      · simp only [known, ↓reduceIte]
        exact .inr ⟨trivial, rfl⟩
      · simp only [known, ↓reduceIte]
        exact .inl ⟨not_false, _, rfl⟩
  | @short name isName flags plain tail =>
      have isNames : ∃ first rest, flags ++ name :: tail = first :: rest ∧ first ≠ '-' := by
        cases flags with
        | nil => exact ⟨name, tail, rfl, short_ne_dash isName⟩
        | cons flag others =>
            refine ⟨flag, others ++ name :: tail, rfl, ?_⟩
            rintro rfl
            exact absurd (plain '-' List.mem_cons_self) (by decide)
      rcases isNames with ⟨first, rest, isNames, oneDash⟩
      have isShort :
          (String.ofList ('-' :: flags ++ name :: tail)).toList = '-' :: first :: rest := by
        simp only [String.toList_ofList, List.cons_append, isNames]
      have taken : reading.take part (String.ofList ('-' :: flags ++ name :: tail)) =
          (reading.takeFlags part flags) >>= fun flagged =>
            flagged.takeShorts part (name :: tail) := by
        rw [take_shorts notOnly isShort oneDash, ← isNames, takeShorts_flags plain]
      simp only [taken, takeShorts, ofShort?_short isName]
      by_cases known : option ∈ part.options
      · simp only [known, ↓reduceIte, takesValue]
        exact .inr ⟨trivial, rfl⟩
      · simp only [known, ↓reduceIte]
        refine .inl ⟨not_false, ?_⟩
        cases reading.takeFlags part flags with
        | error stop => exact ⟨stop, rfl⟩
        | ok flagged => exact ⟨_, rfl⟩

end Options

theorem takesValue_of_isList {list : Argument} (isList : list ∈ nameLists) :
    list.takesValue = true := by
  rcases mem_nameLists.mp isList with rfl | rfl <;> rfl

theorem Alike.takeFlags {only : Bool} {first second : Reading} (alike : Alike only first second)
    (flags : List Char) :
    Ends (Alike only) (first.takeFlags part flags) (second.takeFlags part flags) := by
  induction flags generalizing first second with
  | nil => exact .passed alike
  | cons flag rest ih =>
      simp only [Reading.takeFlags, List.foldlM_cons]
      cases part.ofShort? flag with
      | none => exact .stopped _ _
      | some argument =>
          apply (alike.takeFlag argument).bind
          intro flagged other flaggedAlike
          exact ih flaggedAlike

section Lists

variable {first second : Reading} {list : Argument} {flags : List Char} {text otherText : String}

/-- Texts that name a list behind the same flags keep two readings in step, if taking the values
that are attached to them does. -/
theorem Alike.takeNames {related : Reading → Reading → Prop} {value other : Option String}
    (alike : Alike false first second) (isList : list ∈ nameLists)
    (names : NamesOption list flags text value) (namesToo : NamesOption list flags otherText other)
    (goesOn : ∀ flagged otherFlagged, Alike false flagged otherFlagged →
      Ends related (flagged.takeOption list value) (otherFlagged.takeOption list other)) :
    Ends related (first.take part text) (second.take part otherText) := by
  have takesValue := takesValue_of_isList isList
  rcases take_namesOption takesValue part names alike.onlyPositions with
    ⟨unknown, stop, stopped⟩ | ⟨known, taken⟩
  all_goals rcases take_namesOption takesValue part namesToo alike.onlyPositionsToo with
    ⟨unknownToo, otherStop, stoppedToo⟩ | ⟨knownToo, takenToo⟩
  · simp only [stopped, stoppedToo]
    exact .stopped _ _
  · contradiction
  · contradiction
  · simp only [taken, takenToo]
    exact (alike.takeFlags flags).bind goesOn

/-- Readings that are alike and wait for a value of the list. -/
structure Waiting (list : Argument) (first second : Reading) : Prop where
  alike : Alike false first second
  waits : first.pending = some (list, none)
  waitsToo : second.pending = some (list, none)

theorem Alike.takeOption_waits (alike : Alike false first second) :
    Ends (Waiting list) (first.takeOption list none) (second.takeOption list none) := by
  apply alike.settle.bind
  intro settled other settledAlike
  exact .passed ⟨settledAlike.withPending (.same _), rfl, rfl⟩

theorem Waiting.take (waiting : Waiting list first second) (isList : list ∈ nameLists)
    {value other : String} (isText : ¬LooksLikeOption value) (isTextToo : ¬LooksLikeOption other)
    (sameNames : SameNames value other) :
    Ends (Alike false) (first.take part value) (second.take part other) := by
  simp only [take_text waiting.alike.onlyPositions isText,
    take_text waiting.alike.onlyPositionsToo isTextToo, takeText, waiting.waits, waiting.waitsToo]
  exact .passed (waiting.alike.withPending (.names isList sameNames))

end Lists

end Reading

/-! ### Whole lines -/

/-- Command lines that differ in the white space around the names of channels, of those to be left
out too, and maybe in how the option is spelled that gives them. Behind two dashes they are the
same. -/
inductive Rewritten : List String → List String → Prop
  | ended : Rewritten [] []
  | onlyPositions (rest : List String) : Rewritten ("--" :: rest) ("--" :: rest)
  | same {text : String} {rest others : List String} (goesOn : text ≠ "--")
      (rewritten : Rewritten rest others) : Rewritten (text :: rest) (text :: others)
  | attached {list : Argument} (isList : list ∈ nameLists) {flags : List Char}
      {text otherText value other : String} {rest others : List String}
      (names : NamesOption list flags text (some value))
      (namesToo : NamesOption list flags otherText (some other)) (sameNames : SameNames value other)
      (rewritten : Rewritten rest others) : Rewritten (text :: rest) (otherText :: others)
  | apart {list : Argument} (isList : list ∈ nameLists) {flags : List Char}
      {text otherText value other : String} {rest others : List String}
      (names : NamesOption list flags text none) (namesToo : NamesOption list flags otherText none)
      (isText : ¬Reading.LooksLikeOption value) (isTextToo : ¬Reading.LooksLikeOption other)
      (sameNames : SameNames value other) (rewritten : Rewritten rest others) :
      Rewritten (text :: value :: rest) (otherText :: other :: others)

namespace Reading

variable {first second : Reading} {part : Part} {texts others : List String}

theorem Alike.takeRewritten (alike : Alike false first second)
    (rewritten : Rewritten texts others) :
    Ends (fun next other => ∃ only, Alike only next other)
      (texts.foldlM (Reading.take part) first) (others.foldlM (Reading.take part) second) := by
  induction rewritten generalizing first second with
  | ended => exact .passed ⟨false, alike⟩
  | onlyPositions rest => exact alike.takeAll _
  | @same text rest others goesOn rewritten ih =>
      have taken : Ends (Alike false) (first.take part text) (second.take part text) := by
        simpa only [beq_eq_false_iff_ne.mpr goesOn, Bool.or_false] using alike.take text
      simp only [List.foldlM_cons]
      apply taken.bind
      intro next other nextAlike
      exact ih nextAlike
  | attached isList names namesToo sameNames rewritten ih =>
      simp only [List.foldlM_cons]
      apply (alike.takeNames isList names namesToo fun _ _ flagged =>
        flagged.takeOption (.names isList sameNames)).bind
      intro next other nextAlike
      exact ih nextAlike
  | apart isList names namesToo isText isTextToo sameNames rewritten ih =>
      simp only [List.foldlM_cons]
      apply (alike.takeNames isList names namesToo fun _ _ flagged => flagged.takeOption_waits).bind
      intro named otherNamed waiting
      apply (waiting.take isList isText isTextToo sameNames).bind
      intro next other nextAlike
      exact ih nextAlike

theorem latest_map_trimmed (settings : List Setting) :
    latest (settings.map Setting.trimmed) = (latest settings).map Setting.trimmed := by
  induction settings with
  | nil => rfl
  | cons setting rest ih =>
      simp only [List.map_cons, latest, Setting.argument_trimmed, given_map_trimmed, ih]
      split <;> rfl

theorem conflict?_map_trimmed (settings : List Setting) :
    conflict? (settings.map Setting.trimmed) = conflict? settings := by
  simp only [conflict?, latest_map_trimmed, List.findSome?_map, Function.comp_def,
    Setting.argument_trimmed, given_map_trimmed]

theorem Alike.finish {only : Bool} (alike : Alike only first second) (part : Part) :
    Ends (fun settings others => settings.map Setting.trimmed = others.map Setting.trimmed)
      (first.finish part) (second.finish part) := by
  apply alike.settle.bind
  intro settled other settledAlike
  have sameConflict : conflict? settled.settings = conflict? other.settings := by
    simp only [← conflict?_map_trimmed settled.settings, settledAlike.settings,
      conflict?_map_trimmed]
  simp only [sameConflict, settledAlike.given_eq]
  split
  · exact .stopped _ _
  · split
    · exact .passed settledAlike.settings
    · exact .stopped _ _

end Reading

theorem readSubcommand_rewritten {texts others : List String} (rewritten : Rewritten texts others)
    (subcommand : Subcommand) :
    Ends (fun settings others => settings.map Setting.trimmed = others.map Setting.trimmed)
      (readSubcommand subcommand texts) (readSubcommand subcommand others) := by
  have start := Reading.Alike.refl (Reading.start (.subcommand subcommand))
  apply (start.takeRewritten rewritten).bind
  rintro reading other ⟨only, alike⟩
  exact alike.finish _

/-- Requests that differ in the white space around names. -/
def SameRequest (request other : Request) : Prop :=
  request.trimmed = other.trimmed

section Programs

variable {first second reading : Reading} {texts others : List String} {list : Argument}
  {flags : List Char} {text : String} {value : Option String}

/-- Behind two dashes no subcommand is found. -/
theorem readProgram_onlyPositions (alike : Reading.Alike true first second) (texts : List String) :
    Ends SameRequest (readProgram first texts) (readProgram second texts) := by
  induction texts generalizing first second with
  | nil =>
      apply alike.settle.bind
      intro settled other _
      exact .stopped _ _
  | cons text rest ih =>
      simp only [readProgram, alike.onlyPositions, alike.onlyPositionsToo, ↓reduceIte]
      apply (alike.take text).bind
      intro next other nextAlike
      exact ih nextAlike

theorem NamesOption.exists_dash (names : NamesOption list flags text value) :
    ∃ rest, text.toList = '-' :: rest := by
  cases names with
  | long isName =>
      simp only [String.toList_append]
      exact ⟨_, rfl⟩
  | longWith isName value =>
      simp only [String.toList_append, List.append_assoc]
      exact ⟨_, rfl⟩
  | short isName plain tail =>
      simp only [String.toList_ofList, List.cons_append]
      exact ⟨_, rfl⟩

/-- The program itself takes no names. -/
theorem readProgram_namesOption (isList : list ∈ nameLists)
    (names : NamesOption list flags text value) (notOnly : reading.onlyPositions = false)
    (rest : List String) : ∃ stop, readProgram reading (text :: rest) = .error stop := by
  rcases names.exists_dash with ⟨behind, dash⟩
  have differs {name : String} (noDash : name.toList.head? ≠ some '-') : text ≠ name := by
    rintro rfl
    simp [dash] at noDash
  have noSubcommand : Subcommand.ofName? text = none := by
    simp only [Subcommand.ofName?, List.find?_eq_none, beq_iff_eq]
    intro subcommand _ isName
    cases subcommand <;> exact differs (by decide) isName.symm
  have noHelp : (text == "help") = false := by
    simpa using differs (by decide)
  have unknown : list ∉ Part.program.options := by
    rcases Reading.mem_nameLists.mp isList with rfl | rfl <;> decide
  rcases Reading.take_namesOption (Reading.takesValue_of_isList isList) .program names notOnly with
    ⟨_, stop, stopped⟩ | ⟨known, _⟩
  · simp only [readProgram, notOnly, Bool.false_eq_true, ↓reduceIte, noSubcommand, noHelp, stopped]
    exact ⟨stop, rfl⟩
  · exact absurd known unknown

theorem Reading.Alike.readProgram_names (alike : Reading.Alike false first second)
    {otherText : String} {other : Option String} (isList : list ∈ nameLists)
    (names : NamesOption list flags text value) (namesToo : NamesOption list flags otherText other)
    (rest others : List String) :
    Ends SameRequest (readProgram first (text :: rest))
      (readProgram second (otherText :: others)) := by
  rcases readProgram_namesOption isList names alike.onlyPositions rest with ⟨stop, stopped⟩
  rcases readProgram_namesOption isList namesToo alike.onlyPositionsToo others with
    ⟨stopToo, stoppedToo⟩
  simp only [stopped, stoppedToo]
  exact .stopped _ _

/-- Lines that differ in the white space around names come to requests that do, or both stop. -/
theorem readProgram_rewritten (alike : Reading.Alike false first second)
    (rewritten : Rewritten texts others) :
    Ends SameRequest (readProgram first texts) (readProgram second others) := by
  induction rewritten generalizing first second with
  | ended =>
      apply alike.settle.bind
      intro settled other _
      exact .stopped _ _
  | onlyPositions rest =>
      have noSubcommand : Subcommand.ofName? "--" = none := by rfl
      have noHelp : ("--" == "help") = false := by rfl
      simp only [readProgram, alike.onlyPositions, alike.onlyPositionsToo, Bool.false_eq_true,
        ↓reduceIte, noSubcommand, noHelp]
      apply (alike.take "--").bind
      intro next other nextAlike
      exact readProgram_onlyPositions nextAlike rest
  | @same text rest others goesOn rewritten ih =>
      simp only [readProgram, alike.onlyPositions, alike.onlyPositionsToo, Bool.false_eq_true,
        ↓reduceIte]
      split
      · rename_i subcommand isName
        apply (readSubcommand_rewritten rewritten subcommand).bind
        intro settings otherSettings sameSettings
        apply (alike.finish .program).bind
        intro program otherProgram sameProgram
        apply Ends.passed
        simp only [SameRequest, ← requestOf_map_trimmed, sameSettings, sameProgram]
      · split
        · exact .stopped _ _
        · have taken : Ends (Reading.Alike false) (first.take .program text)
              (second.take .program text) := by
            simpa only [beq_eq_false_iff_ne.mpr goesOn, Bool.or_false] using alike.take text
          apply taken.bind
          intro next other nextAlike
          exact ih nextAlike
  | attached isList names namesToo sameNames rewritten ih =>
      exact alike.readProgram_names isList names namesToo _ _
  | apart isList names namesToo isText isTextToo sameNames rewritten ih =>
      exact alike.readProgram_names isList names namesToo _ _

end Programs

/-- A line that is accepted is also accepted with other white space around its names. The runs have
the same outcome if the same channels are left out. -/
theorem run_rewritten {texts others : List String} {request : Request}
    (rewritten : Rewritten texts others) (read : Request.ofTexts texts = .ok request) :
    ∃ other, Request.ofTexts others = .ok other ∧ request.trimmed = other.trimmed ∧
      (request.command.Agrees other.command →
        ∀ environment, run others environment = run texts environment) := by
  have start := Reading.Alike.refl (Reading.start .program)
  have ends : Ends SameRequest (Request.ofTexts texts) (Request.ofTexts others) :=
    readProgram_rewritten start rewritten
  simp only [read] at ends
  rcases readToo : Request.ofTexts others with stop | other
  · simp only [readToo] at ends
    cases ends
  · simp only [readToo] at ends
    cases ends with
    | passed alike =>
        have same : request.trimmed = other.trimmed := alike
        refine ⟨other, rfl, same, ?_⟩
        intro agrees environment
        simp only [run, read, readToo, agrees.runRequest_eq same]

/-! ## What white space changes -/

/-- White space around names makes no difference to what a line asks for, and none to its run if the
same channels are left out. A channel is left out if its name, without the white space, is one of
the names to be left out as they are given; no line then depends on its bit. Any other channel is in
the place that its name asks for. So white space around the names to be left out is of no account
where they are plain, and only there. -/
theorem channel_names_are_trimmed {texts others : List String} {request : Request}
    (rewritten : Rewritten texts others) (read : Request.ofTexts texts = .ok request) :
    (∃ other, Request.ofTexts others = .ok other ∧ request.trimmed = other.trimmed ∧
      (request.command.Agrees other.command →
        ∀ environment, run others environment = run texts environment)) ∧
    ∀ selection ∈ request.command.selection?, ∀ registry,
      Registry.ofChannels selection.capture.channels = .ok registry →
      ∀ position name, selection.names[position]? = some name →
        (selection.Plain name ↔
          (LeavesOut registry position ↔
            ∃ element ∈ selection.disabled, trimName element = trimName name)) ∧
        (trimName name ∈ selection.disabled → LeavesOut registry position ∧
          ∀ first second : Sample,
            (∀ other, other ≠ position → first.level other = second.level other) →
            ∀ probe ∈ registry.probes, probe.change first = probe.change second) ∧
        (trimName name ∉ selection.disabled → registry.Holds (trimName name) position) := by
  refine ⟨run_rewritten rewritten read, ?_⟩
  intro selection _ registry built position name found
  refine ⟨Selection.plain_iff built found, ?_, Selection.holds_of_not_mem built found⟩
  intro disabled
  have leavesOut := (Selection.leavesOut_iff built found).mpr disabled
  exact ⟨leavesOut, fun first second agree probe member => leavesOut.change_eq agree member⟩

/-- A command line that leaves out channels, and whose lists are spaced or not. -/
def listingLine (channels disabled : String) : List String :=
  ["probes", "-C", channels, "--disable", disabled]

def spacedSelection : Selection where
  names := ["A", " B", " C"]
  disabled := ["A", " D"]
  rate := none

def listingRequest (selection : Selection) : Request where
  command := .probes selection
  manner := { force := false, quiet := false, verbosity := 0, json := false }

def listingEnvironment : Environment where
  now := { year := 2024, month := 2, day := 29, hour := 12, minute := 0, second := 0 }

def listedRegistry : Registry where
  probes := [{ name := "B", wiring := .scalar 1, symbol := '!' },
    { name := "C", wiring := .scalar 2, symbol := '"' }]

theorem listingLine_rewritten :
    Rewritten (listingLine "A, B, C" "A, D") (listingLine "A,B,C" "A,D") := by
  have spacedChannels : Argument.readNames "A, B, C" = ["A", " B", " C"] := by cbv
  have channels : Argument.readNames "A,B,C" = ["A", "B", "C"] := by cbv
  have spacedDisabled : Argument.readNames "A, D" = ["A", " D"] := by cbv
  have disabled : Argument.readNames "A,D" = ["A", "D"] := by cbv
  have sameChannels : SameNames "A, B, C" "A,B,C" := by
    simp only [SameNames, spacedChannels, channels, List.forall₂_cons, respaced_iff]
    refine ⟨trivial, ?_, ?_, .nil⟩ <;> cbv
  have sameDisabled : SameNames "A, D" "A,D" := by
    simp only [SameNames, spacedDisabled, disabled, List.forall₂_cons, respaced_iff]
    refine ⟨trivial, ?_, .nil⟩
    cbv
  have isText (text : String) (noDash : text.toList.head? ≠ some '-') :
      ¬Reading.LooksLikeOption text := by
    rintro ⟨name, rest, dash⟩
    simp [dash] at noDash
  have namesChannels : NamesOption .channels [] "-C" none :=
    .short rfl (List.forall_mem_nil _) []
  have spelled : "--" ++ "disable" = "--disable" := by decide
  have namesDisabled : NamesOption .disable [] "--disable" none := spelled ▸ .long rfl
  apply Rewritten.same (by decide)
  apply Rewritten.apart (by decide) namesChannels namesChannels (isText _ (by decide))
    (isText _ (by decide)) sameChannels
  apply Rewritten.apart (by decide) namesDisabled namesDisabled (isText _ (by decide))
    (isText _ (by decide)) sameDisabled
  exact .ended

theorem channel_names_are_trimmed_listing :
    run (listingLine "A,B,C" "A,D") listingEnvironment =
        run (listingLine "A, B, C" "A, D") listingEnvironment ∧
      LeavesOut listedRegistry 0 ∧ listedRegistry.Holds "B" 1 := by
  have read : Request.ofTexts (listingLine "A, B, C" "A, D") =
      .ok (listingRequest spacedSelection) := by
    cbv
  have readToo : Request.ofTexts (listingLine "A,B,C" "A,D") =
      .ok (listingRequest { names := ["A", "B", "C"], disabled := ["A", "D"], rate := none }) := by
    cbv
  have built : Registry.ofChannels spacedSelection.capture.channels = .ok listedRegistry := by cbv
  have leaves : trimName "A" = "A" := by cbv
  have stays : trimName " B" = "B" := by cbv
  have last : trimName " C" = "C" := by cbv
  rcases channel_names_are_trimmed listingLine_rewritten read with
    ⟨⟨other, isOther, _, sameRun⟩, shown⟩
  simp only [readToo, Except.ok.injEq] at isOther
  subst isOther
  refine ⟨sameRun ?_ listingEnvironment, ?_, ?_⟩
  · rintro _ ⟨⟩ _ ⟨⟩
    simp [Selection.Agrees, spacedSelection, leaves, stays, last]
  · exact ((shown spacedSelection rfl listedRegistry built 0 "A" rfl).2.1
      (leaves ▸ List.mem_cons_self)).1
  · have holds := (shown spacedSelection rfl listedRegistry built 1 " B" rfl).2.2
    simp only [stays] at holds
    exact holds (by decide)

/-- White space in front of a name to be left out brings back its channel. -/
theorem spaced_disable_shows_channel :
    trimName " B" = trimName "B" ∧
    (run (listingLine "A,B,C" "A,B") listingEnvironment).stdout = bytesOf (line "!   1 C [0@2]") ∧
    (run (listingLine "A,B,C" "A, B") listingEnvironment).stdout =
      bytesOf (line "!   1 B [0@1]" ++ line "\"   1 C [0@2]") :=
  ⟨by cbv, by cbv, by cbv⟩

end CommandLine

end WaveDump
