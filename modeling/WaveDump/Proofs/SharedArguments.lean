import WaveDump.Proofs.Settings

/-!
# Arguments that a listing shares with a conversion

A conversion takes every option that a listing of probes takes, and it takes positions besides. A
line that a listing accepts has no positions, so reading it for a conversion goes the same way and
differs only in the positions that are left. The conversion is then one of the same channels, in the
same manner, and leaves the unit size to the program.
-/

namespace WaveDump.CommandLine

/-! ## Options -/

namespace Part

variable {argument : Argument}

theorem ofLong?_convert {name : String}
    (found : (subcommand .probes).ofLong? name = some argument) :
    (subcommand .convert).ofLong? name = some argument := by
  have isOption := List.mem_of_find?_eq_some found
  have named : argument.long? = some name := by simpa using List.find?_some found
  simp only [options, List.mem_cons, List.not_mem_nil, or_false] at isOption
  rcases isOption with rfl | rfl | rfl | rfl | rfl | rfl | rfl | rfl <;> cases named <;> rfl

theorem ofShort?_convert {name : Char}
    (found : (subcommand .probes).ofShort? name = some argument) :
    (subcommand .convert).ofShort? name = some argument := by
  have isOption := List.mem_of_find?_eq_some found
  have named : argument.short? = some name := by simpa using List.find?_some found
  simp only [options, List.mem_cons, List.not_mem_nil, or_false] at isOption
  rcases isOption with rfl | rfl | rfl | rfl | rfl | rfl | rfl | rfl <;> cases named <;> rfl

end Part

/-! ## Readings that differ in their positions -/

namespace Reading

/-- The reading with other positions left. -/
def withPositions (positions : List Argument) (reading : Reading) : Reading :=
  { reading with positions }

variable (positions : List Argument) (reading : Reading)

theorem add_withPositions (argument : Argument) (made : Except UsageError Setting) :
    (reading.withPositions positions).add argument made =
      (reading.add argument made).map (withPositions positions) := by
  by_cases again : given argument reading.settings && !argument.repeats <;> cases made <;>
    simp [add, withPositions, again, Except.map]

theorem settle_withPositions :
    (reading.withPositions positions).settle = reading.settle.map (withPositions positions) := by
  rcases reading with ⟨settings, _ | ⟨argument, _ | value⟩, others, onlyPositions⟩
  · rfl
  · rfl
  · exact add_withPositions positions { settings, positions := others, onlyPositions } argument _

theorem takeFlag_withPositions (flag : Argument) :
    (reading.withPositions positions).takeFlag flag =
      (reading.takeFlag flag).map (withPositions positions) := by
  rw [takeFlag, takeFlag, settle_withPositions]
  cases reading.settle with
  | error stop => rfl
  | ok settled =>
      cases made : flag.flagSetting? with
      | none => rfl
      | some setting => exact add_withPositions positions settled flag (.ok setting)

theorem takeOption_withPositions (option : Argument) (value : Option String) :
    (reading.withPositions positions).takeOption option value =
      (reading.takeOption option value).map (withPositions positions) := by
  rw [takeOption, takeOption, settle_withPositions]
  cases reading.settle with
  | error stop => rfl
  | ok settled =>
      cases value with
      | none => rfl
      | some value => exact add_withPositions positions settled option (option.setting value)

theorem finish_withPositions (part : Part) :
    (reading.withPositions positions).finish part = reading.finish part := by
  rw [finish, finish, settle_withPositions]
  cases reading.settle <;> rfl

end Reading

/-! ## From a listing to a conversion -/

namespace Reading

variable {positions : List Argument} {reading next : Reading}

/-- The other reading comes to the same, but for the positions that are left. -/
def Mirrors (positions : List Argument) (next : Reading) (other : Except Stop Reading) : Prop :=
  ∃ same : Reading, next = same.withPositions [] ∧ other = .ok (same.withPositions positions)

theorem mirrors_of_map {result : Except Stop Reading}
    (ok : result.map (withPositions []) = .ok next) :
    Mirrors positions next (result.map (withPositions positions)) := by
  cases result with
  | error stop => contradiction
  | ok same => exact ⟨same, (Except.ok.inj ok).symm, rfl⟩

theorem takeLong_mirrors {body : List Char}
    (taken : takeLong (.subcommand .probes) (reading.withPositions []) body = .ok next) :
    Mirrors positions next
      (takeLong (.subcommand .convert) (reading.withPositions positions) body) := by
  simp only [takeLong] at taken ⊢
  split at taken
  · contradiction
  · rename_i argument found
    rw [Part.ofLong?_convert found]
    simp only [takeOption_withPositions, takeFlag_withPositions] at taken ⊢
    split at taken
    · rename_i takes
      simp only [takes, ↓reduceIte]
      exact mirrors_of_map taken
    · rename_i takesNone
      simp only [takesNone, Bool.false_eq_true, ↓reduceIte]
      split at taken
      · exact mirrors_of_map taken
      · contradiction

theorem takeShorts_mirrors {names : List Char}
    (taken : takeShorts (.subcommand .probes) (reading.withPositions []) names = .ok next) :
    Mirrors positions next
      (takeShorts (.subcommand .convert) (reading.withPositions positions) names) := by
  induction names generalizing reading with
  | nil => exact ⟨reading, (Except.ok.inj taken).symm, rfl⟩
  | cons name rest ih =>
      simp only [takeShorts] at taken ⊢
      split at taken
      · contradiction
      · rename_i argument found
        rw [Part.ofShort?_convert found]
        simp only [takeOption_withPositions, takeFlag_withPositions] at taken ⊢
        split at taken
        · rename_i takes
          simp only [takes, ↓reduceIte]
          exact mirrors_of_map taken
        · rename_i takesNone
          simp only [takesNone, Bool.false_eq_true, ↓reduceIte]
          cases flagged : reading.takeFlag argument with
          | error stop => simp [flagged, Except.map, bind, Except.bind] at taken
          | ok same =>
              rw [flagged] at taken
              exact ih taken

theorem takePosition_ne_ok (text : String) :
    takePosition (.subcommand .probes) (reading.withPositions []) text ≠ .ok next :=
  nofun

/-- A text that is taken behind `probes` is taken for the same behind `convert`. -/
theorem take_mirrors {text : String}
    (taken : take (.subcommand .probes) (reading.withPositions []) text = .ok next) :
    Mirrors positions next
      (take (.subcommand .convert) (reading.withPositions positions) text) := by
  have samePending : (reading.withPositions positions).pending = reading.pending := rfl
  have sameFlag : (reading.withPositions positions).onlyPositions = reading.onlyPositions := rfl
  -- A listing has no positions, so what it takes is an option or the value of one.
  unfold take at taken ⊢
  split at taken
  · exact absurd taken (takePosition_ne_ok text)
  · rename_i mayBeOption
    rw [if_neg (by rwa [sameFlag])]
    split at taken
    · exact ⟨{ reading with onlyPositions := true }, (Except.ok.inj taken).symm, rfl⟩
    · exact takeLong_mirrors taken
    · exact takeShorts_mirrors taken
    · rename_i notEnd notLong notShort
      split at taken
      · rename_i argument isPending
        rw [samePending, show reading.pending = some (argument, none) from isPending]
        exact ⟨{ reading with pending := some (argument, some text) },
          (Except.ok.inj taken).symm, rfl⟩
      · exact absurd taken (takePosition_ne_ok text)

theorem foldlM_mirrors {texts : List String}
    (taken : texts.foldlM (take (.subcommand .probes)) (reading.withPositions []) = .ok next) :
    Mirrors positions next
      (texts.foldlM (take (.subcommand .convert)) (reading.withPositions positions)) := by
  induction texts generalizing reading with
  | nil => exact ⟨reading, (Except.ok.inj taken).symm, rfl⟩
  | cons text rest ih =>
      rw [List.foldlM_cons] at taken ⊢
      rcases exists_of_bind_eq_ok taken with ⟨between, first, others⟩
      rcases take_mirrors first with ⟨same, rfl, converted⟩
      rw [converted]
      exact ih others

end Reading

theorem readSubcommand_convert {texts : List String} {settings : List Setting}
    (read : readSubcommand .probes texts = .ok settings) :
    readSubcommand .convert texts = .ok settings := by
  rcases exists_of_bind_eq_ok read with ⟨reading, taken, finished⟩
  have started (subcommand : Subcommand) : Reading.start (.subcommand subcommand) =
      (Reading.start (.subcommand .probes)).withPositions (Part.subcommand subcommand).positions :=
    rfl
  rw [started] at taken
  rcases Reading.foldlM_mirrors taken with ⟨same, rfl, converted⟩
  rw [readSubcommand, started, converted]
  rw [Reading.finish_withPositions] at finished
  exact (same.finish_withPositions _ _).trans finished

/-- No setting of a listing gives a unit size. -/
theorem unitSize_eq_none {texts : List String} {settings : List Setting}
    (read : readSubcommand .probes texts = .ok settings) :
    (convertRequestOf settings).unitSize = none := by
  have belongs := (readSubcommand_belongs read).1
  rw [convertRequestOf, List.findSome?_eq_none_iff]
  intro setting member
  have isArgument := (belongs setting member).argument
  cases setting <;> first | rfl | simp [Setting.argument, Part.arguments, Part.options,
    Part.positions] at isArgument

/-- A line for the channels of a selection that leaves the unit size of the dump to the program. -/
structure Converts (texts : List String) (selection : Selection) (request : ConvertRequest)
    (manner : Manner) : Prop where
  read : Request.ofTexts texts = .ok { command := .convert request, manner }
  selection : request.toSelection = selection
  unitSize : request.unitSize = none

theorem readProgram_convert {reading : Reading} {texts : List String} {selection : Selection}
    {manner : Manner}
    (read : readProgram reading texts = .ok { command := .probes selection, manner }) :
    ∃ before arguments request, texts = before ++ "probes" :: arguments ∧
      readProgram reading (before ++ "convert" :: arguments) =
        .ok { command := .convert request, manner } ∧
      request.toSelection = selection ∧ request.unitSize = none := by
  induction texts generalizing reading with
  | nil =>
      rcases exists_of_bind_eq_ok read with ⟨settled, _, stopped⟩
      simp at stopped
  | cons text rest ih =>
      -- Up to the subcommand both lines are the same, and behind it the listing decides.
      unfold readProgram at read
      split at read
      · rename_i onlyPositions
        rcases exists_of_bind_eq_ok read with ⟨next, taken, others⟩
        rcases ih others with ⟨before, arguments, request, rfl, converted, same⟩
        refine ⟨text :: before, arguments, request, rfl, ?_, same⟩
        rw [List.cons_append, readProgram, if_pos onlyPositions, taken]
        exact converted
      · rename_i mayBeSubcommand
        split at read
        · rename_i subcommand isName
          rcases exists_of_bind_eq_ok read with ⟨settings, settingsOk, others⟩
          rcases exists_of_bind_eq_ok others with ⟨program, programOk, made⟩
          cases subcommand with
          | convert | config => simp [requestOf] at made
          | probes =>
              simp only [requestOf, Except.ok.injEq, Request.mk.injEq, Command.probes.injEq] at made
              rcases made with ⟨rfl, rfl⟩
              have isProbes : "probes" = text := by
                simpa [Subcommand.name] using List.find?_some isName
              refine ⟨[], rest, convertRequestOf settings, by rw [isProbes]; rfl, ?_, rfl,
                unitSize_eq_none settingsOk⟩
              have convertName : Subcommand.ofName? "convert" = some .convert := rfl
              rw [List.nil_append, readProgram, if_neg mayBeSubcommand, convertName]
              simp only [readSubcommand_convert settingsOk, programOk]
              rfl
        · rename_i noName
          split at read
          · simp at read
          · rename_i noHelp
            rcases exists_of_bind_eq_ok read with ⟨next, taken, others⟩
            rcases ih others with ⟨before, arguments, request, rfl, converted, same⟩
            refine ⟨text :: before, arguments, request, rfl, ?_, same⟩
            rw [List.cons_append, readProgram, if_neg mayBeSubcommand, noName]
            simp only [noHelp, taken]
            exact converted

/-- With `convert` in the place of `probes`, a line is one for a conversion of the same channels. -/
theorem exists_converts {texts : List String} {selection : Selection} {manner : Manner}
    (read : Request.ofTexts texts = .ok { command := .probes selection, manner }) :
    ∃ before arguments request, texts = before ++ "probes" :: arguments ∧
      Converts (before ++ "convert" :: arguments) selection request manner := by
  rcases readProgram_convert read with ⟨before, arguments, request, split, converted, same, derived⟩
  exact ⟨before, arguments, request, split, converted, same, derived⟩

end WaveDump.CommandLine
