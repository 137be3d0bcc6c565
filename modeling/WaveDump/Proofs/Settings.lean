import Mathlib.Data.List.Basic
import WaveDump.CommandLine.Grammar

/-!
# Settings of accepted command lines

Every setting that reading collects is that of an argument which the part of the line takes, and it
has been made from a value that was looked at. So whatever the order, the spelling and the number of
arguments, a command line that is accepted names at least one channel, and a unit size that it gives
lies within bounds.
-/

namespace WaveDump.CommandLine

/-- What values of settings have in common once they have been looked at. -/
def Setting.Admissible : Setting → Prop
  | .channels names => names ≠ []
  | .unitSize bytes => 1 ≤ bytes ∧ bytes ≤ 4096
  | _ => True

namespace Argument

theorem settingOf_eq_ok {α : Type} {argument : Argument} {value : String} {make : α → Setting}
    {reading : Except String α} {setting : Setting}
    (made : argument.settingOf value make reading = .ok setting) :
    ∃ content, reading = .ok content ∧ setting = make content := by
  cases reading with
  | error cause => simp [settingOf] at made
  | ok content =>
      simp only [settingOf, Except.ok.injEq] at made
      exact ⟨content, rfl, made.symm⟩

theorem settingOfPath_eq_ok {argument : Argument} {value : String} {make : String → Setting}
    {setting : Setting} (made : argument.settingOfPath value make = .ok setting) :
    setting = make value := by
  unfold settingOfPath at made
  split at made
  · simp at made
  · simp only [Except.ok.injEq] at made
    exact made.symm

theorem readUnitSize_eq_ok {value : String} {bytes : Nat} (read : readUnitSize value = .ok bytes) :
    1 ≤ bytes ∧ bytes ≤ 4096 := by
  unfold readUnitSize at read
  split at read
  · simp at read
  · split at read
    · rename_i within
      simp only [Except.ok.injEq] at read
      simp only [Bool.and_eq_true, decide_eq_true_eq] at within
      rw [← read]
      exact within
    · simp at read

theorem setting_eq_ok {argument : Argument} {value : String} {setting : Setting}
    (made : argument.setting value = .ok setting) :
    setting.argument = argument ∧ setting.Admissible := by
  cases argument with
  | channels =>
      simp only [Argument.setting, Except.ok.injEq] at made
      subst made
      simp [Setting.argument, Setting.Admissible, readNames]
  | disable =>
      simp only [Argument.setting, Except.ok.injEq] at made
      subst made
      exact ⟨rfl, trivial⟩
  | sampleRate =>
      rcases settingOf_eq_ok made with ⟨rate, _, rfl⟩
      exact ⟨rfl, trivial⟩
  | unitSize =>
      rcases settingOf_eq_ok made with ⟨bytes, read, rfl⟩
      exact ⟨rfl, readUnitSize_eq_ok read⟩
  | date =>
      rcases settingOf_eq_ok made with ⟨moment, _, rfl⟩
      exact ⟨rfl, trivial⟩
  | gzipLevel =>
      rcases settingOf_eq_ok made with ⟨level, _, rfl⟩
      exact ⟨rfl, trivial⟩
  | input | output | inputPosition | outputPosition =>
      rw [settingOfPath_eq_ok made]
      exact ⟨rfl, trivial⟩
  | gzip | stdout | force | quiet | verbose | json | help | version =>
      simp [Argument.setting] at made

theorem flagSetting?_eq_some {flag : Argument} {setting : Setting}
    (made : flag.flagSetting? = some setting) :
    setting.argument = flag ∧ setting.Admissible := by
  cases flag <;> simp only [flagSetting?, Option.some.injEq, reduceCtorEq] at made <;>
    subst made <;> exact ⟨rfl, trivial⟩

end Argument

def Part.arguments (part : Part) : List Argument :=
  part.options ++ part.positions

/-- A setting of an argument that the part takes. -/
structure Setting.Belongs (part : Part) (setting : Setting) : Prop where
  argument : setting.argument ∈ part.arguments
  admissible : setting.Admissible

theorem exists_of_bind_eq_ok {α β : Type} {first : Except Stop α} {next : α → Except Stop β}
    {result : β} (ok : (first >>= next) = .ok result) :
    ∃ value, first = .ok value ∧ next value = .ok result := by
  cases first with
  | error stop => simp [bind, Except.bind] at ok
  | ok value => exact ⟨value, rfl, ok⟩

namespace Reading

variable {part : Part} {reading next : Reading}

/-- What has been taken, and what may come, belongs to the part of the line. -/
structure Belongs (part : Part) (reading : Reading) : Prop where
  settings : ∀ setting ∈ reading.settings, setting.Belongs part
  pending : ∀ pending ∈ reading.pending, pending.1 ∈ part.arguments
  positions : reading.positions ⊆ part.positions

theorem start_belongs (part : Part) : (start part).Belongs part where
  settings := List.forall_mem_nil _
  pending := by simp [start]
  positions := List.Subset.refl _

theorem Belongs.add (belongs : reading.Belongs part) {argument : Argument}
    {made : Except UsageError Setting} (madeBelongs : ∀ setting, made = .ok setting →
      setting.Belongs part) (added : reading.add argument made = .ok next) : next.Belongs part := by
  unfold Reading.add at added
  split at added
  · simp at added
  · cases made with
    | error error => simp at added
    | ok setting =>
        simp only [Except.ok.injEq] at added
        subst added
        refine ⟨?_, belongs.pending, belongs.positions⟩
        intro other member
        rcases List.mem_append.mp member with earlier | last
        · exact belongs.settings other earlier
        · rw [List.mem_singleton.mp last]
          exact madeBelongs setting rfl

theorem Belongs.add_setting (belongs : reading.Belongs part) {argument : Argument} {value : String}
    (taken : argument ∈ part.arguments)
    (added : reading.add argument (argument.setting value) = .ok next) : next.Belongs part := by
  apply belongs.add _ added
  intro setting made
  rcases Argument.setting_eq_ok made with ⟨rfl, admissible⟩
  exact ⟨taken, admissible⟩

theorem Belongs.settle (belongs : reading.Belongs part) (settled : reading.settle = .ok next) :
    next.Belongs part := by
  unfold Reading.settle at settled
  split at settled
  · simp only [Except.ok.injEq] at settled
    rwa [← settled]
  · simp at settled
  · rename_i argument value isPending
    have rest : ({ reading with pending := none } : Reading).Belongs part :=
      ⟨belongs.settings, by simp, belongs.positions⟩
    exact rest.add_setting (belongs.pending (argument, some value) isPending) settled

theorem Belongs.takeFlag (belongs : reading.Belongs part) {flag : Argument}
    (isOption : flag ∈ part.arguments) (taken : reading.takeFlag flag = .ok next) :
    next.Belongs part := by
  rcases exists_of_bind_eq_ok taken with ⟨settled, settledOk, added⟩
  have belongsSettled := belongs.settle settledOk
  cases made : flag.flagSetting? with
  | none => simp [made] at added
  | some setting =>
      simp only [made] at added
      apply belongsSettled.add _ added
      intro other isOther
      simp only [Except.ok.injEq] at isOther
      subst isOther
      rcases Argument.flagSetting?_eq_some made with ⟨rfl, admissible⟩
      exact ⟨isOption, admissible⟩

theorem Belongs.takeOption (belongs : reading.Belongs part) {option : Argument}
    (isOption : option ∈ part.arguments) {value : Option String}
    (taken : reading.takeOption option value = .ok next) : next.Belongs part := by
  rcases exists_of_bind_eq_ok taken with ⟨settled, settledOk, added⟩
  have belongsSettled := belongs.settle settledOk
  cases value with
  | none =>
      simp only [Except.ok.injEq] at added
      subst added
      exact ⟨belongsSettled.settings, by simpa using isOption, belongsSettled.positions⟩
  | some value => exact belongsSettled.add_setting isOption added

theorem Belongs.takeLong (belongs : reading.Belongs part) {body : List Char}
    (taken : takeLong part reading body = .ok next) : next.Belongs part := by
  simp only [Reading.takeLong] at taken
  split at taken
  · simp at taken
  · rename_i argument found
    have isOption : argument ∈ part.arguments :=
      List.mem_append_left _ (List.mem_of_find?_eq_some found)
    split at taken
    · exact belongs.takeOption isOption taken
    · split at taken
      · exact belongs.takeFlag isOption taken
      · simp at taken

theorem Belongs.takeShorts (belongs : reading.Belongs part) {names : List Char}
    (taken : takeShorts part reading names = .ok next) : next.Belongs part := by
  induction names generalizing reading with
  | nil =>
      simp only [Reading.takeShorts, Except.ok.injEq] at taken
      rwa [← taken]
  | cons name rest ih =>
      simp only [Reading.takeShorts] at taken
      split at taken
      · simp at taken
      · rename_i argument found
        have isOption : argument ∈ part.arguments :=
          List.mem_append_left _ (List.mem_of_find?_eq_some found)
        split at taken
        · exact belongs.takeOption isOption taken
        · rcases exists_of_bind_eq_ok taken with ⟨flagged, flaggedOk, others⟩
          exact ih (belongs.takeFlag isOption flaggedOk) others

theorem Belongs.takePosition (belongs : reading.Belongs part) {text : String}
    (taken : takePosition part reading text = .ok next) : next.Belongs part := by
  unfold Reading.takePosition at taken
  split at taken
  · rename_i position rest isNext
    have positions : position :: rest ⊆ part.positions := isNext ▸ belongs.positions
    rcases List.cons_subset.mp positions with ⟨isPosition, others⟩
    rcases exists_of_bind_eq_ok taken with ⟨settled, settledOk, placed⟩
    have belongsSettled := belongs.settle settledOk
    simp only [Except.ok.injEq] at placed
    subst placed
    have isArgument : position ∈ part.arguments := List.mem_append_right _ isPosition
    exact ⟨belongsSettled.settings, by simpa using isArgument, others⟩
  · simp at taken

/-- Whatever a text is taken for, no setting comes about without a look at its value. -/
theorem Belongs.take (belongs : reading.Belongs part) {text : String}
    (taken : take part reading text = .ok next) : next.Belongs part := by
  unfold Reading.take at taken
  split at taken
  · exact belongs.takePosition taken
  · split at taken
    · simp only [Except.ok.injEq] at taken
      subst taken
      exact ⟨belongs.settings, belongs.pending, belongs.positions⟩
    · exact belongs.takeLong taken
    · exact belongs.takeShorts taken
    · split at taken
      · rename_i argument isPending
        simp only [Except.ok.injEq] at taken
        subst taken
        have isArgument := belongs.pending (argument, none) isPending
        exact ⟨belongs.settings, by simpa using isArgument, belongs.positions⟩
      · exact belongs.takePosition taken

theorem Belongs.takeAll (belongs : reading.Belongs part) {texts : List String}
    (taken : texts.foldlM (Reading.take part) reading = .ok next) : next.Belongs part := by
  induction texts generalizing reading with
  | nil =>
      simp only [List.foldlM_nil, pure, Except.pure, Except.ok.injEq] at taken
      rwa [← taken]
  | cons text rest ih =>
      simp only [List.foldlM_cons] at taken
      rcases exists_of_bind_eq_ok taken with ⟨between, first, others⟩
      exact ih (belongs.take first) others

theorem Belongs.finish (belongs : reading.Belongs part) {settings : List Setting}
    (finished : reading.finish part = .ok settings) :
    (∀ setting ∈ settings, setting.Belongs part) ∧
      ∀ argument ∈ part.required, given argument settings := by
  rcases exists_of_bind_eq_ok finished with ⟨settled, settledOk, checked⟩
  have belongsSettled := belongs.settle settledOk
  dsimp only at checked
  split at checked
  · simp at checked
  · split at checked
    · rename_i complete
      simp only [Except.ok.injEq] at checked
      subst checked
      refine ⟨belongsSettled.settings, ?_⟩
      simpa using complete
    · simp at checked

end Reading

/-! ## Requests -/

theorem readSubcommand_belongs {subcommand : Subcommand} {texts : List String}
    {settings : List Setting} (read : readSubcommand subcommand texts = .ok settings) :
    (∀ setting ∈ settings, setting.Belongs (.subcommand subcommand)) ∧
      ∀ argument ∈ (Part.subcommand subcommand).required, given argument settings := by
  rcases exists_of_bind_eq_ok read with ⟨reading, taken, finished⟩
  exact ((Reading.start_belongs _).takeAll taken).finish finished

/-- A request comes from the settings of a subcommand that has been read to its end. -/
theorem exists_of_readProgram_eq_ok {reading : Reading} {texts : List String} {request : Request}
    (read : readProgram reading texts = .ok request) :
    ∃ program subcommand rest settings, readSubcommand subcommand rest = .ok settings ∧
      request = requestOf program subcommand settings := by
  induction texts generalizing reading with
  | nil =>
      rcases exists_of_bind_eq_ok read with ⟨settled, _, stopped⟩
      simp at stopped
  | cons text rest ih =>
      unfold readProgram at read
      split at read
      · rcases exists_of_bind_eq_ok read with ⟨next, _, others⟩
        exact ih others
      · split at read
        · rename_i subcommand _
          rcases exists_of_bind_eq_ok read with ⟨settings, settingsOk, others⟩
          rcases exists_of_bind_eq_ok others with ⟨program, _, made⟩
          simp only [Except.ok.injEq] at made
          exact ⟨program, subcommand, rest, settings, settingsOk, made.symm⟩
        · split at read
          · simp at read
          · rcases exists_of_bind_eq_ok read with ⟨next, _, others⟩
            exact ih others

/-- A conversion that is accepted names a channel, and its unit size is within bounds. -/
theorem convert_admissible {texts : List String} {request : ConvertRequest} {manner : Manner}
    (read : Request.ofTexts texts = .ok { command := .convert request, manner }) :
    request.names ≠ [] ∧ ∀ bytes, request.unitSize = some bytes → 1 ≤ bytes ∧ bytes ≤ 4096 := by
  rcases exists_of_readProgram_eq_ok read with ⟨program, subcommand, rest, settings, inner, made⟩
  rcases readSubcommand_belongs inner with ⟨belongs, complete⟩
  cases subcommand with
  | probes | config => simp [requestOf] at made
  | convert =>
      simp only [requestOf, Request.mk.injEq, Command.convert.injEq] at made
      rcases made with ⟨rfl, _⟩
      constructor
      · have named := complete .channels (by simp [Part.required])
        simp only [given, List.any_eq_true, decide_eq_true_eq] at named
        rcases named with ⟨setting, member, isChannels⟩
        cases setting <;> simp [Setting.argument] at isChannels
        rename_i names
        intro noNames
        have inside := (belongs _ member).admissible
        simp only [convertRequestOf, selectionOf, List.flatMap_eq_nil_iff] at noNames
        exact inside (noNames _ member)
      · intro bytes isUnitSize
        simp only [convertRequestOf, List.findSome?_eq_some_iff] at isUnitSize
        rcases isUnitSize with ⟨_, setting, _, split, found, _⟩
        cases setting <;> simp at found
        rename_i size
        subst found
        have member : Setting.unitSize size ∈ settings := by
          simp [split]
        exact (belongs _ member).admissible

end WaveDump.CommandLine
