import WaveDump.CommandLine.Run
import WaveDump.Proofs.Acceptance
import WaveDump.Proofs.Levels
import WaveDump.Proofs.NumberText

/-!
# Names without the white space around them

The names of channels are taken without the white space around them. The names of channels that are
left out are taken as they are given: one that has white space around it leaves no channel out. So
requests that differ in white space only come to the same as long as the same channels stand in both
lists of names to be left out without white space.
-/

namespace WaveDump

namespace Text

/-! ## White space at the ends of a text -/

variable {core text first second : List Char}

/-- The text is the core with white space around it. -/
def Pads (core text : List Char) : Prop :=
  ∃ lead gap, text = lead ++ core ++ gap ∧ (∀ char ∈ lead, isBlank char) ∧
    ∀ char ∈ gap, isBlank char

theorem trimStart_append_blanks {gap : List Char} (blank : ∀ char ∈ gap, isBlank char)
    (text : List Char) :
    trimStart (text ++ gap) = trimStart text ++ gap ∨
      trimStart (text ++ gap) = [] ∧ trimStart text = [] := by
  have noGap : gap.dropWhile isBlank = [] := List.dropWhile_eq_nil_iff.mpr blank
  simp only [trimStart, List.dropWhile_append, noGap]
  split
  · rename_i allBlank
    exact .inr ⟨rfl, List.isEmpty_iff.mp allBlank⟩
  · exact .inl rfl

theorem trim_of_pads (pads : Pads core text) : trim text = trim core := by
  rcases pads with ⟨lead, gap, rfl, leadBlank, gapBlank⟩
  have withoutLead : trimStart (lead ++ core ++ gap) = trimStart (core ++ gap) := by
    simp only [trimStart, List.append_assoc, List.dropWhile_append_of_pos leadBlank]
  rcases trimStart_append_blanks gapBlank core with kept | ⟨allBlank, coreBlank⟩
  · simp only [trim, withoutLead, kept, trimEnd_append_blanks gapBlank]
  · simp only [trim, withoutLead, allBlank, coreBlank]

/-- Texts are the same without the white space around them if they pad one core. -/
theorem trim_eq_trim_iff :
    trim first = trim second ↔ ∃ core, Pads core first ∧ Pads core second := by
  constructor
  · intro same
    refine ⟨trim first, exists_trim first, ?_⟩
    simp only [same]
    exact exists_trim second
  · rintro ⟨core, padsFirst, padsSecond⟩
    exact (trim_of_pads padsFirst).trans (trim_of_pads padsSecond).symm

theorem trim_trim (text : List Char) : trim (trim text) = trim text :=
  (trim_of_pads (exists_trim text)).symm

end Text

namespace CommandLine

open Text (Pads)

/-! ## Names -/

/-- A name without the white space around it. -/
def trimName (name : String) : String :=
  String.ofList (Text.trim name.toList)

theorem trimName_trimName (name : String) : trimName (trimName name) = trimName name := by
  simp only [trimName, String.toList_ofList, Text.trim_trim]

/-- Names that differ in the white space around them. -/
def Respaced (first second : String) : Prop :=
  ∃ core, Pads core first.toList ∧ Pads core second.toList

theorem respaced_iff {first second : String} :
    Respaced first second ↔ trimName first = trimName second := by
  simp only [Respaced, trimName, String.ofList_inj, Text.trim_eq_trim_iff]

/-- Values of an option for names that differ in the white space around their names. -/
def SameNames (value other : String) : Prop :=
  List.Forall₂ Respaced (Argument.readNames value) (Argument.readNames other)

theorem map_trimName_of_respaced {first second : List String}
    (respaced : List.Forall₂ Respaced first second) :
    first.map trimName = second.map trimName := by
  induction respaced with
  | nil => rfl
  | cons here others ih => simp only [List.map_cons, respaced_iff.mp here, ih]

/-! ## Requests -/

def Setting.trimmed : Setting → Setting
  | .channels names => .channels (names.map trimName)
  | .disable names => .disable (names.map trimName)
  | other => other

def Selection.trimmed (selection : Selection) : Selection :=
  { selection with
      names := selection.names.map trimName
      disabled := selection.disabled.map trimName }

def Command.trimmed : Command → Command
  | .convert request => .convert { request with toSelection := request.toSelection.trimmed }
  | .probes selection => .probes selection.trimmed
  | .config => .config

def Request.trimmed (request : Request) : Request :=
  { request with command := request.command.trimmed }

/-- The channels that are named in a request. -/
def Command.selection? : Command → Option Selection
  | .convert request => some request.toSelection
  | .probes selection => some selection
  | .config => none

/-- A channel's name stands in both lists of names to be left out, or in none of them. -/
def Selection.Agrees (selection other : Selection) : Prop :=
  ∀ name ∈ selection.names, trimName name ∈ selection.disabled ↔ trimName name ∈ other.disabled

def Command.Agrees (command other : Command) : Prop :=
  ∀ selection ∈ command.selection?, ∀ second ∈ other.selection?, selection.Agrees second

theorem Selection.channels_eq_map (selection : Selection) :
    selection.capture.channels = (selection.names.map trimName).map fun name =>
      { name, enabled := !selection.disabled.contains name } := by
  simp only [capture, List.map_map]
  rfl

theorem Selection.Agrees.capture_eq {first second : Selection} (agrees : first.Agrees second)
    (same : first.trimmed = second.trimmed) : first.capture = second.capture := by
  simp only [trimmed, mk.injEq] at same
  rcases same with ⟨sameNames, _, sameRate⟩
  have channels : first.capture.channels = second.capture.channels := by
    simp only [channels_eq_map, ← sameNames, List.map_map]
    apply List.map_congr_left
    intro name member
    simpa [List.contains_eq_mem] using agrees name member
  simp only [capture] at channels ⊢
  simp only [channels, sameRate]

theorem runConvert_congr {request other : ConvertRequest} {selection : Selection}
    (isOther : other = { request with toSelection := selection })
    (sameCapture : request.capture = selection.capture) (manner : Manner)
    (environment : Environment) :
    runConvert other manner environment = runConvert request manner environment := by
  subst isOther
  simp only [runConvert, convertBetweenFiles, convertThroughStreams, sameCapture]
  rfl

/-- Requests that differ in white space have the same run if they leave out the same channels. -/
theorem Command.Agrees.runRequest_eq {request other : Request}
    (agrees : request.command.Agrees other.command) (same : request.trimmed = other.trimmed)
    (environment : Environment) :
    runRequest other environment = runRequest request environment := by
  rcases request with ⟨request | selection | _, manner⟩ <;>
    rcases other with ⟨other | second | _, otherManner⟩ <;>
    simp only [Request.trimmed, Command.trimmed, Request.mk.injEq, Command.convert.injEq,
      Command.probes.injEq, reduceCtorEq, false_and, true_and] at same
  · rcases same with ⟨sameRequest, rfl⟩
    simp only [ConvertRequest.mk.injEq] at sameRequest
    have isOther : other = { request with toSelection := other.toSelection } := by
      rcases other
      simp_all
    have sameCapture := (agrees _ rfl _ rfl).capture_eq sameRequest.1
    exact runConvert_congr isOther sameCapture manner environment
  · rcases same with ⟨sameSelection, rfl⟩
    have sameCapture := (agrees _ rfl _ rfl).capture_eq sameSelection
    simp only [runRequest, runProbes, sameCapture]
  · rw [same]

section Settings

variable {argument : Argument} {first second : List Setting}

theorem Setting.argument_trimmed (setting : Setting) :
    setting.trimmed.argument = setting.argument := by
  cases setting <;> rfl

theorem given_map_trimmed (argument : Argument) (settings : List Setting) :
    given argument (settings.map Setting.trimmed) = given argument settings := by
  simp only [given, List.any_map, Function.comp_def, Setting.argument_trimmed]

theorem findSome?_map_trimmed {α : Type} (pick : Setting → Option α)
    (same : ∀ setting : Setting, pick setting.trimmed = pick setting) (settings : List Setting) :
    (settings.map Setting.trimmed).findSome? pick = settings.findSome? pick := by
  simp only [List.findSome?_map, Function.comp_def, same]

theorem selectionOf_map_trimmed (settings : List Setting) :
    selectionOf (settings.map Setting.trimmed) = (selectionOf settings).trimmed := by
  simp only [selectionOf, Selection.trimmed, List.flatMap_map, List.map_flatMap,
    Selection.mk.injEq]
  refine ⟨?_, ?_, ?_⟩
  · apply List.flatMap_congr
    intro setting _
    cases setting <;> rfl
  · apply List.flatMap_congr
    intro setting _
    cases setting <;> rfl
  · exact findSome?_map_trimmed _ (fun setting => by cases setting <;> rfl) settings

theorem convertRequestOf_map_trimmed (settings : List Setting) :
    convertRequestOf (settings.map Setting.trimmed) =
      { convertRequestOf settings with
          toSelection := (convertRequestOf settings).toSelection.trimmed } := by
  simp only [convertRequestOf, selectionOf_map_trimmed, given_map_trimmed,
    ConvertRequest.mk.injEq, true_and, and_true]
  refine ⟨?_, ?_, ?_, ?_, ?_⟩
  · exact findSome?_map_trimmed _ (fun setting => by cases setting <;> rfl) settings
  · exact findSome?_map_trimmed _ (fun setting => by cases setting <;> rfl) settings
  · split
    · congr 2
      exact findSome?_map_trimmed _ (fun setting => by cases setting <;> rfl) settings
    · rfl
  · exact findSome?_map_trimmed _ (fun setting => by cases setting <;> rfl) settings
  · exact findSome?_map_trimmed _ (fun setting => by cases setting <;> rfl) settings

theorem mannerOf_map_trimmed (program settings : List Setting) :
    mannerOf (program.map Setting.trimmed) (settings.map Setting.trimmed) =
      mannerOf program settings := by
  have verbose (setting : Setting) : (setting.trimmed = .verbose) = (setting = .verbose) := by
    cases setting <;> simp [Setting.trimmed]
  simp only [mannerOf, verbosityOf, given_map_trimmed, List.countP_map, Function.comp_def, verbose]

theorem requestOf_map_trimmed (program : List Setting) (subcommand : Subcommand)
    (settings : List Setting) :
    requestOf (program.map Setting.trimmed) subcommand (settings.map Setting.trimmed) =
      (requestOf program subcommand settings).trimmed := by
  cases subcommand <;>
    simp only [requestOf, mannerOf_map_trimmed, convertRequestOf_map_trimmed,
      selectionOf_map_trimmed] <;> rfl

end Settings

/-! ## Channels that are left out -/

/-- No probe shows the bit at the position of a sample. -/
def LeavesOut (registry : Registry) (position : Nat) : Prop :=
  ∀ probe ∈ registry.probes, ∀ placement ∈ probe.bits, placement.sample ≠ position

/-- No value line depends on a bit that is left out. -/
theorem LeavesOut.change_eq {registry : Registry} {position : Nat}
    (leavesOut : LeavesOut registry position) {first second : Sample}
    (agree : ∀ other, other ≠ position → first.level other = second.level other) {probe : Probe}
    (member : probe ∈ registry.probes) : probe.change first = probe.change second := by
  have sameValue : probe.wiring.value first = probe.wiring.value second := by
    apply Wiring.value_congr
    intro placement shown
    exact agree _ (leavesOut probe member placement shown)
  simp only [Probe.change, sameValue]

namespace Selection

variable {selection : Selection} {registry : Registry} {name : String} {position : Nat}

theorem getElem?_channels (found : selection.names[position]? = some name) :
    selection.capture.channels[position]? =
      some { name := trimName name, enabled := !selection.disabled.contains (trimName name) } := by
  simp only [capture, List.getElem?_map, found, Option.map_some]
  rfl

theorem leavesOut_iff (built : Registry.ofChannels selection.capture.channels = .ok registry)
    (found : selection.names[position]? = some name) :
    LeavesOut registry position ↔ trimName name ∈ selection.disabled := by
  have unseen : LeavesOut registry position ↔
      position ∉ registry.probes.flatMap fun probe => probe.bits.map Placement.sample := by
    simp [LeavesOut]
  simp only [unseen, Registry.mem_samples_iff built, selection.getElem?_channels found,
    Option.some.injEq, exists_eq_left']
  simp

theorem holds_of_not_mem (built : Registry.ofChannels selection.capture.channels = .ok registry)
    (found : selection.names[position]? = some name)
    (enabled : trimName name ∉ selection.disabled) :
    registry.Holds (trimName name) position := by
  apply (Registry.represents_of_build built).holds
  apply Registry.mem_enabledBits.mpr
  refine ⟨_, selection.getElem?_channels found, ?_, rfl⟩
  simpa using enabled

/-- If the name is to be left out but for white space, then also without it. -/
def Plain (selection : Selection) (name : String) : Prop :=
  ∀ element ∈ selection.disabled, trimName element = trimName name →
    trimName name ∈ selection.disabled

/-- White space around the names to be left out is of no account where they are plain, and only
there. -/
theorem plain_iff (built : Registry.ofChannels selection.capture.channels = .ok registry)
    (found : selection.names[position]? = some name) :
    selection.Plain name ↔
      (LeavesOut registry position ↔
        ∃ element ∈ selection.disabled, trimName element = trimName name) := by
  rw [leavesOut_iff built found]
  constructor
  · intro plain
    constructor
    · intro disabled
      exact ⟨trimName name, disabled, trimName_trimName name⟩
    · rintro ⟨element, member, same⟩
      exact plain element member same
  · intro matched element member same
    exact matched.mpr ⟨element, member, same⟩

end Selection

end CommandLine

end WaveDump
