import Mathlib
import WaveDump.Proofs.RateTexts
import WaveDump.Proofs.Body

/-!
# Reading a header

A header is read line by line. The first word tells what a line says, and what a line says stands
between that word and the final `$end`, so a name may hold blanks, digits or even `$end`; only a
line feed is out of place in it. The last line of a header is found neither before it nor in any
body, so it parts the two.
-/

namespace WaveDump

/-- A text that stands on one line. -/
def Unbroken (text : String) : Prop :=
  '\n' ∉ text.toList

instance (text : String) : Decidable (Unbroken text) :=
  inferInstanceAs (Decidable ('\n' ∉ text.toList))

/-! ## Readers of lines -/

def startsWith (mark : String) (line : List Char) : Bool :=
  mark.toList.isPrefixOf line

/-- What stands between the opening and the ending of a line. -/
def between? (opening ending : String) (line : List Char) : Option (List Char) :=
  (opening.toList.isPrefixOf? line).bind ending.toList.isSuffixOf?

/-- What follows the last occurrence of a mark. -/
def afterLast? (mark : List Char) : List Char → Option (List Char)
  | [] => mark.isPrefixOf? []
  | char :: rest => (afterLast? mark rest).or (mark.isPrefixOf? (char :: rest))

structure Declaration where
  width : Nat
  symbol : Char
  name : String
deriving DecidableEq, Repr

/-- The declaration on a line: the width up to the first blank, the symbol, and the name, which is
all that is left. -/
def readDeclaration? (line : List Char) : Option Declaration :=
  (between? "$var wire " " $end" line).bind fun inner =>
    match inner.dropWhile fun char => char != ' ' with
    | ' ' :: symbol :: ' ' :: name =>
      (readDecimal? (inner.takeWhile fun char => char != ' ')).map fun width =>
        { width, symbol, name := String.ofList name }
    | _ => none

/-- How many of a unit of time make up a second. -/
def unitsPerSecond? : List Char → Option Nat
  | ['m', 's'] => some 1000
  | ['u', 's'] => some 1000000
  | ['n', 's'] => some 1000000000
  | _ => none

def readTimescale? (line : List Char) : Option Nat :=
  (between? "$timescale 1 " " $end" line).bind unitsPerSecond?

/-- The lines of the first comment. -/
def readComment? (lines : List (List Char)) : Option (List (List Char)) :=
  match lines.dropWhile fun line => !startsWith "$comment" line with
  | [] => none
  | _ :: rest => some (rest.takeWhile fun line => !startsWith "$end" line)

/-- The sample rate that a line ends with. -/
def readRate? (line : List Char) : Option (Except SampleRateError Nat) :=
  (afterLast? " at ".toList line).map fun text => SampleRate.read (String.ofList text)

theorem between?_append (opening ending : String) (inner : List Char) :
    between? opening ending (opening.toList ++ inner ++ ending.toList) = some inner := by
  have opened : opening.toList.isPrefixOf? (opening.toList ++ inner ++ ending.toList) =
      some (inner ++ ending.toList) := by
    rw [List.isPrefixOf?_eq_some_iff_append_eq, List.append_assoc]
  rw [between?, opened, Option.bind_some, List.isSuffixOf?_eq_some_iff_append_eq]

theorem isPrefixOf?_eq_none {mark text : List Char} (absent : ¬ mark <:+: text) :
    mark.isPrefixOf? text = none := by
  rw [Option.eq_none_iff_forall_ne_some]
  intro rest isRest
  rw [List.isPrefixOf?_eq_some_iff_append_eq] at isRest
  exact absent ⟨[], rest, isRest⟩

theorem afterLast?_eq_none {mark text : List Char} (absent : ¬ mark <:+: text) :
    afterLast? mark text = none := by
  induction text with
  | nil => exact isPrefixOf?_eq_none absent
  | cons char rest ih =>
      have absentLater : ¬ mark <:+: rest := fun later =>
        absent (later.trans (List.suffix_cons char rest).isInfix)
      rw [afterLast?, ih absentLater, isPrefixOf?_eq_none absent, Option.or_none]

/-- An occurrence is the last one if no other begins after its first character. -/
theorem afterLast?_append {first : Char} {others back : List Char} (front : List Char)
    (isLast : ¬ first :: others <:+: others ++ back) :
    afterLast? (first :: others) (front ++ (first :: others ++ back)) = some back := by
  induction front with
  | nil =>
      rw [List.nil_append, List.cons_append, afterLast?, afterLast?_eq_none isLast, Option.none_or,
        List.isPrefixOf?_eq_some_iff_append_eq, List.cons_append]
  | cons char rest ih => rw [List.cons_append, afterLast?, ih, Option.some_or]

theorem readComment?_append {before : List (List Char)} {about : List Char}
    (after : List (List Char)) (notBefore : ∀ line ∈ before, startsWith "$comment" line = false)
    (goesOn : startsWith "$end" about = false) :
    readComment? (before ++ (["$comment".toList, about, "$end".toList] ++ after)) =
      some [about] := by
  have skipped : ∀ line ∈ before, (!startsWith "$comment" line) = true := by
    intro line member
    rw [notBefore line member, Bool.not_false]
  have opened : startsWith "$comment" "$comment".toList = true := by decide
  have closed : startsWith "$end" "$end".toList = true := by decide
  rw [readComment?, List.dropWhile_append_of_pos skipped]
  simp only [List.cons_append, List.dropWhile_cons, opened, Bool.not_true, Bool.false_eq_true,
    ↓reduceIte, List.takeWhile_cons, goesOn, Bool.not_false, closed]

/-! ## Texts on one line -/

theorem unbroken_append {first second : String} :
    Unbroken (first ++ second) ↔ Unbroken first ∧ Unbroken second := by
  simp [Unbroken]

theorem unbroken_repr (number : Nat) : Unbroken number.repr := fun member =>
  absurd (Text.isDigit_of_mem_repr member) (by decide)

theorem SampleRate.unbroken_render (rate : Nat) : Unbroken (render rate) :=
  not_mem_render (by decide) (by decide)

namespace Moment

theorem unbroken_getD {names : List String} (unbroken : ∀ name ∈ names, Unbroken name)
    (index : Nat) : Unbroken (names.getD index "") := by
  rw [List.getD_eq_getElem?_getD]
  cases found : names[index]? with
  | none => decide
  | some name => exact unbroken name (List.mem_of_getElem? found)

theorem unbroken_padded {filler : Char} (isText : filler ≠ '\n') (width value : Nat) :
    Unbroken (padded filler width value) := by
  rw [padded, unbroken_append]
  constructor
  · rw [Unbroken, String.toList_ofList]
    intro member
    exact isText (List.eq_of_mem_replicate member).symm
  · exact unbroken_repr value

theorem unbroken_yearText (year : Int) : Unbroken (yearText year) := by
  have digits := unbroken_padded (show '0' ≠ '\n' by decide) 4 year.natAbs
  unfold yearText
  split
  · exact unbroken_append.mpr ⟨by decide, digits⟩
  · split
    · exact unbroken_append.mpr ⟨by decide, digits⟩
    · exact digits

theorem unbroken_render (moment : Moment) : Unbroken moment.render := by
  have weekday : Unbroken (weekdayNames.getD moment.weekday "") := unbroken_getD (by decide) _
  have month : Unbroken (monthNames.getD (moment.month - 1) "") := unbroken_getD (by decide) _
  have twoDigits := unbroken_padded (show '0' ≠ '\n' by decide) 2
  simp only [render, unbroken_append, and_assoc]
  exact ⟨weekday, by decide, month, by decide, unbroken_padded (by decide) 2 _, by decide,
    twoDigits _, by decide, twoDigits _, by decide, twoDigits _, by decide, unbroken_yearText _⟩

end Moment

/-! ## Declarations -/

namespace Probe

/-- The line of a declaration, without the line feed that ends it. -/
def declarationLine (probe : Probe) : String :=
  "$var wire " ++ probe.width.repr ++ " " ++ probe.symbol.toString ++ " " ++ probe.name ++ " $end"

theorem declaration_eq (probe : Probe) : probe.declaration = probe.declarationLine ++ "\n" := by
  unfold declaration declarationLine
  simp [String.append_assoc]

theorem toList_declarationLine (probe : Probe) :
    probe.declarationLine.toList = "$var wire ".toList ++
      (probe.width.repr.toList ++ ' ' :: probe.symbol :: ' ' :: probe.name.toList) ++
        " $end".toList := by
  unfold declarationLine
  simp

theorem readDeclaration?_declarationLine (probe : Probe) :
    readDeclaration? probe.declarationLine.toList =
      some { width := probe.width, symbol := probe.symbol, name := probe.name } := by
  have noBlank : ∀ char ∈ probe.width.repr.toList, (char != ' ') = true := by
    intro char member
    have isDigit := Text.isDigit_of_mem_repr member
    rw [bne_iff_ne]
    rintro rfl
    exact absurd isDigit (by decide)
  rw [readDeclaration?, toList_declarationLine, between?_append, Option.bind_some]
  simp only [List.dropWhile_append_of_pos noBlank, List.takeWhile_append_of_pos noBlank]
  simp [readDecimal?_toDigits]

end Probe

namespace Header

variable {header : Header}

/-! ## The lines of a header -/

/-- The line that ends every header. -/
def terminator : String :=
  "$enddefinitions $end"

def commentLines (header : Header) : List String :=
  match header.rate with
  | none => []
  | some rate => [
      "$comment",
      "  Acquisition with " ++ header.enabledChannels.repr ++ "/" ++ header.totalChannels.repr ++
        " probes at " ++ SampleRate.render rate,
      "$end"]

/-- The lines before the terminator. -/
def leadingLines (header : Header) : List String :=
  ["$date " ++ header.date.render ++ " $end",
    "$version " ++ header.toolName ++ " " ++ header.toolVersion ++ " $end"] ++
  header.commentLines ++
  ["$timescale " ++ header.timescale.text ++ " $end",
    "$scope module " ++ header.toolName ++ " $end"] ++
  header.registry.probes.map Probe.declarationLine ++
  ["$upscope $end"]

theorem comment_toList (header : Header) :
    header.comment.toList = (header.commentLines.map String.toList).flatMap (· ++ ['\n']) := by
  cases rate : header.rate <;> simp [comment, commentLines, rate]

theorem render_toList (header : Header) :
    header.render.toList =
      (header.leadingLines.map String.toList ++ [terminator.toList]).flatMap (· ++ ['\n']) := by
  unfold render
  simp [leadingLines, terminator, comment_toList, List.flatMap_map, Probe.declaration_eq]

theorem filter_var (header : Header) :
    (header.leadingLines.map String.toList).filter (startsWith "$var ") =
      header.registry.probes.map fun probe => probe.declarationLine.toList := by
  cases rate : header.rate <;>
    simp [leadingLines, startsWith, commentLines, rate, Probe.toList_declarationLine,
      List.filter_map, Function.comp_def]

theorem filter_timescale (header : Header) :
    (header.leadingLines.map String.toList).filter (startsWith "$timescale") =
      ["$timescale ".toList ++ header.timescale.text.toList ++ " $end".toList] := by
  cases rate : header.rate <;>
    simp [leadingLines, startsWith, commentLines, rate, Probe.toList_declarationLine,
      List.filter_map, Function.comp_def]

theorem terminator_not_mem (header : Header) :
    terminator.toList ∉ header.leadingLines.map String.toList := by
  cases rate : header.rate <;>
    simp [leadingLines, terminator, commentLines, rate, Probe.toList_declarationLine]

/-! ## Reading what was printed -/

/-- No text in the header reaches over the end of its line. -/
structure Printable (header : Header) : Prop where
  toolName : Unbroken header.toolName
  toolVersion : Unbroken header.toolVersion
  name : ∀ probe ∈ header.registry.probes, Unbroken probe.name
  symbol : ∀ probe ∈ header.registry.probes, probe.symbol ≠ '\n'

theorem printable_of_build {entries : List (String × Nat)}
    (built : Registry.build entries = .ok header.registry)
    (names : ∀ entry ∈ entries, Unbroken entry.1) (toolName : Unbroken header.toolName)
    (toolVersion : Unbroken header.toolVersion) : header.Printable where
  toolName := toolName
  toolVersion := toolVersion
  name := by
    intro probe member lineFeed
    rcases Registry.exists_entry_of_mem built member with ⟨entry, entryMem, begins⟩
    exact names entry entryMem (begins.subset lineFeed)
  symbol := fun _ => Registry.symbol_ne_lineFeed built

theorem unbroken_commentLines (header : Header) :
    ∀ line ∈ header.commentLines, Unbroken line := by
  cases rate : header.rate with
  | none => simp [commentLines, rate]
  | some hertz =>
      simp only [commentLines, rate, List.mem_cons, List.not_mem_nil, or_false]
      rintro _ (rfl | rfl | rfl)
      · decide
      · simp only [unbroken_append, and_assoc]
        exact ⟨by decide, unbroken_repr _, by decide, unbroken_repr _, by decide,
          SampleRate.unbroken_render hertz⟩
      · decide

theorem unbroken_declarationLine (printable : header.Printable) {probe : Probe}
    (member : probe ∈ header.registry.probes) : Unbroken probe.declarationLine := by
  have symbol : Unbroken probe.symbol.toString := by
    simpa [Unbroken] using (printable.symbol probe member).symm
  unfold Probe.declarationLine
  simp only [unbroken_append, and_assoc]
  exact ⟨by decide, unbroken_repr _, by decide, symbol, by decide, printable.name probe member,
    by decide⟩

theorem unbroken_leadingLines (printable : header.Printable) :
    ∀ line ∈ header.leadingLines, Unbroken line := by
  have timescale : Unbroken header.timescale.text := by
    cases header.timescale <;> decide
  simp only [leadingLines, List.mem_append, List.mem_cons, List.not_mem_nil, or_false,
    List.mem_map]
  rintro line (((((rfl | rfl) | comment) | (rfl | rfl)) | ⟨probe, member, rfl⟩) | rfl)
  · simp only [unbroken_append]
    exact ⟨⟨by decide, header.date.unbroken_render⟩, by decide⟩
  · simp only [unbroken_append]
    exact ⟨⟨⟨⟨by decide, printable.toolName⟩, by decide⟩, printable.toolVersion⟩, by decide⟩
  · exact header.unbroken_commentLines line comment
  · simp only [unbroken_append]
    exact ⟨⟨by decide, timescale⟩, by decide⟩
  · simp only [unbroken_append]
    exact ⟨⟨by decide, printable.toolName⟩, by decide⟩
  · exact unbroken_declarationLine printable member
  · decide

theorem linesOf_render_append (printable : header.Printable) (rest : List Char) :
    linesOf (header.render.toList ++ rest) =
      header.leadingLines.map String.toList ++ terminator.toList :: linesOf rest := by
  have unbroken : ∀ line ∈ header.leadingLines.map String.toList ++ [terminator.toList],
      '\n' ∉ line := by
    simp only [List.mem_append, List.mem_map, List.mem_singleton]
    rintro _ (⟨line, member, rfl⟩ | rfl)
    · exact unbroken_leadingLines printable line member
    · decide
  rw [render_toList, linesOf_flatMap_append unbroken, List.append_assoc, List.singleton_append]

theorem linesOf_render (printable : header.Printable) :
    linesOf header.render.toList =
      header.leadingLines.map String.toList ++ [terminator.toList] := by
  simpa [linesOf] using linesOf_render_append printable []

theorem filter_linesOf_render (printable : header.Printable) {mark : String}
    (other : startsWith mark terminator.toList = false) :
    (linesOf header.render.toList).filter (startsWith mark) =
      (header.leadingLines.map String.toList).filter (startsWith mark) := by
  have none : [terminator.toList].filter (startsWith mark) = [] := by
    rw [List.filter_eq_nil_iff]
    intro line member
    rw [List.mem_singleton.mp member, other]
    exact Bool.false_ne_true
  rw [linesOf_render printable, List.filter_append, none, List.append_nil]

theorem declarations_read_back (printable : header.Printable) :
    ((linesOf header.render.toList).filter (startsWith "$var ")).map readDeclaration? =
      header.registry.probes.map fun probe =>
        some { width := probe.width, symbol := probe.symbol, name := probe.name } := by
  rw [filter_linesOf_render printable (by decide), filter_var, List.map_map]
  simp only [Function.comp_def, Probe.readDeclaration?_declarationLine]

theorem readTimescale?_text (timescale : Timescale) :
    readTimescale? ("$timescale ".toList ++ timescale.text.toList ++ " $end".toList) =
      some timescale.ticksPerSecond := by
  cases timescale <;> decide

theorem timescale_read_back (printable : header.Printable) :
    ((linesOf header.render.toList).filter (startsWith "$timescale")).map readTimescale? =
      [some header.timescale.ticksPerSecond] := by
  rw [filter_linesOf_render printable (by decide), filter_timescale, List.map_singleton,
    readTimescale?_text]

theorem exists_comment_iff (printable : header.Printable) :
    (∃ line ∈ linesOf header.render.toList, startsWith "$comment" line) ↔ header.rate.isSome := by
  have notLast : startsWith "$comment" terminator.toList = false := by decide
  simp only [linesOf_render printable, List.mem_append, List.mem_singleton, or_and_right,
    exists_or, exists_eq_left, notLast, Bool.false_eq_true, or_false]
  cases rate : header.rate <;>
    simp [leadingLines, startsWith, commentLines, rate, Probe.toList_declarationLine]

theorem not_infix_at {text : List Char} (absent : 'a' ∉ text) :
    ¬ [' ', 'a', 't', ' '] <:+: ['a', 't', ' '] ++ text := by
  rintro ⟨_ | ⟨char, before⟩, after, whole⟩
  · simp at whole
  · simp only [List.cons_append, List.nil_append, List.append_assoc, List.cons.injEq] at whole
    have later : 'a' ∈ ['t', ' '] ++ text := by
      rw [List.cons_append, List.singleton_append, ← whole.2]
      simp
    simp [absent] at later

/-- The rate is the last thing that the comment says, and no rate holds the mark before it. -/
theorem readRate?_append (opening : String) {rate : Nat} (within : rate ≤ maxWord) :
    readRate? (opening ++ " at " ++ SampleRate.render rate).toList = some (.ok rate) := by
  have absent : 'a' ∉ (SampleRate.render rate).toList :=
    SampleRate.not_mem_render (by decide) (by decide)
  have parted : (opening ++ " at " ++ SampleRate.render rate).toList =
      opening.toList ++ (" at ".toList ++ (SampleRate.render rate).toList) := by
    simp
  rw [readRate?, parted, show " at ".toList = [' ', 'a', 't', ' '] by decide,
    afterLast?_append _ (not_infix_at absent), Option.map_some, String.ofList_toList,
    SampleRate.read_render within]

theorem commentLines_of_known {rate : Nat} (known : header.rate = some rate) :
    ∃ opening : String, header.commentLines =
      ["$comment", "  " ++ opening ++ " at " ++ SampleRate.render rate, "$end"] := by
  refine ⟨"Acquisition with " ++ header.enabledChannels.repr ++ "/" ++
    header.totalChannels.repr ++ " probes", ?_⟩
  have mark : " probes at " = " probes" ++ " at " := by decide
  have indent : "  Acquisition with " = "  " ++ "Acquisition with " := by decide
  simp only [commentLines, known, mark, indent, String.append_assoc]

theorem readComment?_leadingLines {rate : Nat} (known : header.rate = some rate)
    (rest : List (List Char)) :
    ∃ opening : String, readComment? (header.leadingLines.map String.toList ++ rest) =
      some [(opening ++ " at " ++ SampleRate.render rate).toList] := by
  rcases commentLines_of_known known with ⟨opening, isComment⟩
  refine ⟨"  " ++ opening, ?_⟩
  have notBefore : ∀ line ∈ [("$date " ++ header.date.render ++ " $end").toList,
      ("$version " ++ header.toolName ++ " " ++ header.toolVersion ++ " $end").toList],
      startsWith "$comment" line = false := by
    simp [startsWith, List.isPrefixOf]
  have goesOn : startsWith "$end"
      ("  " ++ opening ++ " at " ++ SampleRate.render rate).toList = false := by
    simp [startsWith, List.isPrefixOf]
  rw [leadingLines, isComment]
  simp only [List.map_append, List.append_assoc, List.map_cons, List.map_nil]
  exact readComment?_append _ notBefore goesOn

end Header

/-! ## Where a body begins -/

section Body

theorem eq_keyword_of_chars_eq_terminator {line : DumpLine}
    (same : line.chars = Header.terminator.toList) :
    line = .keyword "enddefinitions $end".toList := by
  have opened : Header.terminator.toList = '$' :: "enddefinitions $end".toList := by decide
  rw [opened] at same
  cases line with
  | stamp time => simp [DumpLine.chars] at same
  | keyword name =>
      rw [DumpLine.chars, List.cons.injEq] at same
      rw [same.2]
  | change made =>
      rcases made with ⟨symbol, level | places⟩
      · cases level <;> simp [DumpLine.chars, levelDigit] at same
      · simp [DumpLine.chars] at same

theorem Block.keyword_mem_lines {block : Block} {name : List Char}
    (member : DumpLine.keyword name ∈ block.lines) :
    name = "dumpvars".toList ∨ name = "end".toList := by
  cases initial : block.initial with
  | false => simp [lines, initial] at member
  | true => simpa [lines, initial] using member

theorem Block.terminator_not_mem_lines (block : Block) :
    Header.terminator.toList ∉ block.lines.map DumpLine.chars := by
  intro member
  rcases List.mem_map.mp member with ⟨line, lineMem, same⟩
  rw [eq_keyword_of_chars_eq_terminator same] at lineMem
  rcases keyword_mem_lines lineMem with isOpening | isEnding
  · exact absurd isOpening (by decide)
  · exact absurd isEnding (by decide)

variable {capture : Capture} {options : EncoderOptions} {encoder : Encoder}

/-- No body has a line like the one that ends a header. -/
theorem Encoder.terminator_not_mem_body (accepted : (create capture options).1 = .ok encoder)
    (samples : List Sample) :
    Header.terminator.toList ∉
      linesOf (String.join ((encoder.blocks samples).map Block.text)).toList := by
  have printable := Block.flatMap_lines_printable (blocks_printable accepted samples)
  rw [Block.join_text_toList, DumpLine.linesOf_print printable, List.map_flatMap]
  intro member
  rcases List.mem_flatMap.mp member with ⟨block, _, inBlock⟩
  exact block.terminator_not_mem_lines inBlock

theorem Encoder.feed_eq_render_append (accepted : (create capture options).1 = .ok encoder)
    {frames : List Frame} (encoded : ∃ frame ∈ frames, 0 < frame.stride) :
    String.join (encoder.feed frames).2 =
      (headerFor encoder.registry capture options).render ++
        String.join ((encoder.blocks (frames.flatMap Frame.samples)).map Block.text) := by
  rw [(feed_of_create accepted frames).2, opening_of_create accepted, if_pos]
  simpa using encoded

end Body

namespace Header

variable {header : Header}

/-- Behind a header, lines without the terminator leave a single place to part the two. -/
theorem linesOf_render_append_eq_iff (printable : header.Printable) {body : List Char}
    (absent : terminator.toList ∉ linesOf body) (before after : List (List Char)) :
    linesOf (header.render.toList ++ body) = before ++ terminator.toList :: after ↔
      linesOf header.render.toList = before ++ [terminator.toList] ∧ linesOf body = after := by
  rw [linesOf_render_append printable, linesOf_render printable, List.append_cancel_right_eq,
    List.append_cons_inj_of_notMem header.terminator_not_mem absent]
  simp only [true_and]

theorem count_terminator (printable : header.Printable) {body : List Char}
    (absent : terminator.toList ∉ linesOf body) :
    (linesOf (header.render.toList ++ body)).count terminator.toList = 1 := by
  rw [linesOf_render_append printable, List.count_append, List.count_cons_self,
    List.count_eq_zero_of_not_mem header.terminator_not_mem,
    List.count_eq_zero_of_not_mem absent]

theorem printable_of_create {capture : Capture} {options : EncoderOptions} {encoder : Encoder}
    (accepted : (Encoder.create capture options).1 = .ok encoder)
    (names : ∀ channel ∈ capture.channels, channel.enabled → Unbroken channel.name)
    (toolName : Unbroken options.toolName) (toolVersion : Unbroken options.toolVersion) :
    (Encoder.headerFor encoder.registry capture options).Printable := by
  rcases Encoder.create_eq_ok accepted with ⟨built, _, _⟩
  have builtEntries : Registry.build (Registry.enabledBits capture.channels) =
      .ok (Encoder.headerFor encoder.registry capture options).registry := built
  apply printable_of_build builtEntries _ toolName toolVersion
  intro entry entryMem
  rcases Registry.mem_enabledBits.mp entryMem with ⟨channel, found, enabled, named⟩
  rw [← named]
  exact names channel (List.mem_of_getElem? found) enabled

/-- A header says what it was made from, whatever the names are that it holds: the declarations give
back the probes in their order, the unit of time is the one that stamps are counted in, and a
comment stands for a known rate and ends with it. The terminator is the last line of the header and
no other line of it, nor any line of a body, so every output falls apart in one way only. -/
theorem read_back :
    (∀ (header : Header) (entries : List (String × Nat)),
      Registry.build entries = .ok header.registry →
      (∀ entry ∈ entries, Unbroken entry.1) →
      Unbroken header.toolName → Unbroken header.toolVersion →
      (∀ rate, header.rate = some rate → rate ≤ maxWord) →
      let lines := linesOf header.render.toList
      let ticks := header.timescale.ticksPerSecond
      (lines.filter (startsWith "$var ")).map readDeclaration? =
        header.registry.probes.map (fun probe =>
          some { width := probe.width, symbol := probe.symbol, name := probe.name }) ∧
      (lines.filter (startsWith "$timescale")).map readTimescale? = [some ticks] ∧
      (∀ rate, header.rate = some rate → 0 < rate → ∀ index,
        header.timescale.stamp header.rate index = min (index * ticks / rate) maxWord) ∧
      ((∃ line ∈ lines, startsWith "$comment" line) ↔ header.rate.isSome) ∧
      (∀ rate, header.rate = some rate → ∃ about,
        readComment? lines = some [about] ∧ readRate? about = some (.ok rate)) ∧
      ∃ before, lines = before ++ [terminator.toList] ∧ terminator.toList ∉ before) ∧
    ∀ (capture : Capture) (options : EncoderOptions) (encoder : Encoder),
      (Encoder.create capture options).1 = .ok encoder →
      (∀ channel ∈ capture.channels, channel.enabled → Unbroken channel.name) →
      Unbroken options.toolName → Unbroken options.toolVersion →
      let header := Encoder.headerFor encoder.registry capture options
      encoder.timescale = header.timescale ∧ encoder.rate = header.rate ∧
      ∀ frames : List Frame,
        let text := String.join (encoder.feed frames).2
        let blocks := encoder.blocks (frames.flatMap Frame.samples)
        let body := String.join (blocks.map Block.text)
        ((∀ frame ∈ frames, frame.stride = 0) → text = "") ∧
        ((∃ frame ∈ frames, 0 < frame.stride) →
          text = header.render ++ body ∧
          (linesOf text.toList).count terminator.toList = 1 ∧
          ∀ before after, linesOf text.toList = before ++ terminator.toList :: after ↔
            linesOf header.render.toList = before ++ [terminator.toList] ∧
              linesOf body.toList = after) := by
  constructor
  · intro header entries built names toolName toolVersion inWord lines ticks
    have printable := printable_of_build built names toolName toolVersion
    refine ⟨declarations_read_back printable, timescale_read_back printable, ?_,
      exists_comment_iff printable, ?_, ?_⟩
    · intro rate known positive index
      rw [known]
      exact Timescale.stamp_of_pos _ positive index
    · intro rate known
      rcases readComment?_leadingLines known [terminator.toList] with ⟨opening, comment⟩
      rw [← linesOf_render printable] at comment
      exact ⟨_, comment, readRate?_append opening (inWord rate known)⟩
    · exact ⟨_, linesOf_render printable, header.terminator_not_mem⟩
  · intro capture options encoder accepted names toolName toolVersion header
    have printable : header.Printable :=
      printable_of_create accepted names toolName toolVersion
    rcases Encoder.create_eq_ok accepted with ⟨_, _, isFresh⟩
    refine ⟨by rw [isFresh]; rfl, by rw [isFresh]; rfl, ?_⟩
    intro frames text blocks body
    constructor
    · intro nothingEncoded
      change String.join (encoder.feed frames).2 = ""
      rw [encoder.feed_of_forall_zero nothingEncoded, String.join_nil]
    · intro encoded
      have isText : text = header.render ++ body := Encoder.feed_eq_render_append accepted encoded
      have absent : terminator.toList ∉ linesOf body.toList :=
        Encoder.terminator_not_mem_body accepted _
      rw [isText, String.toList_append]
      exact ⟨rfl, count_terminator printable absent,
        linesOf_render_append_eq_iff printable absent⟩

end Header

/-- Names that hold a blank, an ending or nothing at all, and a vector with a single bit. -/
def oddNames : List (String × Nat) :=
  [("a $end", 0), ("", 1), ("7 µs<2>", 2)]

def oddHeader : Header where
  date := { year := 2024, month := 2, day := 29, hour := 12, minute := 0, second := 0 }
  toolName := "$var wire"
  toolVersion := "1 at 2 Hz"
  rate := some 3000000
  enabledChannels := 3
  totalChannels := 4
  registry :=
    { probes := [
        { name := "a $end", wiring := .scalar 0, symbol := '!' },
        { name := "", wiring := .scalar 1, symbol := '"' },
        { name := "7 µs", wiring := .vector [⟨2, 2⟩], symbol := '#' }] }

theorem read_back_oddHeader :
    (Registry.build oddNames = .ok oddHeader.registry ∧
      (∀ entry ∈ oddNames, Unbroken entry.1) ∧
      Unbroken oddHeader.toolName ∧ Unbroken oddHeader.toolVersion ∧
      (∀ rate, oddHeader.rate = some rate → rate ≤ maxWord) ∧
      ((linesOf oddHeader.render.toList).filter (startsWith "$var ")).map readDeclaration? =
        [some ⟨1, '!', "a $end"⟩, some ⟨1, '"', ""⟩, some ⟨1, '#', "7 µs"⟩] ∧
      ∃ about, readComment? (linesOf oddHeader.render.toList) = some [about] ∧
        readRate? about = some (.ok 3000000)) ∧
    (Encoder.create clockAndBus clockAndBusOptions).1 = .ok clockAndBusEncoder ∧
      (∀ channel ∈ clockAndBus.channels, channel.enabled → Unbroken channel.name) ∧
      Unbroken clockAndBusOptions.toolName ∧ Unbroken clockAndBusOptions.toolVersion ∧
      (∃ frame ∈ clockAndBusFrames, 0 < frame.stride) ∧
      (linesOf (String.join (clockAndBusEncoder.feed clockAndBusFrames).2).toList).count
        Header.terminator.toList = 1 := by
  have built : Registry.build oddNames = .ok oddHeader.registry := by cbv
  have oddUnbroken : ∀ entry ∈ oddNames, Unbroken entry.1 := by decide
  have inWord : ∀ rate, oddHeader.rate = some rate → rate ≤ maxWord := by
    rintro _ ⟨⟩
    decide
  have unbroken : ∀ channel ∈ clockAndBus.channels, channel.enabled → Unbroken channel.name := by
    decide
  have encoded : ∃ frame ∈ clockAndBusFrames, 0 < frame.stride := by decide
  rcases Header.read_back.1 oddHeader oddNames built oddUnbroken (by decide) (by decide) inWord with
    ⟨declarations, _, _, _, comment, _⟩
  have run := Header.read_back.2 clockAndBus clockAndBusOptions clockAndBusEncoder
    clockAndBus_accepted unbroken (by decide) (by decide)
  exact ⟨⟨built, oddUnbroken, by decide, by decide, inWord, declarations, comment 3000000 rfl⟩,
    clockAndBus_accepted, unbroken, by decide, by decide, encoded,
    ((run.2.2 clockAndBusFrames).2 encoded).2.1⟩

end WaveDump
