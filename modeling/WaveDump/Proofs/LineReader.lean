import WaveDump.Waveform

/-!
# Reading a dump line by line

A reader of the body needs to look at the first character of a line only: it tells time stamps,
keywords, scalars and vectors apart, although symbols may be any of these characters, because a
symbol never stands first. Lines between two stamps make up a block, and a block with keywords is
the initial one. Reading what was printed gives back the blocks.
-/

namespace WaveDump

def linesOf : List Char → List (List Char)
  | [] => []
  | '\n' :: rest => [] :: linesOf rest
  | char :: rest =>
    match linesOf rest with
    | [] => [[char]]
    | line :: others => (char :: line) :: others

inductive DumpLine where
  | stamp (time : Nat)
  | keyword (name : List Char)
  | change (made : ValueChange)
deriving DecidableEq, Repr

def readPlace? : Char → Option (Option Bool)
  | '0' => some (some false)
  | '1' => some (some true)
  | 'x' => some none
  | _ => none

def readDecimal? (digits : List Char) : Option Nat :=
  if digits ≠ [] ∧ digits.all Char.isDigit then some (Nat.ofDigitChars 10 digits 0) else none

theorem isDigit_of_mem_toDigits {number : Nat} {char : Char}
    (member : char ∈ Nat.toDigits 10 number) : char.isDigit :=
  Nat.isDigit_of_mem_toDigits (by decide) (by decide) member

theorem readDecimal?_toDigits (number : Nat) :
    readDecimal? (Nat.toDigits 10 number) = some number := by
  have digits : (Nat.toDigits 10 number).all Char.isDigit := by
    rw [List.all_eq_true]
    exact fun char => isDigit_of_mem_toDigits
  rw [readDecimal?, if_pos ⟨Nat.toDigits_ne_nil, digits⟩, Nat.ofDigitChars_ten_toDigits]

/-- What was printed is read, one after the other. -/
theorem mapM_map_eq_some {α β γ : Type} {print : α → β} {read : β → Option γ} {meant : α → γ}
    (readBack : ∀ thing, read (print thing) = some (meant thing)) (things : List α) :
    (things.map print).mapM read = some (things.map meant) := by
  induction things with
  | nil => rfl
  | cons thing rest ih => simp only [List.map_cons, List.mapM_cons, readBack, ih]; rfl

namespace DumpLine

/-- The line that stands for a value change of a vector: places up to the first blank, then the
symbol. -/
def readVector? (text : List Char) : Option DumpLine :=
  match text.dropWhile fun char => char != ' ' with
  | [_, symbol] =>
    ((text.takeWhile fun char => char != ' ').mapM readPlace?).map fun places =>
      .change { symbol, value := .vector places }
  | _ => none

/-- The line that characters spell, told by the first of them. -/
def read? : List Char → Option DumpLine
  | '#' :: digits => (readDecimal? digits).map .stamp
  | '$' :: name => some (.keyword name)
  | ['0', symbol] => some (.change { symbol, value := .scalar false })
  | ['1', symbol] => some (.change { symbol, value := .scalar true })
  | 'b' :: text => readVector? text
  | _ => none

def chars : DumpLine → List Char
  | .stamp time => '#' :: Nat.toDigits 10 time
  | .keyword name => '$' :: name
  | .change made =>
    match made.value with
    | .scalar level => [levelDigit level, made.symbol]
    | .vector places => 'b' :: (places.map placeDigit ++ [' ', made.symbol])

def Printable : DumpLine → Prop
  | .stamp _ => True
  | .keyword name => '\n' ∉ name
  | .change made => made.symbol ≠ '\n'

theorem lineFeed_not_mem_chars {line : DumpLine} (printable : line.Printable) :
    '\n' ∉ line.chars := by
  cases line with
  | stamp time =>
      intro member
      have isDigit : '\n'.isDigit := by
        simp only [chars, List.mem_cons, Char.reduceEq, false_or] at member
        exact isDigit_of_mem_toDigits member
      exact absurd isDigit (by decide)
  | keyword name => simpa [chars, Printable] using printable
  | change made =>
      rcases made with ⟨symbol, level | places⟩
      · have symbolNe : symbol ≠ '\n' := printable
        cases level <;> simpa [chars, levelDigit, eq_comm] using symbolNe
      · have symbolNe : symbol ≠ '\n' := printable
        have noPlace (place : Option Bool) : placeDigit place ≠ '\n' := by
          rcases place with _ | _ | _ <;> decide
        simpa [chars, noPlace, eq_comm] using symbolNe

theorem readPlace?_placeDigit (place : Option Bool) :
    readPlace? (placeDigit place) = some place := by
  rcases place with _ | _ | _ <;> rfl

theorem mapM_readPlace? (places : List (Option Bool)) :
    (places.map placeDigit).mapM readPlace? = some places := by
  rw [mapM_map_eq_some readPlace?_placeDigit, List.map_id']

theorem readVector?_append (places : List (Option Bool)) (symbol : Char) :
    readVector? (places.map placeDigit ++ [' ', symbol]) =
      some (.change { symbol, value := .vector places }) := by
  have noBlank : ∀ char ∈ places.map placeDigit, (char != ' ') = true := by
    simp only [List.mem_map]
    rintro _ ⟨place, _, rfl⟩
    rcases place with _ | _ | _ <;> decide
  rw [readVector?, List.takeWhile_append_of_pos noBlank, List.dropWhile_append_of_pos noBlank]
  simp [-List.mapM_map, mapM_readPlace?]

theorem read?_chars (line : DumpLine) : read? line.chars = some line := by
  cases line with
  | stamp time => simp [chars, read?, readDecimal?_toDigits]
  | keyword name => rfl
  | change made =>
      rcases made with ⟨symbol, level | places⟩
      · cases level <;> rfl
      · exact readVector?_append places symbol

def readAll? (text : List Char) : Option (List DumpLine) :=
  (linesOf text).mapM read?

def print (lines : List DumpLine) : List Char :=
  lines.flatMap fun line => line.chars ++ ['\n']

end DumpLine

theorem linesOf_append {line : List Char} (unbroken : '\n' ∉ line) (rest : List Char) :
    linesOf (line ++ '\n' :: rest) = line :: linesOf rest := by
  induction line with
  | nil => rfl
  | cons char others ih =>
      simp only [List.mem_cons, not_or] at unbroken
      rw [List.cons_append, linesOf, ih unbroken.2]
      exact fun lineFeed => unbroken.1 lineFeed.symm

/-- Lines that were each ended by a line feed are told apart from each other and from the rest. -/
theorem linesOf_flatMap_append {lines : List (List Char)}
    (unbroken : ∀ line ∈ lines, '\n' ∉ line) (rest : List Char) :
    linesOf (lines.flatMap (· ++ ['\n']) ++ rest) = lines ++ linesOf rest := by
  induction lines with
  | nil => rfl
  | cons line others ih =>
      rw [List.flatMap_cons, List.append_assoc, List.append_assoc, List.singleton_append,
        linesOf_append (unbroken line List.mem_cons_self),
        ih fun other member => unbroken other (List.mem_cons_of_mem _ member), List.cons_append]

theorem DumpLine.linesOf_print {lines : List DumpLine}
    (printable : ∀ line ∈ lines, line.Printable) : linesOf (print lines) = lines.map chars := by
  have unbroken : ∀ text ∈ lines.map chars, '\n' ∉ text := by
    simp only [List.mem_map]
    rintro _ ⟨line, member, rfl⟩
    exact lineFeed_not_mem_chars (printable line member)
  have parted := linesOf_flatMap_append unbroken []
  rw [List.append_nil, List.flatMap_map] at parted
  rw [print, parted, linesOf, List.append_nil]

theorem DumpLine.readAll?_print {lines : List DumpLine}
    (printable : ∀ line ∈ lines, line.Printable) : readAll? (print lines) = some lines := by
  rw [readAll?, linesOf_print printable, mapM_map_eq_some read?_chars, List.map_id']

/-! ## Blocks -/

namespace Block

def lines (block : Block) : List DumpLine :=
  let changes := block.changes.map DumpLine.change
  .stamp block.time ::
    if block.initial then
      .keyword "dumpvars".toList :: changes ++ [.keyword "end".toList]
    else
      changes

def Printable (block : Block) : Prop :=
  ∀ change ∈ block.changes, change.symbol ≠ '\n'

/-- Lines gathered from the end: the lines before the first stamp, and the blocks after it. -/
structure Gathered where
  changes : List ValueChange := []
  keywords : Bool := false
  blocks : List Block := []

/-- Lines up to the next stamp belong to the block of the last one. -/
def gatherLines : List DumpLine → Gathered
  | [] => {}
  | .stamp time :: rest =>
    let later := gatherLines rest
    { blocks := { time, initial := later.keywords, changes := later.changes } :: later.blocks }
  | .keyword _ :: rest => { gatherLines rest with keywords := true }
  | .change made :: rest =>
    let later := gatherLines rest
    { later with changes := made :: later.changes }

def readAll? (text : String) : Option (List Block) :=
  (DumpLine.readAll? text.toList).bind fun lines =>
    match gatherLines lines with
    | { changes := [], keywords := false, blocks } => some blocks
    | _ => none

theorem line_toList (change : ValueChange) :
    change.line.toList = (DumpLine.change change).chars ++ ['\n'] := by
  rcases change with ⟨symbol, level | places⟩ <;> simp [ValueChange.line, DumpLine.chars]

theorem text_toList (block : Block) : block.text.toList = DumpLine.print block.lines := by
  have changes : (String.join (block.changes.map ValueChange.line)).toList =
      DumpLine.print (block.changes.map DumpLine.change) := by
    simp only [String.toList_join, DumpLine.print, List.flatMap_map, line_toList]
  cases initial : block.initial with
  | false =>
      simp [text, lines, initial, changes, DumpLine.print, DumpLine.chars]
  | true =>
      simp [text, lines, initial, changes, DumpLine.print, DumpLine.chars]

theorem gatherLines_changes (changes : List ValueChange) (rest : List DumpLine) :
    gatherLines (changes.map DumpLine.change ++ rest) =
      { gatherLines rest with changes := changes ++ (gatherLines rest).changes } := by
  induction changes with
  | nil => rfl
  | cons change others ih => simp only [List.map_cons, List.cons_append, gatherLines, ih]

theorem gatherLines_flatMap (blocks : List Block) :
    gatherLines (blocks.flatMap lines) = { blocks } := by
  induction blocks with
  | nil => rfl
  | cons block rest ih =>
      rcases block with ⟨time, initial, changes⟩
      cases initial <;>
        simp [lines, gatherLines, gatherLines_changes, ih]

theorem lines_printable {block : Block} (printable : block.Printable) :
    ∀ line ∈ block.lines, line.Printable := by
  have changes : ∀ line ∈ block.changes.map DumpLine.change, line.Printable := by
    intro line member
    rcases List.mem_map.mp member with ⟨change, changeMem, rfl⟩
    exact printable change changeMem
  intro line member
  cases initial : block.initial with
  | false =>
      simp only [lines, initial, Bool.false_eq_true, ↓reduceIte, List.mem_cons] at member
      rcases member with rfl | member
      · trivial
      · exact changes line member
  | true =>
      simp only [lines, initial, ↓reduceIte, List.mem_cons, List.mem_append, List.cons_append,
        List.not_mem_nil, or_false] at member
      rcases member with rfl | rfl | member | rfl
      · trivial
      · simp [DumpLine.Printable]
      · exact changes line member
      · simp [DumpLine.Printable]

theorem join_text_toList (blocks : List Block) :
    (String.join (blocks.map text)).toList = DumpLine.print (blocks.flatMap lines) := by
  simp only [String.toList_join, List.flatMap_map, text_toList, DumpLine.print,
    List.flatMap_assoc]

theorem flatMap_lines_printable {blocks : List Block}
    (printable : ∀ block ∈ blocks, block.Printable) :
    ∀ line ∈ blocks.flatMap lines, line.Printable := by
  intro line member
  rcases List.mem_flatMap.mp member with ⟨block, blockMem, lineMem⟩
  exact lines_printable (printable block blockMem) line lineMem

theorem readAll?_lines {blocks : List Block} (printable : ∀ block ∈ blocks, block.Printable) :
    DumpLine.readAll? (String.join (blocks.map text)).toList = some (blocks.flatMap lines) := by
  rw [join_text_toList, DumpLine.readAll?_print (flatMap_lines_printable printable)]

/-- Reading gives back the blocks that were printed. -/
theorem readAll?_join {blocks : List Block} (printable : ∀ block ∈ blocks, block.Printable) :
    readAll? (String.join (blocks.map text)) = some blocks := by
  rw [readAll?, readAll?_lines printable, Option.bind_some, gatherLines_flatMap]

end Block

end WaveDump
