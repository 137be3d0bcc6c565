import WaveDump.CommandLine.Report
import WaveDump.Proofs.HeaderReading
import WaveDump.Proofs.JsonReading

/-!
# Reading a listing of probes

The probes of a registry are shown three times: as lines of text, as JSON and as declarations in the
header of a dump. Here each of them is read without a look at the registry. A name may hold
anything, so on a line of text it ends at the last opening bracket; bits hold none. All three say
the same about the same probes in the same order.
-/

namespace WaveDump

/-- What a listing tells about a probe. -/
structure ProbeEntry where
  symbol : Char
  width : Nat
  name : String
  bits : List Placement
deriving DecidableEq, Repr

def Probe.entry (probe : Probe) : ProbeEntry where
  symbol := probe.symbol
  width := probe.width
  name := probe.name
  bits := probe.bits

def ProbeEntry.declaration (entry : ProbeEntry) : Declaration where
  width := entry.width
  symbol := entry.symbol
  name := entry.name

/-! ## Lines of text -/

/-- A bit of a probe and the bit of the sample it shows, with a sign between them. -/
def readPlacement? (word : List Char) : Option Placement :=
  match word.dropWhile fun char => char != '@' with
  | _ :: sample =>
    (readDecimal? (word.takeWhile fun char => char != '@')).bind fun bit =>
      (readDecimal? sample).map fun sample => { bit, sample }
  | [] => none

def readPlacements? (text : List Char) : Option (List Placement) :=
  ((text.splitOn ' ').filter (· ≠ [])).mapM readPlacement?

/-- The name and the bits at the end of a line, which are told apart from behind. -/
def readNameAndBits? (text : List Char) : Option (String × List Placement) :=
  match text.reverse with
  | ']' :: reversed =>
    match reversed.dropWhile fun char => char != '[' with
    | '[' :: ' ' :: name =>
      (readPlacements? (reversed.takeWhile fun char => char != '[').reverse).map fun bits =>
        (String.ofList name.reverse, bits)
    | _ => none
  | _ => none

/-- The entry on a line: the symbol, the width behind blanks, and the name with the bits. -/
def ProbeEntry.read? : List Char → Option ProbeEntry
  | symbol :: rest =>
    let counted := rest.dropWhile fun char => char == ' '
    (readDecimal? (counted.takeWhile fun char => char != ' ')).bind fun width =>
      match counted.dropWhile fun char => char != ' ' with
      | _ :: described =>
        (readNameAndBits? described).map fun (name, bits) => { symbol, width, name, bits }
      | [] => none
  | [] => none

def Placement.word (placement : Placement) : List Char :=
  Nat.toDigits 10 placement.bit ++ '@' :: Nat.toDigits 10 placement.sample

theorem ne_of_mem_toDigits {other : Char} (noDigit : other.isDigit = false) (number : Nat) :
    ∀ char ∈ Nat.toDigits 10 number, (char != other) = true := by
  intro char member
  rw [bne_iff_ne]
  rintro rfl
  rw [isDigit_of_mem_toDigits member] at noDigit
  contradiction

theorem readPlacement?_word (placement : Placement) :
    readPlacement? placement.word = some placement := by
  have digits := ne_of_mem_toDigits (show '@'.isDigit = false by decide) placement.bit
  simp [readPlacement?, Placement.word, List.dropWhile_append_of_pos digits,
    List.takeWhile_append_of_pos digits, readDecimal?_toDigits]

/-- Words of bits hold neither blanks nor brackets. -/
theorem Placement.not_mem_word {char : Char} (noDigit : char.isDigit = false) (noSign : char ≠ '@')
    (placement : Placement) : char ∉ placement.word := by
  intro member
  simp only [word, List.mem_append, List.mem_cons] at member
  rcases member with inBit | sign | inSample
  · simp [isDigit_of_mem_toDigits inBit] at noDigit
  · exact noSign sign
  · simp [isDigit_of_mem_toDigits inSample] at noDigit

def bitsText (bits : List Placement) : List Char :=
  [' '].intercalate (bits.map Placement.word)

theorem readPlacements?_bitsText (bits : List Placement) :
    readPlacements? (bitsText bits) = some bits := by
  have words : ((bitsText bits).splitOn ' ').filter (· ≠ []) = bits.map Placement.word := by
    rcases eq_or_ne bits [] with rfl | someBit
    · decide
    · rw [bitsText, List.splitOn_intercalate, List.filter_eq_self]
      · simp [Placement.word]
      · intro word member
        rcases List.mem_map.mp member with ⟨placement, _, rfl⟩
        exact placement.not_mem_word (by decide) (by decide)
      · simpa using someBit
  rw [readPlacements?, words, mapM_map_eq_some readPlacement?_word, List.map_id']

/-- There is nothing in the text of bits but digits, signs and blanks. -/
theorem not_mem_bitsText {char : Char} (noDigit : char.isDigit = false) (noSign : char ≠ '@')
    (noBlank : char ≠ ' ') (bits : List Placement) : char ∉ bitsText bits := by
  have notInWord := Placement.not_mem_word noDigit noSign
  induction bits with
  | nil => exact List.not_mem_nil
  | cons first rest ih =>
      cases rest with
      | nil => simpa [bitsText] using notInWord first
      | cons next others => simpa [bitsText, notInWord first, noBlank] using ih

theorem readNameAndBits?_append (name : String) (bits : List Placement) :
    readNameAndBits? (name.toList ++ ' ' :: '[' :: (bitsText bits ++ [']'])) =
      some (name, bits) := by
  have noBracket : ∀ char ∈ (bitsText bits).reverse, (char != '[') = true := by
    intro char member
    rw [bne_iff_ne]
    rintro rfl
    exact not_mem_bitsText (by decide) (by decide) (by decide) bits (List.mem_reverse.mp member)
  have reversed : (name.toList ++ ' ' :: '[' :: (bitsText bits ++ [']'])).reverse =
      ']' :: ((bitsText bits).reverse ++ '[' :: ' ' :: name.toList.reverse) := by
    simp
  -- From behind, the first bracket is the one in front of the bits, whatever the name holds.
  rw [readNameAndBits?, reversed]
  simp [List.dropWhile_append_of_pos noBracket, List.takeWhile_append_of_pos noBracket,
    readPlacements?_bitsText]

/-- The line of an entry, without the line feed that ends it. -/
def Probe.listedLine (probe : Probe) : String :=
  let width := probe.width.repr
  probe.symbol.toString ++ " " ++ String.ofList (List.replicate (3 - width.length) ' ') ++ width ++
    " " ++ probe.name ++ " [" ++ String.ofList (bitsText probe.bits) ++ "]"

open CommandLine in
theorem Probe.probeLine_eq (probe : Probe) : probeLine probe = line probe.listedLine := by
  have bits :
      " ".intercalate (probe.bits.map fun placement =>
        placement.bit.repr ++ "@" ++ placement.sample.repr) =
          String.ofList (bitsText probe.bits) := by
    apply String.toList_inj.mp
    simp [bitsText, Function.comp_def]
    rfl
  simp only [probeLine, listedLine, bits]

theorem dropWhile_blank (number : Nat) (rest : List Char) :
    (Nat.toDigits 10 number ++ rest).dropWhile (fun char => char == ' ') =
      Nat.toDigits 10 number ++ rest := by
  have digits := ne_of_mem_toDigits (show ' '.isDigit = false by decide) number
  rcases List.exists_cons_of_ne_nil (@Nat.toDigits_ne_nil number 10) with ⟨first, others, isCons⟩
  have noBlank : first ≠ ' ' := by simpa using digits first (by simp [isCons])
  rw [isCons, List.cons_append, List.dropWhile_cons_of_neg (by simpa using noBlank)]

theorem Probe.toList_listedLine (probe : Probe) :
    ∃ count, probe.listedLine.toList = probe.symbol :: (List.replicate count ' ' ++
      (Nat.toDigits 10 probe.width ++
        ' ' :: (probe.name.toList ++ ' ' :: '[' :: (bitsText probe.bits ++ [']'])))) := by
  refine ⟨1 + (3 - probe.width.repr.length), ?_⟩
  simp [listedLine, List.replicate_add]

theorem ProbeEntry.read?_listedLine (probe : Probe) :
    read? probe.listedLine.toList = some probe.entry := by
  rcases probe.toList_listedLine with ⟨count, isLine⟩
  have blanks : ∀ char ∈ List.replicate count ' ', (char == ' ') = true := by
    intro char member
    rw [List.eq_of_mem_replicate member]
    rfl
  have digits := ne_of_mem_toDigits (show ' '.isDigit = false by decide) probe.width
  rw [isLine, read?]
  simp only [List.dropWhile_append_of_pos blanks, dropWhile_blank,
    List.takeWhile_append_of_pos digits, List.dropWhile_append_of_pos digits]
  simp [readDecimal?_toDigits, readNameAndBits?_append, Probe.entry]

/-! ## JSON -/

section Json

open Text (Json)

def Placement.ofJson? : Json → Option Placement
  | .array [.number bit, .number sample] => some { bit, sample }
  | _ => none

def ProbeEntry.ofJson? (json : Json) : Option ProbeEntry :=
  match json.field? "symbol", json.field? "width", json.field? "name", json.field? "bits" with
  | some (.text symbol), some (.number width), some (.text name), some (.array bits) =>
    match symbol.toList with
    | [symbol] =>
      (bits.mapM Placement.ofJson?).map fun bits => { symbol, width, name, bits }
    | _ => none
  | _, _, _, _ => none

/-- The entries of a listing as JSON. -/
def readJsonListing? (text : String) : Option (List ProbeEntry) :=
  (Json.read? text.toList).bind fun json =>
    match json.field? "probes" with
    | some (.array probes) => probes.mapM ProbeEntry.ofJson?
    | _ => none

open CommandLine

theorem ProbeEntry.ofJson?_probeJson (probe : Probe) :
    ofJson? (probeJson probe) = some probe.entry := by
  have symbol : (probeJson probe).field? "symbol" = some (.text probe.symbol.toString) :=
    Json.field?_ofFields (by simp) (by simp)
  have name : (probeJson probe).field? "name" = some (.text probe.name) :=
    Json.field?_ofFields (by simp) (by simp)
  have width : (probeJson probe).field? "width" = some (.number probe.width) :=
    Json.field?_ofFields (by simp) (by simp)
  have bits : (probeJson probe).field? "bits" = some (.array (probe.bits.map fun placement =>
      .array [.number placement.bit, .number placement.sample])) :=
    Json.field?_ofFields (by simp) (by simp)
  have readBits : (probe.bits.map fun placement =>
      Json.array [.number placement.bit, .number placement.sample]).mapM Placement.ofJson? =
        some probe.bits := by
    rw [mapM_map_eq_some fun placement => show Placement.ofJson? _ = some placement from rfl,
      List.map_id']
  rw [ofJson?, symbol, name, width, bits]
  simp only [readBits]
  simp [Probe.entry]

theorem readJsonListing?_probesJson (capture : Capture) (registry : Registry) :
    readJsonListing? (probesJson capture registry) = some (registry.probes.map Probe.entry) := by
  have readText (fields : List (String × Json)) :
      Json.read? (jsonLines fields).toList = some (Json.ofFields fields) := by
    have isSpace : ∀ char ∈ ['\n'], char ∈ Json.spaces := by simp [Json.spaces]
    rw [jsonLines, line, String.toList_append]
    exact Json.read?_render 0 (Json.ofFields fields) isSpace
  have probes : (Json.ofFields
      [("command", .text "probes"),
       ("channels", .number capture.channels.length),
       ("enabled", .number capture.enabledChannels),
       ("sample_rate", .ofOption .number capture.rate),
       ("probes", .array (registry.probes.map probeJson))]).field? "probes" =
      some (.array (registry.probes.map probeJson)) :=
    Json.field?_ofFields (by simp) (by simp)
  rw [readJsonListing?, probesJson, readText, Option.bind_some, probes]
  exact mapM_map_eq_some ProbeEntry.ofJson?_probeJson registry.probes

end Json

/-! ## Lines that tell about things -/

section Lines

open CommandLine (line)

variable {α : Type}

/-- A text of lines, of which the marked ones tell about the given things: one line about each, in
their order. -/
def ToldInLines (isMarked : List Char → Bool) (read? : List Char → Option α) (text : String)
    (things : List α) : Prop :=
  ∃ before marked after : List String,
    text = String.join ((before ++ marked ++ after).map line) ∧
      (∀ other ∈ before ++ after, isMarked other.toList = false) ∧
      (∀ telling ∈ marked, isMarked telling.toList) ∧
      marked.map (fun telling => read? telling.toList) = things.map some

theorem filter_linesOf {isMarked : List Char → Bool} {before marked after : List String}
    (unbroken : ∀ each ∈ before ++ marked ++ after, Unbroken each)
    (others : ∀ other ∈ before ++ after, isMarked other.toList = false)
    (telling : ∀ telling ∈ marked, isMarked telling.toList) :
    (linesOf (String.join ((before ++ marked ++ after).map line)).toList).filter isMarked =
      marked.map String.toList := by
  have noLineFeed : ∀ each ∈ (before ++ marked ++ after).map String.toList, '\n' ∉ each := by
    rw [List.forall_mem_map]
    exact unbroken
  have lines : linesOf (String.join ((before ++ marked ++ after).map line)).toList =
      (before ++ marked ++ after).map String.toList := by
    have parted := linesOf_flatMap_append noLineFeed []
    rw [List.append_nil, linesOf, List.append_nil, List.flatMap_map] at parted
    simpa [line, String.toList_join, List.flatMap_map] using parted
  have none (some : List String) (within : some ⊆ before ++ after) :
      (some.map String.toList).filter isMarked = [] := by
    rw [List.filter_eq_nil_iff, List.forall_mem_map]
    intro other member
    simp [others other (within member)]
  have all : (marked.map String.toList).filter isMarked = marked.map String.toList := by
    rwa [List.filter_eq_self, List.forall_mem_map]
  rw [lines, List.map_append, List.map_append, List.filter_append, List.filter_append, all,
    none before (List.subset_append_left _ _), none after (List.subset_append_right _ _),
    List.nil_append, List.append_nil]

end Lines

section Listing

open CommandLine (line probeLine probeLines)

/-- A line of a listing that is not the one about the sample rate. -/
def isEntryLine (line : List Char) : Bool :=
  !startsWith "# sample rate: " line

theorem isEntryLine_listedLine (probe : Probe) : isEntryLine probe.listedLine.toList := by
  rcases probe.toList_listedLine with ⟨count, isLine⟩
  rcases List.exists_cons_of_ne_nil (@Nat.toDigits_ne_nil probe.width 10) with
    ⟨first, others, isCons⟩
  have isDigit : first.isDigit := isDigit_of_mem_toDigits (by rw [isCons]; exact List.mem_cons_self)
  have notBlank : first ≠ ' ' := by
    rintro rfl
    contradiction
  have notLetter : first ≠ 's' := by
    rintro rfl
    contradiction
  -- Behind the symbol comes a digit or another blank, and not the letter that comes in a comment.
  rw [isEntryLine, isLine, isCons]
  rcases count with _ | _ | count <;>
    simp [startsWith, List.isPrefixOf, List.replicate_succ, notBlank.symm, notLetter.symm]

def rateLines (capture : Capture) : List String :=
  match capture.rate with
  | some rate => ["# sample rate: " ++ SampleRate.render rate]
  | none => []

theorem probeLines_eq (capture : Capture) (registry : Registry) :
    probeLines capture registry = String.join
      ((rateLines capture ++ registry.probes.map Probe.listedLine ++ []).map line) := by
  have probes : registry.probes.map probeLine = registry.probes.map (line ∘ Probe.listedLine) :=
    List.map_congr_left fun probe _ => probe.probeLine_eq
  cases rate : capture.rate <;>
    simp [probeLines, rateLines, rate, probes, String.join_cons]

theorem isEntryLine_rateLines (capture : Capture) :
    ∀ other ∈ rateLines capture ++ [], isEntryLine other.toList = false := by
  cases rate : capture.rate <;> simp [rateLines, rate, isEntryLine, startsWith]

theorem isEntryLine_listedLines (probes : List Probe) :
    ∀ telling ∈ probes.map Probe.listedLine, isEntryLine telling.toList := by
  rw [List.forall_mem_map]
  exact fun probe _ => isEntryLine_listedLine probe

theorem read?_listedLines (probes : List Probe) :
    (probes.map Probe.listedLine).map (fun telling => ProbeEntry.read? telling.toList) =
      (probes.map Probe.entry).map some := by
  simp [ProbeEntry.read?_listedLine]

theorem probeLines_told (capture : Capture) (registry : Registry) :
    ToldInLines isEntryLine ProbeEntry.read? (probeLines capture registry)
      (registry.probes.map Probe.entry) :=
  ⟨rateLines capture, registry.probes.map Probe.listedLine, [], probeLines_eq capture registry,
    isEntryLine_rateLines capture, isEntryLine_listedLines _, read?_listedLines _⟩

theorem unbroken_listedLine {probe : Probe} (symbol : probe.symbol ≠ '\n')
    (name : Unbroken probe.name) : Unbroken probe.listedLine := by
  rcases probe.toList_listedLine with ⟨count, isLine⟩
  have noDigit (number : Nat) : '\n' ∉ Nat.toDigits 10 number := fun member =>
    absurd (isDigit_of_mem_toDigits member) (by decide)
  have noBit : '\n' ∉ bitsText probe.bits := not_mem_bitsText (by decide) (by decide) (by decide) _
  rw [Unbroken, isLine]
  simp [symbol.symm, noDigit, noBit, show '\n' ∉ probe.name.toList from name]

/-- Names that stand on one line leave a listing to be read line by line. -/
theorem probeLines_read_back (capture : Capture) {registry : Registry}
    (symbols : ∀ probe ∈ registry.probes, probe.symbol ≠ '\n')
    (names : ∀ probe ∈ registry.probes, Unbroken probe.name) :
    ((linesOf (probeLines capture registry).toList).filter isEntryLine).map ProbeEntry.read? =
      (registry.probes.map Probe.entry).map some := by
  have unbroken : ∀ each ∈ rateLines capture ++ registry.probes.map Probe.listedLine ++ [],
      Unbroken each := by
    simp only [List.append_nil, List.mem_append, List.mem_map]
    rintro _ (rateLine | ⟨probe, member, rfl⟩)
    · cases rate : capture.rate with
      | none => simp [rateLines, rate] at rateLine
      | some hertz =>
          simp only [rateLines, rate, List.mem_singleton] at rateLine
          rw [rateLine, unbroken_append]
          exact ⟨by decide, SampleRate.unbroken_render hertz⟩
    · exact unbroken_listedLine (symbols probe member) (names probe member)
  rw [probeLines_eq, filter_linesOf unbroken (isEntryLine_rateLines capture)
    (isEntryLine_listedLines _), List.map_map]
  exact read?_listedLines registry.probes

end Listing

section Declarations

open CommandLine (line)

theorem Header.told (header : Header) :
    ToldInLines (startsWith "$var ") readDeclaration? header.render
      ((header.registry.probes.map Probe.entry).map ProbeEntry.declaration) := by
  refine ⟨["$date " ++ header.date.render ++ " $end",
    "$version " ++ header.toolName ++ " " ++ header.toolVersion ++ " $end"] ++
    header.commentLines ++ ["$timescale " ++ header.timescale.text ++ " $end",
    "$scope module " ++ header.toolName ++ " $end"],
    header.registry.probes.map Probe.declarationLine, ["$upscope $end", terminator], ?_, ?_, ?_, ?_⟩
  · apply String.toList_inj.mp
    rw [render_toList]
    simp [leadingLines, String.toList_join, List.flatMap_map, line]
  · cases rate : header.rate <;> simp [startsWith, List.isPrefixOf, commentLines, rate, terminator]
  · rw [List.forall_mem_map]
    intro probe _
    rw [Probe.toList_declarationLine]
    simp [startsWith]
  · simp [Probe.readDeclaration?_declarationLine, Probe.entry, ProbeEntry.declaration]

end Declarations

end WaveDump
