import WaveDump.Proofs.Invariant

/-!
# Bits that are not registered

Channels that are not shown, padding and bytes beyond the unit size help to decide whether a sample
differs from the one before, and so whether it causes a block. They do not decide what a block says.
Runs over samples that agree on the registered bits therefore differ only in blocks that say
nothing, which are time stamps with no line of their own after them.
-/

namespace WaveDump

/-! ## Stamps without lines of their own -/

def isStampLine (line : List Char) : Bool :=
  line.head? = some '#'

/-- The lines of a dump without the time stamps after which the next stamp or the end follows. -/
def dropBareStamps : List (List Char) → List (List Char)
  | [] => []
  | line :: rest =>
    if isStampLine line && rest.head?.all isStampLine then
      dropBareStamps rest
    else
      line :: dropBareStamps rest

theorem dropBareStamps_cons_of_not {line : List Char} (notStamp : isStampLine line = false)
    (rest : List (List Char)) : dropBareStamps (line :: rest) = line :: dropBareStamps rest := by
  simp [dropBareStamps, notStamp]

theorem dropBareStamps_append_of_not {lines : List (List Char)}
    (noStamps : ∀ line ∈ lines, isStampLine line = false) (rest : List (List Char)) :
    dropBareStamps (lines ++ rest) = lines ++ dropBareStamps rest := by
  induction lines with
  | nil => rfl
  | cons line others ih =>
      rw [List.forall_mem_cons] at noStamps
      simp only [List.cons_append, dropBareStamps_cons_of_not noStamps.1, ih noStamps.2]

/-- A line that is no stamp parts the lines before it from those after it. -/
theorem dropBareStamps_append_cons {line : List Char} (notStamp : isStampLine line = false)
    (before after : List (List Char)) :
    dropBareStamps (before ++ line :: after) =
      dropBareStamps (before ++ [line]) ++ dropBareStamps after := by
  induction before with
  | nil => simp [dropBareStamps_cons_of_not notStamp, dropBareStamps]
  | cons first others ih =>
      have sameNext : (others ++ line :: after).head? = (others ++ [line]).head? := by
        cases others <;> rfl
      simp only [List.cons_append, dropBareStamps, sameNext, ih]
      split <;> rfl

theorem isStampLine_chars (line : DumpLine) :
    isStampLine line.chars = true ↔ ∃ time, line = .stamp time := by
  cases line with
  | stamp time => simp [isStampLine, DumpLine.chars]
  | keyword name => simp [isStampLine, DumpLine.chars]
  | change made =>
      rcases made with ⟨symbol, level | places⟩
      · cases level <;> simp [isStampLine, DumpLine.chars, levelDigit]
      · simp [isStampLine, DumpLine.chars]

namespace Block

/-- Whether a block has lines after its stamp. -/
def saysMore (block : Block) : Bool :=
  block.initial || !block.changes.isEmpty

/-- The lines of a block after its stamp. -/
def ownLines (block : Block) : List (List Char) :=
  block.lines.tail.map DumpLine.chars

theorem map_chars_lines (block : Block) :
    block.lines.map DumpLine.chars = (DumpLine.stamp block.time).chars :: block.ownLines :=
  rfl

theorem isStampLine_of_mem_ownLines (block : Block) :
    ∀ line ∈ block.ownLines, isStampLine line = false := by
  intro line member
  rcases List.mem_map.mp member with ⟨printed, printedMem, rfl⟩
  apply Bool.eq_false_iff.mpr
  intro isStamp
  rcases (isStampLine_chars printed).mp isStamp with ⟨time, rfl⟩
  cases initial : block.initial <;> simp [lines, initial] at printedMem

theorem ownLines_eq_nil_iff (block : Block) : block.ownLines = [] ↔ block.saysMore = false := by
  cases initial : block.initial <;> simp [ownLines, lines, saysMore, initial]

theorem map_chars_flatMap_cons (block : Block) (rest : List Block) :
    ((block :: rest).flatMap lines).map DumpLine.chars =
      (DumpLine.stamp block.time).chars ::
        (block.ownLines ++ (rest.flatMap lines).map DumpLine.chars) := by
  simp only [List.flatMap_cons, List.map_append, map_chars_lines, List.cons_append]

/-- Removing stamps without lines is leaving out the blocks that say nothing. -/
theorem dropBareStamps_flatMap (blocks : List Block) :
    dropBareStamps ((blocks.flatMap lines).map DumpLine.chars) =
      ((blocks.filter saysMore).flatMap lines).map DumpLine.chars := by
  induction blocks with
  | nil => rfl
  | cons block rest ih =>
      have isStamp := (isStampLine_chars (.stamp block.time)).mpr ⟨_, rfl⟩
      have kept := dropBareStamps_append_of_not block.isStampLine_of_mem_ownLines
        ((rest.flatMap lines).map DumpLine.chars)
      simp only [map_chars_flatMap_cons, dropBareStamps, isStamp, Bool.true_and, kept, ih]
      cases more : block.saysMore with
      | false =>
          have nothing := block.ownLines_eq_nil_iff.mpr more
          have bare : ((rest.flatMap lines).map DumpLine.chars).head?.all isStampLine = true := by
            cases rest with
            | nil => rfl
            | cons next _ =>
                have nextStamp := (isStampLine_chars (.stamp next.time)).mpr ⟨_, rfl⟩
                simp only [map_chars_flatMap_cons, List.head?_cons, Option.all_some, nextStamp]
          simp only [nothing, List.nil_append, bare, ↓reduceIte, List.filter_cons, more,
            Bool.false_eq_true]
      | true =>
          rcases List.exists_cons_of_ne_nil
            (mt block.ownLines_eq_nil_iff.mp (by simp [more])) with ⟨first, others, isCons⟩
          have notStamp := block.isStampLine_of_mem_ownLines first (by simp [isCons])
          simp only [List.filter_cons, more, ↓reduceIte, map_chars_flatMap_cons]
          simp only [isCons, List.cons_append, List.head?_cons, Option.all_some, notStamp,
            Bool.false_eq_true, ↓reduceIte]

end Block

theorem linesOf_cons_ne_nil (char : Char) (rest : List Char) : linesOf (char :: rest) ≠ [] := by
  unfold linesOf
  split
  · contradiction
  · simp
  · split <;> simp

/-- A line feed parts the lines before it from those after it. -/
theorem linesOf_append_lineFeed (before after : List Char) :
    linesOf (before ++ '\n' :: after) = linesOf (before ++ ['\n']) ++ linesOf after := by
  induction before with
  | nil => rfl
  | cons char rest ih =>
      by_cases lineFeed : char = '\n'
      · subst lineFeed
        simp only [List.cons_append, linesOf, ih]
      · have someLine : linesOf (rest ++ ['\n']) ≠ [] := by
          cases rest <;> exact linesOf_cons_ne_nil _ _
        rcases List.exists_cons_of_ne_nil someLine with ⟨line, others, isCons⟩
        simp only [isCons, List.cons_append] at ih
        simp only [List.cons_append, linesOf, isCons, ih]

/-- The last line of a header is no stamp, so what follows it can be looked at alone. -/
theorem dropBareStamps_render (header : Header) (body : List Char) :
    dropBareStamps (linesOf (header.render.toList ++ body)) =
      dropBareStamps (linesOf header.render.toList) ++ dropBareStamps (linesOf body) := by
  obtain ⟨opening, isRender⟩ :
      ∃ opening, header.render = opening ++ "$upscope $end\n$enddefinitions $end\n" := ⟨_, rfl⟩
  have ending : "$upscope $end\n$enddefinitions $end\n".toList =
      "$upscope $end".toList ++ '\n' :: ("$enddefinitions $end".toList ++ ['\n']) := by decide
  have unbroken : '\n' ∉ "$enddefinitions $end".toList := by decide
  have notStamp : isStampLine "$enddefinitions $end".toList = false := by decide
  have lines (rest : List Char) : linesOf (header.render.toList ++ rest) =
      linesOf (opening.toList ++ "$upscope $end".toList ++ ['\n']) ++
        "$enddefinitions $end".toList :: linesOf rest := by
    have parted : header.render.toList ++ rest =
        (opening.toList ++ "$upscope $end".toList) ++
          '\n' :: ("$enddefinitions $end".toList ++ '\n' :: rest) := by
      simp only [isRender, String.toList_append, ending, List.append_assoc, List.cons_append,
        List.nil_append]
    rw [parted, linesOf_append_lineFeed, linesOf_append unbroken]
  have alone := lines []
  simp only [List.append_nil, linesOf] at alone
  rw [lines, alone, dropBareStamps_append_cons notStamp]

namespace Encoder

/-! ## Whole outputs -/

/-- All that frames return, and the header as long as none of them has returned it. -/
def output (encoder : Encoder) (frames : List Frame) : String :=
  String.join (encoder.feed frames).2 ++ (encoder.feed frames).1.header.getD ""

theorem output_eq (encoder : Encoder) (frames : List Frame) :
    encoder.output frames = encoder.header.getD "" ++
      String.join ((encoder.advance (frames.flatMap Frame.samples)).2.map Block.text) := by
  induction frames generalizing encoder with
  | nil => simp [output, feed, advance]
  | cons frame rest ih =>
      simp only [List.flatMap_cons, Frame.samples]
      rcases Nat.eq_zero_or_pos frame.stride with zero | positive
      · simp only [output, feed_cons_of_zero encoder rest zero, zero, Sample.ofFrame_zero,
          List.nil_append]
        exact ih encoder
      · have later := ih (encoder.afterFrame frame.bytes frame.stride)
        have noHeader : (encoder.afterFrame frame.bytes frame.stride).header.getD "" = "" := rfl
        simp only [output, noHeader, advance_afterFrame, String.empty_append] at later
        simp only [output, feed_cons_of_pos encoder rest positive, String.join_cons,
          String.append_assoc, later, frameText, advance_append, List.map_append,
          String.join_append]

section Accepted

variable {capture : Capture} {options : EncoderOptions} {encoder : Encoder}

theorem output_of_create (accepted : (create capture options).1 = .ok encoder)
    (frames : List Frame) :
    encoder.output frames = (headerFor encoder.registry capture options).render ++
      String.join ((encoder.blocks (frames.flatMap Frame.samples)).map Block.text) := by
  simp only [output_eq, header_of_create accepted, Option.getD_some,
    (advance_of_create accepted (frames.flatMap Frame.samples)).2]

/-- Once a frame was encoded, the header is among the texts that were returned. -/
theorem output_eq_join (accepted : (create capture options).1 = .ok encoder)
    {frames : List Frame} (encoded : ∃ frame ∈ frames, 0 < frame.stride) :
    encoder.output frames = String.join (encoder.feed frames).2 := by
  have kept := (follows_of_create accepted).kept.feed (covers_of_create accepted) frames
  simp only [List.nil_append] at kept
  have someText : (encoder.feed frames).2 ≠ [] := by
    intro noText
    rcases encoded with ⟨frame, member, positive⟩
    have count := kept.count
    simp only [noText, List.length_nil] at count
    have counted : 0 < frames.countP fun frame => 0 < frame.stride :=
      List.countP_pos_iff.mpr ⟨frame, member, by simpa using positive⟩
    omega
  simp only [output, kept.header, someText, ↓reduceIte, Option.getD_none, String.append_empty]

theorem saysMore_blockAt_emits (accepted : (create capture options).1 = .ok encoder)
    {samples : List Sample} {index : Nat}
    (more : (encoder.blockAt samples index).saysMore = true) :
    encoder.emits samples index = true := by
  simp only [Block.saysMore, blockAt, Bool.or_eq_true, decide_eq_true_eq, Bool.not_eq_true',
    List.isEmpty_eq_false_iff, ne_eq, List.map_eq_nil_iff] at more
  simp only [emits, Bool.or_eq_true, decide_eq_true_eq, bne_iff_ne]
  rcases more with isFirst | someListed
  · exact Or.inl isFirst
  · rcases List.exists_mem_of_ne_nil _ someListed with ⟨probe, listedMem⟩
    simp only [listed, List.mem_filter, Bool.or_eq_true, decide_eq_true_eq] at listedMem
    rcases listedMem with ⟨member, isFirst | differs⟩
    · exact Or.inl isFirst
    · right
      intro same
      rw [← differs_resize (covers_of_create accepted) member, same] at differs
      simp [Probe.differs, Wiring.differs] at differs

/-- Of the blocks that say something there is one for every sample. -/
theorem filter_saysMore_blocks (accepted : (create capture options).1 = .ok encoder)
    (samples : List Sample) :
    (encoder.blocks samples).filter Block.saysMore =
      ((List.range samples.length).map (encoder.blockAt samples)).filter Block.saysMore := by
  simp only [blocks, blocksUpTo, List.filter_map, List.filter_filter]
  congr 1
  apply List.filter_congr
  intro index _
  simp only [Function.comp_apply, Bool.and_eq_left_iff_imp]
  exact saysMore_blockAt_emits accepted

theorem dropBareStamps_output (accepted : (create capture options).1 = .ok encoder)
    (frames : List Frame) :
    dropBareStamps (linesOf (encoder.output frames).toList) =
      dropBareStamps (linesOf (headerFor encoder.registry capture options).render.toList) ++
        ((((List.range (frames.flatMap Frame.samples).length).map
          (encoder.blockAt (frames.flatMap Frame.samples))).filter Block.saysMore).flatMap
            Block.lines).map DumpLine.chars := by
  have printable := Block.flatMap_lines_printable
    (blocks_printable accepted (frames.flatMap Frame.samples))
  simp only [output_of_create accepted, String.toList_append, dropBareStamps_render,
    Block.join_text_toList, DumpLine.linesOf_print printable, Block.dropBareStamps_flatMap,
    filter_saysMore_blocks accepted]

end Accepted

end Encoder

/-! ## Samples that agree on the registered bits -/

/-- No probe shows a difference between two samples: they agree on every bit that is registered. -/
def Registry.Agree (registry : Registry) (first second : Sample) : Prop :=
  ∀ probe ∈ registry.probes, ∀ placement ∈ probe.bits,
    first.level placement.sample = second.level placement.sample

instance (registry : Registry) (first second : Sample) : Decidable (registry.Agree first second) :=
  inferInstanceAs (Decidable (∀ probe ∈ registry.probes, ∀ placement ∈ probe.bits,
    first.level placement.sample = second.level placement.sample))

namespace Encoder

theorem blockAt_congr {first second : Encoder} (sameRegistry : first.registry = second.registry)
    (sameTimescale : first.timescale = second.timescale) (sameRate : first.rate = second.rate)
    {samples others : List Sample}
    (agree : ∀ index, first.registry.Agree (samples.getD index []) (others.getD index []))
    (index : Nat) : first.blockAt samples index = second.blockAt others index := by
  have sameListed : first.listed samples index = second.listed others index := by
    simp only [listed, ← sameRegistry]
    apply List.filter_congr
    intro probe member
    have sameDiffers := Wiring.differs_congr (agree (index - 1) probe member)
      (agree index probe member)
    simp only [Probe.differs, sameDiffers]
  simp only [blockAt, ← sameTimescale, ← sameRate, ← sameListed, Block.mk.injEq, true_and]
  apply List.map_congr_left
  intro probe listedMem
  have member := (List.mem_filter.mp listedMem).1
  simp only [Probe.change, Wiring.value_congr (agree index probe member)]

/-- Whatever the samples hold elsewhere, agreement on the registered bits is agreement of the whole
outputs up to stamps without lines. -/
theorem output_of_agree {capture : Capture} {options : EncoderOptions} {other : Option Nat}
    {first second : Encoder} (acceptedFirst : (create capture options).1 = .ok first)
    (acceptedSecond : (create capture { options with unitSize := other }).1 = .ok second)
    {framesFirst framesSecond : List Frame}
    (sameCount : (framesFirst.flatMap Frame.samples).length =
      (framesSecond.flatMap Frame.samples).length)
    (agree : ∀ index < (framesFirst.flatMap Frame.samples).length,
      first.registry.Agree ((framesFirst.flatMap Frame.samples).getD index [])
        ((framesSecond.flatMap Frame.samples).getD index [])) :
    dropBareStamps (linesOf (first.output framesFirst).toList) =
        dropBareStamps (linesOf (second.output framesSecond).toList) ∧
      ((∃ frame ∈ framesFirst, 0 < frame.stride) →
        first.output framesFirst = String.join (first.feed framesFirst).2) ∧
      ((∃ frame ∈ framesSecond, 0 < frame.stride) →
        second.output framesSecond = String.join (second.feed framesSecond).2) := by
  refine ⟨?_, output_eq_join acceptedFirst, output_eq_join acceptedSecond⟩
  rcases create_eq_ok acceptedFirst with ⟨builtFirst, _, freshFirst⟩
  rcases create_eq_ok acceptedSecond with ⟨builtSecond, _, freshSecond⟩
  have sameRegistry : first.registry = second.registry := by
    simpa only [builtFirst, Except.ok.injEq] using builtSecond
  have sameTimescale : first.timescale = second.timescale := by
    rw [freshFirst, freshSecond]
    rfl
  have sameRate : first.rate = second.rate := by
    rw [freshFirst, freshSecond]
    rfl
  have agreeEverywhere (index : Nat) :
      first.registry.Agree ((framesFirst.flatMap Frame.samples).getD index [])
        ((framesSecond.flatMap Frame.samples).getD index []) := by
    by_cases inBounds : index < (framesFirst.flatMap Frame.samples).length
    · exact agree index inBounds
    · intro probe _ placement _
      rw [List.getD_eq_default _ _ (by omega), List.getD_eq_default _ _ (by omega)]
  have sameBlocks := funext (blockAt_congr sameRegistry sameTimescale sameRate agreeEverywhere)
  have sameHeader : headerFor first.registry capture options =
      headerFor second.registry capture { options with unitSize := other } := by
    rw [sameRegistry]
    rfl
  simp only [dropBareStamps_output acceptedFirst, dropBareStamps_output acceptedSecond, sameCount,
    sameBlocks, sameHeader]

end Encoder

/-- The encoder of `clockAndBus` for samples of a single byte. -/
def clockAndBusNarrow : Encoder :=
  Encoder.fresh clockAndBusRegistry clockAndBus { clockAndBusOptions with unitSize := some 1 } 1

/-- Samples with the levels of `clockAndBusFrames` at the channels that are shown, and with other
levels at the one that is not. -/
def clockAndBusDisguised : List Frame :=
  [⟨[9, 70, 6, 255], 2⟩, ⟨[14, 6], 1⟩]

theorem clockAndBusNarrow_accepted :
    (Encoder.create clockAndBus { clockAndBusOptions with unitSize := some 1 }).1 =
      .ok clockAndBusNarrow := by
  have built : Registry.ofChannels clockAndBus.channels = .ok clockAndBusRegistry := by cbv
  have chosen : Encoder.chooseUnitSize clockAndBusRegistry clockAndBus (some 1) = .ok 1 := by cbv
  simp only [Encoder.create, built, chosen]
  rfl

theorem output_of_agree_clockAndBus :
    (clockAndBusFrames.flatMap Frame.samples).length = 4 ∧
      (clockAndBusDisguised.flatMap Frame.samples).length = 4 ∧
      (∀ index < 4, clockAndBusRegistry.Agree
        ((clockAndBusFrames.flatMap Frame.samples).getD index [])
        ((clockAndBusDisguised.flatMap Frame.samples).getD index [])) ∧
      (clockAndBusEncoder.blocks (clockAndBusFrames.flatMap Frame.samples)).length = 3 ∧
      (clockAndBusNarrow.blocks (clockAndBusDisguised.flatMap Frame.samples)).length = 4 ∧
      dropBareStamps (linesOf (String.join (clockAndBusEncoder.feed clockAndBusFrames).2).toList) =
        dropBareStamps
          (linesOf (String.join (clockAndBusNarrow.feed clockAndBusDisguised).2).toList) := by
  have agree : ∀ index < 4, clockAndBusRegistry.Agree
      ((clockAndBusFrames.flatMap Frame.samples).getD index [])
      ((clockAndBusDisguised.flatMap Frame.samples).getD index []) := by decide
  rcases Encoder.output_of_agree clockAndBus_accepted clockAndBusNarrow_accepted
    (show (clockAndBusFrames.flatMap Frame.samples).length =
      (clockAndBusDisguised.flatMap Frame.samples).length by decide) agree with
    ⟨sameLines, first, second⟩
  rw [first (by decide), second (by decide)] at sameLines
  exact ⟨by decide, by decide, agree, by decide, by decide, sameLines⟩

end WaveDump
