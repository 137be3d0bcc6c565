import Mathlib
import WaveDump.Encoder

/-!
# Frames and their boundaries

An encoder takes a frame in two respects: its samples cause blocks, and the books are kept: the
header is handed out, the bytes of text are counted and a strange stride is noted. Samples neither
read nor change the books, so the blocks of a frame are those of its samples alone, and a frame cut
at a sample boundary is as good as the frame in one piece.
-/

namespace WaveDump

/-- A frame with the number of bytes that each of its samples takes. -/
structure Frame where
  bytes : List UInt8
  stride : Nat
deriving DecidableEq, Repr

/-- The whole samples of a frame; a frame whose samples have no bytes has none. -/
def Frame.samples (frame : Frame) : List Sample :=
  Sample.ofFrame frame.stride frame.bytes

namespace Sample

theorem ofFrame_zero (bytes : List UInt8) : ofFrame 0 bytes = [] := by
  apply List.eq_nil_of_length_eq_zero
  simp [length_ofFrame]

theorem ofFrame_of_short {stride : Nat} {bytes : List UInt8} (short : bytes.length < stride) :
    ofFrame stride bytes = [] := by
  apply List.eq_nil_of_length_eq_zero
  simp [length_ofFrame, Nat.div_eq_of_lt short]

end Sample

namespace Encoder

def withBooks (encoder : Encoder) (header : Option String) (bytesOut : Nat)
    (strideWarned : Bool) : Encoder :=
  { encoder with header, bytesOut, strideWarned }

def advance (encoder : Encoder) : List Sample → Encoder × List Block
  | [] => (encoder, [])
  | sample :: rest =>
    let (next, block) := encoder.step sample
    let (final, blocks) := next.advance rest
    (final, block.toList ++ blocks)

def frameText (encoder : Encoder) (bytes : List UInt8) (stride : Nat) : String :=
  encoder.header.getD "" ++
    String.join ((encoder.advance (Sample.ofFrame stride bytes)).2.map Block.text)

def afterFrame (encoder : Encoder) (bytes : List UInt8) (stride : Nat) : Encoder :=
  (encoder.advance (Sample.ofFrame stride bytes)).1.withBooks none
    (encoder.bytesOut + (encoder.frameText bytes stride).utf8ByteSize)
    (encoder.strideWarned || stride != encoder.unitSize)

/-- The encoder after frames, and the texts that it returned for them. A frame that cannot be
encoded changes nothing and returns no text. -/
def feed (encoder : Encoder) : List Frame → Encoder × List String
  | [] => (encoder, [])
  | frame :: rest =>
    match encoder.encode frame.bytes frame.stride with
    | .error _ => encoder.feed rest
    | .ok emission =>
      let (final, texts) := emission.encoder.feed rest
      (final, emission.text :: texts)

variable (encoder : Encoder)

/-! ## Samples leave the books alone -/

theorem step_of_none {sample : Sample}
    (quiet : encoder.block? (encoder.sampleCount + 1) (sample.resize encoder.unitSize) = none) :
    encoder.step sample = ({ encoder with sampleCount := encoder.sampleCount + 1 }, none) := by
  simp only [step, quiet]

theorem step_of_some {sample : Sample} {block : Block}
    (loud : encoder.block? (encoder.sampleCount + 1) (sample.resize encoder.unitSize) =
      some block) :
    encoder.step sample =
      ({ encoder with
          previous := some (sample.resize encoder.unitSize)
          sampleCount := encoder.sampleCount + 1
          samplesEmitted := encoder.samplesEmitted + 1 }, some block) := by
  simp only [step, loud]

theorem step_withBooks (header : Option String) (bytesOut : Nat) (strideWarned : Bool)
    (sample : Sample) :
    (encoder.withBooks header bytesOut strideWarned).step sample =
      ((encoder.step sample).1.withBooks header bytesOut strideWarned,
        (encoder.step sample).2) := by
  cases outcome : encoder.block? (encoder.sampleCount + 1) (sample.resize encoder.unitSize) with
  | none =>
      rw [step_of_none encoder outcome,
        step_of_none (encoder.withBooks header bytesOut strideWarned) outcome]
      rfl
  | some block =>
      rw [step_of_some encoder outcome,
        step_of_some (encoder.withBooks header bytesOut strideWarned) outcome]
      rfl

theorem advance_withBooks (header : Option String) (bytesOut : Nat) (strideWarned : Bool)
    (samples : List Sample) :
    (encoder.withBooks header bytesOut strideWarned).advance samples =
      ((encoder.advance samples).1.withBooks header bytesOut strideWarned,
        (encoder.advance samples).2) := by
  induction samples generalizing encoder with
  | nil => rfl
  | cons sample rest ih => simp only [advance, step_withBooks, ih]

theorem advance_append (first second : List Sample) :
    encoder.advance (first ++ second) =
      (((encoder.advance first).1.advance second).1,
        (encoder.advance first).2 ++ ((encoder.advance first).1.advance second).2) := by
  induction first generalizing encoder with
  | nil => rfl
  | cons sample rest ih =>
      simp only [List.cons_append, advance, ih, List.append_assoc]

theorem step_fixed (sample : Sample) :
    (encoder.step sample).1.unitSize = encoder.unitSize ∧
      (encoder.step sample).1.registry = encoder.registry ∧
      (encoder.step sample).1.timescale = encoder.timescale ∧
      (encoder.step sample).1.rate = encoder.rate := by
  simp only [step]
  split <;> exact ⟨rfl, rfl, rfl, rfl⟩

theorem advance_fixed (samples : List Sample) :
    (encoder.advance samples).1.unitSize = encoder.unitSize ∧
      (encoder.advance samples).1.registry = encoder.registry ∧
      (encoder.advance samples).1.timescale = encoder.timescale ∧
      (encoder.advance samples).1.rate = encoder.rate := by
  induction samples generalizing encoder with
  | nil => exact ⟨rfl, rfl, rfl, rfl⟩
  | cons sample rest ih =>
      have here := encoder.step_fixed sample
      have later := ih (encoder.step sample).1
      simp only [here] at later
      exact later

theorem advance_sampleCount (samples : List Sample) :
    (encoder.advance samples).1.sampleCount = encoder.sampleCount + samples.length := by
  induction samples generalizing encoder with
  | nil => rfl
  | cons sample rest ih =>
      have counted : (encoder.step sample).1.sampleCount = encoder.sampleCount + 1 := by
        simp only [step]
        split <;> rfl
      simp only [advance, ih, counted, List.length_cons]
      omega

/-! ## What a frame does -/

theorem absorb_eq (text : String) (sample : Sample) :
    absorb (encoder, text) sample =
      ((encoder.step sample).1,
        text ++ String.join ((encoder.step sample).2.toList.map Block.text)) := by
  simp only [absorb]
  rcases encoder.step sample with ⟨next, _ | block⟩ <;> simp

theorem foldl_absorb (text : String) (samples : List Sample) :
    samples.foldl absorb (encoder, text) =
      ((encoder.advance samples).1,
        text ++ String.join ((encoder.advance samples).2.map Block.text)) := by
  induction samples generalizing encoder text with
  | nil => simp [advance]
  | cons sample rest ih =>
      simp only [List.foldl_cons, absorb_eq, ih, advance, List.map_append, String.join_append,
        String.append_assoc]

theorem encode_zero (bytes : List UInt8) : encoder.encode bytes 0 = .error .zeroStride := rfl

theorem encode_of_pos {stride : Nat} (bytes : List UInt8) (positive : 0 < stride) :
    ∃ log, encoder.encode bytes stride =
      .ok {
        encoder := encoder.afterFrame bytes stride
        text := encoder.frameText bytes stride
        log } := by
  have opened : encoder.openFrame stride =
      encoder.withBooks none encoder.bytesOut
        (encoder.strideWarned || stride != encoder.unitSize) := rfl
  have nonzero : stride ≠ 0 := by omega
  simp only [encode, nonzero, ↓reduceIte, opened, foldl_absorb, advance_withBooks]
  exact ⟨_, rfl⟩

/-! ## Frames one after the other -/

theorem advance_afterFrame (bytes : List UInt8) (stride : Nat) (samples : List Sample) :
    (encoder.afterFrame bytes stride).advance samples =
      (((encoder.advance (Sample.ofFrame stride bytes)).1.advance samples).1.withBooks none
          (encoder.bytesOut + (encoder.frameText bytes stride).utf8ByteSize)
          (encoder.strideWarned || stride != encoder.unitSize),
        ((encoder.advance (Sample.ofFrame stride bytes)).1.advance samples).2) :=
  advance_withBooks _ _ _ _ _

theorem frameText_append {stride : Nat} {first : List UInt8} (second : List UInt8)
    (positive : 0 < stride) (whole : stride ∣ first.length) :
    encoder.frameText (first ++ second) stride =
      encoder.frameText first stride ++
        (encoder.afterFrame first stride).frameText second stride := by
  have noHeader : (encoder.afterFrame first stride).header.getD "" = "" := rfl
  simp only [frameText, noHeader, Sample.ofFrame_append positive whole, advance_append,
    advance_afterFrame, List.map_append, String.join_append, String.append_assoc,
    String.empty_append]

theorem afterFrame_append {stride : Nat} {first : List UInt8} (second : List UInt8)
    (positive : 0 < stride) (whole : stride ∣ first.length) :
    encoder.afterFrame (first ++ second) stride =
      (encoder.afterFrame first stride).afterFrame second stride := by
  have sameSize : (encoder.afterFrame first stride).unitSize = encoder.unitSize :=
    (encoder.advance_fixed (Sample.ofFrame stride first)).1
  have bytesSum : (encoder.afterFrame first stride).bytesOut +
      ((encoder.afterFrame first stride).frameText second stride).utf8ByteSize =
        encoder.bytesOut + (encoder.frameText (first ++ second) stride).utf8ByteSize := by
    rw [encoder.frameText_append second positive whole, String.utf8ByteSize_append, ← Nat.add_assoc]
    rfl
  -- Whichever of the two frames is warned about, the flag ends up the same.
  have warnedOnce : ((encoder.afterFrame first stride).strideWarned ||
      stride != encoder.unitSize) = (encoder.strideWarned || stride != encoder.unitSize) := by
    change ((encoder.strideWarned || stride != encoder.unitSize) || stride != encoder.unitSize) = _
    rw [Bool.or_assoc, Bool.or_self]
  symm
  calc (encoder.afterFrame first stride).afterFrame second stride
    _ = ((encoder.afterFrame first stride).advance (Sample.ofFrame stride second)).1.withBooks none
          ((encoder.afterFrame first stride).bytesOut +
            ((encoder.afterFrame first stride).frameText second stride).utf8ByteSize)
          ((encoder.afterFrame first stride).strideWarned ||
            stride != (encoder.afterFrame first stride).unitSize) := rfl
    _ = ((encoder.advance (Sample.ofFrame stride first)).1.advance
          (Sample.ofFrame stride second)).1.withBooks none
          (encoder.bytesOut + (encoder.frameText (first ++ second) stride).utf8ByteSize)
          (encoder.strideWarned || stride != encoder.unitSize) := by
        rw [sameSize, warnedOnce, bytesSum, advance_afterFrame]
        rfl
    _ = encoder.afterFrame (first ++ second) stride := by
        rw [afterFrame, Sample.ofFrame_append positive whole, advance_append]

theorem frame_drop_rest {stride : Nat} {bytes rest : List UInt8} (whole : stride ∣ bytes.length)
    (short : rest.length < stride) :
    encoder.frameText (bytes ++ rest) stride = encoder.frameText bytes stride ∧
      encoder.afterFrame (bytes ++ rest) stride = encoder.afterFrame bytes stride := by
  have positive : 0 < stride := by omega
  have sameSamples : Sample.ofFrame stride (bytes ++ rest) = Sample.ofFrame stride bytes := by
    rw [Sample.ofFrame_append positive whole, Sample.ofFrame_of_short short, List.append_nil]
  have sameText : encoder.frameText (bytes ++ rest) stride = encoder.frameText bytes stride := by
    rw [frameText, frameText, sameSamples]
  exact ⟨sameText, by rw [afterFrame, afterFrame, sameSamples, sameText]⟩

/-! ## Feeding frames -/

theorem feed_cons_of_pos {frame : Frame} (rest : List Frame) (positive : 0 < frame.stride) :
    encoder.feed (frame :: rest) =
      (((encoder.afterFrame frame.bytes frame.stride).feed rest).1,
        encoder.frameText frame.bytes frame.stride ::
          ((encoder.afterFrame frame.bytes frame.stride).feed rest).2) := by
  rcases encoder.encode_of_pos frame.bytes positive with ⟨log, encoded⟩
  simp only [feed, encoded]

theorem feed_cons_of_zero {frame : Frame} (rest : List Frame) (zero : frame.stride = 0) :
    encoder.feed (frame :: rest) = encoder.feed rest := by
  rw [feed, zero, encode_zero]

/-- Frames that cannot be encoded return nothing. -/
theorem feed_of_forall_zero {frames : List Frame} (zero : ∀ frame ∈ frames, frame.stride = 0) :
    encoder.feed frames = (encoder, []) := by
  induction frames with
  | nil => rfl
  | cons frame rest ih =>
      rw [feed_cons_of_zero encoder rest (zero frame List.mem_cons_self),
        ih fun other member => zero other (List.mem_cons_of_mem _ member)]

theorem feed_append (first second : List Frame) :
    encoder.feed (first ++ second) =
      (((encoder.feed first).1.feed second).1,
        (encoder.feed first).2 ++ ((encoder.feed first).1.feed second).2) := by
  induction first generalizing encoder with
  | nil => rfl
  | cons frame rest ih =>
      rw [List.cons_append, feed, feed]
      cases encoder.encode frame.bytes frame.stride with
      | error error => exact ih encoder
      | ok emission => simp only [ih, List.cons_append]

/-- What frames return before the first block: the pending header, unless no frame is encoded. -/
def opening (frames : List Frame) : String :=
  if frames.any fun frame => 0 < frame.stride then encoder.header.getD "" else ""

theorem feed_eq (frames : List Frame) :
    (∃ header bytesOut strideWarned, (encoder.feed frames).1 =
        (encoder.advance (frames.flatMap Frame.samples)).1.withBooks header bytesOut
          strideWarned) ∧
      String.join (encoder.feed frames).2 =
        encoder.opening frames ++
          String.join ((encoder.advance (frames.flatMap Frame.samples)).2.map Block.text) := by
  induction frames generalizing encoder with
  | nil => exact ⟨⟨encoder.header, encoder.bytesOut, encoder.strideWarned, rfl⟩, rfl⟩
  | cons frame rest ih =>
      rw [List.flatMap_cons, Frame.samples]
      rcases Nat.eq_zero_or_pos frame.stride with zero | positive
      · rw [feed_cons_of_zero encoder rest zero, zero, Sample.ofFrame_zero, List.nil_append]
        have sameOpening : encoder.opening (frame :: rest) = encoder.opening rest := by
          simp [opening, zero]
        rw [sameOpening]
        exact ih encoder
      · rw [feed_cons_of_pos encoder rest positive, advance_append]
        rcases ih (encoder.afterFrame frame.bytes frame.stride) with
          ⟨⟨header, bytesOut, strideWarned, sameState⟩, sameText⟩
        rw [advance_afterFrame] at sameState sameText
        have opened : encoder.opening (frame :: rest) = encoder.header.getD "" := by
          simp [opening, positive]
        have closed : (encoder.afterFrame frame.bytes frame.stride).opening rest = "" :=
          ite_self ""
        refine ⟨⟨header, bytesOut, strideWarned, sameState⟩, ?_⟩
        rw [String.join_cons, sameText, opened, closed, frameText, String.empty_append,
          List.map_append, String.join_append, String.append_assoc]

theorem feed_pieces {stride : Nat} (positive : 0 < stride) (last : List UInt8)
    {pieces : List (List UInt8)} (whole : ∀ piece ∈ pieces, stride ∣ piece.length) :
    (encoder.feed ((pieces ++ [last]).map fun bytes => { bytes, stride })).1 =
        encoder.afterFrame (pieces.flatten ++ last) stride ∧
      String.join (encoder.feed ((pieces ++ [last]).map fun bytes => { bytes, stride })).2 =
        encoder.frameText (pieces.flatten ++ last) stride := by
  induction pieces generalizing encoder with
  | nil =>
      rw [List.nil_append, List.map_singleton, feed_cons_of_pos _ _ positive]
      simp [feed]
  | cons piece rest ih =>
      have wholePiece : stride ∣ piece.length := whole piece List.mem_cons_self
      have wholeRest : ∀ other ∈ rest, stride ∣ other.length := fun other otherMem =>
        whole other (List.mem_cons_of_mem piece otherMem)
      rcases ih (encoder.afterFrame piece stride) wholeRest with ⟨sameState, sameText⟩
      rw [List.cons_append, List.map_cons, feed_cons_of_pos _ _ positive]
      simp only [List.flatten_cons, List.append_assoc, String.join_cons]
      constructor
      · rw [sameState, encoder.afterFrame_append _ positive wholePiece]
      · rw [sameText, encoder.frameText_append _ positive wholePiece]

/-- Frame boundaries cannot be seen in the text nor in the state: a frame may be cut in two or into
any number of pieces at sample boundaries, and what follows its last whole sample counts for
nothing. -/
theorem encode_cut_anywhere {stride : Nat} (positive : 0 < stride) :
    (∀ first second : List UInt8, stride ∣ first.length →
      ∃ head tail joint,
        encoder.encode first stride = .ok head ∧
        head.encoder.encode second stride = .ok tail ∧
        encoder.encode (first ++ second) stride = .ok joint ∧
        head.text ++ tail.text = joint.text ∧ tail.encoder = joint.encoder) ∧
    (∀ (pieces : List (List UInt8)) (last : List UInt8),
      (∀ piece ∈ pieces, stride ∣ piece.length) →
      ∃ joint,
        encoder.encode (pieces.flatten ++ last) stride = .ok joint ∧
        (encoder.feed ((pieces ++ [last]).map fun bytes => { bytes, stride })).1 = joint.encoder ∧
        String.join (encoder.feed ((pieces ++ [last]).map fun bytes => { bytes, stride })).2 =
          joint.text) ∧
    (∀ bytes rest : List UInt8, stride ∣ bytes.length → rest.length < stride →
      ∃ exact longer,
        encoder.encode bytes stride = .ok exact ∧
        encoder.encode (bytes ++ rest) stride = .ok longer ∧
        longer.text = exact.text ∧ longer.encoder = exact.encoder) := by
  refine ⟨?_, ?_, ?_⟩
  · intro first second whole
    rcases encoder.encode_of_pos first positive with ⟨_, headEncoded⟩
    rcases (encoder.afterFrame first stride).encode_of_pos second positive with ⟨_, tailEncoded⟩
    rcases encoder.encode_of_pos (first ++ second) positive with ⟨_, jointEncoded⟩
    refine ⟨_, _, _, headEncoded, tailEncoded, jointEncoded, ?_, ?_⟩
    · exact (encoder.frameText_append second positive whole).symm
    · exact (encoder.afterFrame_append second positive whole).symm
  · intro pieces last whole
    rcases encoder.encode_of_pos (pieces.flatten ++ last) positive with ⟨_, jointEncoded⟩
    exact ⟨_, jointEncoded, encoder.feed_pieces positive last whole⟩
  · intro bytes rest whole short
    rcases encoder.encode_of_pos bytes positive with ⟨_, exactEncoded⟩
    rcases encoder.encode_of_pos (bytes ++ rest) positive with ⟨_, longerEncoded⟩
    exact ⟨_, _, exactEncoded, longerEncoded, encoder.frame_drop_rest whole short⟩

end Encoder

/-- A clock and a bus of two bits at three megahertz, with a channel that is not shown. -/
def clockAndBus : Capture where
  channels := [{ name := "clk" }, { name := "data<1>" }, { name := "data<0>" },
    { name := "spare", enabled := false }]
  rate := some 3000000

def clockAndBusOptions : EncoderOptions where
  date := { year := 2024, month := 2, day := 29, hour := 12, minute := 0, second := 0 }
  unitSize := some 2

def clockAndBusRegistry : Registry where
  probes := [
    { name := "clk", wiring := .scalar 0, symbol := '!' },
    { name := "data", wiring := .vector [⟨1, 1⟩, ⟨0, 2⟩], symbol := '"' }]

def clockAndBusEncoder : Encoder :=
  Encoder.fresh clockAndBusRegistry clockAndBus clockAndBusOptions 2

theorem clockAndBus_accepted :
    (Encoder.create clockAndBus clockAndBusOptions).1 = .ok clockAndBusEncoder := by
  have built : Registry.ofChannels clockAndBus.channels = .ok clockAndBusRegistry := by cbv
  have chosen : Encoder.chooseUnitSize clockAndBusRegistry clockAndBus (some 2) = .ok 2 := by cbv
  simp only [Encoder.create, built, clockAndBusOptions, chosen]
  rfl

/-- The encoder of `clockAndBus` after a first frame of a strange stride. -/
def clockAndBusStarted : Encoder :=
  clockAndBusEncoder.afterFrame [1, 6] 1

theorem encode_cut_anywhere_clockAndBus :
    0 < 2 ∧ 2 ∣ [3, 0, 3, 255].length ∧
      ∃ head tail joint,
        clockAndBusStarted.encode [3, 0, 3, 255] 2 = .ok head ∧
        head.encoder.encode [6, 0, 1] 2 = .ok tail ∧
        clockAndBusStarted.encode ([3, 0, 3, 255] ++ [6, 0, 1]) 2 = .ok joint ∧
        head.text ++ tail.text = joint.text ∧ tail.encoder = joint.encoder :=
  ⟨by decide, by decide,
    (clockAndBusStarted.encode_cut_anywhere (by decide)).1 [3, 0, 3, 255] [6, 0, 1] (by decide)⟩

end WaveDump
