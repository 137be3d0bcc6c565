import WaveDump.Proofs.Frames
import WaveDump.Proofs.Levels
import WaveDump.Proofs.LineReader
import WaveDump.Proofs.Stamps

/-!
# The body of a dump

The body is described by the samples that were taken and by nothing else: which of them cause
blocks, which probes their blocks list and with which values. The description looks at raw samples
and at their neighbours; the encoder looks at the one sample it has kept. Between two samples it has
kept the last one in the unit size, also when that sample caused no block, because it then equals
the one before.
-/

namespace WaveDump

namespace Encoder

/-! ## The blocks of samples -/

/-- Whether a sample causes a block: the first one does, and every one that differs, in the unit
size, from the sample before. -/
def emits (encoder : Encoder) (samples : List Sample) (index : Nat) : Bool :=
  index = 0 || (samples.getD index []).resize encoder.unitSize !=
    (samples.getD (index - 1) []).resize encoder.unitSize

/-- The probes in the block of a sample: all for the first one, and for a later one those of which a
channel has another level than in the sample before. -/
def listed (encoder : Encoder) (samples : List Sample) (index : Nat) : List Probe :=
  encoder.registry.probes.filter fun probe =>
    index = 0 || probe.differs (samples.getD (index - 1) []) (samples.getD index [])

def blockAt (encoder : Encoder) (samples : List Sample) (index : Nat) : Block where
  time := encoder.timescale.stamp encoder.rate (index + 1)
  initial := index = 0
  changes := (encoder.listed samples index).map fun probe => probe.change (samples.getD index [])

def blocksUpTo (encoder : Encoder) (samples : List Sample) (count : Nat) : List Block :=
  ((List.range count).filter (encoder.emits samples)).map (encoder.blockAt samples)

def blocks (encoder : Encoder) (samples : List Sample) : List Block :=
  encoder.blocksUpTo samples samples.length

section Blocks

variable (encoder : Encoder) (samples : List Sample)

theorem blocksUpTo_succ (count : Nat) :
    encoder.blocksUpTo samples (count + 1) =
      encoder.blocksUpTo samples count ++
        if encoder.emits samples count then [encoder.blockAt samples count] else [] := by
  rw [blocksUpTo, List.range_succ, List.filter_append, List.map_append, ← blocksUpTo]
  by_cases emitted : encoder.emits samples count <;> simp [emitted]

theorem blocksUpTo_append (more : List Sample) {count : Nat} (le : count ≤ samples.length) :
    encoder.blocksUpTo (samples ++ more) count = encoder.blocksUpTo samples count := by
  have sameSample {index : Nat} (lt : index < samples.length) :
      (samples ++ more).getD index [] = samples.getD index [] := by
    rw [List.getD_eq_getElem?_getD, List.getElem?_append_left lt, List.getD_eq_getElem?_getD]
  induction count with
  | zero => rfl
  | succ count ih =>
      have here := sameSample (show count < samples.length by omega)
      have before := sameSample (show count - 1 < samples.length by omega)
      have sameEmits : encoder.emits (samples ++ more) count = encoder.emits samples count := by
        rw [emits, emits, here, before]
      have sameBlock : encoder.blockAt (samples ++ more) count = encoder.blockAt samples count := by
        rw [blockAt, blockAt, listed, listed, here, before]
      rw [blocksUpTo_succ, blocksUpTo_succ, ih (by omega), sameEmits, sameBlock]

theorem blocks_concat (sample : Sample) :
    encoder.blocks (samples ++ [sample]) =
      encoder.blocks samples ++
        if encoder.emits (samples ++ [sample]) samples.length then
          [encoder.blockAt (samples ++ [sample]) samples.length]
        else
          [] := by
  rw [blocks, List.length_append, List.length_singleton, blocksUpTo_succ,
    blocksUpTo_append encoder samples [sample] (Nat.le_refl _), ← blocks]

theorem emits_concat (sample : Sample) :
    encoder.emits (samples ++ [sample]) samples.length =
      (some (sample.resize encoder.unitSize) !=
        samples.getLast?.map (Sample.resize encoder.unitSize)) := by
  rcases samples.eq_nil_or_concat' with rfl | ⟨earlier, last, rfl⟩
  · rfl
  · rw [Bool.eq_iff_iff]
    simp [emits]

theorem blockAt_concat (sample : Sample) :
    encoder.blockAt (samples ++ [sample]) samples.length =
      { time := encoder.timescale.stamp encoder.rate (samples.length + 1)
        initial := samples.getLast?.isNone
        changes := (encoder.registry.probes.filter fun probe =>
          samples.getLast?.all fun last => probe.differs last sample).map fun probe =>
            probe.change sample } := by
  rcases samples.eq_nil_or_concat' with rfl | ⟨earlier, last, rfl⟩
  · simp [blockAt, listed]
  · simp [blockAt, listed]

end Blocks

/-! ## Runs -/

/-- The encoder after samples that it took from its start. -/
structure Follows (encoder start : Encoder) (samples : List Sample) : Prop where
  registry : encoder.registry = start.registry
  timescale : encoder.timescale = start.timescale
  rate : encoder.rate = start.rate
  unitSize : encoder.unitSize = start.unitSize
  previous : encoder.previous = samples.getLast?.map (Sample.resize start.unitSize)
  sampleCount : encoder.sampleCount = samples.length
  samplesEmitted : encoder.samplesEmitted = (start.blocks samples).length

section Runs

variable {start encoder : Encoder} {samples : List Sample}

theorem Follows.withBooks (follows : encoder.Follows start samples) (header : Option String)
    (bytesOut : Nat) (strideWarned : Bool) :
    (encoder.withBooks header bytesOut strideWarned).Follows start samples :=
  ⟨follows.registry, follows.timescale, follows.rate, follows.unitSize, follows.previous,
    follows.sampleCount, follows.samplesEmitted⟩

/-- The encoder makes the block that the samples ask for. -/
theorem Follows.block?_eq (follows : encoder.Follows start samples) (covers : start.Covers)
    (sample : Sample) :
    encoder.block? (encoder.sampleCount + 1) (sample.resize encoder.unitSize) =
      if start.emits (samples ++ [sample]) samples.length then
        some (start.blockAt (samples ++ [sample]) samples.length)
      else
        none := by
  have sameChange (chosen : Probe → Bool) :
      ((start.registry.probes.filter chosen).map fun probe =>
        probe.change (sample.resize start.unitSize)) =
      (start.registry.probes.filter chosen).map fun probe => probe.change sample :=
    List.map_congr_left fun probe member =>
      change_resize covers (List.mem_filter.mp member).1 sample
  have previous := follows.previous
  rw [emits_concat, blockAt_concat, block?, follows.registry, follows.timescale, follows.rate,
    follows.unitSize, follows.sampleCount]
  cases lastOf : samples.getLast? with
  | none =>
      have changes := sameChange fun _ => true
      rw [List.filter_true] at changes
      simp [previous, lastOf, changes]
  | some last =>
      have sameListed : (start.registry.probes.filter fun probe =>
          probe.differs (last.resize start.unitSize) (sample.resize start.unitSize)) =
            start.registry.probes.filter fun probe => probe.differs last sample :=
        List.filter_congr fun probe member => differs_resize covers member last sample
      simp only [previous, lastOf, Option.map_some, sameListed, sameChange]
      by_cases same : sample.resize start.unitSize = last.resize start.unitSize <;> simp [same]

theorem Follows.step (follows : encoder.Follows start samples) (covers : start.Covers)
    (sample : Sample) :
    (encoder.step sample).1.Follows start (samples ++ [sample]) ∧
      start.blocks (samples ++ [sample]) =
        start.blocks samples ++ (encoder.step sample).2.toList := by
  have made := follows.block?_eq covers sample
  have counted : encoder.sampleCount + 1 = (samples ++ [sample]).length := by
    rw [follows.sampleCount, List.length_append, List.length_singleton]
  have grown := start.blocks_concat samples sample
  by_cases emitted : start.emits (samples ++ [sample]) samples.length
  · rw [if_pos emitted] at made grown
    rw [step_of_some encoder made]
    refine ⟨⟨follows.registry, follows.timescale, follows.rate, follows.unitSize, ?_, counted, ?_⟩,
      grown⟩
    · simp [follows.unitSize]
    · rw [grown, List.length_append, ← follows.samplesEmitted]
      rfl
  · rw [if_neg emitted] at made grown
    rw [step_of_none encoder made]
    refine ⟨⟨follows.registry, follows.timescale, follows.rate, follows.unitSize, ?_, counted, ?_⟩,
      grown⟩
    · -- A sample without a block equals the kept one, so the kept one is also the last.
      rw [emits_concat, bne_iff_ne, ne_eq, not_not, ← follows.previous] at emitted
      simpa using emitted.symm
    · rw [grown, List.append_nil]
      exact follows.samplesEmitted

theorem Follows.advance (follows : encoder.Follows start samples) (covers : start.Covers)
    (more : List Sample) :
    (encoder.advance more).1.Follows start (samples ++ more) ∧
      start.blocks (samples ++ more) = start.blocks samples ++ (encoder.advance more).2 := by
  induction more generalizing encoder samples with
  | nil => simpa [Encoder.advance] using follows
  | cons sample rest ih =>
      rcases follows.step covers sample with ⟨followsHere, blocksHere⟩
      rcases ih followsHere with ⟨followsLater, blocksLater⟩
      rw [List.append_assoc, List.singleton_append] at followsLater blocksLater
      refine ⟨followsLater, ?_⟩
      rw [blocksLater, blocksHere, List.append_assoc]
      rfl

theorem Follows.phase_eq (follows : encoder.Follows start samples) :
    encoder.phase = .streaming ↔ 0 < encoder.sampleCount := by
  rw [phase, follows.previous, follows.sampleCount]
  rcases samples.eq_nil_or_concat' with rfl | ⟨earlier, last, rfl⟩
  · simp
  · simp

end Runs

/-! ## The body of accepted captures -/

section Accepted

variable {capture : Capture} {options : EncoderOptions} {encoder : Encoder}

theorem follows_of_create (accepted : (create capture options).1 = .ok encoder) :
    encoder.Follows encoder [] := by
  rcases create_eq_ok accepted with ⟨_, _, isFresh⟩
  refine ⟨rfl, rfl, rfl, rfl, ?_, ?_, ?_⟩ <;> rw [isFresh] <;> rfl

theorem header_of_create (accepted : (create capture options).1 = .ok encoder) :
    encoder.header = some (headerFor encoder.registry capture options).render := by
  rcases create_eq_ok accepted with ⟨_, _, isFresh⟩
  rw [isFresh]
  rfl

theorem advance_of_create (accepted : (create capture options).1 = .ok encoder)
    (samples : List Sample) :
    (encoder.advance samples).1.Follows encoder samples ∧
      (encoder.advance samples).2 = encoder.blocks samples := by
  rcases (follows_of_create accepted).advance (covers_of_create accepted) samples with
    ⟨follows, made⟩
  rw [List.nil_append] at follows made
  exact ⟨follows, made.symm⟩

theorem feed_of_create (accepted : (create capture options).1 = .ok encoder)
    (frames : List Frame) :
    (encoder.feed frames).1.Follows encoder (frames.flatMap Frame.samples) ∧
      String.join (encoder.feed frames).2 =
        encoder.opening frames ++
          String.join ((encoder.blocks (frames.flatMap Frame.samples)).map Block.text) := by
  rcases encoder.feed_eq frames with ⟨⟨header, bytesOut, strideWarned, sameState⟩, sameText⟩
  rcases advance_of_create accepted (frames.flatMap Frame.samples) with ⟨follows, made⟩
  rw [sameState, sameText, made]
  exact ⟨follows.withBooks header bytesOut strideWarned, rfl⟩

theorem opening_of_create (accepted : (create capture options).1 = .ok encoder)
    (frames : List Frame) :
    encoder.opening frames =
      if frames.any fun frame => 0 < frame.stride then
        (headerFor encoder.registry capture options).render
      else
        "" := by
  rw [opening, header_of_create accepted, Option.getD_some]

/-- A single frame, as the first one, gives the header and the blocks of its samples. -/
theorem frame_of_create (accepted : (create capture options).1 = .ok encoder)
    (bytes : List UInt8) (stride : Nat) :
    encoder.frameText bytes stride =
        (headerFor encoder.registry capture options).render ++
          String.join ((encoder.blocks (Sample.ofFrame stride bytes)).map Block.text) ∧
      (encoder.afterFrame bytes stride).statistics =
        { samplesIn := bytes.length / stride
          samplesEmitted := (encoder.blocks (Sample.ofFrame stride bytes)).length
          bytesOut := (encoder.frameText bytes stride).utf8ByteSize
          probes := encoder.registry.probes.length } := by
  rcases advance_of_create accepted (Sample.ofFrame stride bytes) with ⟨follows, made⟩
  have nothingOut : encoder.bytesOut = 0 := by
    rcases create_eq_ok accepted with ⟨_, _, isFresh⟩
    rw [isFresh]
    rfl
  constructor
  · simp only [frameText, header_of_create accepted, Option.getD_some, made]
  · simp only [statistics, afterFrame, withBooks, follows.sampleCount, follows.samplesEmitted,
      follows.registry, Sample.length_ofFrame, nothingOut, Nat.zero_add]

theorem blocks_printable (accepted : (create capture options).1 = .ok encoder)
    (samples : List Sample) : ∀ block ∈ encoder.blocks samples, block.Printable := by
  rcases create_eq_ok accepted with ⟨built, _, _⟩
  intro block blockMem change changeMem
  rcases List.mem_map.mp blockMem with ⟨index, _, rfl⟩
  rcases List.mem_map.mp changeMem with ⟨probe, listed, rfl⟩
  exact Registry.symbol_ne_lineFeed built (List.mem_filter.mp listed).1

end Accepted

section Shape

variable (encoder : Encoder)

theorem stamps_pairwise (samples : List Sample) :
    ((encoder.blocks samples).map Block.time).Pairwise (· ≤ ·) := by
  rw [blocks, blocksUpTo, List.map_map, List.pairwise_map]
  apply (List.pairwise_lt_range.sublist List.filter_sublist).imp
  intro earlier later before
  exact encoder.timescale.stamp_mono encoder.rate (by omega)

theorem blocks_cons (sample : Sample) (rest : List Sample) :
    ∃ later, encoder.blocks (sample :: rest) =
        { time := encoder.timescale.stamp encoder.rate 1
          initial := true
          changes := encoder.registry.probes.map fun probe => probe.change sample } :: later ∧
      ∀ block ∈ later, block.initial = false := by
  have everyProbe : encoder.listed (sample :: rest) 0 = encoder.registry.probes := by
    simp [listed]
  refine ⟨(((List.range rest.length).map Nat.succ).filter
    (encoder.emits (sample :: rest))).map (encoder.blockAt (sample :: rest)), ?_, ?_⟩
  · rw [blocks, blocksUpTo, List.length_cons, List.range_succ_eq_map,
      List.filter_cons_of_pos (by simp [emits]), List.map_cons, blockAt, everyProbe]
    simp
  · intro block member
    simp only [List.mem_map, List.mem_filter, List.mem_range] at member
    rcases member with ⟨_, ⟨⟨index, _, rfl⟩, _⟩, rfl⟩
    simp [blockAt]

theorem length_blocks_le (samples : List Sample) :
    (encoder.blocks samples).length ≤ samples.length := by
  rw [blocks, blocksUpTo, List.length_map]
  exact (List.length_filter_le _ _).trans_eq List.length_range

theorem length_blocks_pos (samples : List Sample) :
    0 < (encoder.blocks samples).length ↔ 0 < samples.length := by
  cases samples with
  | nil => rfl
  | cons sample rest =>
      rcases encoder.blocks_cons sample rest with ⟨later, isCons, _⟩
      simp [isCons]

end Shape

/-- The text after the header is exactly the blocks of the samples that were taken, in their order:
an initial block for the first sample and blocks of changes for the samples that differ from the
one before. Stamps never decrease, and reading the lines by their first characters gives back these
blocks and no others. -/
theorem feed_blocks {capture : Capture} {options : EncoderOptions} {encoder : Encoder}
    (accepted : (create capture options).1 = .ok encoder) (frames : List Frame) :
    let samples := frames.flatMap Frame.samples
    let blocks := encoder.blocks samples
    let body := String.join (blocks.map Block.text)
    String.join (encoder.feed frames).2 =
        (if frames.any fun frame => 0 < frame.stride then
          (headerFor encoder.registry capture options).render
        else
          "") ++ body ∧
      (encoder.feed frames).1.statistics.samplesIn = samples.length ∧
      (encoder.feed frames).1.statistics.samplesEmitted = blocks.length ∧
      (blocks.map Block.time).Pairwise (· ≤ ·) ∧
      (∀ sample rest, samples = sample :: rest →
        ∃ later, blocks =
            { time := encoder.timescale.stamp encoder.rate 1
              initial := true
              changes := encoder.registry.probes.map fun probe => probe.change sample } :: later ∧
          ∀ block ∈ later, block.initial = false) ∧
      Block.readAll? body = some blocks ∧
      (∀ others : List Block, (∀ block ∈ others, block.Printable) →
        String.join (others.map Block.text) = body → others = blocks) := by
  intro samples blocks body
  rcases feed_of_create accepted frames with ⟨follows, text⟩
  have readBack : Block.readAll? body = some blocks :=
    Block.readAll?_join (blocks_printable accepted samples)
  refine ⟨?_, follows.sampleCount, follows.samplesEmitted, encoder.stamps_pairwise samples, ?_,
    readBack, ?_⟩
  · rw [text, opening_of_create accepted]
  · intro sample rest isCons
    change ∃ later, encoder.blocks samples = _ ∧ _
    rw [isCons]
    exact encoder.blocks_cons sample rest
  · intro others printable sameBody
    have readOthers := Block.readAll?_join printable
    rw [sameBody, readBack] at readOthers
    exact (Option.some.inj readOthers).symm

end Encoder

/-- Samples of one byte, a frame that is not encoded, and samples of two bytes that differ in a
channel that is not shown. -/
def clockAndBusFrames : List Frame :=
  [⟨[1, 6, 6], 1⟩, ⟨[9], 0⟩, ⟨[14, 0, 1], 2⟩]

theorem feed_blocks_clockAndBus :
    (Encoder.create clockAndBus clockAndBusOptions).1 = .ok clockAndBusEncoder ∧
      (clockAndBusEncoder.feed clockAndBusFrames).1.statistics.samplesEmitted =
        (clockAndBusEncoder.blocks (clockAndBusFrames.flatMap Frame.samples)).length ∧
      clockAndBusEncoder.blocks (clockAndBusFrames.flatMap Frame.samples) = [
        { time := 333
          initial := true
          changes := [⟨'!', .scalar true⟩, ⟨'"', .vector [some false, some false]⟩] },
        { time := 666
          initial := false
          changes := [⟨'!', .scalar false⟩, ⟨'"', .vector [some true, some true]⟩] },
        { time := 1333, initial := false, changes := [] }] :=
  ⟨clockAndBus_accepted, (Encoder.feed_blocks clockAndBus_accepted clockAndBusFrames).2.2.1,
    by decide⟩

end WaveDump
