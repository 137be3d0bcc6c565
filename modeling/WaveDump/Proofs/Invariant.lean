import WaveDump.Proofs.Body
import WaveDump.Proofs.Memory
import WaveDump.Proofs.StreamConversion

/-!
# What always holds of an encoder

An encoder is given frames directly, with a sink for their text, or by a conversion that cuts them
from a stream. Whatever these calls do and however they fail, the encoder has taken a list of
frames, and its fields are in step with it: what it remembers is the last sample, what it has
counted is what it was given and what it returned, and the header stood in front of the first text
and nowhere else.
-/

namespace WaveDump

/-! ## The frames of a conversion -/

/-- The frame that is written when bytes have been read, if they complete a sample. -/
def StreamProgress.frames (progress : StreamProgress) (piece : List UInt8) (stride : Nat) :
    List Frame :=
  let bytes := progress.carried ++ piece
  let whole := bytes.length - bytes.length % stride
  if whole = 0 then [] else [{ bytes := bytes.take whole, stride }]

/-- The frame that is written at the end of the input, if the header is still pending. -/
def StreamProgress.lastFrames (progress : StreamProgress) (stride : Nat) : List Frame :=
  if progress.encoder.headerPending then [{ bytes := [], stride }] else []

/-- All frames that a conversion gives to the encoder, in order. -/
def pumpFrames (stride : Nat) (progress : StreamProgress) (source : Source) : List Frame :=
  match delivered : source.read (bufferSize stride - progress.carried.length) with
  | (.bytes [], _) => progress.lastFrames stride
  | (.bytes (first :: rest), after) =>
    have _shorter := Source.remaining_lt_of_read delivered (by simp)
    progress.frames (first :: rest) stride ++
      match progress.receive (first :: rest) stride with
      | (received, none) => pumpFrames stride received after
      | (_, some _) => []
  | (.interrupted, after) =>
    have _shorter := Source.remaining_lt_of_read delivered (by simp)
    pumpFrames stride progress after
  | (.failed _, _) => []
termination_by source.remaining

namespace Encoder

theorem encodeTo_encoder (encoder : Encoder) (sink : Sink) (bytes : List UInt8) (stride : Nat) :
    (encoder.encodeTo sink bytes stride).encoder = (encoder.feed [{ bytes, stride }]).1 := by
  simp only [encodeTo, feed]
  cases encoder.encode bytes stride <;> rfl

end Encoder

namespace StreamProgress

variable (progress : StreamProgress)

theorem encoder_write (frame : List UInt8) (stride : Nat) :
    (progress.write frame stride).1.encoder =
      (progress.encoder.feed [{ bytes := frame, stride }]).1 := by
  rw [← progress.encoder.encodeTo_encoder progress.sink, write]
  dsimp only
  split <;> rfl

theorem encoder_receive (piece : List UInt8) (stride : Nat) :
    (progress.receive piece stride).1.encoder =
      (progress.encoder.feed (progress.frames piece stride)).1 := by
  simp only [receive, frames]
  split
  · rfl
  · rw [encoder_write]

theorem encoder_finish (source : Source) (stride : Nat) :
    (progress.finish source stride).encoder =
      (progress.encoder.feed (progress.lastFrames stride)).1 := by
  simp only [finish, lastFrames]
  by_cases pending : progress.encoder.headerPending
  · simp only [pending, ↓reduceIte, ← encoder_write]
    split <;> rfl
  · simp only [pending, Bool.false_eq_true, ↓reduceIte]
    rfl

end StreamProgress

section Pump

variable {stride : Nat} {progress : StreamProgress} {source after : Source}

theorem pumpFrames_end (delivered : source.read (bufferSize stride - progress.carried.length) =
    (.bytes [], after)) : pumpFrames stride progress source = progress.lastFrames stride := by
  rw [pumpFrames]
  split <;> simp_all

theorem pumpFrames_bytes {first : UInt8} {rest : List UInt8}
    (delivered : source.read (bufferSize stride - progress.carried.length) =
      (.bytes (first :: rest), after)) :
    pumpFrames stride progress source =
      progress.frames (first :: rest) stride ++
        match progress.receive (first :: rest) stride with
        | (received, none) => pumpFrames stride received after
        | (_, some _) => [] := by
  rw [pumpFrames]
  split <;> simp_all

theorem pumpFrames_interrupted
    (delivered : source.read (bufferSize stride - progress.carried.length) =
      (.interrupted, after)) :
    pumpFrames stride progress source = pumpFrames stride progress after := by
  rw [pumpFrames]
  split <;> simp_all

theorem pumpFrames_failed {failure : Failure}
    (delivered : source.read (bufferSize stride - progress.carried.length) =
      (.failed failure, after)) : pumpFrames stride progress source = [] := by
  rw [pumpFrames]
  split <;> simp_all

theorem pump_encoder (stride : Nat) (progress : StreamProgress) (source : Source) :
    (pump stride progress source).encoder =
      (progress.encoder.feed (pumpFrames stride progress source)).1 := by
  fun_induction pump stride progress source with
  | case1 progress source after delivered =>
      rw [pumpFrames_end delivered, StreamProgress.encoder_finish]
  | case2 progress source first rest after delivered _ next onReceive ih =>
      have received := progress.encoder_receive (first :: rest) stride
      rw [onReceive] at received
      rw [pumpFrames_bytes delivered, onReceive, Encoder.feed_append, ← received]
      exact ih
  | case3 progress source first rest after delivered _ next error onReceive =>
      have received := progress.encoder_receive (first :: rest) stride
      rw [onReceive] at received
      rw [pumpFrames_bytes delivered, onReceive, List.append_nil, ← received]
      rfl
  | case4 progress source after delivered _ ih =>
      rw [pumpFrames_interrupted delivered]
      exact ih
  | case5 progress source failure after delivered =>
      rw [pumpFrames_failed delivered]
      rfl

end Pump

/-! ## Calls -/

/-- A call that gives samples to an encoder. -/
inductive EncoderCall where
  | encode (bytes : List UInt8) (stride : Nat)
  | encodeTo (sink : Sink) (bytes : List UInt8) (stride : Nat)
  | convert (source : Source) (sink : Sink)

namespace Encoder

/-- The encoder after a call, whether the call succeeds or fails. -/
def perform (encoder : Encoder) : EncoderCall → Encoder
  | .encode bytes stride =>
    match encoder.encode bytes stride with
    | .error _ => encoder
    | .ok emission => emission.encoder
  | .encodeTo sink bytes stride => (encoder.encodeTo sink bytes stride).encoder
  | .convert source sink => (convertStream encoder source sink).encoder

def performAll (encoder : Encoder) (calls : List EncoderCall) : Encoder :=
  calls.foldl perform encoder

/-- The frames that an encoder is given by a call. A conversion gives it none before it has read a
whole sample or met the end of the input. -/
def framesOf (encoder : Encoder) : EncoderCall → List Frame
  | .encode bytes stride => [{ bytes, stride }]
  | .encodeTo _ bytes stride => [{ bytes, stride }]
  | .convert source sink => pumpFrames (max encoder.unitSize 1) { encoder, sink } source

def framesOfAll (encoder : Encoder) : List EncoderCall → List Frame
  | [] => []
  | call :: rest => encoder.framesOf call ++ (encoder.perform call).framesOfAll rest

theorem perform_eq_feed (encoder : Encoder) (call : EncoderCall) :
    encoder.perform call = (encoder.feed (encoder.framesOf call)).1 := by
  cases call with
  | encode bytes stride =>
      simp only [perform, framesOf, feed]
      cases encoder.encode bytes stride <;> rfl
  | encodeTo sink bytes stride => exact encoder.encodeTo_encoder sink bytes stride
  | convert source sink => exact pump_encoder _ _ source

theorem performAll_eq_feed (encoder : Encoder) (calls : List EncoderCall) :
    encoder.performAll calls = (encoder.feed (encoder.framesOfAll calls)).1 := by
  induction calls generalizing encoder with
  | nil => rfl
  | cons call rest ih =>
      rw [framesOfAll, feed_append, ← perform_eq_feed, ← ih]
      rfl

/-! ## What frames keep -/

/-- What is known of an encoder that has become of `start` after frames for which it returned these
texts. -/
structure Kept (start : Encoder) (frames : List Frame) (texts : List String)
    (encoder : Encoder) : Prop where
  follows : encoder.Follows start (frames.flatMap Frame.samples)
  header : encoder.header = if texts = [] then start.header else none
  bytesOut : encoder.bytesOut = start.bytesOut + (texts.map String.utf8ByteSize).sum
  count : texts.length = frames.countP fun frame => 0 < frame.stride
  bodies : ∃ bodies : List (List Block),
    bodies.flatten = start.blocks (frames.flatMap Frame.samples) ∧
    texts = (bodies.map fun blocks => String.join (blocks.map Block.text)).modifyHead
      (start.header.getD "" ++ ·)

section Kept

variable {start encoder : Encoder} {frames : List Frame} {texts : List String}

theorem Follows.kept (follows : start.Follows start []) : start.Kept [] [] start where
  follows := follows
  header := rfl
  bytesOut := rfl
  count := rfl
  bodies := ⟨[], rfl, rfl⟩

theorem Kept.skip (kept : start.Kept frames texts encoder) {frame : Frame}
    (zero : frame.stride = 0) : start.Kept (frames ++ [frame]) texts encoder := by
  have sameSamples : (frames ++ [frame]).flatMap Frame.samples = frames.flatMap Frame.samples := by
    simp [Frame.samples, zero, Sample.ofFrame_zero]
  exact
    { follows := by
        rw [sameSamples]
        exact kept.follows
      header := kept.header
      bytesOut := kept.bytesOut
      count := by simpa [zero] using kept.count
      bodies := by
        rw [sameSamples]
        exact kept.bodies }

theorem Kept.take (kept : start.Kept frames texts encoder) (covers : start.Covers) {frame : Frame}
    (positive : 0 < frame.stride) :
    start.Kept (frames ++ [frame]) (texts ++ [encoder.frameText frame.bytes frame.stride])
      (encoder.afterFrame frame.bytes frame.stride) := by
  have moreSamples : (frames ++ [frame]).flatMap Frame.samples =
      frames.flatMap Frame.samples ++ Sample.ofFrame frame.stride frame.bytes := by
    simp [Frame.samples]
  rcases kept.follows.advance covers (Sample.ofFrame frame.stride frame.bytes) with
    ⟨follows, moreBlocks⟩
  exact
    { follows := by
        rw [moreSamples]
        exact follows.withBooks _ _ _
      header := by simp [afterFrame, withBooks]
      bytesOut := by
        rw [List.map_append, List.sum_append, List.map_singleton, List.sum_singleton,
          ← Nat.add_assoc, ← kept.bytesOut]
        rfl
      count := by simp [kept.count, positive]
      bodies := by
        rcases kept.bodies with ⟨bodies, flatten, sameTexts⟩
        refine ⟨bodies ++ [(encoder.advance (Sample.ofFrame frame.stride frame.bytes)).2], ?_, ?_⟩
        · rw [moreSamples, moreBlocks, List.flatten_append, flatten, List.flatten_singleton]
        · -- Only the first text has the header in front.
          have header := kept.header
          rcases bodies with _ | ⟨body, later⟩
          · rw [sameTexts] at header ⊢
            simp only [List.map_nil, List.modifyHead_nil, ↓reduceIte] at header
            simp [frameText, header]
          · rw [sameTexts] at header ⊢
            simp only [List.map_cons, List.modifyHead_cons, reduceCtorEq, ↓reduceIte] at header
            simp [frameText, header] }

/-- Frames that are encoded and frames that are refused keep the encoder in step. -/
theorem Kept.feed (kept : start.Kept frames texts encoder) (covers : start.Covers)
    (more : List Frame) :
    start.Kept (frames ++ more) (texts ++ (encoder.feed more).2) (encoder.feed more).1 := by
  induction more generalizing encoder frames texts with
  | nil => simpa [Encoder.feed] using kept
  | cons frame rest ih =>
      rcases Nat.eq_zero_or_pos frame.stride with zero | positive
      · rw [feed_cons_of_zero encoder rest zero]
        simpa using ih (kept.skip zero)
      · rw [feed_cons_of_pos encoder rest positive]
        simpa using ih (kept.take covers positive)

end Kept

/-! ## The invariant -/

/-- The representation invariant of an encoder and its memory, when the encoder was made as `start`
with a pending `header`, was then given `frames`, and returned `texts` for those that it could
encode. -/
structure Invariant (start : Encoder) (header : String) (frames : List Frame)
    (texts : List String) (encoder : Encoder) (memory : Memory) : Prop where
  unchanged : encoder.registry = start.registry ∧ encoder.unitSize = start.unitSize ∧
    encoder.rate = start.rate ∧ encoder.timescale = start.timescale
  timescale : encoder.timescale = .ofRate encoder.rate
  previousLength : memory.previous.length = encoder.unitSize
  scratchLength : memory.scratch.length = encoder.unitSize
  covers : encoder.Covers
  /-- No level is read beyond the end of a sample in the unit size. -/
  readable : ∀ probe ∈ encoder.registry.probes, ∀ placement ∈ probe.bits, ∀ sample : Sample,
    placement.sample / 8 < (sample.resize encoder.unitSize).length
  pending : encoder.headerPending ↔ ∀ frame ∈ frames, frame.stride = 0
  untouched : encoder.headerPending →
    encoder.sampleCount = 0 ∧ encoder.samplesEmitted = 0 ∧ encoder.bytesOut = 0
  streaming : encoder.phase = .streaming ↔ 0 < encoder.sampleCount
  emitting : 0 < encoder.sampleCount ↔ 0 < encoder.samplesEmitted
  emitted_le : encoder.samplesEmitted ≤ encoder.sampleCount
  remembered : memory.phase = encoder.phase ∧ memory.sampleCount = encoder.sampleCount ∧
    memory.samplesEmitted = encoder.samplesEmitted
  /-- The last sample in the unit size, or low levels before the first one. -/
  previous : memory.previous =
    match (frames.flatMap Frame.samples).getLast? with
    | none => List.replicate encoder.unitSize 0
    | some last => last.resize encoder.unitSize
  bytesOut : encoder.bytesOut = (texts.map String.utf8ByteSize).sum
  /-- Every frame with samples of some bytes has its text. The first one has the header in front,
  and apart from it the texts are blocks. -/
  texts : texts.length = (frames.countP fun frame => 0 < frame.stride) ∧
    ∃ bodies : List (List Block),
      bodies.flatten = start.blocks (frames.flatMap Frame.samples) ∧
      texts =
        (bodies.map fun blocks => String.join (blocks.map Block.text)).modifyHead (header ++ ·)

section Follows

variable {start first second : Encoder} {samples : List Sample} {memory : Memory}

theorem Follows.mirrors (follows : first.Follows start samples)
    (followsToo : second.Follows start samples) (mirrors : memory.Mirrors first) :
    memory.Mirrors second := by
  have samePrevious := follows.previous.trans followsToo.previous.symm
  have sameSize := follows.unitSize.trans followsToo.unitSize.symm
  exact
    { phase := by rw [mirrors.phase, phase, phase, samePrevious]
      previous := by rw [mirrors.previous, samePrevious, sameSize]
      previousLength := mirrors.previousLength.trans sameSize
      scratchLength := mirrors.scratchLength.trans sameSize
      sampleCount := mirrors.sampleCount.trans
        (follows.sampleCount.trans followsToo.sampleCount.symm)
      samplesEmitted := mirrors.samplesEmitted.trans
        (follows.samplesEmitted.trans followsToo.samplesEmitted.symm) }

end Follows

theorem Kept.texts_eq_nil_iff {start encoder : Encoder} {frames : List Frame} {texts : List String}
    (kept : start.Kept frames texts encoder) :
    texts = [] ↔ ∀ frame ∈ frames, frame.stride = 0 := by
  rw [← List.length_eq_zero_iff, kept.count, List.countP_eq_zero]
  simp

theorem Kept.invariant {start encoder : Encoder} {header : String} {frames : List Frame}
    {texts : List String} {memory : Memory} (kept : start.Kept frames texts encoder)
    (mirrors : memory.Mirrors encoder) (covers : start.Covers)
    (timescale : start.timescale = .ofRate start.rate) (unwritten : start.bytesOut = 0)
    (headed : start.header = some header) :
    start.Invariant header frames texts encoder memory := by
  have follows := kept.follows
  have coversNow : encoder.Covers := by
    rw [Covers, follows.registry, follows.unitSize]
    exact covers
  have bytesOut := kept.bytesOut
  rw [unwritten, Nat.zero_add] at bytesOut
  have pendingIff : encoder.headerPending ↔ texts = [] := by
    rw [headerPending, kept.header, headed]
    split <;> simp_all
  have allCounted := follows.sampleCount
  have allEmitted := follows.samplesEmitted
  exact
    { unchanged := ⟨follows.registry, follows.unitSize, follows.rate, follows.timescale⟩
      timescale := by rw [follows.timescale, follows.rate, timescale]
      previousLength := mirrors.previousLength
      scratchLength := mirrors.scratchLength
      covers := coversNow
      readable := by
        intro probe member placement shown sample
        have within := coversNow probe member placement shown
        rw [Sample.length_resize]
        omega
      pending := pendingIff.trans kept.texts_eq_nil_iff
      untouched := by
        intro pending
        have noTexts := pendingIff.mp pending
        have noSamples : frames.flatMap Frame.samples = [] := by
          apply List.flatMap_eq_nil_iff.mpr
          intro frame member
          rw [Frame.samples, kept.texts_eq_nil_iff.mp noTexts frame member, Sample.ofFrame_zero]
        rw [noSamples] at allCounted allEmitted
        rw [noTexts] at bytesOut
        exact ⟨allCounted, allEmitted, bytesOut⟩
      streaming := follows.phase_eq
      emitting := by rw [allCounted, allEmitted, length_blocks_pos]
      emitted_le := by
        rw [allCounted, allEmitted]
        exact length_blocks_le _ _
      remembered := ⟨mirrors.phase, mirrors.sampleCount, mirrors.samplesEmitted⟩
      previous := by
        rw [mirrors.previous, follows.previous, follows.unitSize]
        cases (frames.flatMap Frame.samples).getLast? <;> rfl
      bytesOut := bytesOut
      texts := by
        refine ⟨kept.count, ?_⟩
        simpa [headed] using kept.bodies }

/-- The samples of all calls can be taken in buffers of the unit size, and the memory is then in
step with the encoder. -/
theorem exists_memory_performAll {capture : Capture} {options : EncoderOptions} {encoder : Encoder}
    (accepted : (create capture options).1 = .ok encoder) (calls : List EncoderCall) :
    let samples := (encoder.framesOfAll calls).flatMap Frame.samples
    ∃ memory,
      (Memory.blank encoder.unitSize).takeAll? encoder samples =
        some (memory, encoder.blocks samples) ∧
      memory.Mirrors (encoder.performAll calls) := by
  intro samples
  have follows := follows_of_create accepted
  rcases advance_of_create accepted samples with ⟨followsAll, allBlocks⟩
  rcases feed_of_create accepted (encoder.framesOfAll calls) with ⟨followsFed, _⟩
  rcases (Memory.mirrors_blank follows.previous follows.sampleCount
    follows.samplesEmitted).takeAll? samples with ⟨memory, taken, mirrors⟩
  rw [← performAll_eq_feed] at followsFed
  rw [allBlocks] at taken
  exact ⟨memory, taken, followsAll.mirrors followsFed mirrors⟩

/-- Whatever calls an encoder is given after it was made, and however they fail, its fields are in
step, and so are its buffers: all copies between them fit. -/
theorem invariant_performAll {capture : Capture} {options : EncoderOptions} {encoder : Encoder}
    (accepted : (create capture options).1 = .ok encoder) (calls : List EncoderCall) :
    let frames := encoder.framesOfAll calls
    let samples := frames.flatMap Frame.samples
    ∃ texts memory,
      encoder.feed frames = (encoder.performAll calls, texts) ∧
      (Memory.blank encoder.unitSize).takeAll? encoder samples =
        some (memory, encoder.blocks samples) ∧
      encoder.Invariant (headerFor encoder.registry capture options).render frames texts
        (encoder.performAll calls) memory := by
  intro frames samples
  have follows := follows_of_create accepted
  have covers := covers_of_create accepted
  have kept := follows.kept.feed covers frames
  rw [← performAll_eq_feed, List.nil_append, List.nil_append] at kept
  rcases exists_memory_performAll accepted calls with ⟨memory, taken, mirrors⟩
  refine ⟨(encoder.feed frames).2, memory, by rw [performAll_eq_feed], taken, ?_⟩
  rcases create_eq_ok accepted with ⟨_, _, isFresh⟩
  refine kept.invariant mirrors covers ?_ ?_ ?_
  all_goals
    rw [isFresh]
    rfl

end Encoder

/-- Samples of no bytes, a conversion whose reader fails within a sample, and samples of one byte
with no room for their text. -/
def failingCalls : List EncoderCall := [
  .encode [7] 0,
  .convert { script := [.atMost 1, .fails .notFound], data := [3, 0] } {},
  .encodeTo { room := some 1 } [1, 6, 6] 1]

theorem invariant_performAll_clockAndBus :
    (Encoder.create clockAndBus clockAndBusOptions).1 = .ok clockAndBusEncoder ∧
      ∃ texts memory,
        clockAndBusEncoder.feed [⟨[7], 0⟩, ⟨[1, 6, 6], 1⟩] =
          (clockAndBusEncoder.performAll failingCalls, texts) ∧
        (Memory.blank 2).takeAll? clockAndBusEncoder [[1], [6], [6]] =
          some (memory, clockAndBusEncoder.blocks [[1], [6], [6]]) ∧
        memory.previous = [6, 0] ∧ memory.scratch.length = 2 ∧ texts.length = 1 ∧
        ¬(clockAndBusEncoder.performAll failingCalls).headerPending ∧
        (clockAndBusEncoder.performAll failingCalls).bytesOut =
          (texts.map String.utf8ByteSize).sum := by
  have readFails : clockAndBusEncoder.framesOf
      (.convert { script := [.atMost 1, .fails .notFound], data := [3, 0] } {}) = [] := by
    have oneByte : ({ script := [.atMost 1, .fails .notFound], data := [3, 0] } : Source).read
        (bufferSize 2 - 0) = (.bytes [3], { script := [.fails .notFound], data := [0] }) := rfl
    have thenFails : ({ script := [.fails .notFound], data := [0] } : Source).read
        (bufferSize 2 - 1) = (.failed .notFound, { data := [0] }) := rfl
    change pumpFrames 2 { encoder := clockAndBusEncoder, sink := {} } _ = []
    rw [pumpFrames_bytes oneByte]
    change pumpFrames 2
      { encoder := clockAndBusEncoder, sink := {}, carried := [3], bytesIn := 1 } _ = []
    exact pumpFrames_failed thenFails
  have frames : clockAndBusEncoder.framesOfAll failingCalls = [⟨[7], 0⟩, ⟨[1, 6, 6], 1⟩] := by
    have skipped : clockAndBusEncoder.perform (.encode [7] 0) = clockAndBusEncoder := rfl
    simp only [failingCalls, Encoder.framesOfAll, skipped, readFails]
    rfl
  rcases Encoder.invariant_performAll clockAndBus_accepted failingCalls with
    ⟨texts, memory, fed, taken, invariant⟩
  rw [frames] at fed taken invariant
  refine ⟨clockAndBus_accepted, texts, memory, fed, taken, ?_, ?_, invariant.texts.1, ?_,
    invariant.bytesOut⟩
  · rw [invariant.previous, invariant.unchanged.2.1]
    decide
  · rw [invariant.scratchLength, invariant.unchanged.2.1]
    rfl
  · rw [invariant.pending]
    decide

end WaveDump
