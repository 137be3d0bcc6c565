import WaveDump.Proofs.StreamConversion

/-!
# How conversions end

A conversion may fail at any read and in the middle of any write. Whatever the calls do, the encoder
has then taken a beginning of the input that is made up of whole samples, and what was written is a
beginning of the text that one frame with the delivered bytes gives. After a failed read nothing of
that text is missing; after a failed write its end is missing, although the encoder has taken all of
it.
-/

namespace WaveDump

/-! ## Frames that are written -/

section Frames

variable {stride : Nat}

theorem Encoder.encodeTo_of_pos (encoder : Encoder) (sink : Sink) (frame : List UInt8)
    (positive : 0 < stride) :
    ∃ log, encoder.encodeTo sink frame stride = {
      result :=
        match (sink.writeAll (textBytes (encoder.frameText frame stride))).1 with
        | .ok () => .ok (encoder.frameText frame stride).utf8ByteSize
        | .error failure => .error (.io failure)
      encoder := encoder.afterFrame frame stride
      sink := (sink.writeAll (textBytes (encoder.frameText frame stride))).2
      log } := by
  rcases encoder.encode_of_pos frame positive with ⟨log, encoded⟩
  simp only [encodeTo, encoded]
  exact ⟨log, rfl⟩

theorem StreamProgress.write_cases (progress : StreamProgress) (frame : List UInt8)
    (positive : 0 < stride) :
    let text := textBytes (progress.encoder.frameText frame stride)
    ∃ after : StreamProgress,
      after.encoder = progress.encoder.afterFrame frame stride ∧
      after.sink = (progress.sink.writeAll text).2 ∧
      after.carried = progress.carried ∧
      (((progress.sink.writeAll text).1 = .ok () ∧ progress.write frame stride = (after, none)) ∨
        ∃ failure, (progress.sink.writeAll text).1 = .error failure ∧
          progress.write frame stride = (after, some (.io failure))) := by
  intro text
  rcases progress.encoder.encodeTo_of_pos progress.sink frame positive with ⟨log, encoded⟩
  simp only [StreamProgress.write, encoded]
  cases taken : (progress.sink.writeAll text).1 with
  | ok done => refine ⟨_, ?_, ?_, ?_, .inl ⟨rfl, rfl⟩⟩ <;> rfl
  | error failure => refine ⟨_, ?_, ?_, ?_, .inr ⟨failure, rfl, rfl⟩⟩ <;> rfl

end Frames

/-! ## Between two reads -/

/-- What holds between two reads, whatever the writes have done, of a conversion that began with the
encoder `start` and the sink `initial`: of the bytes `received`, `whole` has been taken and its
text was written. -/
structure StreamProgress.Taken (progress : StreamProgress) (start : Encoder) (initial : Sink)
    (stride : Nat) (received whole : List UInt8) (text : String) : Prop where
  split : received = whole ++ progress.carried
  aligned : stride ∣ whole.length
  short : progress.carried.length < stride
  reached : start.Reached stride whole progress.encoder text
  writes : initial.Orderly → initial.WritesTo (textBytes text) progress.sink []

/-- What is left of a conversion whose last write failed, when `delivered` had been read: the
encoder has taken it, but the end of its text is missing. -/
structure BrokenOff (start : Encoder) (initial : Sink) (stride : Nat) (delivered : List UInt8)
    (encoder : Encoder) (sink : Sink) : Prop where
  encoder : encoder = start.afterFrame delivered stride
  writes : initial.Orderly → ∃ rest, rest ≠ [] ∧
    initial.WritesTo (textBytes (start.frameText delivered stride)) sink rest

theorem Encoder.Reached.of_ne_nil {start encoder : Encoder} {stride : Nat} {whole : List UInt8}
    {text : String} (reached : start.Reached stride whole encoder text) (nonempty : whole ≠ []) :
    encoder = start.afterFrame whole stride ∧ text = start.frameText whole stride := by
  rcases reached with ⟨empty, _, _⟩ | ⟨_, sameEncoder, sameText⟩
  · exact absurd empty nonempty
  · exact ⟨sameEncoder, sameText⟩

section Between

variable {progress : StreamProgress} {start : Encoder} {initial : Sink}
  {received whole piece frame carried : List UInt8} {stride : Nat} {text : String}

namespace StreamProgress

theorem Taken.carry (taken : progress.Taken start initial stride received whole text)
    (short : (progress.carried ++ piece).length < stride) :
    { progress with
        carried := progress.carried ++ piece
        bytesIn := progress.bytesIn + piece.length }.Taken start initial stride
      (received ++ piece) whole text where
  split := by rw [taken.split, List.append_assoc]
  aligned := taken.aligned
  short := short
  reached := taken.reached
  writes := taken.writes

theorem Taken.writeAll (taken : progress.Taken start initial stride received whole text)
    (orderly : initial.Orderly) (more : String) :
    ∃ rest, initial.WritesTo (textBytes (text ++ more))
        (progress.sink.writeAll (textBytes more)).2 rest ∧
      ((progress.sink.writeAll (textBytes more)).1 = .ok () ↔ rest = []) := by
  have before := taken.writes orderly
  rcases Sink.writeAll_writesTo before.orderly (textBytes more) with ⟨rest, here, succeeds⟩
  rw [textBytes_append]
  exact ⟨rest, before.trans here, succeeds⟩

/-- Writing the text of a frame either completes, or breaks off in this text. -/
theorem Taken.write (taken : progress.Taken start initial stride received whole text)
    (positive : 0 < stride) (joined : progress.carried ++ piece = frame ++ carried)
    (nonempty : frame ≠ []) (aligned : stride ∣ frame.length) (short : carried.length < stride) :
    (∃ after, { progress with carried, bytesIn := progress.bytesIn + piece.length }.write frame
        stride = (after, none) ∧
      after.Taken start initial stride (received ++ piece) (whole ++ frame)
        (text ++ progress.encoder.frameText frame stride)) ∨
    ∃ after failure, { progress with carried, bytesIn := progress.bytesIn + piece.length }.write
        frame stride = (after, some (.io failure)) ∧
      BrokenOff start initial stride (received ++ piece) after.encoder after.sink := by
  have reached := taken.reached.next positive taken.aligned nonempty
  have alignedBoth : stride ∣ (whole ++ frame).length := by
    rw [List.length_append]
    exact Nat.dvd_add taken.aligned aligned
  have split : received ++ piece = whole ++ frame ++ carried := by
    rw [taken.split, List.append_assoc, joined, List.append_assoc]
  rcases write_cases { progress with carried, bytesIn := progress.bytesIn + piece.length } frame
    positive with ⟨after, sameEncoder, sameSink, sameCarried, outcome⟩
  simp only at sameEncoder sameSink sameCarried outcome
  rcases outcome with ⟨succeeded, written⟩ | ⟨failure, failed, written⟩
  · refine .inl ⟨after, written, ?_⟩
    exact
      { split := by rw [split, sameCarried]
        aligned := alignedBoth
        short := by rwa [sameCarried]
        reached := by rwa [sameEncoder]
        writes := by
          intro orderly
          rcases taken.writeAll orderly (progress.encoder.frameText frame stride) with
            ⟨rest, here, succeeds⟩
          rwa [sameSink, ← succeeds.mp succeeded] }
  · refine .inr ⟨after, failure, written, ?_⟩
    have dropped := start.frame_drop_rest alignedBoth short
    rcases reached.of_ne_nil (by simp [nonempty]) with ⟨reachedEncoder, reachedText⟩
    exact
      { encoder := by rw [sameEncoder, reachedEncoder, split, dropped.2]
        writes := by
          intro orderly
          rcases taken.writeAll orderly (progress.encoder.frameText frame stride) with
            ⟨rest, here, succeeds⟩
          have missing : rest ≠ [] := by simpa [failed] using succeeds
          exact ⟨rest, missing, by rwa [sameSink, split, dropped.1, ← reachedText]⟩ }

theorem Taken.receive (taken : progress.Taken start initial stride received whole text)
    (positive : 0 < stride) (piece : List UInt8) :
    (∃ after whole' text', progress.receive piece stride = (after, none) ∧
      after.Taken start initial stride (received ++ piece) whole' text') ∨
    ∃ after failure, progress.receive piece stride = (after, some (.io failure)) ∧
      BrokenOff start initial stride (received ++ piece) after.encoder after.sink := by
  rcases progress.receive_cases piece positive with
    ⟨short, kept⟩ | ⟨frame, carried, joined, nonempty, aligned, short, written⟩
  · exact .inl ⟨_, whole, text, kept, taken.carry short⟩
  · rw [written]
    rcases taken.write positive joined nonempty aligned short with
      ⟨after, wrote, takenAfter⟩ | ⟨after, failure, wrote, broken⟩
    · exact .inl ⟨after, _, _, wrote, takenAfter⟩
    · exact .inr ⟨after, failure, wrote, broken⟩

end StreamProgress

/-! ## The end -/

/-- How a conversion ended that began with the encoder `start` and the sink `initial`, when
`delivered` had been read. -/
inductive StreamReport.Ends (report : StreamReport) (start : Encoder) (initial : Sink)
    (stride : Nat) (delivered : List UInt8) : Prop
  | completed {statistics : StreamStatistics} (result : report.result = .ok statistics)
      (untouched : delivered.length < stride → ¬start.headerPending → report.encoder = start)
      (fed : stride ≤ delivered.length ∨ start.headerPending →
        report.encoder = start.afterFrame delivered stride)
  | readFailed {failure : Failure} (result : report.result = .error (.io failure))
      (untouched : delivered.length < stride →
        report.encoder = start ∧ (initial.Orderly → initial.WritesTo [] report.sink []))
      (fed : stride ≤ delivered.length → report.encoder = start.afterFrame delivered stride ∧
        (initial.Orderly →
          initial.WritesTo (textBytes (start.frameText delivered stride)) report.sink []))
  | writeFailed {failure : Failure} (result : report.result = .error (.encode (.io failure)))
      (broken : BrokenOff start initial stride delivered report.encoder report.sink)

namespace StreamProgress

/-- Without a whole sample nothing has happened, and with one everything that one frame with the
received bytes brings about. -/
theorem Taken.settled (taken : progress.Taken start initial stride received whole text) :
    (received.length < stride → whole = [] ∧ progress.encoder = start ∧ text = "") ∧
      (stride ≤ received.length → whole ≠ [] ∧
        progress.encoder = start.afterFrame received stride ∧
        text = start.frameText received stride) := by
  have short := taken.short
  have lengths : received.length = whole.length + progress.carried.length := by
    rw [taken.split, List.length_append]
  have dropped := start.frame_drop_rest taken.aligned short
  rcases taken.reached with ⟨rfl, sameEncoder, sameText⟩ | ⟨nonempty, sameEncoder, sameText⟩
  · rw [List.length_nil] at lengths
    exact ⟨fun _ => ⟨rfl, sameEncoder, sameText⟩, fun long => by omega⟩
  · have positive := List.length_pos_iff.mpr nonempty
    have oneSample := Nat.le_of_dvd positive taken.aligned
    refine ⟨fun few => by omega, fun _ => ⟨nonempty, ?_, ?_⟩⟩
    · rw [sameEncoder, taken.split, dropped.2]
    · rw [sameText, taken.split, dropped.1]

theorem source_finish (progress : StreamProgress) (source : Source) (stride : Nat) :
    (progress.finish source stride).source = source := by
  simp only [finish]
  split <;> rfl

theorem Taken.finish (taken : progress.Taken start initial stride received whole text)
    (source : Source) : (progress.finish source stride).Ends start initial stride received := by
  have positive : 0 < stride := Nat.zero_lt_of_lt taken.short
  simp only [StreamProgress.finish]
  by_cases pending : progress.encoder.headerPending
  · rcases taken.reached.headed taken.short pending with ⟨sameState, sameText⟩
    rw [← taken.split] at sameState sameText
    rcases progress.write_cases [] positive with ⟨after, sameEncoder, sameSink, _, outcome⟩
    rcases outcome with ⟨succeeded, written⟩ | ⟨failure, failed, written⟩
    · simp only [pending, ↓reduceIte, written]
      refine .completed rfl ?_ fun _ => sameEncoder.trans sameState
      intro few handedOut
      rw [(taken.settled.1 few).2.1] at pending
      exact absurd pending handedOut
    · simp only [pending, ↓reduceIte, written]
      refine .writeFailed rfl ⟨sameEncoder.trans sameState, ?_⟩
      intro orderly
      rcases taken.writeAll orderly (progress.encoder.frameText [] stride) with
        ⟨rest, here, succeeds⟩
      have missing : rest ≠ [] := by simpa [failed] using succeeds
      refine ⟨rest, missing, ?_⟩
      simpa only [StreamProgress.close, sameSink, sameText] using here
  · simp only [pending, Bool.false_eq_true, ↓reduceIte]
    refine .completed rfl (fun few _ => (taken.settled.1 few).2.1) ?_
    rintro (long | startPending)
    · exact (taken.settled.2 long).2.1
    · have long : stride ≤ received.length := by
        by_contra few
        rw [(taken.settled.1 (by omega)).2.1] at pending
        exact pending startPending
      exact (taken.settled.2 long).2.1

end StreamProgress

theorem pump_ends {source : Source}
    (taken : progress.Taken start initial stride received whole text) :
    ∃ delivered, received ++ source.pending =
        delivered ++ (pump stride progress source).source.pending ∧
      (pump stride progress source).Ends start initial stride delivered := by
  have accounted := source.read_accounts (bufferSize stride - progress.carried.length)
  fun_induction pump stride progress source generalizing received whole text with
  | case1 progress source after delivered =>
      rw [delivered] at accounted
      refine ⟨received, ?_, taken.finish after⟩
      rw [StreamProgress.source_finish, accounted.1, List.nil_append]
  | case2 progress source first rest after delivered _ next onReceive ih =>
      rw [delivered] at accounted
      rw [Source.append_pending accounted received]
      rcases taken.receive (Nat.zero_lt_of_lt taken.short) (first :: rest) with
        ⟨_, whole', text', received', takenAfter⟩ | ⟨_, _, broken, _⟩
      · rw [onReceive] at received'
        obtain ⟨rfl, _⟩ := Prod.mk.inj received'
        exact ih takenAfter (after.read_accounts _)
      · simp [onReceive] at broken
  | case3 progress source first rest after delivered _ next error onReceive =>
      rw [delivered] at accounted
      rw [Source.append_pending accounted received]
      rcases taken.receive (Nat.zero_lt_of_lt taken.short) (first :: rest) with
        ⟨_, _, _, received', _⟩ | ⟨_, failure, broken, brokenOff⟩
      · simp [onReceive] at received'
      · rw [onReceive] at broken
        obtain ⟨rfl, sameError⟩ := Prod.mk.inj broken
        obtain rfl := Option.some.inj sameError
        exact ⟨_, rfl, .writeFailed rfl brokenOff⟩
  | case4 progress source after delivered _ ih =>
      rw [delivered] at accounted
      have samePending : after.pending = source.pending := accounted
      rw [← samePending]
      exact ih taken (after.read_accounts _)
  | case5 progress source failure after delivered =>
      rw [delivered] at accounted
      have samePending : after.pending = source.pending := accounted.1
      refine ⟨received, by rw [← samePending]; rfl, .readFailed rfl ?_ ?_⟩
      · intro few
        rcases taken.settled.1 few with ⟨_, sameEncoder, noText⟩
        have writes := taken.writes
        rw [noText] at writes
        exact ⟨sameEncoder, writes⟩
      · intro long
        rcases taken.settled.2 long with ⟨_, sameEncoder, sameText⟩
        rw [← sameText]
        exact ⟨sameEncoder, taken.writes⟩

end Between

theorem StreamProgress.Taken.initially (encoder : Encoder) (sink : Sink) :
    StreamProgress.Taken { encoder, sink } encoder sink (max encoder.unitSize 1) [] [] "" where
  split := rfl
  aligned := Nat.dvd_zero _
  short := by
    simp only [List.length_nil]
    omega
  reached := .inl ⟨rfl, rfl, rfl⟩
  writes := .refl

theorem convertStream_ends (encoder : Encoder) (source : Source) (sink : Sink) :
    ∃ delivered, source.pending =
        delivered ++ (convertStream encoder source sink).source.pending ∧
      (convertStream encoder source sink).Ends encoder sink (max encoder.unitSize 1)
        delivered :=
  pump_ends (.initially encoder sink)

def wholeSamples (stride : Nat) (bytes : List UInt8) : List UInt8 :=
  bytes.take (bytes.length - bytes.length % stride)

theorem Encoder.frame_wholeSamples (encoder : Encoder) {stride : Nat} (bytes : List UInt8)
    (positive : 0 < stride) :
    encoder.frameText (wholeSamples stride bytes) stride = encoder.frameText bytes stride ∧
      encoder.afterFrame (wholeSamples stride bytes) stride = encoder.afterFrame bytes stride := by
  have remainder := Nat.mod_lt bytes.length positive
  have aligned : stride ∣ (wholeSamples stride bytes).length := by
    rw [wholeSamples, List.length_take_of_le (Nat.sub_le _ _)]
    exact Nat.dvd_sub_mod _
  have short : (bytes.drop (bytes.length - bytes.length % stride)).length < stride := by
    rw [List.length_drop]
    omega
  have dropped := encoder.frame_drop_rest aligned short
  rw [wholeSamples, List.take_append_drop] at dropped
  exact ⟨dropped.1.symm, dropped.2.symm⟩

/-- How a frame is written: its text reaches the sink whole exactly if the report says so, and
otherwise up to some place before its end. The encoder does not notice. -/
theorem Encoder.encodeTo_outcome (encoder : Encoder) {sink : Sink} (orderly : sink.Orderly)
    (frame : List UInt8) {stride : Nat} (positive : 0 < stride) :
    (encoder.encodeTo sink frame stride).encoder = encoder.afterFrame frame stride ∧
      ∃ rest, sink.WritesTo (textBytes (encoder.frameText frame stride))
          (encoder.encodeTo sink frame stride).sink rest ∧
        ((rest = [] ∧ (encoder.encodeTo sink frame stride).result =
            .ok (textBytes (encoder.frameText frame stride)).length) ∨
          (rest ≠ [] ∧ ∃ failure,
            (encoder.encodeTo sink frame stride).result = .error (.io failure))) := by
  rcases encoder.encodeTo_of_pos sink frame positive with ⟨log, encoded⟩
  rcases Sink.writeAll_writesTo orderly (textBytes (encoder.frameText frame stride)) with
    ⟨rest, writes, succeeds⟩
  rw [encoded]
  refine ⟨rfl, rest, writes, ?_⟩
  cases taken : (sink.writeAll (textBytes (encoder.frameText frame stride))).1 with
  | ok done => exact .inl ⟨succeeds.mp taken, by rw [length_textBytes]⟩
  | error failure => exact .inr ⟨by simpa [taken] using succeeds, failure, rfl⟩

/-- Success is reported exactly if the whole text has been written, and with its size. -/
theorem Encoder.encodeTo_ok_iff (encoder : Encoder) {sink : Sink} (orderly : sink.Orderly)
    (frame : List UInt8) {stride : Nat} (positive : 0 < stride) (count : Nat) :
    (encoder.encodeTo sink frame stride).result = .ok count ↔
      count = (textBytes (encoder.frameText frame stride)).length ∧
        (encoder.encodeTo sink frame stride).sink.written =
          sink.written ++ textBytes (encoder.frameText frame stride) := by
  rcases encoder.encodeTo_outcome orderly frame positive with
    ⟨_, rest, writes, ⟨rfl, result⟩ | ⟨missing, failure, result⟩⟩
  · have written := writes.written
    rw [List.append_nil] at written
    simp [result, written, eq_comm]
  · have incomplete : (encoder.encodeTo sink frame stride).sink.written ≠
        sink.written ++ textBytes (encoder.frameText frame stride) := by
      intro complete
      have written := writes.written
      rw [← complete] at written
      exact missing (List.append_right_eq_self.mp written)
    simp [result, incomplete]

/-- A conversion that fails leaves a clean beginning of the dump, and an encoder in a state that one
frame explains. A failed read leaves the whole text of the whole samples delivered before it, or
nothing at all if there was none. A failed write leaves a proper beginning of the text of what was
delivered, all of which the encoder has taken. A frame that is written leaves the encoder in the
same state whatever the sink does, and is reported with the size of its text exactly if the sink has
all of it. -/
theorem failures_leave_beginning (encoder : Encoder) {sink : Sink} (orderly : sink.Orderly) :
    (∀ source error, (convertStream encoder source sink).result = .error error →
      let stride := max encoder.unitSize 1
      let report := convertStream encoder source sink
      ∃ delivered, source.pending = delivered ++ report.source.pending ∧
        ((∃ failure, error = .io failure ∧
            (delivered.length < stride →
              report.encoder = encoder ∧ report.sink.written = sink.written) ∧
            (stride ≤ delivered.length → ∃ emission,
              encoder.encode (wholeSamples stride delivered) stride = .ok emission ∧
              report.encoder = emission.encoder ∧
              report.sink.written = sink.written ++ textBytes emission.text)) ∨
          ∃ failure emission, error = .encode (.io failure) ∧
            encoder.encode delivered stride = .ok emission ∧
            report.encoder = emission.encoder ∧
            (∃ rest, rest ≠ [] ∧
              report.sink.written ++ rest = sink.written ++ textBytes emission.text) ∧
            sink.content <+: report.sink.content ∧
            ¬report.encoder.headerPending ∧
            report.encoder.sampleCount = encoder.sampleCount + delivered.length / stride ∧
            report.encoder.bytesOut = encoder.bytesOut + (textBytes emission.text).length)) ∧
    ∀ frame stride,
      let report := encoder.encodeTo sink frame stride
      (∀ other, (encoder.encodeTo other frame stride).encoder = report.encoder) ∧
      (∀ count, report.result = .ok count ↔ ∃ emission,
        encoder.encode frame stride = .ok emission ∧ count = (textBytes emission.text).length ∧
        report.sink.written = sink.written ++ textBytes emission.text) ∧
      (∀ failure, report.result = .error (.io failure) → ∃ emission rest,
        encoder.encode frame stride = .ok emission ∧ report.encoder = emission.encoder ∧
        rest ≠ [] ∧ report.sink.written ++ rest = sink.written ++ textBytes emission.text) ∧
      (report.result = .error .zeroStride ↔ stride = 0) ∧
      (stride = 0 → report.encoder = encoder ∧ report.sink = sink) := by
  constructor
  · intro source error failed stride report
    have positive : 0 < stride := by omega
    rcases convertStream_ends encoder source sink with ⟨delivered, split, ends⟩
    refine ⟨delivered, split, ?_⟩
    cases ends with
    | completed result => simp [failed] at result
    | @readFailed failure result untouched fed =>
        rw [failed] at result
        obtain rfl := Except.error.inj result
        refine .inl ⟨failure, rfl, ?_, ?_⟩
        · intro few
          rcases untouched few with ⟨sameEncoder, writes⟩
          exact ⟨sameEncoder, by simpa using (writes orderly).written⟩
        · intro enough
          rcases fed enough with ⟨sameEncoder, writes⟩
          rcases encoder.encode_of_pos (wholeSamples stride delivered) positive with ⟨_, encoded⟩
          rcases encoder.frame_wholeSamples delivered positive with ⟨sameText, sameState⟩
          refine ⟨_, encoded, sameEncoder.trans sameState.symm, ?_⟩
          rw [sameText]
          simpa using (writes orderly).written
    | @writeFailed failure result broken =>
        rw [failed] at result
        obtain rfl := Except.error.inj result
        rcases encoder.encode_of_pos delivered positive with ⟨_, encoded⟩
        rcases broken.writes orderly with ⟨rest, missing, writes⟩
        refine .inr ⟨failure, _, rfl, encoded, broken.encoder, ⟨rest, missing, writes.written⟩,
          writes.grows, ?_, ?_, ?_⟩
        · rw [broken.encoder]
          simp [Encoder.headerPending, Encoder.afterFrame, Encoder.withBooks]
        · rw [broken.encoder]
          exact (encoder.advance_sampleCount _).trans (by rw [Sample.length_ofFrame])
        · rw [broken.encoder, length_textBytes]
          rfl
  · intro frame stride report
    rcases Nat.eq_zero_or_pos stride with rfl | positive
    · have refused : report = { result := .error .zeroStride, encoder, sink, log := [] } := rfl
      simp only [refused]
      refine ⟨fun _ => rfl, ?_, ?_, by simp, by simp⟩
      · simp [encoder.encode_zero]
      · simp
    · rcases encoder.encodeTo_outcome orderly frame positive with
        ⟨sameEncoder, rest, writes, outcome⟩
      rcases encoder.encode_of_pos frame positive with ⟨_, encoded⟩
      have written := writes.written
      refine ⟨?_, ?_, ?_, ?_, fun zero => absurd zero (by omega)⟩
      · intro other
        rcases encoder.encodeTo_of_pos other frame positive with ⟨_, encodedTo⟩
        rw [encodedTo]
        exact sameEncoder.symm
      · intro count
        simp only [encoded, Except.ok.injEq, exists_eq_left']
        exact encoder.encodeTo_ok_iff orderly frame positive count
      · intro failure failed
        rcases outcome with ⟨_, result⟩ | ⟨missing, _, _⟩
        · simp [report, result] at failed
        · exact ⟨_, rest, encoded, sameEncoder, missing, written⟩
      · constructor
        · intro refused
          rcases outcome with ⟨_, result⟩ | ⟨_, failure, result⟩ <;>
            simp [report, result] at refused
        · intro zero
          omega

/-- The encoder of `clockAndBus`, with a short header. -/
def clockAndBusBare : Encoder where
  registry := clockAndBusRegistry
  header := some "$enddefinitions $end\n"
  timescale := .milliseconds
  rate := none
  unitSize := 2

def readerFailed : Failure := ⟨.other "Unsupported", "reader failed"⟩

def brokenSource : Source where
  script := [.atMost 3, .interrupted, .fails readerFailed]
  data := [3, 0, 6, 0]

def narrowSink : Sink where
  script := [.atMost 10, .interrupted]
  room := some 30

/-- A read that fails in the middle of the second sample, and a sink that runs full in the middle of
the text. -/
theorem failures_leave_beginning_clockAndBus :
    (convertStream clockAndBusBare brokenSource {}).result = .error (.io readerFailed) ∧
      (∃ emission, clockAndBusBare.encode [3, 0] 2 = .ok emission ∧
        (convertStream clockAndBusBare brokenSource {}).encoder = emission.encoder ∧
        (convertStream clockAndBusBare brokenSource {}).sink.written = textBytes emission.text) ∧
      (convertStream clockAndBusBare { data := [3, 0, 6, 0] } narrowSink).result =
        .error (.encode (.io .writeZero)) ∧
      ∃ emission rest, clockAndBusBare.encode [3, 0, 6, 0] 2 = .ok emission ∧
        rest ≠ [] ∧ (convertStream clockAndBusBare { data := [3, 0, 6, 0] } narrowSink).sink.written
          ++ rest = textBytes emission.text := by
  have readFails : (convertStream clockAndBusBare brokenSource {}).result =
      .error (.io readerFailed) := by cbv
  have readLeft : (convertStream clockAndBusBare brokenSource {}).source.pending = [0] := by cbv
  have writeFails : (convertStream clockAndBusBare { data := [3, 0, 6, 0] } narrowSink).result =
      .error (.encode (.io .writeZero)) := by cbv
  have writeLeft : (convertStream clockAndBusBare { data := [3, 0, 6, 0] }
      narrowSink).source.pending = [] := by cbv
  have plain : ({} : Sink).Orderly := fun _ => rfl
  have plainNarrow : narrowSink.Orderly := fun _ => rfl
  refine ⟨readFails, ?_, writeFails, ?_⟩
  · rcases (failures_leave_beginning clockAndBusBare plain).1 brokenSource _ readFails with
      ⟨delivered, split, ⟨_, _, _, leaves⟩ | ⟨_, _, other, _⟩⟩
    · rw [readLeft] at split
      have cut : [3, 0, 6] ++ [0] = delivered ++ [0] := split
      obtain rfl := List.append_cancel_right cut
      exact leaves (by decide)
    · simp at other
  · rcases (failures_leave_beginning clockAndBusBare plainNarrow).1 _ _ writeFails with
      ⟨delivered, split, ⟨_, other, _⟩ | ⟨_, emission, _, encoded, _, ⟨rest, missing, left⟩, _⟩⟩
    · simp at other
    · rw [writeLeft, List.append_nil] at split
      obtain rfl : [3, 0, 6, 0] = delivered := split
      exact ⟨emission, rest, encoded, missing, left⟩

end WaveDump
