import WaveDump.Conversion.Stream
import WaveDump.Proofs.Frames
import WaveDump.Proofs.Transfers

/-!
# Converting a stream in one piece

A conversion cuts its input wherever reads happen to end. Between two reads the bytes received so
far are a string of whole samples, which the encoder has taken, and a carried beginning of a sample,
which is shorter than a stride. Since frame boundaries cannot be seen, what is written in the end is
what one frame with the whole input would have given.
-/

namespace WaveDump

def textBytes (text : String) : List UInt8 :=
  text.toUTF8.data.toList

theorem textBytes_append (first second : String) :
    textBytes (first ++ second) = textBytes first ++ textBytes second := by
  simp [textBytes]

theorem length_textBytes (text : String) : (textBytes text).length = text.utf8ByteSize := by
  simp only [textBytes, String.toUTF8_eq_toByteArray, Array.length_toList]
  rfl

namespace Encoder

/-- The encoder and its text after `whole` was taken in frames none of which was empty. Without a
byte there was no frame. -/
def Reached (start : Encoder) (stride : Nat) (whole : List UInt8) (encoder : Encoder)
    (text : String) : Prop :=
  (whole = [] ∧ encoder = start ∧ text = "") ∨
    (whole ≠ [] ∧ encoder = start.afterFrame whole stride ∧ text = start.frameText whole stride)

/-- Equal states but for the note that a strange stride was warned about. -/
def AgreesButForWarning (left right : Encoder) : Prop :=
  { left with strideWarned := right.strideWarned } = right

variable {start encoder : Encoder} {stride : Nat} {whole : List UInt8} {text : String}

theorem Reached.next (reached : start.Reached stride whole encoder text) (positive : 0 < stride)
    (aligned : stride ∣ whole.length) {frame : List UInt8} (nonempty : frame ≠ []) :
    start.Reached stride (whole ++ frame) (encoder.afterFrame frame stride)
      (text ++ encoder.frameText frame stride) := by
  right
  rcases reached with ⟨rfl, rfl, rfl⟩ | ⟨_, rfl, rfl⟩
  · exact ⟨nonempty, rfl, String.empty_append⟩
  · exact ⟨by simp [nonempty], (start.afterFrame_append frame positive aligned).symm,
      (start.frameText_append frame positive aligned).symm⟩

/-- If the header is still pending at the end, an empty frame brings about what one frame with the
whole input does. -/
theorem Reached.headed (reached : start.Reached stride whole encoder text)
    {carried : List UInt8} (short : carried.length < stride) (pending : encoder.headerPending) :
    encoder.afterFrame [] stride = start.afterFrame (whole ++ carried) stride ∧
      text ++ encoder.frameText [] stride = start.frameText (whole ++ carried) stride := by
  rcases reached with ⟨rfl, rfl, rfl⟩ | ⟨_, rfl, rfl⟩
  · have same := encoder.frame_drop_rest (show stride ∣ [].length from Nat.dvd_zero stride) short
    rw [String.empty_append]
    exact ⟨same.2.symm, same.1.symm⟩
  · exact absurd pending (by simp [headerPending, afterFrame, withBooks])

/-- If the header is handed out, nothing is missing but perhaps the note that the stride is
strange. -/
theorem Reached.complete (reached : start.Reached stride whole encoder text)
    {carried : List UInt8} (short : carried.length < stride) (aligned : stride ∣ whole.length)
    (handedOut : ¬encoder.headerPending) :
    encoder.AgreesButForWarning (start.afterFrame (whole ++ carried) stride) ∧
      text = start.frameText (whole ++ carried) stride := by
  have same := start.frame_drop_rest aligned short
  rcases reached with ⟨rfl, rfl, rfl⟩ | ⟨_, rfl, rfl⟩
  · have noHeader : encoder.header = none := by simpa [headerPending] using handedOut
    have noSamples : Sample.ofFrame stride [] = [] :=
      Sample.ofFrame_of_short (Nat.lt_of_le_of_lt (Nat.zero_le carried.length) short)
    have noText : encoder.frameText [] stride = "" := by
      simp [frameText, noHeader, noSamples, advance]
    have sameState : encoder.afterFrame [] stride =
        { encoder with strideWarned := (encoder.afterFrame [] stride).strideWarned } := by
      simp [afterFrame, withBooks, noSamples, noText, advance, noHeader]
    rw [same.1, same.2, noText]
    exact ⟨sameState.symm, rfl⟩
  · rw [same.1, same.2]
    exact ⟨rfl, rfl⟩

theorem Reached.size_le (reached : start.Reached stride whole encoder text) (positive : 0 < stride)
    (aligned : stride ∣ whole.length) (rest : List UInt8) :
    text.utf8ByteSize ≤ (start.frameText (whole ++ rest) stride).utf8ByteSize := by
  rcases reached with ⟨_, _, rfl⟩ | ⟨_, _, rfl⟩
  · simp
  · rw [start.frameText_append rest positive aligned, String.utf8ByteSize_append]
    exact Nat.le_add_right _ _

end Encoder

namespace StreamProgress

variable {progress : StreamProgress} {start : Encoder} {origin received whole piece : List UInt8}
  {stride : Nat} {text : String}

/-- What holds between two reads of a conversion that began with the encoder `start` and a sink with
the bytes `origin`, when `received` was read: `whole` has been taken and gave `text`. -/
structure Consumed (progress : StreamProgress) (start : Encoder) (origin : List UInt8)
    (stride : Nat) (received whole : List UInt8) (text : String) : Prop where
  split : received = whole ++ progress.carried
  aligned : stride ∣ whole.length
  short : progress.carried.length < stride
  reached : start.Reached stride whole progress.encoder text
  written : progress.sink.written = origin ++ textBytes text
  bytesOut : progress.bytesOut = text.utf8ByteSize
  bytesIn : progress.bytesIn = received.length

structure Wrote (progress : StreamProgress) (frame : List UInt8) (stride : Nat)
    (after : StreamProgress) : Prop where
  encoder : after.encoder = progress.encoder.afterFrame frame stride
  written : after.sink.written =
    progress.sink.written ++ textBytes (progress.encoder.frameText frame stride)
  bytesOut : after.bytesOut =
    progress.bytesOut + (progress.encoder.frameText frame stride).utf8ByteSize
  carried : after.carried = progress.carried
  bytesIn : after.bytesIn = progress.bytesIn

theorem write_of_ready (progress : StreamProgress) (frame : List UInt8) (positive : 0 < stride)
    {more : Nat} (ready : progress.sink.Ready
      ((textBytes (progress.encoder.frameText frame stride)).length + more)) :
    ∃ after, progress.write frame stride = (after, none) ∧ progress.Wrote frame stride after ∧
      after.sink.Ready more := by
  rcases progress.encoder.encode_of_pos frame positive with ⟨log, encoded⟩
  rcases ready.writeAll with ⟨sink, taken, written, readyAfter⟩
  rw [textBytes] at taken
  simp only [write, Encoder.encodeTo, encoded, taken]
  exact ⟨_, rfl, ⟨rfl, written, by simp [bytesOut, Nat.add_comm], rfl, rfl⟩, readyAfter⟩

theorem Consumed.carry (consumed : progress.Consumed start origin stride received whole text)
    (short : (progress.carried ++ piece).length < stride) :
    { progress with
        carried := progress.carried ++ piece
        bytesIn := progress.bytesIn + piece.length }.Consumed start origin stride
      (received ++ piece) whole text where
  split := by rw [consumed.split, List.append_assoc]
  aligned := consumed.aligned
  short := short
  reached := consumed.reached
  written := consumed.written
  bytesOut := consumed.bytesOut
  bytesIn := by rw [consumed.bytesIn, List.length_append]

theorem Consumed.take (consumed : progress.Consumed start origin stride received whole text)
    (positive : 0 < stride) {frame carried : List UInt8}
    (joined : progress.carried ++ piece = frame ++ carried) (nonempty : frame ≠ [])
    (aligned : stride ∣ frame.length) (short : carried.length < stride) {more : Nat}
    (ready : progress.sink.Ready
      ((textBytes (progress.encoder.frameText frame stride)).length + more)) :
    ∃ after, { progress with carried, bytesIn := progress.bytesIn + piece.length }.write frame
        stride = (after, none) ∧
      after.Consumed start origin stride (received ++ piece) (whole ++ frame)
        (text ++ progress.encoder.frameText frame stride) ∧
      after.sink.Ready more := by
  rcases write_of_ready { progress with carried, bytesIn := progress.bytesIn + piece.length }
    frame positive ready with ⟨after, written, wrote, readyAfter⟩
  refine ⟨after, written, ?_, readyAfter⟩
  exact
    { split := by
        rw [consumed.split, wrote.carried, List.append_assoc, joined, List.append_assoc]
      aligned := by
        rw [List.length_append]
        exact Nat.dvd_add consumed.aligned aligned
      short := by
        rw [wrote.carried]
        exact short
      reached := by
        rw [wrote.encoder]
        exact consumed.reached.next positive consumed.aligned nonempty
      written := by
        rw [wrote.written, consumed.written, textBytes_append, List.append_assoc]
      bytesOut := by
        rw [wrote.bytesOut, String.utf8ByteSize_append, ← consumed.bytesOut]
        rfl
      bytesIn := by rw [wrote.bytesIn, consumed.bytesIn, List.length_append] }

/-- Bytes that were read either fill no sample and are carried over, or their whole samples are
written as a frame and the rest is carried over. -/
theorem receive_cases (progress : StreamProgress) (piece : List UInt8) (positive : 0 < stride) :
    ((progress.carried ++ piece).length < stride ∧
      progress.receive piece stride =
        ({ progress with
            carried := progress.carried ++ piece
            bytesIn := progress.bytesIn + piece.length }, none)) ∨
    ∃ frame carried, progress.carried ++ piece = frame ++ carried ∧ frame ≠ [] ∧
      stride ∣ frame.length ∧ carried.length < stride ∧
      progress.receive piece stride =
        { progress with carried, bytesIn := progress.bytesIn + piece.length }.write frame stride := by
  simp only [StreamProgress.receive]
  have remainder := Nat.mod_lt (progress.carried ++ piece).length positive
  split
  · rename_i noWhole
    left
    rw [noWhole, List.drop_zero]
    exact ⟨by omega, rfl⟩
  · rename_i someWhole
    right
    have frameLength := List.length_take_of_le (Nat.sub_le (progress.carried ++ piece).length
      ((progress.carried ++ piece).length % stride))
    refine ⟨_, _, (List.take_append_drop _ _).symm, ?_, ?_, ?_, rfl⟩
    · exact List.ne_nil_of_length_pos (by omega)
    · rw [frameLength]
      exact Nat.dvd_sub_mod _
    · rw [List.length_drop]
      omega

/-- Receiving a piece keeps the invariant, and the sink stays ready for the text of the whole
input `received ++ piece ++ rest`. -/
theorem Consumed.receive (consumed : progress.Consumed start origin stride received whole text)
    (positive : 0 < stride) (rest : List UInt8)
    (ready : progress.sink.Ready
      ((start.frameText (received ++ piece ++ rest) stride).utf8ByteSize - text.utf8ByteSize)) :
    ∃ after whole' text', progress.receive piece stride = (after, none) ∧
      after.Consumed start origin stride (received ++ piece) whole' text' ∧
      after.sink.Ready
        ((start.frameText (received ++ piece ++ rest) stride).utf8ByteSize -
          text'.utf8ByteSize) := by
  rcases progress.receive_cases piece positive with
    ⟨short, kept⟩ | ⟨frame, carried, joined, nonempty, aligned, short, written⟩
  · exact ⟨_, whole, text, kept, consumed.carry short, ready⟩
  · have reached := consumed.reached.next positive consumed.aligned nonempty
    have enough := reached.size_le positive
      (by rw [List.length_append]; exact Nat.dvd_add consumed.aligned aligned) (carried ++ rest)
    have sameInput : whole ++ frame ++ (carried ++ rest) = received ++ piece ++ rest := by
      have joinedRest := congrArg (whole ++ · ++ rest) joined
      simpa [consumed.split] using joinedRest.symm
    rw [sameInput, String.utf8ByteSize_append] at enough
    -- What the sink is ready for covers this frame's text and everything that is still to come.
    have sizes : (textBytes (progress.encoder.frameText frame stride)).length +
        ((start.frameText (received ++ piece ++ rest) stride).utf8ByteSize -
          (text ++ progress.encoder.frameText frame stride).utf8ByteSize) =
        (start.frameText (received ++ piece ++ rest) stride).utf8ByteSize -
          text.utf8ByteSize := by
      rw [length_textBytes, String.utf8ByteSize_append]
      omega
    rcases consumed.take positive joined nonempty aligned short (sizes ▸ ready) with
      ⟨after, wrote, consumedAfter, readyAfter⟩
    exact ⟨after, _, _, written.trans wrote, consumedAfter, readyAfter⟩

end StreamProgress

/-- What a conversion reports that has gone well: the encoder `start` has taken `data`. -/
structure StreamReport.Completes (report : StreamReport) (start : Encoder) (origin : List UInt8)
    (stride : Nat) (data : List UInt8) : Prop where
  result : report.result = .ok {
    bytesIn := data.length
    bytesOut := (start.frameText data stride).utf8ByteSize
    trailingBytes := data.length % stride }
  encoder : report.encoder.AgreesButForWarning (start.afterFrame data stride)
  written : report.sink.written = origin ++ textBytes (start.frameText data stride)
  ready : report.sink.Ready 0

section Pump

variable {progress : StreamProgress} {start : Encoder} {origin received whole : List UInt8}
  {stride : Nat} {text : String}

theorem StreamProgress.Consumed.finish
    (consumed : progress.Consumed start origin stride received whole text) (source : Source)
    (ready : progress.sink.Ready
      ((start.frameText received stride).utf8ByteSize - text.utf8ByteSize)) :
    (progress.finish source stride).Completes start origin stride received := by
  have positive : 0 < stride := Nat.zero_lt_of_lt consumed.short
  have trailing : progress.carried.length = received.length % stride := by
    rcases consumed.aligned with ⟨count, wholeLength⟩
    rw [consumed.split, List.length_append, wholeLength, Nat.mul_add_mod_self_left,
      Nat.mod_eq_of_lt consumed.short]
  simp only [StreamProgress.finish]
  by_cases pending : progress.encoder.headerPending
  · rcases consumed.reached.headed consumed.short pending with ⟨sameState, sameText⟩
    rw [← consumed.split] at sameState sameText
    have readyHeader : progress.sink.Ready
        ((textBytes (progress.encoder.frameText [] stride)).length + 0) := by
      rw [length_textBytes]
      rw [← sameText, String.utf8ByteSize_append, Nat.add_sub_cancel_left] at ready
      exact ready
    rcases progress.write_of_ready [] positive readyHeader with
      ⟨after, written, wrote, readyAfter⟩
    simp only [pending, ↓reduceIte, written]
    exact
      { result := by
          simp [StreamProgress.close, wrote.bytesIn, wrote.bytesOut, wrote.carried,
            consumed.bytesIn, consumed.bytesOut, trailing, ← sameText]
        encoder := by
          simp [StreamProgress.close, wrote.encoder, sameState, Encoder.AgreesButForWarning]
        written := by
          simp [StreamProgress.close, wrote.written, consumed.written, ← sameText,
            textBytes_append]
        ready := readyAfter }
  · rcases consumed.reached.complete consumed.short consumed.aligned pending with
      ⟨sameState, sameText⟩
    rw [← consumed.split] at sameState sameText
    simp only [pending, Bool.false_eq_true, ↓reduceIte]
    exact
      { result := by
          simp [StreamProgress.close, consumed.bytesIn, consumed.bytesOut, trailing, ← sameText]
        encoder := sameState
        written := by
          rw [← sameText]
          exact consumed.written
        ready := ⟨ready.takes.mono (Nat.le_add_right _ _), ready.plain⟩ }

/-- As long as less than a sample is carried over, the buffer has room for a read. -/
theorem room_pos {carried : List UInt8} (short : carried.length < stride) :
    0 < bufferSize stride - carried.length := by
  have oneSample : stride ≤ bufferSize stride := by
    rw [bufferSize]
    exact Nat.le_mul_of_pos_left stride (by omega)
  omega

/-- One turn of the loop. -/
theorem pump_eq (stride : Nat) (progress : StreamProgress) (source : Source) :
    pump stride progress source =
      match source.read (bufferSize stride - progress.carried.length) with
      | (.bytes [], after) => progress.finish after stride
      | (.bytes (first :: rest), after) =>
        match progress.receive (first :: rest) stride with
        | (received, none) => pump stride received after
        | (received, some error) => received.close after (.error (.encode error))
      | (.interrupted, after) => pump stride progress after
      | (.failed failure, after) => progress.close after (.error (.io failure)) := by
  rw [pump]
  split <;> rename_i delivered <;> simp only [delivered] <;> rfl

/-- The loop, from any point between two reads. The induction is along the calls of the source; the
invariant gives the text up to here, the readiness of the sink the text that is still to come. -/
theorem pump_completes {source : Source}
    (consumed : progress.Consumed start origin stride received whole text)
    (proceeds : source.Proceeds)
    (ready : progress.sink.Ready
      ((start.frameText (received ++ source.pending) stride).utf8ByteSize - text.utf8ByteSize)) :
    (pump stride progress source).Completes start origin stride (received ++ source.pending) := by
  have accounted := source.read_accounts (bufferSize stride - progress.carried.length)
  have stillProceeds := proceeds.after_read (bufferSize stride - progress.carried.length)
  fun_induction pump stride progress source generalizing received whole text with
  | case1 progress source after delivered =>
      rw [delivered] at accounted
      have ended : source.pending = [] := accounted.2.2 rfl (room_pos consumed.short) proceeds
      rw [ended, List.append_nil] at ready ⊢
      exact consumed.finish after ready
  | case2 progress source first rest after delivered _ next onReceive ih =>
      rw [delivered] at accounted stillProceeds
      rw [Source.append_pending accounted received] at ready ⊢
      rcases consumed.receive (Nat.zero_lt_of_lt consumed.short) after.pending ready with
        ⟨_, whole', text', received', consumedAfter, readyAfter⟩
      rw [onReceive] at received'
      obtain ⟨rfl, _⟩ := Prod.mk.inj received'
      exact ih consumedAfter stillProceeds readyAfter (after.read_accounts _)
        (stillProceeds.after_read _)
  | case3 progress source first rest after delivered _ next error onReceive =>
      rw [delivered] at accounted
      rw [Source.append_pending accounted received] at ready
      rcases consumed.receive (Nat.zero_lt_of_lt consumed.short) after.pending ready with
        ⟨_, _, _, received', _⟩
      simp [onReceive] at received'
  | case4 progress source after delivered _ ih =>
      rw [delivered] at accounted stillProceeds
      have samePending : after.pending = source.pending := accounted
      rw [← samePending] at ready ⊢
      exact ih consumed stillProceeds ready (after.read_accounts _) (stillProceeds.after_read _)
  | case5 progress source failure after delivered =>
      rw [delivered] at accounted
      exact (proceeds _ accounted.2).elim

end Pump

theorem convertStream_completes (encoder : Encoder) {source : Source} {sink : Sink}
    (proceeds : source.Proceeds)
    (ready : sink.Ready
      (encoder.frameText source.pending (max encoder.unitSize 1)).utf8ByteSize) :
    (convertStream encoder source sink).Completes encoder sink.written (max encoder.unitSize 1)
      source.pending := by
  have consumed : StreamProgress.Consumed { encoder, sink } encoder sink.written
      (max encoder.unitSize 1) [] [] "" :=
    { split := rfl
      aligned := Nat.dvd_zero _
      short := by
        simp only [List.length_nil]
        omega
      reached := Or.inl ⟨rfl, rfl, rfl⟩
      written := (List.append_nil sink.written).symm
      bytesOut := rfl
      bytesIn := rfl }
  exact pump_completes consumed proceeds ready

/-- Converting a stream is encoding everything that is pending in its source as one frame, however
the source cuts it and however the sink takes it: the same text reaches the sink, and the encoder
ends in the same state, but perhaps for the note that the stride is strange. -/
theorem convertStream_eq_encode (encoder : Encoder) {source : Source} {sink : Sink}
    (proceeds : source.Proceeds)
    (ready : ∀ emission, encoder.encode source.pending (max encoder.unitSize 1) = .ok emission →
      sink.Ready emission.text.utf8ByteSize) :
    ∃ emission, encoder.encode source.pending (max encoder.unitSize 1) = .ok emission ∧
      (convertStream encoder source sink).result = .ok {
        bytesIn := source.pending.length
        bytesOut := (textBytes emission.text).length
        trailingBytes := source.pending.length % max encoder.unitSize 1 } ∧
      (convertStream encoder source sink).sink.written =
        sink.written ++ textBytes emission.text ∧
      (convertStream encoder source sink).encoder.AgreesButForWarning emission.encoder := by
  have positive : 0 < max encoder.unitSize 1 := by omega
  rcases encoder.encode_of_pos source.pending positive with ⟨log, encoded⟩
  have completes := convertStream_completes encoder proceeds (ready _ encoded)
  refine ⟨_, encoded, ?_, completes.written, completes.encoder⟩
  rw [length_textBytes]
  exact completes.result

/-- Reads that cut samples and are interrupted, writes that take a byte at a time. -/
theorem convertStream_eq_encode_clockAndBus :
    let source : Source :=
      { script := [.atMost 3, .interrupted, .atMost 1], data := [3, 0, 6, 0, 6, 0, 1] }
    let sink : Sink := { script := [.atMost 1, .interrupted, .atMost 4] }
    source.Proceeds ∧
      (∀ emission, clockAndBusStarted.encode source.pending (max clockAndBusStarted.unitSize 1) =
        .ok emission → sink.Ready emission.text.utf8ByteSize) ∧
      ∃ emission,
        clockAndBusStarted.encode source.pending (max clockAndBusStarted.unitSize 1) =
          .ok emission ∧
        (convertStream clockAndBusStarted source sink).result = .ok {
          bytesIn := 7
          bytesOut := (textBytes emission.text).length
          trailingBytes := 7 % max clockAndBusStarted.unitSize 1 } ∧
        (convertStream clockAndBusStarted source sink).sink.written =
          sink.written ++ textBytes emission.text ∧
        (convertStream clockAndBusStarted source sink).encoder.AgreesButForWarning
          emission.encoder := by
  intro source sink
  have proceeds : source.Proceeds := by
    simp [source, Source.Proceeds, Response.Proceeds]
  have ready (count : Nat) : sink.Ready count :=
    ⟨⟨by simp [sink, Response.Proceeds], by simp [sink]⟩, fun _ => rfl⟩
  exact ⟨proceeds, fun emission _ => ready _,
    convertStream_eq_encode clockAndBusStarted proceeds (fun emission _ => ready _)⟩

end WaveDump
