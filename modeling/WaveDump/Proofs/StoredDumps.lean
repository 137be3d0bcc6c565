import WaveDump.Conversion.Storage
import WaveDump.Proofs.StreamConversion

/-!
# What is stored of a dump

A dump that is converted into an output without limits is stored whole: nothing stays behind in the
sink, whether the text was written as it came or compressed at the end. Reading back what was
stored, and decompressing it if it is compressed, gives the text of one frame with everything that
the source held.
-/

namespace WaveDump

/-! ## Reading compressed files back -/

namespace Gzip

theorem littleEndian_two (value : Nat) :
    littleEndian 2 value = [UInt8.ofNat value, UInt8.ofNat (value / 256)] := by
  simp [littleEndian, List.range_succ, Nat.shiftRight_eq_div_pow]

theorem value_of_bytes {value : Nat} (fits : value ≤ blockLimit) :
    value % 256 + 256 * (value / 256 % 256) = value := by
  simp only [blockLimit] at fits
  omega

theorem readStored_storedBlock {piece : List UInt8} (fits : piece.length ≤ blockLimit)
    (last : Bool) (rest : List UInt8) :
    readStored (storedBlock last piece ++ rest) =
      if last then some (piece, rest)
      else (readStored rest).map fun (message, after) => (piece ++ message, after) := by
  have size := value_of_bytes fits
  have inverted := value_of_bytes (Nat.sub_le blockLimit piece.length)
  have complement : blockLimit - piece.length + piece.length = blockLimit := by omega
  cases last <;>
    simp [storedBlock, littleEndian_two, readStored, size, inverted, complement]

theorem readStored_storedBlocks (message rest : List UInt8) :
    readStored (storedBlocks message ++ rest) = some (message, rest) := by
  fun_induction storedBlocks message with
  | case1 message fits =>
      simp only [readStored_storedBlock fits, ↓reduceIte]
  | case2 message long ih =>
      have fits : (message.take blockLimit).length ≤ blockLimit := List.length_take_le _ _
      simp only [List.append_assoc, readStored_storedBlock fits, Bool.false_eq_true, ↓reduceIte, ih,
        Option.map_some, List.take_append_drop]

theorem decompress?_compress (level : Nat) (message : List UInt8) :
    decompress? (compress level message) = some message := by
  simp [compress, decompress?, readStored_storedBlocks]

end Gzip

/-! ## Stored texts -/

namespace Compression

/-- What an output holds of a text. -/
def pack : Compression → List UInt8 → List UInt8
  | .none, text => text
  | .gzip level, text => Gzip.compress level text

/-- The text that an output holds. -/
def unpack? : Compression → List UInt8 → Option (List UInt8)
  | .none, stored => some stored
  | .gzip _, stored => Gzip.decompress? stored

theorem unpack?_pack (compression : Compression) (text : List UInt8) :
    compression.unpack? (compression.pack text) = some text := by
  cases compression with
  | none => rfl
  | gzip level => exact Gzip.decompress?_compress level text

end Compression

/-- What a conversion into an output without limits reports: the encoder `start` has taken `data`,
and the output holds the text. -/
structure StorageReport.Completes (report : StorageReport) (compression : Compression)
    (start : Encoder) (stride : Nat) (data : List UInt8) : Prop where
  result : report.result = .ok {
    bytesIn := data.length
    bytesOut := (start.frameText data stride).utf8ByteSize
    trailingBytes := data.length % stride }
  statistics : report.encoder.statistics = (start.afterFrame data stride).statistics
  stored : report.stored = compression.pack (textBytes (start.frameText data stride))

theorem Sink.ready_of_unlimited {script : List Response}
    (proceed : ∀ response ∈ script, response.Proceeds) (block : Option Nat)
    (hasher : Option Sha256.Hasher) (count : Nat) :
    ({ script, block, hasher } : Sink).Ready count :=
  ⟨⟨proceed, by simp⟩, fun _ => rfl⟩

theorem Sink.written_of_held {sink : Sink} (empty : sink.held = #[]) :
    sink.written = sink.content := by
  simp [written, empty]

theorem Sink.Ready.writeOut {sink : Sink} {buffer : List UInt8}
    (ready : sink.Ready (buffer.length + 0)) :
    ∃ after, sink.writeOut buffer = (.ok (), after) ∧
      after.content = sink.written ++ buffer := by
  rcases ready.writeAll with ⟨between, wrote, writtenBetween, readyBetween⟩
  rcases readyBetween.flush with ⟨after, flushed, written, _, empty, _⟩
  refine ⟨after, ?_, ?_⟩
  · simp only [Sink.writeOut, wrote, flushed]
  · rw [← written_of_held empty, written, writtenBetween]

theorem Encoder.AgreesButForWarning.statistics_eq {left right : Encoder}
    (agrees : left.AgreesButForWarning right) : left.statistics = right.statistics := by
  rw [← agrees]
  rfl

theorem StreamReport.compress_unlimited (report : StreamReport) (level : Nat)
    (script : List Response) (block : Option Nat) :
    report.compress level { script, block } =
      report.storedBy [] (({ script, block } : Sink).writeOut
        (Gzip.compress level report.sink.written)) := by
  simp [compress, refusal?, Sink.refusing?]

/-- Storing brings everything to the output, however much of it the calls take at once: what is held
back while the text is written comes at the end. -/
theorem convertAndStore_completes (compression : Compression) (encoder : Encoder)
    {source : Source} (proceeds : source.Proceeds) (size : Nat) (hasher : Option Sha256.Hasher)
    {writes takes : List Response} (writesProceed : ∀ response ∈ writes, response.Proceeds)
    (takesProceed : ∀ response ∈ takes, response.Proceeds) :
    (convertAndStore compression encoder source { script := writes, block := some size, hasher }
      takes).Completes compression encoder (max encoder.unitSize 1) source.pending := by
  cases compression with
  | none =>
      have completes := convertStream_completes encoder proceeds
        (Sink.ready_of_unlimited writesProceed (some size) hasher _)
      rcases completes.ready.flush with ⟨after, flushed, written, _, empty, _⟩
      rw [Sink.written_of_held empty] at written
      have stored : after.content =
          textBytes (encoder.frameText source.pending (max encoder.unitSize 1)) :=
        written.trans completes.written
      simp only [convertAndStore]
      exact
        { result := by simp only [StreamReport.storedBy, completes.result, flushed]
          statistics := completes.encoder.statistics_eq
          stored := by
            rw [Compression.pack, ← stored]
            simp only [StorageReport.stored, StreamReport.storedBy, flushed, written, Sink.written,
              List.drop_left] }
  | gzip level =>
      have completes := convertStream_completes encoder proceeds
        (Sink.ready_of_unlimited takesProceed none hasher _)
      have written : (convertStream encoder source { script := takes, hasher }).sink.written =
          textBytes (encoder.frameText source.pending (max encoder.unitSize 1)) := completes.written
      rcases (Sink.ready_of_unlimited writesProceed (some size) none
        ((Gzip.compress level (convertStream encoder source { script := takes, hasher
          }).sink.written).length + 0)).writeOut with ⟨after, wroteOut, stored⟩
      simp only [convertAndStore, StreamReport.compress_unlimited]
      exact
        { result := by simp only [StreamReport.storedBy, completes.result, wroteOut]
          statistics := completes.encoder.statistics_eq
          stored := by
            rw [Compression.pack, ← written]
            simp only [StorageReport.stored, StreamReport.storedBy, wroteOut, stored]
            rfl }

end WaveDump
