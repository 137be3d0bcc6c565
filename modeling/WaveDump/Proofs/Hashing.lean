import WaveDump.Proofs.ConversionEnds
import WaveDump.Proofs.StoredDumps

/-!
# Hashes of what is written

A message that is hashed in pieces has the digest of the whole message, wherever it is cut. A sink
that hashes takes a buffer in whatever pieces its calls take, and hashes these; so between two whole
writes the bytes that were hashed are those that were written, and at the end of a conversion the
digest is that of the text.
-/

namespace WaveDump

/-! ## Messages in pieces -/

namespace Sha256

variable {state : State} {message : List UInt8}

theorem State.absorbBlocks_append {count : Nat} (enough : 64 * count ≤ message.length)
    (more : List UInt8) :
    state.absorbBlocks count (message ++ more) = state.absorbBlocks count message := by
  induction count generalizing state message with
  | zero => rfl
  | succ count ih =>
      have oneBlock : 64 ≤ message.length := by omega
      have enoughLeft : 64 * count ≤ (message.drop 64).length := by
        rw [List.length_drop]
        omega
      simp only [absorbBlocks, List.take_append_of_le_length oneBlock,
        List.drop_append_of_le_length oneBlock, ih enoughLeft]

theorem State.absorbBlocks_add (first second : Nat) :
    state.absorbBlocks (first + second) message =
      (state.absorbBlocks first message).absorbBlocks second (message.drop (64 * first)) := by
  induction first generalizing state message with
  | zero => simp [absorbBlocks]
  | succ first ih =>
      rw [Nat.succ_add, absorbBlocks, ih, List.drop_drop, absorbBlocks, Nat.mul_succ, Nat.add_comm]

/-- All whole blocks of a message are absorbed if those of its beginning are and then those of what
this has left over, with the rest behind it. -/
theorem State.absorbBlocks_whole (state : State) (message rest : List UInt8) :
    state.absorbBlocks ((message ++ rest).length / 64) (message ++ rest) =
      (state.absorbBlocks (message.length / 64) message).absorbBlocks
        ((message.drop (64 * (message.length / 64)) ++ rest).length / 64)
        (message.drop (64 * (message.length / 64)) ++ rest) := by
  have within : 64 * (message.length / 64) ≤ message.length := by omega
  have count : (message ++ rest).length / 64 = message.length / 64 +
      (message.drop (64 * (message.length / 64)) ++ rest).length / 64 := by
    simp only [List.length_append, List.length_drop]
    omega
  rw [count, absorbBlocks_add, absorbBlocks_append within, List.drop_append_of_le_length within]

namespace Hasher

variable (hasher : Hasher)

theorem update_nil : hasher.update [] = hasher := by
  have noBlock : hasher.pending.length / 64 = 0 := Nat.div_eq_of_lt hasher.pending_lt
  simp [update, noBlock, State.absorbBlocks]

theorem update_append (first second : List UInt8) :
    hasher.update (first ++ second) = (hasher.update first).update second := by
  have within :
      64 * ((hasher.pending ++ first).length / 64) ≤ (hasher.pending ++ first).length := by
    omega
  have pending : (hasher.pending ++ (first ++ second)).drop
        (64 * ((hasher.pending ++ (first ++ second)).length / 64)) =
      ((hasher.pending ++ first).drop (64 * ((hasher.pending ++ first).length / 64)) ++ second).drop
        (64 * (((hasher.pending ++ first).drop (64 * ((hasher.pending ++ first).length / 64)) ++
          second).length / 64)) := by
    rw [← List.append_assoc, ← List.drop_append_of_le_length within, List.drop_drop]
    congr 1
    simp only [List.length_append, List.length_drop]
    omega
  apply Hasher.ext
  · simp only [update, ← List.append_assoc]
    exact hasher.state.absorbBlocks_whole (hasher.pending ++ first) second
  · exact pending
  · simp [update, Nat.add_assoc]

theorem finish_update (message : List UInt8) :
    (initial.update message).finish = digest message := by
  have whole := State.initial.absorbBlocks_whole message (padding message.length)
  simp only [digest, whole, finish, update, initial, List.nil_append, Nat.zero_add]

end Hasher

end Sha256

/-! ## Sinks that hash -/

namespace Sink

variable {sink after : Sink} {buffer : List UInt8}

theorem makeRoom_hasher (sink : Sink) (size length : Nat) :
    (sink.makeRoom size length).2.hasher = sink.hasher := by
  unfold makeRoom
  split
  · exact (passAll_fixed { sink with held := #[] } sink.held.toList).2.2
  · rfl

theorem offer_hasher (sink : Sink) (buffer : List UInt8) :
    (sink.offer buffer).2.hasher = sink.hasher := by
  unfold offer
  split
  · exact (sink.write_fixed buffer).2.2
  · rename_i size _
    have made := sink.makeRoom_hasher size buffer.length
    split <;> rename_i outcome <;> rw [outcome] at made
    · exact made
    · split
      · exact made
      · exact (write_fixed _ buffer).2.2.trans made

/-- What a single call has hashed: exactly the bytes that it took. -/
theorem hashing_hasher (sink : Sink) (buffer : List UInt8) :
    match hashing.run sink buffer with
    | (.took count, after) => after.hasher = sink.hasher.map (·.update (buffer.take count))
    | (.interrupted, after) => after.hasher = sink.hasher
    | (.failed _, after) => after.hasher = sink.hasher := by
  have offered := sink.offer_hasher buffer
  simp only [hashing, offerHashed]
  rcases outcome : sink.offer buffer with ⟨count | _ | failure, after⟩ <;> rw [outcome] at offered
  · simp only [hash]
    rw [offered]
  · exact offered
  · exact offered

theorem hashing_all_hasher (succeeded : (hashing.all sink buffer).1 = .ok ()) :
    (hashing.all sink buffer).2.hasher = sink.hasher.map (·.update buffer) := by
  have hashed := sink.hashing_hasher buffer
  fun_induction Call.all hashing sink buffer with
  | case1 sink buffer empty =>
      obtain rfl : buffer = [] := by simpa using empty
      simp [Sha256.Hasher.update_nil]
  | case2 sink buffer nonempty after called => simp at succeeded
  | case3 sink buffer nonempty count after called ih =>
      rw [called] at hashed
      rw [ih succeeded (hashing_hasher _ _), hashed, Option.map_map]
      congr 1
      funext hasher
      rw [Function.comp_apply, ← Sha256.Hasher.update_append, List.take_append_drop]
  | case4 sink buffer nonempty after called ih =>
      rw [called] at hashed
      rw [ih succeeded (hashing_hasher _ _), hashed]
  | case5 sink buffer nonempty failure after called => simp at succeeded

theorem writeAll_hasher (succeeded : (sink.writeAll buffer).1 = .ok ()) :
    (sink.writeAll buffer).2.hasher = sink.hasher.map (·.update buffer) := by
  unfold writeAll at succeeded ⊢
  split at succeeded
  · exact hashing_all_hasher succeeded
  · rename_i plain _
    rw [plain]
    exact (sink.passAll_fixed buffer).2.2.trans plain
  · rename_i size plain _
    have made := sink.makeRoom_hasher size buffer.length
    rw [plain] at made ⊢
    split at succeeded <;> rename_i outcome <;> simp only [outcome] at made ⊢
    · exact made
    · split
      · exact made
      · exact (passAll_fixed _ buffer).2.2.trans made

/-- On the way to the sink `after` some bytes were written, and just these were hashed. -/
structure Hashes (sink : Sink) (bytes : List UInt8) (after : Sink) : Prop where
  written : after.written = sink.written ++ bytes
  hasher : after.hasher = sink.hasher.map (·.update bytes)
  orderly : after.Orderly

theorem Hashes.refl (orderly : sink.Orderly) : sink.Hashes [] sink where
  written := (List.append_nil _).symm
  hasher := by
    have unchanged : (fun hasher : Sha256.Hasher => hasher.update []) = id :=
      funext Sha256.Hasher.update_nil
    rw [unchanged, Option.map_id, id]
  orderly := orderly

theorem Hashes.writeAll {bytes : List UInt8} (hashes : sink.Hashes bytes after)
    (succeeded : (after.writeAll buffer).1 = .ok ()) :
    sink.Hashes (bytes ++ buffer) (after.writeAll buffer).2 := by
  rcases writeAll_writesTo hashes.orderly buffer with ⟨rest, writes, succeeds⟩
  have written := writes.written
  rw [succeeds.mp succeeded, List.append_nil] at written
  exact
    { written := by rw [written, hashes.written, List.append_assoc]
      hasher := by
        rw [writeAll_hasher succeeded, hashes.hasher, Option.map_map]
        congr 1
        funext hasher
        exact (hasher.update_append bytes buffer).symm
      orderly := writes.orderly }

end Sink

/-! ## Conversions -/

section Conversions

variable {Keeps : Sink → Prop} {stride : Nat}
  (step : ∀ {sink : Sink} {buffer : List UInt8}, Keeps sink →
    (sink.writeAll buffer).1 = .ok () → Keeps (sink.writeAll buffer).2)
include step

theorem StreamProgress.write_keeps {progress after : StreamProgress} {frame : List UInt8}
    (positive : 0 < stride) (keeps : Keeps progress.sink)
    (wrote : progress.write frame stride = (after, none)) : Keeps after.sink := by
  rcases progress.write_cases frame positive with
    ⟨reached, _, sameSink, _, ⟨succeeded, written⟩ | ⟨failure, _, written⟩⟩
  · obtain ⟨rfl, _⟩ := Prod.mk.inj (written.symm.trans wrote)
    rw [sameSink]
    exact step keeps succeeded
  · simp [wrote] at written

theorem StreamProgress.receive_keeps {progress after : StreamProgress} {piece : List UInt8}
    (positive : 0 < stride) (keeps : Keeps progress.sink)
    (received : progress.receive piece stride = (after, none)) : Keeps after.sink := by
  rcases progress.receive_cases piece positive with
    ⟨_, carried⟩ | ⟨frame, carried, _, _, _, _, written⟩
  · obtain ⟨rfl, _⟩ := Prod.mk.inj (carried.symm.trans received)
    exact keeps
  · rw [written] at received
    refine write_keeps step positive ?_ received
    exact keeps

/-- What whole writes keep holds of the sink at the end of a conversion that went well. -/
theorem pump_keeps {progress : StreamProgress} {source : Source} {statistics : StreamStatistics}
    (positive : 0 < stride) (keeps : Keeps progress.sink)
    (succeeded : (pump stride progress source).result = .ok statistics) :
    Keeps (pump stride progress source).sink := by
  fun_induction pump stride progress source with
  | case1 progress source after delivered =>
      simp only [StreamProgress.finish] at succeeded ⊢
      by_cases pending : progress.encoder.headerPending
      · simp only [pending, ↓reduceIte] at succeeded ⊢
        rcases wrote : progress.write [] stride with ⟨headed, _ | error⟩
        · exact StreamProgress.write_keeps step positive keeps wrote
        · simp [wrote, StreamProgress.close] at succeeded
      · simp only [pending, Bool.false_eq_true, ↓reduceIte]
        exact keeps
  | case2 progress source first rest after delivered _ next onReceive ih =>
      exact ih (StreamProgress.receive_keeps step positive keeps onReceive) succeeded
  | case3 progress source first rest after delivered _ next error onReceive =>
      simp [StreamProgress.close] at succeeded
  | case4 progress source after delivered _ ih => exact ih keeps succeeded
  | case5 progress source failure after delivered => simp [StreamProgress.close] at succeeded

end Conversions

/-- In a conversion that went well, what was hashed is what was written. -/
theorem convertStream_hashes {encoder : Encoder} {source : Source} {sink : Sink}
    {statistics : StreamStatistics} (orderly : sink.Orderly)
    (succeeded : (convertStream encoder source sink).result = .ok statistics) :
    ∃ bytes, sink.Hashes bytes (convertStream encoder source sink).sink := by
  have positive : 0 < max encoder.unitSize 1 := by omega
  have step {after : Sink} {buffer : List UInt8} (hashed : ∃ bytes, sink.Hashes bytes after)
      (wrote : (after.writeAll buffer).1 = .ok ()) :
      ∃ bytes, sink.Hashes bytes (after.writeAll buffer).2 := by
    rcases hashed with ⟨bytes, hashes⟩
    exact ⟨bytes ++ buffer, hashes.writeAll wrote⟩
  exact pump_keeps step positive ⟨[], .refl orderly⟩ succeeded

theorem Sink.Hashes.digest {sink after : Sink} {bytes : List UInt8}
    (hashes : sink.Hashes bytes after) (fresh : sink.hasher = some .initial) :
    after.digest = Sha256.digest bytes := by
  rw [Sink.digest, hashes.hasher, fresh, Option.map_some, Option.getD_some,
    Sha256.Hasher.finish_update]

/-- The digest of a dump is that of its text, whether it is stored plain or compressed, and however
much of the text the calls take at once. -/
theorem convertAndStore_digest (compression : Compression) (encoder : Encoder) {source : Source}
    (proceeds : source.Proceeds) (size : Nat) {writes takes : List Response}
    (writesProceed : ∀ response ∈ writes, response.Proceeds)
    (takesProceed : ∀ response ∈ takes, response.Proceeds) :
    (convertAndStore compression encoder source
      { script := writes, block := some size, hasher := some .initial } takes).digest =
        Sha256.digest (textBytes (encoder.frameText source.pending (max encoder.unitSize 1))) := by
  have hashed (block : Option Nat) {script : List Response}
      (proceed : ∀ response ∈ script, response.Proceeds) :
      (convertStream encoder source { script, block, hasher := some .initial }).sink.digest =
        Sha256.digest (textBytes (encoder.frameText source.pending (max encoder.unitSize 1))) := by
    have completes := convertStream_completes encoder proceeds
      (Sink.ready_of_unlimited proceed block (some .initial) _)
    rcases convertStream_hashes (fun _ => rfl) completes.result with ⟨bytes, hashes⟩
    have written := hashes.written
    rw [completes.written, List.append_cancel_left_eq] at written
    rw [hashes.digest rfl, written]
  cases compression with
  | none => exact hashed (some size) writesProceed
  | gzip level =>
      simp only [convertAndStore, StreamReport.compress_unlimited]
      exact hashed none takesProceed

end WaveDump
