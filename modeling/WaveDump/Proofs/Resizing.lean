import WaveDump.Proofs.Invariant

/-!
# Samples of another size

A sample whose size is not the unit size counts for what is left of it when it is cut, or filled up
with low levels, to the unit size. A frame of such samples is therefore as good as the frame of the
samples in the unit size, and what the scratch buffer held before is never seen. The first frame
with a strange stride is warned about, and no other.
-/

namespace WaveDump

/-! ## Frames of resized samples -/

namespace Sample

theorem ofFrame_self {size : Nat} {sample : Sample} (positive : 0 < size)
    (sized : sample.length = size) : ofFrame size sample = [sample] := by
  apply List.ext_getElem
  · rw [length_ofFrame, sized, Nat.div_self positive, List.length_singleton]
  · intro index inBounds single
    have first : index = 0 := by simpa using single
    subst first
    simp [getElem_ofFrame, ← sized]

/-- Samples put together to a frame are the samples of the frame. -/
theorem ofFrame_flatten {size : Nat} (positive : 0 < size) {samples : List Sample}
    (sized : ∀ sample ∈ samples, sample.length = size) :
    ofFrame size samples.flatten = samples := by
  induction samples with
  | nil => exact ofFrame_of_short positive
  | cons sample rest ih =>
      rw [List.forall_mem_cons] at sized
      have whole : size ∣ sample.length := Dvd.intro_left 1 (by omega)
      rw [List.flatten_cons, ofFrame_append positive whole, ofFrame_self positive sized.1,
        ih sized.2, List.singleton_append]

end Sample

namespace Encoder

variable (encoder : Encoder)

theorem step_resize (sample : Sample) :
    encoder.step (sample.resize encoder.unitSize) = encoder.step sample := by
  simp only [step, Sample.resize_of_length (Sample.length_resize _ _)]

theorem advance_map_resize (samples : List Sample) :
    encoder.advance (samples.map (Sample.resize encoder.unitSize)) = encoder.advance samples := by
  induction samples generalizing encoder with
  | nil => rfl
  | cons sample rest ih =>
      have later := ih (encoder.step sample).1
      rw [(encoder.step_fixed sample).1] at later
      simp only [List.map_cons, advance, step_resize, later]

/-- A frame of any stride and the frame of its samples in the unit size have the same text and leave
the same state, but for the note that a strange stride was warned about. -/
theorem frame_resize (sized : 0 < encoder.unitSize) (bytes : List UInt8) (stride : Nat) :
    let resized :=
      (Sample.ofFrame stride bytes).flatMap (Sample.resize encoder.unitSize)
    encoder.frameText bytes stride = encoder.frameText resized encoder.unitSize ∧
      (encoder.afterFrame bytes stride).AgreesButForWarning
        (encoder.afterFrame resized encoder.unitSize) := by
  intro resized
  have samples : Sample.ofFrame encoder.unitSize resized =
      (Sample.ofFrame stride bytes).map (Sample.resize encoder.unitSize) := by
    apply Sample.ofFrame_flatten sized
    intro sample member
    rcases List.mem_map.mp member with ⟨original, _, rfl⟩
    exact Sample.length_resize _ _
  have sameText : encoder.frameText bytes stride =
      encoder.frameText resized encoder.unitSize := by
    rw [frameText, frameText, samples, advance_map_resize]
  refine ⟨sameText, ?_⟩
  rw [AgreesButForWarning, afterFrame, afterFrame, sameText, samples, advance_map_resize]
  rfl

end Encoder

/-! ## Warnings -/

/-- The warnings among log entries. -/
def Log.warnings (log : Log) : Log :=
  log.filter fun entry => entry.severity = .warning

theorem Log.warnings_append (first second : Log) :
    Log.warnings (first ++ second) = Log.warnings first ++ Log.warnings second :=
  List.filter_append first second

/-- The stride of a call that gives samples of another size than the unit size. A conversion cuts
its input into samples of the unit size. -/
def EncoderCall.strangeStride? (unitSize : Nat) : EncoderCall → Option Nat
  | .encode _ stride | .encodeTo _ _ stride =>
    if stride ≠ 0 ∧ stride ≠ unitSize then some stride else none
  | .convert _ _ => none

namespace Encoder

/-- The log entries that a call causes while its frames are encoded. -/
def told (encoder : Encoder) : EncoderCall → Log
  | .encode bytes stride =>
    match encoder.encode bytes stride with
    | .error _ => []
    | .ok emission => emission.log
  | .encodeTo sink bytes stride => (encoder.encodeTo sink bytes stride).log
  | .convert source sink => (convertStream encoder source sink).log

/-- The log entries of calls one after the other, a list for every call. -/
def toldAll (encoder : Encoder) : List EncoderCall → List Log
  | [] => []
  | call :: rest => encoder.told call :: (encoder.perform call).toldAll rest

variable (encoder : Encoder)

theorem told_encodeTo (sink : Sink) (bytes : List UInt8) (stride : Nat) :
    encoder.told (.encodeTo sink bytes stride) = encoder.told (.encode bytes stride) := by
  simp only [told, encodeTo]
  cases encoder.encode bytes stride <;> rfl

theorem warnings_told_encode (bytes : List UInt8) (stride : Nat) :
    (encoder.told (.encode bytes stride)).warnings =
      if stride ≠ 0 ∧ encoder.warnsAbout stride then [encoder.strideWarning stride] else [] := by
  rcases Nat.eq_zero_or_pos stride with rfl | positive
  · rfl
  · have nonzero : stride ≠ 0 := by omega
    by_cases warns : encoder.warnsAbout stride <;>
      simp [told, encode, nonzero, warns, Log.warnings, strideWarning]

theorem feed_unitSize (frames : List Frame) :
    (encoder.feed frames).1.unitSize = encoder.unitSize := by
  rcases (encoder.feed_eq frames).1 with ⟨header, bytesOut, strideWarned, sameState⟩
  rw [sameState]
  exact (encoder.advance_fixed _).1

theorem feed_strideWarned (bytes : List UInt8) (stride : Nat) :
    (encoder.feed [{ bytes, stride }]).1.strideWarned =
      (encoder.strideWarned || (stride != 0 && stride != encoder.unitSize)) := by
  rcases Nat.eq_zero_or_pos stride with rfl | positive
  · rw [feed_cons_of_zero encoder [] rfl]
    exact (Bool.or_false _).symm
  · have nonzero : (stride != 0) = true := by simp; omega
    rw [feed_cons_of_pos encoder [] positive, nonzero, Bool.true_and]
    rfl

end Encoder

/-! ### Conversions warn about no stride -/

namespace StreamProgress

/-- Nothing was warned about between two points of a conversion. -/
structure Unwarned (progress : StreamProgress) (log : Log) (encoder : Encoder) : Prop where
  warnings : log.warnings = progress.log.warnings
  strideWarned : encoder.strideWarned = progress.encoder.strideWarned
  unitSize : encoder.unitSize = progress.encoder.unitSize

variable {progress after : StreamProgress} {log : Log} {encoder : Encoder} {stride : Nat}

theorem Unwarned.trans (first : progress.Unwarned after.log after.encoder)
    (second : after.Unwarned log encoder) : progress.Unwarned log encoder :=
  ⟨second.warnings.trans first.warnings, second.strideWarned.trans first.strideWarned,
    second.unitSize.trans first.unitSize⟩

theorem unwarned_write (usual : stride = progress.encoder.unitSize) (frame : List UInt8) :
    progress.Unwarned (progress.write frame stride).1.log
      (progress.write frame stride).1.encoder := by
  have told : (progress.encoder.encodeTo progress.sink frame stride).log.warnings = [] := by
    change (progress.encoder.told (.encodeTo progress.sink frame stride)).warnings = []
    rw [Encoder.told_encodeTo, Encoder.warnings_told_encode, if_neg]
    simp [Encoder.warnsAbout, usual]
  have sameLog : (progress.write frame stride).1.log =
      progress.log ++ (progress.encoder.encodeTo progress.sink frame stride).log := by
    simp only [write]
    split <;> rfl
  refine ⟨?_, ?_, ?_⟩
  · rw [sameLog, Log.warnings_append, told, List.append_nil]
  · rw [encoder_write, Encoder.feed_strideWarned]
    simp [usual]
  · rw [encoder_write, Encoder.feed_unitSize]

theorem unwarned_receive (usual : stride = progress.encoder.unitSize) (piece : List UInt8) :
    progress.Unwarned (progress.receive piece stride).1.log
      (progress.receive piece stride).1.encoder := by
  simp only [receive]
  split
  · exact ⟨rfl, rfl, rfl⟩
  · -- Taking the bytes in changes neither the log nor the encoder.
    let bytes := progress.carried ++ piece
    let received : StreamProgress :=
      { progress with
          carried := bytes.drop (bytes.length - bytes.length % stride)
          bytesIn := progress.bytesIn + piece.length }
    have taken : progress.Unwarned received.log received.encoder := ⟨rfl, rfl, rfl⟩
    exact taken.trans (unwarned_write (show stride = received.encoder.unitSize from usual) _)

theorem unwarned_finish (usual : stride = progress.encoder.unitSize) (source : Source) :
    progress.Unwarned (progress.finish source stride).log
      (progress.finish source stride).encoder := by
  have written := unwarned_write usual []
  simp only [finish]
  by_cases pending : progress.encoder.headerPending
  · simp only [pending, ↓reduceIte]
    split <;> exact ⟨written.warnings, written.strideWarned, written.unitSize⟩
  · simp only [pending, Bool.false_eq_true, ↓reduceIte]
    exact ⟨rfl, rfl, rfl⟩

theorem unwarned_pump (usual : stride = progress.encoder.unitSize) (source : Source) :
    progress.Unwarned (pump stride progress source).log (pump stride progress source).encoder := by
  fun_induction pump stride progress source with
  | case1 progress source after delivered => exact unwarned_finish usual after
  | case2 progress source first rest after delivered _ next onReceive ih =>
      have received := unwarned_receive usual (first :: rest)
      rw [onReceive] at received
      exact received.trans (ih (usual.trans received.unitSize.symm))
  | case3 progress source first rest after delivered _ next error onReceive =>
      have received := unwarned_receive usual (first :: rest)
      rw [onReceive] at received
      exact received
  | case4 progress source after delivered _ ih => exact ih usual
  | case5 progress source failure after delivered => exact ⟨rfl, rfl, rfl⟩

end StreamProgress

/-! ### Calls -/

namespace Encoder

variable (encoder : Encoder)

theorem perform_unitSize (call : EncoderCall) :
    (encoder.perform call).unitSize = encoder.unitSize := by
  rw [perform_eq_feed, feed_unitSize]

theorem performAll_unitSize (calls : List EncoderCall) :
    (encoder.performAll calls).unitSize = encoder.unitSize := by
  rw [performAll_eq_feed, feed_unitSize]

theorem perform_strideWarned (sized : 0 < encoder.unitSize) (call : EncoderCall) :
    (encoder.perform call).strideWarned =
      (encoder.strideWarned || (call.strangeStride? encoder.unitSize).isSome) := by
  have onFrame (bytes : List UInt8) (stride : Nat) :
      (encoder.feed [{ bytes, stride }]).1.strideWarned = (encoder.strideWarned ||
        ((EncoderCall.encode bytes stride).strangeStride? encoder.unitSize).isSome) := by
    rw [feed_strideWarned, EncoderCall.strangeStride?]
    by_cases zero : stride = 0 <;> by_cases usual : stride = encoder.unitSize <;>
      simp [zero, usual]
  cases call with
  | encode bytes stride =>
      rw [perform_eq_feed]
      exact onFrame bytes stride
  | encodeTo sink bytes stride =>
      rw [perform_eq_feed]
      exact onFrame bytes stride
  | convert source sink =>
      have usual : max encoder.unitSize 1 = encoder.unitSize := Nat.max_eq_left sized
      have unwarned : StreamProgress.Unwarned { encoder, sink } _ _ :=
        StreamProgress.unwarned_pump usual source
      rw [EncoderCall.strangeStride?, Option.isSome_none, Bool.or_false]
      exact unwarned.strideWarned

theorem warnings_told (sized : 0 < encoder.unitSize) (call : EncoderCall) :
    (encoder.told call).warnings =
      match call.strangeStride? encoder.unitSize with
      | none => []
      | some stride => if encoder.strideWarned then [] else [encoder.strideWarning stride] := by
  have onFrame (bytes : List UInt8) (stride : Nat) :
      (encoder.told (.encode bytes stride)).warnings =
        match (EncoderCall.encode bytes stride).strangeStride? encoder.unitSize with
        | none => []
        | some stride => if encoder.strideWarned then [] else [encoder.strideWarning stride] := by
    rw [warnings_told_encode, EncoderCall.strangeStride?]
    by_cases zero : stride = 0 <;> by_cases usual : stride = encoder.unitSize <;>
      cases warned : encoder.strideWarned <;> simp [warnsAbout, zero, usual, warned]
  cases call with
  | encode bytes stride => exact onFrame bytes stride
  | encodeTo sink bytes stride =>
      rw [told_encodeTo]
      exact onFrame bytes stride
  | convert source sink =>
      have usual : max encoder.unitSize 1 = encoder.unitSize := Nat.max_eq_left sized
      have unwarned : StreamProgress.Unwarned { encoder, sink } _ _ :=
        StreamProgress.unwarned_pump usual source
      exact unwarned.warnings

/-- While no call has a strange stride, and once it was warned about one, nothing is warned
about. -/
theorem warnings_toldAll_of_quiet (sized : 0 < encoder.unitSize) {calls : List EncoderCall}
    (quiet : encoder.strideWarned = true ∨
      ∀ call ∈ calls, call.strangeStride? encoder.unitSize = none) :
    (encoder.toldAll calls).map Log.warnings = List.replicate calls.length [] := by
  induction calls generalizing encoder with
  | nil => rfl
  | cons call rest ih =>
      have sameSize := encoder.perform_unitSize call
      have quietHere : (encoder.told call).warnings = [] := by
        rw [encoder.warnings_told sized]
        rcases quiet with warned | usual
        · cases call.strangeStride? encoder.unitSize <;> simp [warned]
        · rw [usual call List.mem_cons_self]
      have quietLater : (encoder.perform call).strideWarned = true ∨
          ∀ later ∈ rest, later.strangeStride? (encoder.perform call).unitSize = none := by
        rcases quiet with warned | usual
        · left
          rw [encoder.perform_strideWarned sized, warned, Bool.true_or]
        · right
          rw [sameSize]
          exact fun later member => usual later (List.mem_cons_of_mem call member)
      rw [toldAll, List.map_cons, quietHere, ih _ (sameSize ▸ sized) quietLater, List.length_cons,
        List.replicate_succ]

/-- The first call with a strange stride is warned about, and no other call. -/
theorem warnings_toldAll_of_strange (sized : 0 < encoder.unitSize)
    (unwarned : encoder.strideWarned = false) {before after : List EncoderCall} {call : EncoderCall}
    {stride : Nat} (strange : call.strangeStride? encoder.unitSize = some stride)
    (first : ∀ earlier ∈ before, earlier.strangeStride? encoder.unitSize = none) :
    (encoder.toldAll (before ++ call :: after)).map Log.warnings =
      List.replicate before.length [] ++
        [encoder.strideWarning stride] :: List.replicate after.length [] := by
  induction before generalizing encoder with
  | nil =>
      have warned : (encoder.perform call).strideWarned = true := by
        rw [encoder.perform_strideWarned sized, strange, Option.isSome_some, Bool.or_true]
      have later : ((encoder.perform call).toldAll after).map Log.warnings =
          List.replicate after.length [] :=
        warnings_toldAll_of_quiet _ (encoder.perform_unitSize call ▸ sized) (Or.inl warned)
      rw [List.nil_append, toldAll, List.map_cons, later, encoder.warnings_told sized, strange]
      simp [unwarned]
  | cons earlier rest ih =>
      have sameSize := encoder.perform_unitSize earlier
      have usual := first earlier List.mem_cons_self
      have stillUnwarned : (encoder.perform earlier).strideWarned = false := by
        rw [encoder.perform_strideWarned sized, usual, unwarned, Option.isSome_none, Bool.or_false]
      have later := ih (encoder.perform earlier) (sameSize ▸ sized) stillUnwarned
        (sameSize ▸ strange)
        (sameSize ▸ fun other member => first other (List.mem_cons_of_mem earlier member))
      have sameWarning : (encoder.perform earlier).strideWarning stride =
          encoder.strideWarning stride := by
        rw [strideWarning, strideWarning, sameSize]
      rw [List.cons_append, toldAll, List.map_cons, later, encoder.warnings_told sized, usual,
        sameWarning]
      rfl

/-- Samples of another size count for what is left of them in the unit size, whatever calls came
before and whatever these left in the scratch buffer. Of the calls with a strange stride the first
one is warned about. -/
theorem resized_samples_suffice {capture : Capture} {options : EncoderOptions} {encoder : Encoder}
    (accepted : (create capture options).1 = .ok encoder) (sized : 0 < encoder.unitSize) :
    (∀ calls bytes stride, 0 < stride →
      let current := encoder.performAll calls
      let samples := Sample.ofFrame stride bytes
      let resized := samples.flatMap fun sample =>
        sample.take encoder.unitSize ++ List.replicate (encoder.unitSize - sample.length) 0
      ∃ strange usual blocks memory earlier,
        current.encode bytes stride = .ok strange ∧
        current.encode resized encoder.unitSize = .ok usual ∧
        strange.text = usual.text ∧
        strange.encoder.AgreesButForWarning usual.encoder ∧
        strange.text = current.header.getD "" ++ String.join (blocks.map Block.text) ∧
        (Memory.blank encoder.unitSize).takeAll? encoder
          ((encoder.framesOfAll calls).flatMap Frame.samples) = some (memory, earlier) ∧
        ∀ leftover : Sample, leftover.length = encoder.unitSize →
          ∃ after, { memory with scratch := leftover }.takeAll? current samples =
              some (after, blocks) ∧
            after.Mirrors strange.encoder) ∧
    (∀ before call after stride, call.strangeStride? encoder.unitSize = some stride →
      (∀ earlier ∈ before, earlier.strangeStride? encoder.unitSize = none) →
      (encoder.toldAll (before ++ call :: after)).map Log.warnings =
        List.replicate before.length [] ++
          [encoder.strideWarning stride] :: List.replicate after.length []) ∧
    ∀ calls, (∀ call ∈ calls, call.strangeStride? encoder.unitSize = none) →
      (encoder.toldAll calls).map Log.warnings = List.replicate calls.length [] := by
  have unwarned : encoder.strideWarned = false := by
    rcases create_eq_ok accepted with ⟨_, _, isFresh⟩
    rw [isFresh]
    rfl
  refine ⟨?_, ?_, ?_⟩
  · intro calls bytes stride positive current samples resized
    have sameSize : current.unitSize = encoder.unitSize := encoder.performAll_unitSize calls
    rcases current.encode_of_pos bytes positive with ⟨_, strangeEncoded⟩
    rcases current.encode_of_pos resized sized with ⟨_, usualEncoded⟩
    have same := current.frame_resize (sameSize ▸ sized) bytes stride
    rw [sameSize] at same
    rcases exists_memory_performAll accepted calls with ⟨memory, taken, mirrors⟩
    refine ⟨_, _, (current.advance samples).2, memory, _, strangeEncoded, usualEncoded, same.1,
      same.2, rfl, taken, ?_⟩
    intro leftover enough
    rw [← sameSize] at enough
    rcases (mirrors.withScratch enough).takeAll? samples with ⟨after, takenHere, mirrorsAfter⟩
    exact ⟨after, takenHere, mirrorsAfter.withBooks _ _ _⟩
  · intro before call after stride strange first
    exact encoder.warnings_toldAll_of_strange sized unwarned strange first
  · intro calls usual
    exact encoder.warnings_toldAll_of_quiet sized (Or.inr usual)

end Encoder

/-- After a narrow and a wide sample, samples of three bytes, and the warnings about such calls. -/
theorem resized_samples_suffice_clockAndBus :
    (Encoder.create clockAndBus clockAndBusOptions).1 = .ok clockAndBusEncoder ∧
      0 < clockAndBusEncoder.unitSize ∧
      (∃ strange usual,
        (clockAndBusEncoder.performAll [.encode [6] 1, .encode [1, 9, 9] 3]).encode
          [6, 9, 9, 1, 0, 7, 5] 3 = .ok strange ∧
        (clockAndBusEncoder.performAll [.encode [6] 1, .encode [1, 9, 9] 3]).encode
          [6, 9, 1, 0] 2 = .ok usual ∧
        strange.text = usual.text ∧ strange.encoder.AgreesButForWarning usual.encoder) ∧
      (clockAndBusEncoder.toldAll
        [.encode [6, 0] 2, .encode [7] 0, .encode [6] 1, .encode [1, 9, 9] 3]).map Log.warnings =
          [[], [], [clockAndBusEncoder.strideWarning 1], []] := by
  rcases Encoder.resized_samples_suffice clockAndBus_accepted (by decide) with
    ⟨suffice, warned, _⟩
  rcases suffice [.encode [6] 1, .encode [1, 9, 9] 3] [6, 9, 9, 1, 0, 7, 5] 3 (by decide) with
    ⟨strange, usual, _, _, _, strangeEncoded, usualEncoded, sameText, sameState, _⟩
  exact ⟨clockAndBus_accepted, by decide,
    ⟨strange, usual, strangeEncoded, usualEncoded, sameText, sameState⟩,
    warned [.encode [6, 0] 2, .encode [7] 0] (.encode [6] 1) [.encode [1, 9, 9] 3] 1 rfl
      (by decide)⟩

end WaveDump
