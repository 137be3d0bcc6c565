import WaveDump.Proofs.StreamConversion
import WaveDump.Word

/-!
# The read buffer

A conversion reads into one buffer of fixed size. A number says how much of it is filled: a read
goes behind that part, the whole samples are encoded where they stand, and what is left of them is
copied to the front. Here every computation on sizes is one on words and every range is checked, so
that a mistake is a fault. There is none: before every read less than a sample is filled, so there
is room, and the loop does what is done with the carried bytes as a list. That there is memory for
the buffer is taken for granted.
-/

namespace WaveDump

/-! ## Checked computations -/

/-- What can go wrong with sizes and ranges. -/
inductive Fault where
  | overflow
  | divisionByZero
  | outOfBounds
deriving DecidableEq, Repr

namespace Checked

def add (first second : Nat) : Except Fault Nat :=
  if first + second ≤ maxWord then .ok (first + second) else .error .overflow

def sub (first second : Nat) : Except Fault Nat :=
  if second ≤ first then .ok (first - second) else .error .overflow

def mul (first second : Nat) : Except Fault Nat :=
  if first * second ≤ maxWord then .ok (first * second) else .error .overflow

def div (first second : Nat) : Except Fault Nat :=
  if second = 0 then .error .divisionByZero else .ok (first / second)

def mod (first second : Nat) : Except Fault Nat :=
  if second = 0 then .error .divisionByZero else .ok (first % second)

/-- The part of a buffer from `start` to before `stop`. -/
def slice (buffer : List UInt8) (start stop : Nat) : Except Fault (List UInt8) :=
  if start ≤ stop ∧ stop ≤ buffer.length then .ok ((buffer.take stop).drop start)
  else .error .outOfBounds

/-- The buffer with a piece in it from `start` on. -/
def store (buffer : List UInt8) (start : Nat) (piece : List UInt8) : Except Fault (List UInt8) :=
  if start + piece.length ≤ buffer.length then
    .ok (buffer.take start ++ piece ++ buffer.drop (start + piece.length))
  else .error .outOfBounds

/-- The buffer with the part from `start` to before `stop` copied to its front. -/
def copyToFront (buffer : List UInt8) (start stop : Nat) : Except Fault (List UInt8) := do
  let piece ← slice buffer start stop
  store buffer 0 piece

variable {buffer piece : List UInt8} {start stop : Nat}

theorem slice_eq (ordered : start ≤ stop) (within : stop ≤ buffer.length) :
    slice buffer start stop = .ok ((buffer.take stop).drop start) :=
  if_pos ⟨ordered, within⟩

theorem length_slice (within : stop ≤ buffer.length) :
    ((buffer.take stop).drop start).length = stop - start := by
  simp only [List.length_drop, List.length_take, Nat.min_eq_left within]

theorem store_eq (fits : start + piece.length ≤ buffer.length) :
    store buffer start piece =
      .ok (buffer.take start ++ piece ++ buffer.drop (start + piece.length)) :=
  if_pos fits

theorem length_store (fits : start + piece.length ≤ buffer.length) :
    (buffer.take start ++ piece ++ buffer.drop (start + piece.length)).length = buffer.length := by
  simp only [List.length_append, List.length_take, List.length_drop]
  omega

theorem take_store (fits : start + piece.length ≤ buffer.length) :
    (buffer.take start ++ piece ++ buffer.drop (start + piece.length)).take
      (start + piece.length) = buffer.take start ++ piece := by
  have filled : (buffer.take start ++ piece).length = start + piece.length := by
    simp only [List.length_append, List.length_take]
    omega
  exact List.take_left' filled

theorem copyToFront_eq (ordered : start ≤ stop) (within : stop ≤ buffer.length) :
    copyToFront buffer start stop =
      .ok ((buffer.take stop).drop start ++ buffer.drop (stop - start)) := by
  have fits : 0 + ((buffer.take stop).drop start).length ≤ buffer.length := by
    simp only [length_slice within]
    omega
  simp only [copyToFront, slice_eq ordered within, bind, Except.bind, store_eq fits,
    length_slice within, List.take_zero, List.nil_append, Nat.zero_add]

theorem add_eq (isWord : start + stop ≤ maxWord) : add start stop = .ok (start + stop) :=
  if_pos isWord

theorem sub_eq (ordered : start ≤ stop) : sub stop start = .ok (stop - start) :=
  if_pos ordered

theorem mul_eq (isWord : start * stop ≤ maxWord) : mul start stop = .ok (start * stop) :=
  if_pos isWord

theorem div_eq (positive : 0 < stop) : div start stop = .ok (start / stop) :=
  if_neg (by omega)

theorem mod_eq (positive : 0 < stop) : mod start stop = .ok (start % stop) :=
  if_neg (by omega)

end Checked

/-! ## The loop -/

/-- The state of the loop between two reads. -/
structure ReadLoop where
  buffer : List UInt8
  filled : Nat
  progress : StreamProgress

/-- What happened in one turn of the loop: how many bytes had been read and how many of them were
still in the buffer, the room that the read was offered, what it returned, and the frame that was
encoded, if one was. -/
structure Turn where
  received : Nat
  filled : Nat
  room : Nat
  source : Source
  delivery : Delivery
  frame : Option (List UInt8) := none

inductive Outlook where
  | goesOn (loop : ReadLoop) (source : Source)
  | ends (report : StreamReport)

namespace ReadLoop

open Checked

/-- The progress with the filled part of the buffer as the carried bytes. -/
def view (loop : ReadLoop) : StreamProgress :=
  { loop.progress with carried := loop.buffer.take loop.filled }

/-- Takes a piece that was read: encodes the whole samples in the buffer, if there are any, and
copies the rest to its front. -/
def receive (stride : Nat) (loop : ReadLoop) (piece : List UInt8) :
    Except Fault (Option (List UInt8) × ReadLoop × Option EncodeError) := do
  let buffer ← store loop.buffer loop.filled piece
  let filled ← add loop.filled piece.length
  let part ← mod filled stride
  let whole ← sub filled part
  let progress := { loop.progress with bytesIn := loop.progress.bytesIn + piece.length }
  if 0 < whole then
    let frame ← slice buffer 0 whole
    match progress.write frame stride with
    | (written, some error) => .ok (some frame, { buffer, filled, progress := written }, some error)
    | (written, none) =>
      let buffer ← copyToFront buffer whole filled
      let filled ← sub filled whole
      .ok (some frame, { buffer, filled, progress := written }, none)
  else
    .ok (none, { buffer, filled, progress }, none)

def turn (stride : Nat) (loop : ReadLoop) (source : Source) : Except Fault (Turn × Outlook) := do
  let offered ← slice loop.buffer loop.filled loop.buffer.length
  let (delivery, after) := source.read offered.length
  let begun : Turn := {
    received := loop.progress.bytesIn, filled := loop.filled, room := offered.length, source,
    delivery }
  match delivery with
  | .bytes [] => .ok (begun, .ends (loop.view.finish after stride))
  | .bytes piece => do
    let (frame, received, error) ← loop.receive stride piece
    match error with
    | none => .ok ({ begun with frame }, .goesOn received after)
    | some error =>
      .ok ({ begun with frame }, .ends (received.progress.close after (.error (.encode error))))
  | .interrupted => .ok (begun, .goesOn loop after)
  | .failed failure => .ok (begun, .ends (loop.progress.close after (.error (.io failure))))

variable {stride : Nat} {loop : ReadLoop} {source : Source}

theorem remaining_lt_of_turn {turn : Turn} {next : ReadLoop} {after : Source}
    (turned : loop.turn stride source = .ok (turn, .goesOn next after)) :
    after.remaining < source.remaining := by
  simp only [ReadLoop.turn] at turned
  rcases sliced : slice loop.buffer loop.filled loop.buffer.length with fault | offered
  · simp [sliced, bind, Except.bind] at turned
  · rcases delivered : source.read offered.length with ⟨delivery, left⟩
    simp only [sliced, delivered, bind, Except.bind] at turned
    cases delivery with
    | bytes piece =>
        cases piece with
        | nil => simp at turned
        | cons first rest =>
            have shorter := Source.remaining_lt_of_read delivered (by simp)
            rcases received : loop.receive stride (first :: rest) with
              fault | ⟨frame, kept, _ | error⟩
            · simp [received] at turned
            · simp only [received, Except.ok.injEq, Prod.mk.injEq, Outlook.goesOn.injEq] at turned
              simpa only [← turned.2.2] using shorter
            · simp [received] at turned
    | interrupted =>
        have shorter := Source.remaining_lt_of_read delivered (by simp)
        simp only [Except.ok.injEq, Prod.mk.injEq, Outlook.goesOn.injEq] at turned
        simpa only [← turned.2.2] using shorter
    | failed failure => simp at turned

/-- Turns until the input ends or something fails, with what happened in each of them. -/
def run (stride : Nat) (loop : ReadLoop) (source : Source) :
    Except Fault (List Turn × StreamReport) :=
  match turned : loop.turn stride source with
  | .error fault => .error fault
  | .ok (turn, .ends report) => .ok ([turn], report)
  | .ok (turn, .goesOn next after) =>
    have _shorter := remaining_lt_of_turn turned
    match run stride next after with
    | .error fault => .error fault
    | .ok (turns, report) => .ok (turn :: turns, report)
termination_by source.remaining

end ReadLoop

/-- The conversion of a stream with sizes that are words and with a buffer whose ranges are
checked. -/
def convertStreamChecked (encoder : Encoder) (source : Source) (sink : Sink) :
    Except Fault (List Turn × StreamReport) := do
  let stride := max encoder.unitSize 1
  let samples ← Checked.div blockSize stride
  let size ← Checked.mul (max samples 1) stride
  ReadLoop.run stride
    { buffer := List.replicate size 0, filled := 0, progress := { encoder, sink } } source

/-! ## No faults -/

/-- Writing a frame leaves the carried bytes alone, and does not look at them. -/
theorem StreamProgress.write_carried (progress : StreamProgress) (carried frame : List UInt8)
    (stride : Nat) :
    { progress with carried }.write frame stride =
      ({ (progress.write frame stride).1 with carried }, (progress.write frame stride).2) := by
  simp only [write]
  split <;> rfl

theorem Source.ended_of_fetch {source after : Source} {room : Nat} (offered : 0 < room)
    (fetched : source.fetch room = (.bytes [], after)) :
    source.data = [] ∨ source.script.head? = some (.atMost 0) := by
  unfold fetch at fetched
  split at fetched <;>
    simp only [Prod.mk.injEq, Delivery.bytes.injEq, reduceCtorEq, false_and] at fetched
  · have nothing := List.take_eq_nil_iff.mp fetched.1
    exact .inl (nothing.resolve_left (by omega))
  · rename_i limit rest scripted
    rcases List.take_eq_nil_iff.mp fetched.1 with nothing | nothing
    · have noLimit : limit = 0 := by omega
      simp only [scripted, noLimit, List.head?_cons]
      exact .inr trivial
    · exact .inl nothing

/-- A read of no bytes with room for some means the end of the input: nothing is pending, or the
call at the bottom says so. -/
theorem Source.ended_of_read {source after : Source} {room : Nat} (offered : 0 < room)
    (delivered : source.read room = (.bytes [], after)) :
    source.pending = [] ∨ source.script.head? = some (.atMost 0) := by
  unfold read at delivered
  split at delivered
  · rename_i inHand
    simp only [serve, Prod.mk.injEq, Delivery.bytes.injEq] at delivered
    have noneHeld := (List.take_eq_nil_iff.mp delivered.1).resolve_left (by omega)
    simp [noneHeld] at inHand
  · rename_i notInHand
    have noneHeld : source.held = [] := by simpa using notInHand
    simp only [pending, noneHeld, List.nil_append]
    split at delivered
    · exact ended_of_fetch offered delivered
    · rename_i size _
      split at delivered
      · exact ended_of_fetch offered delivered
      · rename_i small
        rcases fetched : source.fetch size with ⟨piece | _ | failure, left⟩
        · simp only [fetched, serve, Prod.mk.injEq, Delivery.bytes.injEq] at delivered
          have nothing := (List.take_eq_nil_iff.mp delivered.1).resolve_left (by omega)
          subst nothing
          exact ended_of_fetch (by omega) fetched
        · simp [fetched] at delivered
        · simp [fetched] at delivered

/-- The bytes that have been read and those that are still to come. -/
def Turn.total (turn : Turn) : Nat :=
  turn.received + turn.source.pending.length

/-- What a turn must be like for the loop to be right. -/
structure Turn.Safe (turn : Turn) (stride : Nat) : Prop where
  short : turn.filled < stride
  offered : 0 < turn.room
  room : turn.filled + turn.room = bufferSize stride
  ended : turn.delivery = .bytes [] →
    turn.source.pending = [] ∨ turn.source.script.head? = some (.atMost 0)
  frames : ∀ frame ∈ turn.frame, frame ≠ [] ∧ stride ∣ frame.length ∧
    frame.length ≤ bufferSize stride

namespace ReadLoop

open Checked

/-- What holds between two reads. -/
structure Sound (loop : ReadLoop) (stride : Nat) : Prop where
  size : loop.buffer.length = bufferSize stride
  short : loop.filled < stride

variable {stride : Nat} {loop : ReadLoop}

/-- The buffer when a piece has been read into it. -/
def stored (loop : ReadLoop) (piece : List UInt8) : List UInt8 :=
  loop.buffer.take loop.filled ++ piece ++ loop.buffer.drop (loop.filled + piece.length)

/-- Receiving without the checks, none of which fails. -/
theorem Sound.receive_eq (sound : loop.Sound stride) (isWord : bufferSize stride ≤ maxWord)
    {piece : List UInt8} (within : loop.filled + piece.length ≤ bufferSize stride) :
    loop.receive stride piece =
      let filled := loop.filled + piece.length
      let whole := filled - filled % stride
      let progress := { loop.progress with bytesIn := loop.progress.bytesIn + piece.length }
      let frame := ((loop.stored piece).take filled).take whole
      if 0 < whole then
        match progress.write frame stride with
        | (written, some error) =>
          .ok (some frame, { buffer := loop.stored piece, filled, progress := written }, some error)
        | (written, none) =>
          let buffer := ((loop.stored piece).take filled).drop whole ++
            (loop.stored piece).drop (filled - whole)
          .ok (some frame, { buffer, filled := filled - whole, progress := written }, none)
      else
        .ok (none, { buffer := loop.stored piece, filled, progress }, none) := by
  have positive := Nat.zero_lt_of_lt sound.short
  have fits : loop.filled + piece.length ≤ loop.buffer.length := by
    simp only [sound.size, within]
  have length : (loop.stored piece).length = loop.buffer.length := length_store fits
  have partWithin := Nat.mod_le (loop.filled + piece.length) stride
  have wholeWithin :=
    Nat.sub_le (loop.filled + piece.length) ((loop.filled + piece.length) % stride)
  have filledWithin : loop.filled + piece.length ≤ (loop.stored piece).length := by
    simp only [length, fits]
  have frameSlice := slice_eq (Nat.zero_le _) (wholeWithin.trans filledWithin)
  have isStored : store loop.buffer loop.filled piece = .ok (loop.stored piece) := store_eq fits
  simp only [ReadLoop.receive, isStored, add_eq (within.trans isWord), mod_eq positive,
    sub_eq partWithin, sub_eq wholeWithin, frameSlice, copyToFront_eq wholeWithin filledWithin,
    List.take_take, Nat.min_eq_left wholeWithin, List.drop_zero, bind, Except.bind]

theorem Sound.length_stored (sound : loop.Sound stride) {piece : List UInt8}
    (within : loop.filled + piece.length ≤ bufferSize stride) :
    (loop.stored piece).length = bufferSize stride := by
  have fits : loop.filled + piece.length ≤ loop.buffer.length := by
    simp only [sound.size, within]
  exact (length_store fits).trans sound.size

/-- The carried bytes and the piece fill the front of the buffer. -/
theorem Sound.take_stored (sound : loop.Sound stride) {piece : List UInt8}
    (within : loop.filled + piece.length ≤ bufferSize stride) :
    (loop.stored piece).take (loop.filled + piece.length) = loop.view.carried ++ piece := by
  have fits : loop.filled + piece.length ≤ loop.buffer.length := by
    simp only [sound.size, within]
  exact take_store fits

/-- Receiving in the buffer does what is done with the carried bytes as a list. -/
theorem Sound.receive (sound : loop.Sound stride) (isWord : bufferSize stride ≤ maxWord)
    {piece : List UInt8} (within : loop.filled + piece.length ≤ bufferSize stride) :
    ∃ frame received, loop.receive stride piece =
        .ok (frame, received, (loop.view.receive piece stride).2) ∧
      (∀ given ∈ frame, given ≠ [] ∧ stride ∣ given.length ∧ given.length ≤ bufferSize stride) ∧
      { received.progress with carried := (loop.view.receive piece stride).1.carried } =
        (loop.view.receive piece stride).1 ∧
      ((loop.view.receive piece stride).2 = none →
        received.Sound stride ∧ received.view = (loop.view.receive piece stride).1) := by
  have positive := Nat.zero_lt_of_lt sound.short
  have length := sound.length_stored within
  have front := sound.take_stored within
  have counted : (loop.view.carried ++ piece).length = loop.filled + piece.length := by
    simp only [← front, List.length_take, length, Nat.min_eq_left within]
  have remainder := Nat.mod_lt (loop.filled + piece.length) positive
  have partWithin := Nat.mod_le (loop.filled + piece.length) stride
  simp only [sound.receive_eq isWord within, StreamProgress.receive, counted, front]
  by_cases noWhole : loop.filled + piece.length - (loop.filled + piece.length) % stride = 0
  · simp only [noWhole, Nat.lt_irrefl, ↓reduceIte, List.drop_zero]
    refine ⟨_, _, rfl, by simp, rfl, fun _ => ⟨⟨length, by simp only; omega⟩, ?_⟩⟩
    simp only [view, front]
  · have someWhole := Nat.pos_of_ne_zero noWhole
    simp only [someWhole, noWhole, ↓reduceIte]
    generalize isWhole :
      loop.filled + piece.length - (loop.filled + piece.length) % stride = whole at *
    have wholeWithin : whole ≤ (loop.view.carried ++ piece).length := by omega
    have frameLength : ((loop.view.carried ++ piece).take whole).length = whole :=
      List.length_take_of_le wholeWithin
    have aligned : stride ∣ whole := isWhole ▸ Nat.dvd_sub_mod _
    have frameFits : ∀ given ∈ some ((loop.view.carried ++ piece).take whole),
        given ≠ [] ∧ stride ∣ given.length ∧ given.length ≤ bufferSize stride := by
      rintro given ⟨⟩
      refine ⟨List.ne_nil_of_length_pos (by omega), by rwa [frameLength], by omega⟩
    have viewed : ({ loop.view with
        carried := (loop.view.carried ++ piece).drop whole
        bytesIn := loop.view.bytesIn + piece.length } : StreamProgress).write
          ((loop.view.carried ++ piece).take whole) stride = _ :=
      StreamProgress.write_carried
        { loop.progress with bytesIn := loop.progress.bytesIn + piece.length } _ _ stride
    rcases wrote : StreamProgress.write
      { loop.progress with bytesIn := loop.progress.bytesIn + piece.length }
      ((loop.view.carried ++ piece).take whole) stride with ⟨written, _ | error⟩
    · simp only [wrote] at viewed
      simp only [viewed]
      refine ⟨_, _, rfl, frameFits, rfl, fun _ => ⟨⟨?_, ?_⟩, ?_⟩⟩
      · simp only [List.length_append, List.length_drop, counted, length]
        omega
      · simp only
        omega
      · have rest : ((loop.view.carried ++ piece).drop whole).length =
            loop.filled + piece.length - whole := by
          simp only [List.length_drop, counted]
        rw [view, List.take_left' rest]
    · simp only [wrote] at viewed
      simp only [viewed]
      exact ⟨_, _, rfl, frameFits, rfl, by simp⟩

theorem bytesIn_receive (progress : StreamProgress) (piece : List UInt8) (stride : Nat) :
    (progress.receive piece stride).1.bytesIn = progress.bytesIn + piece.length := by
  simp only [StreamProgress.receive]
  split
  · rfl
  · simp only [StreamProgress.write]
    split <;> rfl

theorem Sound.filled_le (sound : loop.Sound stride) : loop.filled ≤ bufferSize stride := by
  have room := room_pos (show (List.replicate loop.filled 0).length < stride by
    simpa only [List.length_replicate] using sound.short)
  simp only [List.length_replicate] at room
  omega

theorem Sound.length_carried (sound : loop.Sound stride) :
    loop.view.carried.length = loop.filled := by
  simp only [view, List.length_take, sound.size, Nat.min_eq_left sound.filled_le]

/-- A turn has no fault. It ends with what the loop over carried bytes ends with, or it goes on with
what that loop goes on with. -/
theorem Sound.turn (sound : loop.Sound stride) (isWord : bufferSize stride ≤ maxWord)
    (source : Source) :
    ∃ turn outlook, loop.turn stride source = .ok (turn, outlook) ∧ turn.Safe stride ∧
      turn.total = loop.progress.bytesIn + source.pending.length ∧
      match outlook with
      | .goesOn next after =>
        next.Sound stride ∧ pump stride loop.view source = pump stride next.view after ∧
          next.progress.bytesIn + after.pending.length =
            loop.progress.bytesIn + source.pending.length
      | .ends report => pump stride loop.view source = report := by
  have filledWithin := sound.filled_le
  have offered := slice_eq (show loop.filled ≤ loop.buffer.length by rwa [sound.size])
    (Nat.le_refl loop.buffer.length)
  have roomLength : ((loop.buffer.take loop.buffer.length).drop loop.filled).length =
      bufferSize stride - loop.filled := by
    rw [length_slice (Nat.le_refl _), sound.size]
  have roomPositive : 0 < bufferSize stride - loop.filled := by
    have room := room_pos (show loop.view.carried.length < stride by
      rw [sound.length_carried]
      exact sound.short)
    rwa [sound.length_carried] at room
  have accounted := source.read_accounts (bufferSize stride - loop.filled)
  have unfolded := pump_eq stride loop.view source
  simp only [sound.length_carried] at unfolded
  rcases delivered : source.read (bufferSize stride - loop.filled) with ⟨delivery, after⟩
  have safe (frame : Option (List UInt8)) (frames : ∀ given ∈ frame, given ≠ [] ∧
      stride ∣ given.length ∧ given.length ≤ bufferSize stride) :
      Turn.Safe ⟨loop.progress.bytesIn, loop.filled, bufferSize stride - loop.filled, source,
        delivery, frame⟩ stride :=
    { short := sound.short
      offered := roomPositive
      room := by simp only; omega
      ended := by
        rintro rfl
        exact Source.ended_of_read roomPositive delivered
      frames := frames }
  simp only [delivered] at accounted unfolded
  simp only [ReadLoop.turn, offered, roomLength, delivered, bind, Except.bind]
  cases delivery with
  | bytes piece =>
      cases piece with
      | nil => exact ⟨_, _, rfl, safe none (by simp), rfl, unfolded⟩
      | cons first rest =>
          have within : loop.filled + (first :: rest).length ≤ bufferSize stride := by
            have fits := accounted.2.1
            omega
          rcases sound.receive isWord within with ⟨frame, next, received, frames, same, goesOn⟩
          simp only [received]
          rcases kept : loop.view.receive (first :: rest) stride with ⟨progress, _ | error⟩
          · simp only [kept] at unfolded goesOn ⊢
            rcases goesOn trivial with ⟨nextSound, viewed⟩
            refine ⟨_, _, rfl, safe frame frames, rfl, nextSound, ?_, ?_⟩
            · simp only [unfolded, viewed]
            · have counted := bytesIn_receive loop.view (first :: rest) stride
              simp only [kept, ← viewed] at counted
              have both := congrArg List.length accounted.1
              simp only [view] at counted
              simp only [List.length_append] at both
              omega
          · simp only [kept] at unfolded same ⊢
            have closes := congrArg (fun ended => ended.close after (.error (.encode error))) same
            exact ⟨_, _, rfl, safe frame frames, rfl, unfolded.trans closes.symm⟩
  | interrupted =>
      have samePending : after.pending = source.pending := accounted
      exact ⟨_, _, rfl, safe none (by simp), rfl, sound, unfolded, by rw [samePending]⟩
  | failed failure => exact ⟨_, _, rfl, safe none (by simp), rfl, unfolded⟩

/-- All turns are without a fault, and there are not more of them than calls and bytes are left. The
induction is along the calls of the source, as the loop goes. -/
theorem Sound.run (sound : loop.Sound stride) (isWord : bufferSize stride ≤ maxWord)
    (source : Source) :
    ∃ turns, loop.run stride source = .ok (turns, pump stride loop.view source) ∧
      (∀ turn ∈ turns, turn.Safe stride ∧
        turn.total = loop.progress.bytesIn + source.pending.length) ∧
      turns.length ≤ source.remaining + 1 := by
  fun_induction ReadLoop.run stride loop source with
  | case1 loop source fault turned =>
      rcases sound.turn isWord source with ⟨turn, outlook, turnedToo, _⟩
      simp [turned] at turnedToo
  | case2 loop source turn report turned =>
      rcases sound.turn isWord source with ⟨same, outlook, turnedToo, safe, total, ends⟩
      simp only [turned, Except.ok.injEq, Prod.mk.injEq] at turnedToo
      rcases turnedToo with ⟨rfl, rfl⟩
      refine ⟨[turn], by rw [ends], ?_, by simp⟩
      simpa using ⟨safe, total⟩
  | case3 loop source turn next after turned _ fault stopped ih =>
      rcases sound.turn isWord source with ⟨same, outlook, turnedToo, _, _, goesOn⟩
      simp only [turned, Except.ok.injEq, Prod.mk.injEq] at turnedToo
      rcases turnedToo with ⟨rfl, rfl⟩
      rcases ih goesOn.1 with ⟨turns, ran, _⟩
      simp [stopped] at ran
  | case4 loop source turn next after turned shorter turns report ran ih =>
      rcases sound.turn isWord source with ⟨same, outlook, turnedToo, safe, total, goesOn⟩
      simp only [turned, Except.ok.injEq, Prod.mk.injEq] at turnedToo
      rcases turnedToo with ⟨rfl, rfl⟩
      rcases goesOn with ⟨nextSound, samePump, sameTotal⟩
      rcases ih nextSound with ⟨others, ranToo, othersSafe, few⟩
      simp only [ran, Except.ok.injEq, Prod.mk.injEq] at ranToo
      rcases ranToo with ⟨rfl, rfl⟩
      simp only [sameTotal] at othersSafe
      refine ⟨turn :: turns, by rw [samePump], ?_, ?_⟩
      · exact List.forall_mem_cons.mpr ⟨⟨safe, total⟩, othersSafe⟩
      · simp only [List.length_cons]
        omega

end ReadLoop

theorem bufferSize_le_maxWord {stride : Nat} (isWord : stride ≤ maxWord) :
    bufferSize stride ≤ maxWord := by
  rcases Nat.eq_zero_or_pos (blockSize / stride) with noSample | someSample
  · simpa only [bufferSize, noSample, Nat.zero_max, Nat.one_mul] using isWord
  · have oneBlock := Nat.div_mul_le_self blockSize stride
    have blockIsWord : blockSize ≤ maxWord := by decide
    simp only [bufferSize, Nat.max_eq_left someSample]
    omega

/-- Reading through the buffer is without faults for every unit size that is a word, every source
and every sink, and does what the conversion does. Before every read less than a sample is filled
and there is room, so that a read of nothing is the end of the input; every frame is made of whole
samples in the buffer. The number of bytes read is never more than there were, and there are not
more turns than calls and bytes, and one more. -/
theorem convertStream_without_faults (encoder : Encoder) (isWord : encoder.unitSize ≤ maxWord)
    (source : Source) (sink : Sink) :
    ∃ turns,
      convertStreamChecked encoder source sink =
        .ok (turns, convertStream encoder source sink) ∧
      (∀ turn ∈ turns, turn.Safe (max encoder.unitSize 1) ∧ turn.total = source.pending.length) ∧
      turns.length ≤ source.remaining + 1 := by
  have positive : 0 < max encoder.unitSize 1 :=
    Nat.lt_of_lt_of_le Nat.one_pos (Nat.le_max_right _ _)
  have strideIsWord : max encoder.unitSize 1 ≤ maxWord := Nat.max_le.mpr ⟨isWord, by decide⟩
  have sizeIsWord := bufferSize_le_maxWord strideIsWord
  have start : ReadLoop.Sound
      { buffer := List.replicate (bufferSize (max encoder.unitSize 1)) 0, filled := 0,
        progress := { encoder, sink } } (max encoder.unitSize 1) :=
    ⟨List.length_replicate, positive⟩
  rcases start.run sizeIsWord source with ⟨turns, ran, safe, few⟩
  simp only [Nat.zero_add] at safe
  refine ⟨turns, ?_, safe, few⟩
  have isSize : Checked.mul (max (blockSize / max encoder.unitSize 1) 1) (max encoder.unitSize 1) =
      .ok (bufferSize (max encoder.unitSize 1)) := Checked.mul_eq sizeIsWord
  simp only [convertStreamChecked, Checked.div_eq positive, isSize, bind, Except.bind]
  exact ran

/-- An encoder whose samples are longer than a block. -/
def longSamples : Encoder :=
  { clockAndBusStarted with unitSize := 70000 }

/-- A source that hands out little at a time and is interrupted. -/
def haltingSource : Source where
  script := [.atMost 3, .interrupted, .atMost 1]
  data := [3, 0, 6, 0, 6, 0, 1]

theorem convertStream_without_faults_longSamples :
    bufferSize longSamples.unitSize = 70000 ∧
    ∃ turns,
      convertStreamChecked longSamples haltingSource {} =
        .ok (turns, convertStream longSamples haltingSource {}) ∧
      (∀ turn ∈ turns, turn.filled < 70000 ∧ turn.filled + turn.room = 70000) ∧
      turns.length ≤ 11 := by
  have size : bufferSize longSamples.unitSize = 70000 := by decide
  rcases convertStream_without_faults longSamples (by decide) haltingSource {} with
    ⟨turns, ran, safe, few⟩
  refine ⟨size, turns, ran, ?_, few⟩
  intro turn member
  have isSafe := (safe turn member).1
  exact ⟨isSafe.short, isSafe.room.trans size⟩

end WaveDump
