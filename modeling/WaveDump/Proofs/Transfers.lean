import WaveDump.Stream.Sink
import WaveDump.Stream.Source

/-!
# What reads and writes amount to

A read moves a piece of what is pending in a source to its reader, whatever blocks are read ahead in
between; a write moves a beginning of a buffer into a sink, whatever is collected in between.
Sources and sinks that proceed, with calls that may be short or interrupted but do not fail, hand
out and take everything in the end.
-/

namespace WaveDump

def Response.Proceeds : Response → Prop
  | .atMost limit => 0 < limit
  | .interrupted => True
  | .fails _ => False

namespace Source

def Proceeds (source : Source) : Prop :=
  ∀ response ∈ source.script, response.Proceeds

def Accounts (source : Source) (room : Nat) (after : Source) : Delivery → Prop
  | .bytes piece =>
    source.pending = piece ++ after.pending ∧ piece.length ≤ room ∧
      (piece = [] → 0 < room → source.Proceeds → source.pending = [])
  | .interrupted => after.pending = source.pending
  | .failed failure => after.pending = source.pending ∧ .fails failure ∈ source.script

variable (source : Source)

theorem script_fetch (room : Nat) : (source.fetch room).2.script <:+ source.script := by
  unfold fetch
  split <;> rename_i scripted <;> simp [scripted]

theorem fetch_accounts (room : Nat) (empty : source.held = []) :
    source.Accounts room (source.fetch room).2 (source.fetch room).1 := by
  unfold fetch
  split <;> rename_i scripted
  · refine ⟨by simp [pending, empty], List.length_take_le _ _, ?_⟩
    intro nothing positive _
    have noData : source.data = [] := (List.take_eq_nil_iff.mp nothing).resolve_left (by omega)
    simp [pending, empty, noData]
  · rename_i limit rest
    refine ⟨by simp [pending, empty], ?_, ?_⟩
    · exact Nat.le_trans (List.length_take_le _ _) (Nat.min_le_right limit room)
    · intro nothing positive proceeds
      have limitPositive : 0 < limit := proceeds (.atMost limit) (by simp [scripted])
      have noData : source.data = [] := (List.take_eq_nil_iff.mp nothing).resolve_left (by omega)
      simp [pending, empty, noData]
  · simp [Accounts, pending, empty]
  · simp [Accounts, pending, empty, scripted]

theorem script_read (room : Nat) : (source.read room).2.script <:+ source.script := by
  unfold read
  split
  · exact List.suffix_refl _
  · split
    · exact source.script_fetch room
    · rename_i size _
      split
      · exact source.script_fetch room
      · have fetched := source.script_fetch size
        split
        · rename_i outcome
          simpa [outcome, serve] using fetched
        · exact fetched

/-- A read neither loses nor repeats a byte, and it comes up empty only at the end of the input. -/
theorem read_accounts (room : Nat) :
    source.Accounts room (source.read room).2 (source.read room).1 := by
  unfold read
  split
  · rename_i inHand
    refine ⟨by simp [serve, pending, ← List.append_assoc], List.length_take_le _ _, ?_⟩
    intro nothing positive _
    have noneHeld : source.held = [] :=
      (List.take_eq_nil_iff.mp nothing).resolve_left (by omega)
    simp [noneHeld] at inHand
  · rename_i notInHand
    have empty : source.held = [] := by simpa using notInHand
    split
    · exact source.fetch_accounts room empty
    · rename_i size _
      split
      · exact source.fetch_accounts room empty
      · rename_i small
        have fetched := source.fetch_accounts size empty
        split
        · rename_i piece after outcome
          have afterEmpty : after.held = [] := by
            rw [(remaining_fetch_bytes outcome).2, empty]
          simp only [outcome, Accounts, pending, afterEmpty, List.nil_append] at fetched
          rcases fetched with ⟨whole, _, endsOnly⟩
          refine ⟨?_, List.length_take_le _ _, ?_⟩
          · simp only [serve, pending, whole, ← List.append_assoc, List.take_append_drop]
          · intro nothing positive proceeds
            have pieceEmpty : piece = [] :=
              (List.take_eq_nil_iff.mp nothing).resolve_left (by omega)
            exact endsOnly pieceEmpty (by omega) proceeds
        · rename_i notBytes
          rcases outcome : source.fetch size with ⟨piece | _ | failure, after⟩
          · exact absurd outcome (notBytes piece after)
          · simpa only [outcome, Accounts] using fetched
          · simpa only [outcome, Accounts] using fetched

/-- What was received and what is pending stay the same together. -/
theorem append_pending {source after : Source} {room : Nat} {piece : List UInt8}
    (accounted : source.Accounts room after (.bytes piece)) (received : List UInt8) :
    received ++ source.pending = received ++ piece ++ after.pending := by
  rw [accounted.1, List.append_assoc]

theorem Proceeds.after_read {source : Source} (proceeds : source.Proceeds) (room : Nat) :
    (source.read room).2.Proceeds := by
  intro response responseMem
  exact proceeds response ((source.script_read room).subset responseMem)

end Source

namespace Sink

def Accounts (sink : Sink) (buffer : List UInt8) (after : Sink) : Acceptance → Prop
  | .took count =>
    count ≤ buffer.length ∧ after.content = sink.content ++ buffer.take count
  | .interrupted => after.content = sink.content
  | .failed _ => after.content = sink.content

/-- The scripted calls proceed, and there is room for a number of bytes. -/
structure Takes (sink : Sink) (count : Nat) : Prop where
  proceeds : ∀ response ∈ sink.script, response.Proceeds
  roomy : ∀ room, sink.room = some room → count ≤ room

variable (sink : Sink)

theorem upTo_initial (limit : Option Nat) (bytes : List UInt8) : upTo limit bytes <+: bytes := by
  cases limit with
  | none => exact List.prefix_rfl
  | some count => exact List.take_prefix count bytes

theorem accept_accounts (limit : Option Nat) (buffer : List UInt8) :
    sink.Accounts buffer (sink.accept limit buffer).2 (sink.accept limit buffer).1 := by
  simp only [accept]
  split
  · split
    · rfl
    · simp [Accounts]
  · have isPrefix : upTo limit (upTo sink.room buffer) <+: buffer :=
      (upTo_initial _ _).trans (upTo_initial _ _)
    refine ⟨isPrefix.length_le, ?_⟩
    rw [← List.prefix_iff_eq_take.mp isPrefix]
    simp [content]

theorem write_accounts (buffer : List UInt8) :
    sink.Accounts buffer (sink.write buffer).2 (sink.write buffer).1 := by
  unfold write
  split
  · exact sink.accept_accounts none buffer
  · exact accept_accounts _ _ buffer
  · rfl
  · rfl

theorem accept_fixed (limit : Option Nat) (buffer : List UInt8) :
    (sink.accept limit buffer).2.held = sink.held ∧
      (sink.accept limit buffer).2.block = sink.block ∧
      (sink.accept limit buffer).2.hasher = sink.hasher := by
  simp only [accept]
  split
  · split <;> exact ⟨rfl, rfl, rfl⟩
  · exact ⟨rfl, rfl, rfl⟩

theorem write_fixed (buffer : List UInt8) :
    (sink.write buffer).2.held = sink.held ∧ (sink.write buffer).2.block = sink.block ∧
      (sink.write buffer).2.hasher = sink.hasher := by
  unfold write
  split
  · exact sink.accept_fixed none buffer
  · exact accept_fixed _ _ buffer
  · exact ⟨rfl, rfl, rfl⟩
  · exact ⟨rfl, rfl, rfl⟩

/-- With room for the buffer and more, an acceptance takes some of it and leaves room for the rest
and more. -/
theorem Takes.accept {sink : Sink} {buffer : List UInt8} {more : Nat}
    (takes : sink.Takes (buffer.length + more)) (nonempty : buffer ≠ []) (limit : Option Nat)
    (limitPositive : ∀ count, limit = some count → 0 < count) :
    ∃ count, 0 < count ∧ (sink.accept limit buffer).1 = .took count ∧
      (sink.accept limit buffer).2.Takes (buffer.length - count + more) := by
  have positive : 0 < buffer.length := List.length_pos_iff.mpr nonempty
  have fits : upTo sink.room buffer = buffer := by
    cases limited : sink.room with
    | none => rfl
    | some room =>
        have enough := takes.roomy room limited
        exact List.take_of_length_le (by omega)
  have someTaken : 0 < (upTo limit buffer).length := by
    cases limit with
    | none => exact positive
    | some count =>
        have countPositive := limitPositive count rfl
        simp only [upTo, List.length_take]
        omega
  have notEmpty : (upTo limit buffer).isEmpty = false := by
    simpa using List.length_pos_iff.mp someTaken
  simp only [Sink.accept, fits, notEmpty, Bool.false_eq_true, ↓reduceIte]
  refine ⟨(upTo limit buffer).length, someTaken, rfl, takes.proceeds, ?_⟩
  intro room limited
  rcases Option.map_eq_some_iff.mp limited with ⟨before, beforeRoom, rfl⟩
  have enough := takes.roomy before beforeRoom
  have shorter := (upTo_initial limit buffer).length_le
  omega

theorem Takes.write {sink : Sink} {buffer : List UInt8} {more : Nat}
    (takes : sink.Takes (buffer.length + more)) (nonempty : buffer ≠ []) :
    (∃ count after, sink.write buffer = (.took (count + 1), after) ∧
        after.Takes (buffer.length - (count + 1) + more)) ∨
      ∃ after, sink.write buffer = (.interrupted, after) ∧ after.Takes (buffer.length + more) := by
  unfold Sink.write
  split
  · rcases takes.accept nonempty none (by simp) with ⟨count, positive, taken, after⟩
    obtain ⟨before, rfl⟩ := Nat.exists_eq_add_one.mpr positive
    exact Or.inl ⟨before, _, Prod.ext taken rfl, after⟩
  · rename_i limit rest scripted
    have limitPositive : 0 < limit := takes.proceeds (.atMost limit) (by simp [scripted])
    have takesNext : { sink with script := rest }.Takes (buffer.length + more) :=
      ⟨fun response responseMem => takes.proceeds response (by simp [scripted, responseMem]),
        takes.roomy⟩
    rcases takesNext.accept nonempty (some limit) (by simpa using limitPositive) with
      ⟨count, positive, taken, after⟩
    obtain ⟨before, rfl⟩ := Nat.exists_eq_add_one.mpr positive
    exact Or.inl ⟨before, _, Prod.ext taken rfl, after⟩
  · rename_i rest scripted
    refine Or.inr ⟨_, rfl, ?_, takes.roomy⟩
    exact fun response responseMem => takes.proceeds response (by simp [scripted, responseMem])
  · rename_i failure rest scripted
    exact (takes.proceeds (.fails failure) (by simp [scripted])).elim

/-! ## Repeated calls -/

/-- If every call on a sink that can take a buffer takes some of it or is interrupted, and the sink
can then take the rest, the repeated call takes all of it. -/
theorem Call.all_ok {call : Call} {Can : Sink → Nat → Prop}
    (step : ∀ {sink : Sink} {buffer : List UInt8} {more : Nat},
      Can sink (buffer.length + more) → buffer ≠ [] →
        (∃ count after, call.run sink buffer = (.took (count + 1), after) ∧
          Can after (buffer.length - (count + 1) + more)) ∨
        ∃ after, call.run sink buffer = (.interrupted, after) ∧ Can after (buffer.length + more))
    {sink : Sink} {buffer : List UInt8} {more : Nat} (can : Can sink (buffer.length + more)) :
    (call.all sink buffer).1 = .ok () ∧ Can (call.all sink buffer).2 more := by
  fun_induction Call.all call sink buffer with
  | case1 sink buffer empty =>
      have isEmpty : buffer = [] := by simpa using empty
      simpa [isEmpty] using can
  | case2 sink buffer nonempty after called =>
      rcases step can (by simpa using nonempty) with ⟨_, _, other, _⟩ | ⟨_, other, _⟩ <;>
        simp [called] at other
  | case3 sink buffer nonempty count after called ih =>
      rcases step can (by simpa using nonempty) with ⟨_, _, same, left⟩ | ⟨_, other, _⟩
      · simp only [called, Prod.mk.injEq, Acceptance.took.injEq] at same
        rcases same with ⟨sameCount, rfl⟩
        exact ih (by simpa [← sameCount] using left)
      · simp [called] at other
  | case4 sink buffer nonempty after called ih =>
      rcases step can (by simpa using nonempty) with ⟨_, _, other, _⟩ | ⟨_, same, left⟩
      · simp [called] at other
      · simp only [called, Prod.mk.injEq, true_and] at same
        subst same
        exact ih left
  | case5 sink buffer nonempty failure after called =>
      rcases step can (by simpa using nonempty) with ⟨_, _, other, _⟩ | ⟨_, other, _⟩ <;>
        simp [called] at other

theorem Takes.passAll {sink : Sink} {buffer : List UInt8} {more : Nat}
    (takes : sink.Takes (buffer.length + more)) :
    (sink.passAll buffer).1 = .ok () ∧ (sink.passAll buffer).2.Takes more :=
  passing.all_ok Takes.write takes

/-- Passing on a buffer moves a beginning of it, and all of it exactly when that succeeds. -/
theorem passAll_accounts (buffer : List UInt8) :
    ∃ piece rest, buffer = piece ++ rest ∧
      (sink.passAll buffer).2.content = sink.content ++ piece ∧
      ((sink.passAll buffer).1 = .ok () ↔ rest = []) := by
  have accounts (sink : Sink) (buffer : List UInt8) :
      sink.Accounts buffer (passing.run sink buffer).2 (passing.run sink buffer).1 :=
    sink.write_accounts buffer
  unfold passAll
  fun_induction Call.all passing sink buffer with
  | case1 sink buffer empty =>
      exact ⟨[], [], by simpa using empty, by simp, by simp⟩
  | case2 sink buffer nonempty after written =>
      have accounted := accounts sink buffer
      simp only [written, Accounts, List.take_zero] at accounted
      exact ⟨[], buffer, rfl, accounted.2, by simpa using nonempty⟩
  | case3 sink buffer nonempty count after written ih =>
      have accounted := accounts sink buffer
      simp only [written, Accounts] at accounted
      rcases ih with ⟨piece, rest, split, moved, succeeds⟩
      refine ⟨buffer.take (count + 1) ++ piece, rest, ?_, ?_, succeeds⟩
      · rw [List.append_assoc, ← split, List.take_append_drop]
      · rw [moved, accounted.2, List.append_assoc]
  | case4 sink buffer nonempty after written ih =>
      have accounted := accounts sink buffer
      simp only [written, Accounts] at accounted
      simpa only [accounted] using ih
  | case5 sink buffer nonempty failure after written =>
      have accounted := accounts sink buffer
      simp only [written, Accounts] at accounted
      exact ⟨[], buffer, rfl, by simpa using accounted, by simpa using nonempty⟩

/-- What every call leaves as it is, the repeated call leaves as it is. -/
theorem Call.all_fixed {part : Type} {call : Call} (field : Sink → part)
    (fixed : ∀ sink buffer, field (call.run sink buffer).2 = field sink) (sink : Sink)
    (buffer : List UInt8) : field (call.all sink buffer).2 = field sink := by
  fun_induction Call.all call sink buffer with
  | case1 sink buffer empty => rfl
  | case2 sink buffer nonempty after called =>
      simpa only [called] using fixed sink buffer
  | case3 sink buffer nonempty count after called ih =>
      rw [ih]
      simpa only [called] using fixed sink buffer
  | case4 sink buffer nonempty after called ih =>
      rw [ih]
      simpa only [called] using fixed sink buffer
  | case5 sink buffer nonempty failure after called =>
      simpa only [called] using fixed sink buffer

theorem passAll_fixed (buffer : List UInt8) :
    (sink.passAll buffer).2.held = sink.held ∧ (sink.passAll buffer).2.block = sink.block ∧
      (sink.passAll buffer).2.hasher = sink.hasher :=
  ⟨passing.all_fixed held (fun sink buffer => (sink.write_fixed buffer).1) sink buffer,
    passing.all_fixed block (fun sink buffer => (sink.write_fixed buffer).2.1) sink buffer,
    passing.all_fixed hasher (fun sink buffer => (sink.write_fixed buffer).2.2) sink buffer⟩

/-! ## Writing behind -/

/-- A sink that finally takes a number of further bytes: what it holds and these bytes fit, and it
holds nothing unless it writes behind. -/
structure Ready (sink : Sink) (count : Nat) : Prop where
  takes : sink.Takes (sink.held.size + count)
  plain : sink.block = none → sink.held = #[]

theorem Takes.mono {sink : Sink} {more less : Nat} (takes : sink.Takes more) (le : less ≤ more) :
    sink.Takes less :=
  ⟨takes.proceeds, fun room limited => Nat.le_trans le (takes.roomy room limited)⟩

theorem Ready.passAll {sink : Sink} {buffer : List UInt8} {more : Nat}
    (ready : sink.Ready (buffer.length + more)) (empty : sink.held = #[]) :
    ∃ after, sink.passAll buffer = (.ok (), after) ∧
      after.written = sink.written ++ buffer ∧ after.Ready more := by
  have takes : sink.Takes (buffer.length + more) := ready.takes.mono (by omega)
  rcases sink.passAll_accounts buffer with ⟨piece, rest, split, moved, succeeds⟩
  have fixed := sink.passAll_fixed buffer
  have restEmpty : rest = [] := succeeds.mp takes.passAll.1
  have allMoved : piece = buffer := by simpa [restEmpty] using split.symm
  refine ⟨(sink.passAll buffer).2, Prod.ext takes.passAll.1 rfl, ?_, ?_, ?_⟩
  · simp [written, moved, fixed.1, empty, allMoved]
  · simpa [fixed.1, empty] using takes.passAll.2
  · intro _
    rw [fixed.1, empty]

theorem Ready.flush {sink : Sink} {more : Nat} (ready : sink.Ready more) :
    ∃ after, sink.flush = (.ok (), after) ∧ after.written = sink.written ∧ after.Ready more ∧
      after.held = #[] ∧ after.block = sink.block := by
  have emptied : { sink with held := #[] }.Ready (sink.held.toList.length + more) :=
    ⟨⟨ready.takes.proceeds, by simpa using ready.takes.roomy⟩, fun _ => rfl⟩
  rcases emptied.passAll rfl with ⟨after, passed, written, readyAfter⟩
  have fixed := passAll_fixed { sink with held := #[] } sink.held.toList
  simp only [passed] at fixed
  exact ⟨after, passed, by simpa [Sink.written, content] using written, readyAfter, fixed.1,
    fixed.2.1⟩

theorem Ready.makeRoom {sink : Sink} {more : Nat} (ready : sink.Ready more)
    (size length : Nat) :
    ∃ after, sink.makeRoom size length = (.ok (), after) ∧ after.written = sink.written ∧
      after.Ready more ∧ after.block = sink.block ∧ (size ≤ length → after.held = #[]) := by
  unfold Sink.makeRoom
  split
  · rcases ready.flush with ⟨after, flushed, written, readyAfter, empty, sameBlock⟩
    exact ⟨after, flushed, written, readyAfter, sameBlock, fun _ => empty⟩
  · refine ⟨sink, rfl, rfl, ready, rfl, ?_⟩
    intro large
    apply Array.eq_empty_of_size_eq_zero
    omega

theorem Ready.hold {sink : Sink} {buffer : List UInt8} {more : Nat}
    (ready : sink.Ready (buffer.length + more)) (behind : sink.block ≠ none) :
    (sink.hold buffer).written = sink.written ++ buffer ∧ (sink.hold buffer).Ready more := by
  refine ⟨by simp [Sink.hold, Sink.written, content], ⟨ready.takes.proceeds, ?_⟩, ?_⟩
  · intro room limited
    have enough := ready.takes.roomy room limited
    have heldSize : (sink.held ++ buffer).size = sink.held.size + buffer.length := by
      rw [← Array.length_toList, Array.toList_appendList, List.length_append, Array.length_toList]
    simp only [Sink.hold, heldSize]
    omega
  · exact fun plain => absurd plain behind

/-! ## Writing, whatever happens -/

/-- Only a sink that writes behind holds bytes. -/
def Orderly (sink : Sink) : Prop :=
  sink.block = none → sink.held = #[]

/-- Writing has come as far as the sink `after`: of all that there was to write, `rest` is missing
at the end. -/
structure WritesTo (sink : Sink) (buffer : List UInt8) (after : Sink) (rest : List UInt8) :
    Prop where
  written : after.written ++ rest = sink.written ++ buffer
  orderly : after.Orderly
  block : after.block = sink.block
  grows : sink.content <+: after.content

theorem WritesTo.refl {sink : Sink} (orderly : sink.Orderly) : sink.WritesTo [] sink [] :=
  ⟨rfl, orderly, rfl, List.prefix_rfl⟩

theorem WritesTo.trans {sink between after : Sink} {first second rest : List UInt8}
    (writesFirst : sink.WritesTo first between [])
    (writesSecond : between.WritesTo second after rest) :
    sink.WritesTo (first ++ second) after rest where
  written := by
    have writtenFirst := writesFirst.written
    rw [List.append_nil] at writtenFirst
    rw [writesSecond.written, writtenFirst, List.append_assoc]
  orderly := writesSecond.orderly
  block := writesSecond.block.trans writesFirst.block
  grows := writesFirst.grows.trans writesSecond.grows

/-- What was not reached is missing too. -/
theorem WritesTo.append {sink after : Sink} {buffer rest : List UInt8}
    (writes : sink.WritesTo buffer after rest) (more : List UInt8) :
    sink.WritesTo (buffer ++ more) after (rest ++ more) where
  written := by rw [← List.append_assoc, writes.written, List.append_assoc]
  orderly := writes.orderly
  block := writes.block
  grows := writes.grows

theorem passAll_writesTo {sink : Sink} (empty : sink.held = #[]) (buffer : List UInt8) :
    ∃ rest, sink.WritesTo buffer (sink.passAll buffer).2 rest ∧
      ((sink.passAll buffer).1 = .ok () ↔ rest = []) := by
  rcases sink.passAll_accounts buffer with ⟨piece, rest, split, moved, succeeds⟩
  have fixed := sink.passAll_fixed buffer
  refine ⟨rest, ⟨?_, ?_, fixed.2.1, ?_⟩, succeeds⟩
  · simp only [Sink.written, moved, fixed.1, empty]
    simp [split]
  · intro _
    rw [fixed.1, empty]
  · rw [moved]
    exact List.prefix_append _ _

theorem flush_writesTo (sink : Sink) :
    ∃ rest, sink.WritesTo [] sink.flush.2 rest ∧ (sink.flush.1 = .ok () ↔ rest = []) ∧
      sink.flush.2.held = #[] := by
  have emptied : ({ sink with held := #[] } : Sink).held = #[] := rfl
  rcases passAll_writesTo emptied sink.held.toList with ⟨rest, writes, succeeds⟩
  refine ⟨rest, ⟨?_, writes.orderly, writes.block, writes.grows⟩, succeeds, ?_⟩
  · have sameStart : ({ sink with held := #[] } : Sink).written ++ sink.held.toList =
        sink.written ++ [] := by simp [Sink.written, content]
    exact writes.written.trans sameStart
  · exact (passAll_fixed { sink with held := #[] } sink.held.toList).1

theorem makeRoom_writesTo {sink : Sink} (orderly : sink.Orderly) (size length : Nat) :
    ∃ rest, sink.WritesTo [] (sink.makeRoom size length).2 rest ∧
      ((sink.makeRoom size length).1 = .ok () ↔ rest = []) ∧
      (size ≤ length → (sink.makeRoom size length).2.held = #[]) := by
  unfold makeRoom
  split
  · rcases sink.flush_writesTo with ⟨rest, writes, succeeds, empty⟩
    exact ⟨rest, writes, succeeds, fun _ => empty⟩
  · refine ⟨[], .refl orderly, by simp, ?_⟩
    intro large
    have noneHeld : sink.held.size = 0 := by omega
    exact Array.eq_empty_of_size_eq_zero noneHeld

theorem hold_writesTo {sink : Sink} (behind : sink.block ≠ none) (buffer : List UInt8) :
    sink.WritesTo buffer (sink.hold buffer) [] where
  written := by simp [hold, Sink.written, content]
  orderly := fun plain => absurd plain behind
  block := rfl
  grows := List.prefix_rfl

/-- What a single call has written of a buffer. A call that fails may have lost what was held. -/
def Moves (sink : Sink) (buffer : List UInt8) (after : Sink) : Acceptance → Prop
  | .took count => count ≤ buffer.length ∧ sink.WritesTo (buffer.take count) after []
  | .interrupted => sink.WritesTo [] after []
  | .failed _ => ∃ rest, sink.WritesTo [] after rest

theorem WritesTo.moves {sink between after : Sink} {buffer : List UInt8} {acceptance : Acceptance}
    (writes : sink.WritesTo [] between []) (moves : between.Moves buffer after acceptance) :
    sink.Moves buffer after acceptance := by
  cases acceptance with
  | took count => exact ⟨moves.1, writes.trans moves.2⟩
  | interrupted => exact writes.trans moves
  | failed failure =>
      rcases moves with ⟨rest, lost⟩
      exact ⟨rest, writes.trans lost⟩

theorem write_moves {sink : Sink} (empty : sink.held = #[]) (buffer : List UInt8) :
    sink.Moves buffer (sink.write buffer).2 (sink.write buffer).1 := by
  have accounted := sink.write_accounts buffer
  rcases sink.write_fixed buffer with ⟨sameHeld, sameBlock, _⟩
  have writes {piece : List UInt8} (moved : (sink.write buffer).2.content = sink.content ++ piece) :
      sink.WritesTo piece (sink.write buffer).2 [] :=
    { written := by simp [Sink.written, moved, sameHeld, empty]
      orderly := fun _ => sameHeld.trans empty
      block := sameBlock
      grows := by
        rw [moved]
        exact List.prefix_append _ _ }
  cases outcome : (sink.write buffer).1 with
  | took count =>
      rw [outcome] at accounted
      exact ⟨accounted.1, writes accounted.2⟩
  | interrupted =>
      rw [outcome] at accounted
      exact writes (accounted.trans (List.append_nil _).symm)
  | failed failure =>
      rw [outcome] at accounted
      exact ⟨[], writes (accounted.trans (List.append_nil _).symm)⟩

theorem offer_moves {sink : Sink} (orderly : sink.Orderly) (buffer : List UInt8) :
    sink.Moves buffer (sink.offer buffer).2 (sink.offer buffer).1 := by
  unfold offer
  split
  · rename_i plain
    exact write_moves (orderly plain) buffer
  · rename_i size behind
    rcases makeRoom_writesTo orderly size buffer.length with ⟨rest, writes, succeeds, empty⟩
    rcases made : sink.makeRoom size buffer.length with ⟨failure | _, roomy⟩
    · simp only [made] at writes ⊢
      exact ⟨rest, writes⟩
    · simp only [made] at writes succeeds empty ⊢
      obtain rfl : rest = [] := succeeds.mp trivial
      split
      · have behindStill : roomy.block ≠ none := by
          rw [writes.block, behind]
          simp
        refine ⟨Nat.le_refl _, ?_⟩
        rw [List.take_length]
        exact writes.trans (hold_writesTo behindStill buffer)
      · exact writes.moves (write_moves (empty (by omega)) buffer)

theorem WritesTo.hash {sink after : Sink} {buffer rest : List UInt8}
    (writes : sink.WritesTo buffer after rest) (bytes : List UInt8) :
    sink.WritesTo buffer (after.hash bytes) rest where
  written := writes.written
  orderly := writes.orderly
  block := writes.block
  grows := writes.grows

theorem hashing_moves {sink : Sink} (orderly : sink.Orderly) (buffer : List UInt8) :
    sink.Moves buffer (hashing.run sink buffer).2 (hashing.run sink buffer).1 := by
  have moves := offer_moves orderly buffer
  simp only [hashing, offerHashed]
  rcases outcome : sink.offer buffer with ⟨count | _ | failure, after⟩ <;>
    simp only [outcome] at moves ⊢
  · exact ⟨moves.1, moves.2.hash _⟩
  · exact moves
  · exact moves

theorem hashing_writesTo {sink : Sink} (orderly : sink.Orderly) (buffer : List UInt8) :
    ∃ rest, sink.WritesTo buffer (hashing.all sink buffer).2 rest ∧
      ((hashing.all sink buffer).1 = .ok () ↔ rest = []) := by
  have moves := hashing_moves orderly buffer
  fun_induction Call.all hashing sink buffer with
  | case1 sink buffer empty =>
      obtain rfl : buffer = [] := by simpa using empty
      exact ⟨[], .refl orderly, by simp⟩
  | case2 sink buffer nonempty after called =>
      rw [called] at moves
      exact ⟨buffer, moves.2.append buffer, by simpa using nonempty⟩
  | case3 sink buffer nonempty count after called ih =>
      rw [called] at moves
      rcases ih moves.2.orderly (hashing_moves moves.2.orderly _) with ⟨rest, writes, succeeds⟩
      have whole := moves.2.trans writes
      rw [List.take_append_drop] at whole
      exact ⟨rest, whole, succeeds⟩
  | case4 sink buffer nonempty after called ih =>
      rw [called] at moves
      have writesNone : sink.WritesTo [] after [] := moves
      rcases ih writesNone.orderly (hashing_moves writesNone.orderly _) with
        ⟨rest, writes, succeeds⟩
      exact ⟨rest, writesNone.trans writes, succeeds⟩
  | case5 sink buffer nonempty failure after called =>
      rw [called] at moves
      rcases moves with ⟨rest, writes⟩
      have someBytes : buffer ≠ [] := by simpa using nonempty
      exact ⟨rest ++ buffer, writes.append buffer, by simp [someBytes]⟩

/-- Whatever the calls do, a beginning of all that there was to write is written, and everything
exactly when writing succeeds. -/
theorem writeAll_writesTo {sink : Sink} (orderly : sink.Orderly) (buffer : List UInt8) :
    ∃ rest, sink.WritesTo buffer (sink.writeAll buffer).2 rest ∧
      ((sink.writeAll buffer).1 = .ok () ↔ rest = []) := by
  unfold writeAll
  split
  · exact hashing_writesTo orderly buffer
  · rename_i plain
    exact passAll_writesTo (orderly plain) buffer
  · rename_i size _ behind
    rcases makeRoom_writesTo orderly size buffer.length with ⟨rest, writes, succeeds, empty⟩
    rcases made : sink.makeRoom size buffer.length with ⟨failure | _, roomy⟩
    · simp only [made] at writes succeeds ⊢
      have missing : rest ≠ [] := by simpa using succeeds
      exact ⟨rest ++ buffer, writes.append buffer, by simp [missing]⟩
    · simp only [made] at writes succeeds empty ⊢
      obtain rfl : rest = [] := succeeds.mp trivial
      split
      · have behindStill : roomy.block ≠ none := by
          rw [writes.block, behind]
          simp
        exact ⟨[], writes.trans (hold_writesTo behindStill buffer), by simp⟩
      · rename_i large
        rcases passAll_writesTo (empty (by omega)) buffer with ⟨missing, writesRest, succeedsRest⟩
        exact ⟨missing, writes.trans writesRest, succeedsRest⟩

/-! ## Writing to a sink that is ready -/

theorem Ready.write {sink : Sink} {buffer : List UInt8} {more : Nat}
    (ready : sink.Ready (buffer.length + more)) (empty : sink.held = #[]) (nonempty : buffer ≠ []) :
    (∃ count after, sink.write buffer = (.took (count + 1), after) ∧
        after.Ready (buffer.length - (count + 1) + more)) ∨
      ∃ after, sink.write buffer = (.interrupted, after) ∧ after.Ready (buffer.length + more) := by
  have takes : sink.Takes (buffer.length + more) := ready.takes.mono (by omega)
  have stillEmpty := (sink.write_fixed buffer).1.trans empty
  have readyAfter {count : Nat} (left : (sink.write buffer).2.Takes count) :
      (sink.write buffer).2.Ready count :=
    ⟨by simpa [stillEmpty] using left, fun _ => stillEmpty⟩
  rcases takes.write nonempty with ⟨count, after, wrote, left⟩ | ⟨after, wrote, left⟩
  · rw [wrote] at readyAfter
    exact .inl ⟨count, after, wrote, readyAfter left⟩
  · rw [wrote] at readyAfter
    exact .inr ⟨after, wrote, readyAfter left⟩

theorem Ready.offer {sink : Sink} {buffer : List UInt8} {more : Nat}
    (ready : sink.Ready (buffer.length + more)) (nonempty : buffer ≠ []) :
    (∃ count after, sink.offer buffer = (.took (count + 1), after) ∧
        after.Ready (buffer.length - (count + 1) + more)) ∨
      ∃ after, sink.offer buffer = (.interrupted, after) ∧ after.Ready (buffer.length + more) := by
  unfold Sink.offer
  split
  · rename_i plain
    exact ready.write (ready.plain plain) nonempty
  · rename_i size behind
    rcases ready.makeRoom size buffer.length with
      ⟨roomy, made, _, readyThen, sameBlock, emptied⟩
    simp only [made]
    split
    · left
      obtain ⟨count, isSucc⟩ := Nat.exists_eq_add_one.mpr (List.length_pos_iff.mpr nonempty)
      refine ⟨count, _, by rw [isSucc], ?_⟩
      rw [← isSucc, Nat.sub_self, Nat.zero_add]
      exact (readyThen.hold (by simp [sameBlock, behind])).2
    · exact readyThen.write (emptied (by omega)) nonempty

theorem Ready.offerHashed {sink : Sink} {buffer : List UInt8} {more : Nat}
    (ready : sink.Ready (buffer.length + more)) (nonempty : buffer ≠ []) :
    (∃ count after, sink.offerHashed buffer = (.took (count + 1), after) ∧
        after.Ready (buffer.length - (count + 1) + more)) ∨
      ∃ after, sink.offerHashed buffer = (.interrupted, after) ∧
        after.Ready (buffer.length + more) := by
  unfold Sink.offerHashed
  rcases ready.offer nonempty with ⟨count, after, offered, left⟩ | ⟨after, offered, left⟩
  · simp only [offered]
    exact .inl ⟨count, _, rfl, ⟨left.takes.proceeds, left.takes.roomy⟩, left.plain⟩
  · simp only [offered]
    exact .inr ⟨after, rfl, left⟩

/-- A sink that is ready for a buffer and more takes it whole, behind all that was written before,
and is ready for more. -/
theorem Ready.writeAll {sink : Sink} {buffer : List UInt8} {more : Nat}
    (ready : sink.Ready (buffer.length + more)) :
    ∃ after, sink.writeAll buffer = (.ok (), after) ∧
      after.written = sink.written ++ buffer ∧ after.Ready more := by
  unfold Sink.writeAll
  split
  · rcases hashing.all_ok Ready.offerHashed ready with ⟨taken, readyAfter⟩
    rcases hashing_writesTo ready.plain buffer with ⟨rest, writes, succeeds⟩
    have written := writes.written
    rw [succeeds.mp taken, List.append_nil] at written
    exact ⟨_, Prod.ext taken rfl, written, readyAfter⟩
  · rename_i plain
    exact ready.passAll (ready.plain plain)
  · rename_i size _ behind
    rcases ready.makeRoom size buffer.length with
      ⟨roomy, made, sameWritten, readyThen, sameBlock, emptied⟩
    simp only [made, ← sameWritten]
    split
    · rcases readyThen.hold (by simp [sameBlock, behind]) with ⟨held, readyAfter⟩
      exact ⟨_, rfl, held, readyAfter⟩
    · exact readyThen.passAll (emptied (by omega))

end Sink

end WaveDump
