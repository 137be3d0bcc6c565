import WaveDump.Proofs.Replay

/-!
# Changed levels and changed lines

A probe is listed in a block when one of its channels has changed, and its line shows the levels of
these channels. A line that differs from the one before therefore never fails to be written. The
converse needs the bits of a vector to be different: of channels that are declared for the same bit
only the first is shown, and the others change the probe but not its line. When no bit is declared
twice, every line after the initial block differs from the last one for its probe.
-/

namespace WaveDump

theorem ValueChange.line_injective : Function.Injective ValueChange.line := by
  intro first second same
  have sameText := congrArg String.toList same
  simp only [Block.line_toList, List.append_cancel_right_eq] at sameText
  have readFirst := DumpLine.read?_chars (.change first)
  rw [sameText, DumpLine.read?_chars] at readFirst
  simpa using readFirst.symm

/-! ## Levels and values -/

theorem levelAt?_of_mem {bits : List Placement} (distinct : (bits.map Placement.bit).Nodup)
    {placement : Placement} (member : placement ∈ bits) (sample : Sample) :
    levelAt? bits sample placement.bit = some (sample.level placement.sample) := by
  have first : bits.find? (fun other => other.bit = placement.bit) = some placement := by
    induction bits with
    | nil => simp at member
    | cons other rest ih =>
        rw [List.map_cons, List.nodup_cons] at distinct
        rcases List.mem_cons.mp member with rfl | later
        · simp
        · have differ : other.bit ≠ placement.bit := by
            intro same
            exact distinct.1 (same ▸ List.mem_map_of_mem later)
          rw [List.find?_cons_of_neg (by simpa using differ)]
          exact ih distinct.2 later
  rw [levelAt?, first, Option.map_some]

namespace Wiring

variable {wiring : Wiring} {first second : Sample}

theorem differs_eq_true_iff :
    wiring.differs first second = true ↔
      ∃ placement ∈ wiring.bits, first.level placement.sample ≠ second.level placement.sample := by
  simp only [differs, List.any_eq_true, bne_iff_ne, ne_eq]
  apply exists_congr
  intro placement
  rw [eq_comm]

theorem level_eq_of_value_eq
    (sorted : wiring.bits.Pairwise fun left right => right.bit ≤ left.bit)
    (distinct : (wiring.bits.map Placement.bit).Nodup)
    (same : wiring.value first = wiring.value second) :
    ∀ placement ∈ wiring.bits,
      first.level placement.sample = second.level placement.sample := by
  cases wiring with
  | scalar position => simpa [bits, value] using same
  | vector placements =>
      simp only [bits] at sorted distinct ⊢
      rw [value_vector sorted, value_vector sorted, Value.vector.injEq, List.map_inj_left] at same
      intro placement member
      have samePlace := same placement.bit (by simpa using bit_lt_span sorted placement member)
      rw [levelAt?_of_mem distinct member, levelAt?_of_mem distinct member] at samePlace
      exact Option.some.inj samePlace

end Wiring

namespace Registry

variable {entries : List (String × Nat)} {registry : Registry} {probe : Probe}

theorem bits_descending_of_build (built : build entries = .ok registry)
    (member : probe ∈ registry.probes) :
    probe.bits.Pairwise fun left right => right.bit ≤ left.bit := by
  rcases wiring_of_mem_build built member with ⟨sample, wired, _⟩ | ⟨wired, _⟩
  · rw [Probe.bits, wired]
    exact List.pairwise_singleton _ _
  · rw [Probe.bits, wired]
    exact descending_pairwise _

theorem bits_nodup_of_scalar (scalar : probe.isVector = false) :
    (probe.bits.map Placement.bit).Nodup := by
  rcases probe with ⟨⟨name, wiring⟩, symbol⟩
  cases wiring with
  | scalar position => exact List.nodup_singleton _
  | vector placements => simp [Probe.isVector, Wiring.isVector] at scalar

end Registry

namespace Probe

variable {probe : Probe} {earlier later : Sample}

theorem differs_of_line_ne (different : (probe.change earlier).line ≠ (probe.change later).line) :
    probe.differs earlier later = true := by
  by_contra same
  have sameLevels := Wiring.level_eq_of_not_differs (Bool.eq_false_iff.mpr same)
  exact different (by rw [change, change, Wiring.value_congr sameLevels])

theorem line_ne_of_differs
    (sorted : probe.bits.Pairwise fun left right => right.bit ≤ left.bit)
    (distinct : (probe.bits.map Placement.bit).Nodup)
    (differs : probe.differs earlier later = true) :
    (probe.change earlier).line ≠ (probe.change later).line := by
  intro sameLine
  have sameChange := ValueChange.line_injective sameLine
  have sameValue : probe.wiring.value earlier = probe.wiring.value later :=
    congrArg ValueChange.value sameChange
  rcases Wiring.differs_eq_true_iff.mp differs with ⟨placement, member, different⟩
  exact different (Wiring.level_eq_of_value_eq sorted distinct sameValue placement member)

end Probe

/-! ## The line last written -/

/-- The change that was written last for a symbol. -/
def lastChange? (symbol : Char) (changes : List ValueChange) : Option ValueChange :=
  changes.reverse.find? fun change => change.symbol = symbol

section LastChange

variable {symbol : Char} {changes : List ValueChange}

theorem lastChange?_append (first second : List ValueChange) :
    lastChange? symbol (first ++ second) =
      (lastChange? symbol second).or (lastChange? symbol first) := by
  simp only [lastChange?, List.reverse_append, List.find?_append]

theorem lastChange?_eq_none_iff :
    lastChange? symbol changes = none ↔ ∀ change ∈ changes, change.symbol ≠ symbol := by
  simp [lastChange?]

theorem mem_of_lastChange? {change : ValueChange}
    (last : lastChange? symbol changes = some change) :
    change ∈ changes ∧ change.symbol = symbol := by
  have member := List.mem_of_find?_eq_some last
  have found := List.find?_some last
  exact ⟨by simpa using member, by simpa using found⟩

/-- A viewer has the value of the change that was written last. -/
theorem setAll_eq_lastChange? (values : Values) :
    values.setAll changes symbol =
      ((lastChange? symbol changes).map fun change => change.value).or (values symbol) := by
  induction changes generalizing values with
  | nil => rfl
  | cons change rest ih =>
      rw [Values.setAll, List.foldl_cons, ← Values.setAll, ih, ← List.singleton_append,
        lastChange?_append]
      cases lastChange? symbol rest with
      | some later => rfl
      | none =>
          by_cases here : change.symbol = symbol
          · simp [lastChange?, Values.set, here]
          · simp [lastChange?, Values.set, here, Ne.symm here]

end LastChange

namespace Encoder

variable {capture : Capture} {options : EncoderOptions} {encoder : Encoder} {probe : Probe}

section Accepted

variable (accepted : (create capture options).1 = .ok encoder)
include accepted

/-- Whatever blocks left a probe out, the line last written for it is that of the last sample. -/
theorem lastChange?_blocks (member : probe ∈ encoder.registry.probes) {samples : List Sample}
    {last : Sample} (isLast : samples.getLast? = some last) :
    lastChange? probe.symbol ((encoder.blocks samples).flatMap Block.changes) =
      some (probe.change last) := by
  rcases List.getLast?_eq_some_iff.mp isLast with ⟨earlier, rfl⟩
  have shown := setAll_blocksUpTo accepted member (earlier ++ [last]) (fun _ => none) earlier.length
  rw [setAll_eq_lastChange?, Option.or_none] at shown
  simp only [List.getD_eq_getElem?_getD, List.getElem?_concat_length, Option.getD_some,
    Option.map_eq_some_iff] at shown
  rcases shown with ⟨change, found, value⟩
  rw [blocks, List.length_append, List.length_singleton, found]
  rcases mem_of_lastChange? found with ⟨_, symbol⟩
  rw [Probe.change, ← value, ← symbol]

/-- The lines of a later block differ from the lines last written, if no bit is declared twice. -/
theorem line_ne_lastChange? (distinct : ∀ probe ∈ encoder.registry.probes,
      (probe.bits.map Placement.bit).Nodup) {samples : List Sample} (sample : Sample)
    (later : samples ≠ []) {before after : List ValueChange} {made : ValueChange}
    (split : (encoder.blockAt (samples ++ [sample]) samples.length).changes =
      before ++ made :: after) :
    ∃ last, lastChange? made.symbol
        ((encoder.blocks samples).flatMap Block.changes ++ before) = some last ∧
      made.line ≠ last.line := by
  have isLast := List.getLast?_eq_some_getLast later
  have once := changes_nodup accepted (samples ++ [sample]) samples.length
  rw [split, List.map_append, List.map_cons, List.nodup_append] at once
  have madeHere : made ∈ before ++ made :: after := by simp
  rw [← split, blockAt_concat, isLast] at madeHere
  simp only [Option.all_some, List.mem_map, List.mem_filter] at madeHere
  rcases madeHere with ⟨probe, ⟨member, differs⟩, rfl⟩
  refine ⟨probe.change (samples.getLast later), ?_, ?_⟩
  · -- A block has one line for each symbol, so none of the lines before is for this probe.
    have notBefore : lastChange? (probe.change sample).symbol before = none := by
      apply lastChange?_eq_none_iff.mpr
      intro change changeMem
      exact once.2.2 _ (List.mem_map_of_mem changeMem) _ List.mem_cons_self
    rw [lastChange?_append, notBefore, Option.none_or]
    exact lastChange?_blocks accepted member isLast
  · have built := (create_eq_ok accepted).1
    have sorted := Registry.bits_descending_of_build built member
    exact (Probe.line_ne_of_differs sorted (distinct probe member) differs).symm

/-- By induction on the samples: a block is either one of the blocks before or the one of the last
sample. -/
theorem line_ne_lastChange?_of_blocks (distinct : ∀ probe ∈ encoder.registry.probes,
      (probe.bits.map Placement.bit).Nodup) (samples : List Sample) :
    ∀ earlier block later, encoder.blocks samples = earlier ++ block :: later → earlier ≠ [] →
      ∀ before made after, block.changes = before ++ made :: after →
        ∃ last, lastChange? made.symbol (earlier.flatMap Block.changes ++ before) = some last ∧
          made.line ≠ last.line := by
  induction samples using List.reverseRecOn with
  | nil =>
      intro earlier block later split
      simp [blocks, blocksUpTo] at split
  | append_singleton samples sample ih =>
      intro earlier block later split notFirst before made after changes
      rw [blocks_concat] at split
      by_cases emitted : encoder.emits (samples ++ [sample]) samples.length
      · rw [if_pos emitted] at split
        rcases later.eq_nil_or_concat' with rfl | ⟨between, final, rfl⟩
        · rcases List.append_inj' split rfl with ⟨rfl, sameBlock⟩
          rcases List.singleton_inj.mp sameBlock with rfl
          have someSample : samples ≠ [] := by
            rintro rfl
            exact notFirst rfl
          exact line_ne_lastChange? accepted distinct sample someSample changes
        · rw [← List.cons_append, ← List.append_assoc] at split
          rcases List.append_inj' split rfl with ⟨inside, _⟩
          exact ih earlier block between inside notFirst before made after changes
      · rw [if_neg emitted, List.append_nil] at split
        exact ih earlier block later split notFirst before made after changes

/-- A line that differs from the last one for its probe is among the lines that the next sample
adds. -/
theorem change_mem_of_line_ne {probe : Probe} (member : probe ∈ encoder.registry.probes)
    (taken : List Sample) (sample : Sample)
    (different : (lastChange? probe.symbol ((encoder.advance taken).2.flatMap Block.changes)).map
      ValueChange.line ≠ some (probe.change sample).line) :
    probe.change sample ∈
      ((encoder.advance taken).1.step sample).2.toList.flatMap Block.changes := by
  have afterwards := lastChange?_blocks accepted member (List.getLast?_concat (l := taken)
    (a := sample))
  rw [← (advance_of_create accepted _).2, advance_append, List.flatMap_append,
    lastChange?_append] at afterwards
  have single : ((encoder.advance taken).1.advance [sample]).2 =
      ((encoder.advance taken).1.step sample).2.toList := by simp [advance]
  rw [single] at afterwards
  rcases Option.or_eq_some_iff.mp afterwards with added | ⟨_, written⟩
  · exact (mem_of_lastChange? added).1
  · rw [written] at different
    exact absurd rfl different

end Accepted

/-- A probe counts as changed whenever its line changes, and the other way round as well unless one
of its bits is declared twice. If no bit is, then a run writes a line after the initial block
exactly when it differs from the one last written for its probe. -/
theorem lines_written_when_different :
    (∀ entries registry, Registry.build entries = .ok registry →
      ∀ probe ∈ registry.probes, ∀ earlier later : Sample,
        ((probe.change earlier).line ≠ (probe.change later).line →
          probe.differs earlier later = true) ∧
        ((probe.bits.map Placement.bit).Nodup → probe.differs earlier later = true →
          (probe.change earlier).line ≠ (probe.change later).line) ∧
        (probe.isVector = false → (probe.bits.map Placement.bit).Nodup)) ∧
    ∀ capture options encoder, (create capture options).1 = .ok encoder →
      (∀ probe ∈ encoder.registry.probes, probe.isVector →
        (probe.bits.map Placement.bit).Nodup) →
      ∀ frames, ∃ body blocks,
        String.join (encoder.feed frames).2 =
          (if frames.any fun frame => 0 < frame.stride then
            (headerFor encoder.registry capture options).render
          else
            "") ++ body ∧
        Block.readAll? body = some blocks ∧
        (∀ earlier block later, blocks = earlier ++ block :: later → earlier ≠ [] →
          ∀ before made after, block.changes = before ++ made :: after →
            ∃ last, lastChange? made.symbol (earlier.flatMap Block.changes ++ before) = some last ∧
              made.line ≠ last.line) ∧
        ∀ taken sample rest, frames.flatMap Frame.samples = taken ++ sample :: rest →
          let written := (encoder.advance taken).2
          let added := ((encoder.advance taken).1.step sample).2.toList
          (∃ later, blocks = written ++ added ++ later) ∧
          ∀ probe ∈ encoder.registry.probes,
            (lastChange? probe.symbol (written.flatMap Block.changes)).map ValueChange.line ≠
              some (probe.change sample).line →
            probe.change sample ∈ added.flatMap Block.changes := by
  refine ⟨?_, ?_⟩
  · intro entries registry built probe member earlier later
    have sorted := Registry.bits_descending_of_build built member
    exact ⟨Probe.differs_of_line_ne, Probe.line_ne_of_differs sorted,
      Registry.bits_nodup_of_scalar⟩
  · intro capture options encoder accepted distinctVectors frames
    have distinct : ∀ probe ∈ encoder.registry.probes,
        (probe.bits.map Placement.bit).Nodup := by
      intro probe member
      cases isVector : probe.isVector with
      | false => exact Registry.bits_nodup_of_scalar isVector
      | true => exact distinctVectors probe member isVector
    refine ⟨_, encoder.blocks (frames.flatMap Frame.samples), ?_,
      Block.readAll?_join (blocks_printable accepted _),
      line_ne_lastChange?_of_blocks accepted distinct _, ?_⟩
    · rw [(feed_of_create accepted frames).2, opening_of_create accepted]
    · intro taken sample rest split written added
      refine ⟨⟨(((encoder.advance taken).1.step sample).1.advance rest).2, ?_⟩,
        fun probe member => change_mem_of_line_ne accepted member taken sample⟩
      rw [← (advance_of_create accepted _).2, split, advance_append, advance, ← List.append_assoc]

end Encoder

/-- At the second sample the clock falls, so its line is among those that are added. -/
theorem lines_written_when_different_clockAndBus :
    Registry.build [("clk", 0), ("data<1>", 1), ("data<0>", 2)] = .ok clockAndBusRegistry ∧
      (∀ probe ∈ clockAndBusRegistry.probes, (probe.change [1]).line ≠ (probe.change [6]).line) ∧
      (Encoder.create clockAndBus clockAndBusOptions).1 = .ok clockAndBusEncoder ∧
      ∃ body blocks,
        String.join (clockAndBusEncoder.feed clockAndBusFrames).2 =
          (Encoder.headerFor clockAndBusRegistry clockAndBus clockAndBusOptions).render ++ body ∧
        Block.readAll? body = some blocks ∧
        ⟨'!', .scalar false⟩ ∈
          ((clockAndBusEncoder.advance [[1]]).1.step [6]).2.toList.flatMap Block.changes ∧
        ∀ block later, blocks = (clockAndBusEncoder.advance [[1]]).2 ++ block :: later →
          ∀ made after, block.changes = made :: after →
            ∃ last, lastChange? made.symbol
                ((clockAndBusEncoder.advance [[1]]).2.flatMap Block.changes) = some last ∧
              made.line ≠ last.line := by
  have built : Registry.build [("clk", 0), ("data<1>", 1), ("data<0>", 2)] =
      .ok clockAndBusRegistry := by cbv
  have distinct : ∀ probe ∈ clockAndBusRegistry.probes,
      (probe.bits.map Placement.bit).Nodup := by decide
  have changed : ∀ probe ∈ clockAndBusRegistry.probes, probe.differs [1] [6] = true := by decide
  rcases Encoder.lines_written_when_different.2 clockAndBus clockAndBusOptions clockAndBusEncoder
    clockAndBus_accepted (fun probe member _ => distinct probe member) clockAndBusFrames with
    ⟨body, blocks, text, read, differ, complete⟩
  rw [if_pos (by decide)] at text
  have clock : (⟨⟨"clk", .scalar 0⟩, '!'⟩ : Probe) ∈ clockAndBusEncoder.registry.probes := by
    decide
  refine ⟨built, ?_, clockAndBus_accepted, body, blocks, text, read, ?_, ?_⟩
  · intro probe member
    exact (Encoder.lines_written_when_different.1 _ _ built probe member [1] [6]).2.1
      (distinct probe member) (changed probe member)
  · exact (complete [[1]] [6] [[6], [14, 0]] (by decide)).2 _ clock (by decide)
  · intro block later split made after changes
    have found := differ _ block later split (by decide) [] made after changes
    rwa [List.append_nil] at found

end WaveDump
