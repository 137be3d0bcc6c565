import Mathlib.Data.Finset.Max
import Mathlib.Data.List.Nodup
import Mathlib.Logic.Function.Basic
import WaveDump.Proofs.Body
import WaveDump.Proofs.Reading

/-!
# Replaying a dump

A viewer reads the body line by line, keeps the time of the last stamp and sets the values of
symbols. The values that it has at a stamp are those of the last sample with this stamp or an
earlier one: blocks list changes only, but a probe that is not listed has not changed, and neither
has any probe when a sample causes no block.
-/

namespace WaveDump

abbrev Values := Char → Option Value

def Values.set (values : Values) (change : ValueChange) : Values :=
  Function.update values change.symbol (some change.value)

def Values.setAll (values : Values) (changes : List ValueChange) : Values :=
  changes.foldl set values

/-- What a viewer knows between two lines. -/
structure Viewer where
  time : Nat := 0
  values : Values := fun _ => none

/-- Reads a line; changes after the limit are passed over. -/
def Viewer.read (limit : Nat) (viewer : Viewer) : DumpLine → Viewer
  | .stamp time => { viewer with time }
  | .keyword _ => viewer
  | .change made =>
    if viewer.time ≤ limit then { viewer with values := viewer.values.set made } else viewer

/-- The values in force after all lines up to a time. -/
def valuesAt (lines : List DumpLine) (time : Nat) : Values :=
  (lines.foldl (Viewer.read time) {}).values

/-! ## Changes one after the other -/

namespace Values

variable {values : Values} {changes : List ValueChange}

theorem setAll_of_not_listed {symbol : Char}
    (unlisted : ∀ change ∈ changes, change.symbol ≠ symbol) :
    values.setAll changes symbol = values symbol := by
  induction changes generalizing values with
  | nil => rfl
  | cons change rest ih =>
      have restUnlisted : ∀ other ∈ rest, other.symbol ≠ symbol := fun other member =>
        unlisted other (List.mem_cons_of_mem change member)
      rw [setAll, List.foldl_cons, ← setAll, ih restUnlisted, set,
        Function.update_of_ne (unlisted change List.mem_cons_self).symm]

theorem setAll_of_mem (once : (changes.map ValueChange.symbol).Nodup) {change : ValueChange}
    (member : change ∈ changes) : values.setAll changes change.symbol = some change.value := by
  induction changes generalizing values with
  | nil => simp at member
  | cons first rest ih =>
      rw [List.map_cons, List.nodup_cons] at once
      rw [setAll, List.foldl_cons, ← setAll]
      rcases List.mem_cons.mp member with rfl | later
      · have unlisted : ∀ other ∈ rest, other.symbol ≠ change.symbol := by
          intro other otherMem same
          exact once.1 (same ▸ List.mem_map_of_mem otherMem)
        rw [setAll_of_not_listed unlisted, set, Function.update_self]
      · exact ih once.2 later

theorem setAll_append (first second : List ValueChange) :
    values.setAll (first ++ second) = (values.setAll first).setAll second :=
  List.foldl_append

end Values

/-! ## Blocks one after the other -/

namespace Viewer

theorem read_changes (limit : Nat) (viewer : Viewer) (changes : List ValueChange) :
    (changes.map DumpLine.change).foldl (read limit) viewer =
      if viewer.time ≤ limit then
        { viewer with values := viewer.values.setAll changes }
      else
        viewer := by
  induction changes generalizing viewer with
  | nil => exact (ite_self viewer).symm
  | cons change rest ih =>
      rw [List.map_cons, List.foldl_cons, ih]
      by_cases early : viewer.time ≤ limit <;> simp [read, early, Values.setAll]

theorem read_block (limit : Nat) (viewer : Viewer) (block : Block) :
    block.lines.foldl (read limit) viewer =
      { time := block.time
        values :=
          if block.time ≤ limit then viewer.values.setAll block.changes else viewer.values } := by
  cases initial : block.initial <;> by_cases early : block.time ≤ limit <;>
    simp [Block.lines, initial, List.foldl_append, read_changes, read, early]

theorem read_blocks (limit : Nat) (viewer : Viewer) (blocks : List Block) :
    ((blocks.flatMap Block.lines).foldl (read limit) viewer).values =
      viewer.values.setAll ((blocks.filter fun block => block.time ≤ limit).flatMap
        Block.changes) := by
  induction blocks generalizing viewer with
  | nil => rfl
  | cons block rest ih =>
      rw [List.flatMap_cons, List.foldl_append, ih, read_block]
      by_cases early : block.time ≤ limit <;> simp [early, Values.setAll_append]

end Viewer

namespace Encoder

variable {capture : Capture} {options : EncoderOptions} {encoder : Encoder}

/-! ## The blocks up to a stamp -/

/-- Stamps do not decrease, so the blocks up to a time are those of the samples up to the last one
with a stamp up to this time. -/
theorem filter_blocksUpTo (samples : List Sample) {time last count : Nat} (inside : last < count)
    (early : encoder.timescale.stamp encoder.rate (last + 1) ≤ time)
    (late : ∀ later < count, last < later →
      time < encoder.timescale.stamp encoder.rate (later + 1)) :
    (encoder.blocksUpTo samples count).filter (fun block => block.time ≤ time) =
      encoder.blocksUpTo samples (last + 1) := by
  -- The induction starts behind the last sample: every later one adds a block that is too late.
  induction count, inside using Nat.le_induction with
  | base =>
      apply List.filter_eq_self.mpr
      intro block member
      simp only [blocksUpTo, List.mem_map, List.mem_filter, List.mem_range] at member
      rcases member with ⟨index, ⟨before, _⟩, rfl⟩
      exact decide_eq_true (le_trans (encoder.timescale.stamp_mono encoder.rate before) early)
  | succ count inside ih =>
      have here := late count (Nat.lt_succ_self count) inside
      have skipped : (if encoder.emits samples count then [encoder.blockAt samples count]
          else []).filter (fun block => block.time ≤ time) = [] := by
        rw [List.filter_eq_nil_iff]
        intro block member
        rw [List.mem_ite_nil_right, List.mem_singleton] at member
        rcases member with ⟨_, rfl⟩
        simpa [blockAt] using here
      rw [blocksUpTo_succ, List.filter_append, skipped, List.append_nil,
        ih fun later before => late later (by omega)]

/-! ## Values after blocks -/

theorem value_of_not_listed {probe : Probe} (member : probe ∈ encoder.registry.probes)
    {samples : List Sample} {index : Nat}
    (unlisted : probe ∉ encoder.listed samples (index + 1)) :
    probe.wiring.value (samples.getD index []) =
      probe.wiring.value (samples.getD (index + 1) []) := by
  have same : probe.differs (samples.getD index []) (samples.getD (index + 1) []) = false := by
    simpa [listed, member] using unlisted
  exact Wiring.value_congr (Wiring.level_eq_of_not_differs same)

/-- No block has two lines for one symbol. -/
theorem changes_nodup (accepted : (create capture options).1 = .ok encoder)
    (samples : List Sample) (index : Nat) :
    ((encoder.blockAt samples index).changes.map ValueChange.symbol).Nodup := by
  have symbols : (encoder.blockAt samples index).changes.map ValueChange.symbol =
      (encoder.listed samples index).map Probe.symbol := List.map_map
  rw [symbols]
  exact (Registry.symbols_nodup (create_eq_ok accepted).1).sublist
    (List.filter_sublist.map Probe.symbol)

section Values

variable {probe : Probe} (accepted : (create capture options).1 = .ok encoder)
  (member : probe ∈ encoder.registry.probes) (samples : List Sample)
include accepted member

theorem setAll_blockAt (values : Values) (index : Nat) :
    values.setAll (encoder.blockAt samples index).changes probe.symbol =
      if probe ∈ encoder.listed samples index then
        some (probe.wiring.value (samples.getD index []))
      else
        values probe.symbol := by
  have distinct := Registry.symbols_nodup (create_eq_ok accepted).1
  by_cases listed : probe ∈ encoder.listed samples index
  · rw [if_pos listed]
    exact Values.setAll_of_mem (changes_nodup accepted samples index) (List.mem_map_of_mem listed)
  · rw [if_neg listed]
    apply Values.setAll_of_not_listed
    intro change changeMem same
    rcases List.mem_map.mp changeMem with ⟨other, otherListed, rfl⟩
    have otherMem := (List.mem_filter.mp otherListed).1
    exact listed (List.inj_on_of_nodup_map distinct otherMem member same ▸ otherListed)

theorem value_of_not_emits {index : Nat}
    (quiet : encoder.emits samples (index + 1) = false) :
    probe.wiring.value (samples.getD index []) =
      probe.wiring.value (samples.getD (index + 1) []) := by
  have covers := covers_of_create accepted
  have same : (samples.getD (index + 1) []).resize encoder.unitSize =
      (samples.getD index []).resize encoder.unitSize := by
    simpa [emits] using quiet
  have before := change_resize covers member (samples.getD index [])
  have after := change_resize covers member (samples.getD (index + 1) [])
  rw [same, before] at after
  exact congrArg ValueChange.value after

/-- After the blocks of the samples up to one of them, every probe has the value of that sample. -/
theorem setAll_blocksUpTo (values : Values) (last : Nat) :
    values.setAll ((encoder.blocksUpTo samples (last + 1)).flatMap Block.changes) probe.symbol =
      some (probe.wiring.value (samples.getD last [])) := by
  induction last with
  | zero =>
      have first : encoder.blocksUpTo samples (0 + 1) = [encoder.blockAt samples 0] := by
        rw [blocksUpTo_succ]
        rfl
      have listed : probe ∈ encoder.listed samples 0 := by simpa [listed] using member
      rw [first, List.flatMap_singleton, setAll_blockAt accepted member, if_pos listed]
  | succ last ih =>
      rw [blocksUpTo_succ, List.flatMap_append, Values.setAll_append]
      cases emitted : encoder.emits samples (last + 1) with
      | false =>
          rw [if_neg (by simp), List.flatMap_nil,
            ← value_of_not_emits accepted member samples emitted]
          exact ih
      | true =>
          rw [if_pos rfl, List.flatMap_singleton, setAll_blockAt accepted member]
          by_cases listed : probe ∈ encoder.listed samples (last + 1)
          · rw [if_pos listed]
          · rw [if_neg listed, ih, value_of_not_listed member listed]

end Values

/-! ## The capture in the dump -/

theorem exists_last (samples : List Sample) {index time : Nat} (inside : index < samples.length)
    (early : encoder.timescale.stamp encoder.rate (index + 1) ≤ time) :
    ∃ last < samples.length,
      encoder.timescale.stamp encoder.rate (last + 1) ≤ time ∧
      ∀ later < samples.length, last < later →
        time < encoder.timescale.stamp encoder.rate (later + 1) := by
  rcases ((Finset.range samples.length).filter fun other =>
      encoder.timescale.stamp encoder.rate (other + 1) ≤ time).exists_max_image id
    ⟨index, by simp [inside, early]⟩ with ⟨last, lastMem, greatest⟩
  simp only [Finset.mem_filter, Finset.mem_range, id_eq, and_imp] at lastMem greatest
  refine ⟨last, lastMem.1, lastMem.2, ?_⟩
  intro later laterInside after
  by_contra notLate
  have atMost := greatest later laterInside (by omega)
  omega

/-- Replaying a dump gives back the capture: behind the header, the lines can be read, and at the
stamp of every sample a viewer has for every probe what the channel list says of the last sample
with this stamp or an earlier one. -/
theorem replay_feed (accepted : (create capture options).1 = .ok encoder) (frames : List Frame) :
    let samples := frames.flatMap Frame.samples
    let stamp := fun index => (Timescale.ofRate capture.rate).stamp capture.rate (index + 1)
    (∀ probe ∈ encoder.registry.probes, ∀ position, probe.wiring = .scalar position →
      ∃ channel, capture.channels[position]? = some channel ∧ channel.enabled ∧
        channel.name = probe.name) ∧
    ∃ body lines,
      String.join (encoder.feed frames).2 =
        (if frames.any fun frame => 0 < frame.stride then
          (headerFor encoder.registry capture options).render
        else
          "") ++ body ∧
      DumpLine.readAll? body.toList = some lines ∧
      ∀ index < samples.length,
        ∃ last < samples.length,
          stamp last ≤ stamp index ∧
          (∀ later < samples.length, last < later → stamp index < stamp later) ∧
          ∀ probe ∈ encoder.registry.probes,
            valuesAt lines (stamp index) probe.symbol =
              some (probe.reading capture.channels (samples.getD last [])) := by
  intro samples stamp
  rcases create_eq_ok accepted with ⟨built, _, isFresh⟩
  have stampEq (index : Nat) :
      encoder.timescale.stamp encoder.rate (index + 1) = stamp index := by
    rw [isFresh]
    rfl
  refine ⟨?_, ?_⟩
  · intro probe member position scalar
    rcases Registry.wiring_of_mem built member with ⟨wired, isScalar, registered⟩ | ⟨isVector, _⟩
    · rcases Registry.scalar_mem_registrations.mp registered with
        ⟨channel, found, enabled, named, _⟩
      rw [scalar, Wiring.scalar.injEq] at isScalar
      exact ⟨channel, isScalar ▸ found, enabled, named⟩
    · simp [scalar] at isVector
  · refine ⟨String.join ((encoder.blocks samples).map Block.text),
      (encoder.blocks samples).flatMap Block.lines, ?_,
      Block.readAll?_lines (blocks_printable accepted samples), ?_⟩
    · rw [(feed_of_create accepted frames).2, opening_of_create accepted]
    · intro index inside
      rcases encoder.exists_last samples inside (Nat.le_refl _) with
        ⟨last, lastInside, early, late⟩
      simp only [stampEq] at early late
      refine ⟨last, lastInside, early, late, ?_⟩
      intro probe member
      simp only [← stampEq] at early late ⊢
      rw [valuesAt, Viewer.read_blocks, blocks, filter_blocksUpTo samples lastInside early late,
        setAll_blocksUpTo accepted member, Probe.value_eq_reading built member]

end Encoder

/-- The last sample lists no probe, and a viewer still has the bus at its stamp. -/
theorem replay_feed_clockAndBus :
    (Encoder.create clockAndBus clockAndBusOptions).1 = .ok clockAndBusEncoder ∧
      ∃ body lines,
        String.join (clockAndBusEncoder.feed clockAndBusFrames).2 =
          (Encoder.headerFor clockAndBusEncoder.registry clockAndBus clockAndBusOptions).render ++
            body ∧
        DumpLine.readAll? body.toList = some lines ∧
        valuesAt lines 1333 '"' = some (.vector [some true, some true]) := by
  refine ⟨clockAndBus_accepted, ?_⟩
  rcases Encoder.replay_feed clockAndBus_accepted clockAndBusFrames with
    ⟨_, body, lines, text, read, replayed⟩
  have count : (clockAndBusFrames.flatMap Frame.samples).length = 4 := by decide
  rcases replayed 3 (by decide) with ⟨last, lastInside, _, late, values⟩
  have isLast : last = 3 := by
    by_contra other
    exact Nat.lt_irrefl _ (late 3 (by decide) (by omega))
  rw [if_pos (by decide)] at text
  have bus : ⟨⟨"data", .vector [⟨1, 1⟩, ⟨0, 2⟩]⟩, '"'⟩ ∈ clockAndBusEncoder.registry.probes := by
    decide
  have shown := values _ bus
  rw [isLast, ← Probe.value_eq_reading (Encoder.create_eq_ok clockAndBus_accepted).1 bus] at shown
  exact ⟨body, lines, text, read, shown⟩

end WaveDump
