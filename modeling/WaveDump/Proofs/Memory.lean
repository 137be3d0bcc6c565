import WaveDump.Proofs.Frames

/-!
# The encoder in fixed memory

An encoder keeps the last sample, and none before the first one. Two buffers of the unit size, made
once, are enough for that: one holds the last sample, or low levels as long as there was none, and
the other one takes samples of another size while they are looked at. A copy into a buffer that is
too short, or between buffers of different lengths, has no result. In buffers of the unit size no
copy fails, and the blocks are those of the encoder.
-/

namespace WaveDump

/-- What an encoder remembers between two samples, as it is laid out in memory. -/
structure Memory where
  phase : Phase := .awaitingFirstSample
  previous : Sample
  /-- Holds a sample whose size is not the unit size. -/
  scratch : Sample
  sampleCount : Nat := 0
  samplesEmitted : Nat := 0
deriving DecidableEq, Repr

namespace Memory

def blank (unitSize : Nat) : Memory where
  previous := List.replicate unitSize 0
  scratch := List.replicate unitSize 0

/-- A sample in the unit size. One of another size is copied into the scratch buffer, as far as it
fits the unit size, and the rest of the buffer is filled with low levels. -/
def fit? (memory : Memory) (unitSize : Nat) (sample : Sample) : Option (Sample × Memory) :=
  if sample.length = unitSize then
    some (sample, memory)
  else
    let kept := sample.take unitSize
    if kept.length ≤ memory.scratch.length then
      let scratch := kept ++ List.replicate (memory.scratch.length - kept.length) 0
      some (scratch, { memory with scratch })
    else
      none

/-- The block of a sample of the unit size, by the registry and the time of an encoder. -/
def block (memory : Memory) (encoder : Encoder) (current : Sample) : Block :=
  let first : Bool := memory.phase = .awaitingFirstSample
  let changed := encoder.registry.probes.filter fun probe =>
    first || probe.differs memory.previous current
  { time := encoder.timescale.stamp encoder.rate (memory.sampleCount + 1)
    initial := first
    changes := changed.map fun probe => probe.change current }

def skipped (memory : Memory) : Memory :=
  { memory with sampleCount := memory.sampleCount + 1 }

def emitted (memory : Memory) (current : Sample) : Memory :=
  { memory with
      phase := .streaming
      previous := current
      sampleCount := memory.sampleCount + 1
      samplesEmitted := memory.samplesEmitted + 1 }

/-- Takes a sample of the unit size. If it causes a block it is copied over the last sample. -/
def enter? (memory : Memory) (encoder : Encoder) (current : Sample) :
    Option (Memory × Option Block) :=
  if memory.phase = .streaming ∧ current = memory.previous then
    some (memory.skipped, none)
  else if current.length = memory.previous.length then
    some (memory.emitted current, some (memory.block encoder current))
  else
    none

def take? (memory : Memory) (encoder : Encoder) (sample : Sample) :
    Option (Memory × Option Block) :=
  match memory.fit? encoder.unitSize sample with
  | none => none
  | some (current, fitted) => fitted.enter? encoder current

def takeAll? (memory : Memory) (encoder : Encoder) :
    List Sample → Option (Memory × List Block)
  | [] => some (memory, [])
  | sample :: rest =>
    match memory.take? encoder sample with
    | none => none
    | some (next, block) =>
      (next.takeAll? encoder rest).map fun (final, blocks) => (final, block.toList ++ blocks)

/-- The memory holds what the encoder knows, in buffers of the unit size. -/
structure Mirrors (memory : Memory) (encoder : Encoder) : Prop where
  phase : memory.phase = encoder.phase
  previous : memory.previous = encoder.previous.getD (List.replicate encoder.unitSize 0)
  previousLength : memory.previous.length = encoder.unitSize
  scratchLength : memory.scratch.length = encoder.unitSize
  sampleCount : memory.sampleCount = encoder.sampleCount
  samplesEmitted : memory.samplesEmitted = encoder.samplesEmitted

variable {memory : Memory} {encoder : Encoder} {unitSize : Nat}

theorem fit?_eq (enough : memory.scratch.length = unitSize) (sample : Sample) :
    ∃ scratch, scratch.length = unitSize ∧
      memory.fit? unitSize sample = some (sample.resize unitSize, { memory with scratch }) := by
  by_cases sameSize : sample.length = unitSize
  · refine ⟨memory.scratch, enough, ?_⟩
    rw [fit?, if_pos sameSize, Sample.resize_of_length sameSize]
  · refine ⟨sample.resize unitSize, Sample.length_resize _ _, ?_⟩
    have filled : unitSize - (sample.take unitSize).length = unitSize - sample.length := by
      rw [List.length_take]
      omega
    simp only [fit?, if_neg sameSize, enough, if_pos (List.length_take_le _ _), filled]
    rfl

theorem mirrors_blank (untouched : encoder.previous = none) (noSample : encoder.sampleCount = 0)
    (noBlock : encoder.samplesEmitted = 0) : (blank encoder.unitSize).Mirrors encoder where
  phase := by rw [Encoder.phase, untouched]; rfl
  previous := by rw [untouched]; rfl
  previousLength := List.length_replicate
  scratchLength := List.length_replicate
  sampleCount := noSample.symm
  samplesEmitted := noBlock.symm

theorem Mirrors.withScratch (mirrors : memory.Mirrors encoder) {scratch : Sample}
    (enough : scratch.length = encoder.unitSize) :
    { memory with scratch }.Mirrors encoder :=
  ⟨mirrors.phase, mirrors.previous, mirrors.previousLength, enough, mirrors.sampleCount,
    mirrors.samplesEmitted⟩

theorem Mirrors.withBooks (mirrors : memory.Mirrors encoder) (header : Option String)
    (bytesOut : Nat) (strideWarned : Bool) :
    memory.Mirrors (encoder.withBooks header bytesOut strideWarned) :=
  ⟨mirrors.phase, mirrors.previous, mirrors.previousLength, mirrors.scratchLength,
    mirrors.sampleCount, mirrors.samplesEmitted⟩

theorem Mirrors.block?_eq (mirrors : memory.Mirrors encoder) (current : Sample) :
    encoder.block? (encoder.sampleCount + 1) current =
      if memory.phase = .streaming ∧ current = memory.previous then
        none
      else
        some (memory.block encoder current) := by
  have phase := mirrors.phase
  have previous := mirrors.previous
  rw [Encoder.phase] at phase
  rw [block, mirrors.sampleCount]
  cases kept : encoder.previous with
  | none =>
      rw [kept] at phase
      simp [Encoder.block?, kept, phase]
  | some last =>
      rw [kept] at phase
      rw [kept, Option.getD_some] at previous
      simp [Encoder.block?, kept, phase, previous]

/-- A sample of the unit size causes the same block in memory as in the encoder. Its copy fits,
because the buffer of the last sample has the unit size. -/
theorem Mirrors.enter? (mirrors : memory.Mirrors encoder) (sample : Sample) :
    ∃ after, memory.enter? encoder (sample.resize encoder.unitSize) =
        some (after, (encoder.step sample).2) ∧
      after.Mirrors (encoder.step sample).1 := by
  have currentLength := Sample.length_resize encoder.unitSize sample
  have fits := currentLength.trans mirrors.previousLength.symm
  have made := mirrors.block?_eq (sample.resize encoder.unitSize)
  rw [Memory.enter?]
  split at made <;> rename_i same
  · rw [encoder.step_of_none made, if_pos same]
    exact ⟨_, rfl, mirrors.phase, mirrors.previous, mirrors.previousLength, mirrors.scratchLength,
      congrArg (· + 1) mirrors.sampleCount, mirrors.samplesEmitted⟩
  · rw [encoder.step_of_some made, if_neg same, if_pos fits]
    exact ⟨_, rfl, rfl, rfl, currentLength, mirrors.scratchLength,
      congrArg (· + 1) mirrors.sampleCount, congrArg (· + 1) mirrors.samplesEmitted⟩

theorem Mirrors.take? (mirrors : memory.Mirrors encoder) (sample : Sample) :
    ∃ after, memory.take? encoder sample = some (after, (encoder.step sample).2) ∧
      after.Mirrors (encoder.step sample).1 := by
  rcases fit?_eq mirrors.scratchLength sample with ⟨scratch, enough, fitted⟩
  rw [Memory.take?, fitted]
  exact (mirrors.withScratch enough).enter? sample

theorem take?_congr {other : Encoder} (registry : other.registry = encoder.registry)
    (unitSize : other.unitSize = encoder.unitSize) (timescale : other.timescale = encoder.timescale)
    (rate : other.rate = encoder.rate) (sample : Sample) :
    memory.take? other sample = memory.take? encoder sample := by
  simp only [Memory.take?, Memory.enter?, block, registry, unitSize, timescale, rate]

theorem takeAll?_congr {other : Encoder} (registry : other.registry = encoder.registry)
    (unitSize : other.unitSize = encoder.unitSize) (timescale : other.timescale = encoder.timescale)
    (rate : other.rate = encoder.rate) (samples : List Sample) :
    memory.takeAll? other samples = memory.takeAll? encoder samples := by
  induction samples generalizing memory with
  | nil => rfl
  | cons sample rest ih =>
      simp only [Memory.takeAll?, take?_congr registry unitSize timescale rate, ih]

theorem Mirrors.takeAll? (mirrors : memory.Mirrors encoder) (samples : List Sample) :
    ∃ after, memory.takeAll? encoder samples = some (after, (encoder.advance samples).2) ∧
      after.Mirrors (encoder.advance samples).1 := by
  induction samples generalizing memory encoder with
  | nil => exact ⟨memory, rfl, mirrors⟩
  | cons sample rest ih =>
      rcases mirrors.take? sample with ⟨next, taken, mirrorsNext⟩
      rcases ih mirrorsNext with ⟨final, takenAll, mirrorsFinal⟩
      have fixed := encoder.step_fixed sample
      rw [takeAll?_congr fixed.2.1 fixed.1 fixed.2.2.1 fixed.2.2.2] at takenAll
      refine ⟨final, ?_, mirrorsFinal⟩
      simp only [Memory.takeAll?, taken, takenAll, Option.map_some]
      rfl

end Memory

end WaveDump
