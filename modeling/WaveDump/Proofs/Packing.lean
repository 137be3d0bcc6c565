import WaveDump.Proofs.Invariant

/-!
# Levels, bytes and numbers

The bytes of a sample are the digits of a number to the base of 256, the least significant one
first, and the levels are its binary digits. A level can be read through a mask, and levels packed
through masks are read back from where they were put. A number and its count of digits determine the
digits, so samples of one size with the same levels are equal: the encoder, which compares bytes,
passes over exactly the samples in which no level has changed.
-/

namespace WaveDump

namespace Sample

/-- The number that the bytes denote, the least significant byte first. -/
def number (sample : Sample) : Nat :=
  Nat.ofDigits 256 (sample.map UInt8.toNat)

/-- The byte in which only the bit of a channel is raised. -/
def mask (index : Nat) : UInt8 :=
  1 <<< UInt8.ofNat (index % 8)

/-- The sample with a level put to the low bit `index`. -/
def put (sample : Sample) (index : Nat) (level : Bool) : Sample :=
  sample.modify (index / 8) (· ||| if level then mask index else 0)

/-- The sample with levels put one after the other to its low bits from `start` on. -/
def putFrom (sample : Sample) (start : Nat) : List Bool → Sample
  | [] => sample
  | level :: rest => (sample.put start level).putFrom (start + 1) rest

/-- Levels packed into as many bytes as they take, from the least significant bit of the first byte
on. -/
def pack (levels : List Bool) : Sample :=
  putFrom (List.replicate (bytesFor levels.length) 0) 0 levels

/-! ## Levels are binary digits -/

theorem level_of_le {sample : Sample} {index : Nat} (past : 8 * sample.length ≤ index) :
    sample.level index = false := by
  have noByte : sample[index / 8]? = none := by
    apply List.getElem?_eq_none
    omega
  rw [level, noByte]

theorem level_replicate (size index : Nat) : level (List.replicate size 0) index = false := by
  rw [level, List.getElem?_replicate]
  by_cases present : index / 8 < size
  · rw [if_pos present]
    exact Nat.zero_testBit _
  · rw [if_neg present]

theorem level_cons (byte : UInt8) (rest : Sample) (index : Nat) :
    level (byte :: rest) index =
      if index < 8 then byte.toNat.testBit index else level rest (index - 8) := by
  by_cases early : index < 8
  · have place : index / 8 = 0 := by omega
    have bit : index % 8 = index := by omega
    rw [if_pos early, level, place, bit, List.getElem?_cons_zero]
  · have place : index / 8 = (index - 8) / 8 + 1 := by omega
    have bit : index % 8 = (index - 8) % 8 := by omega
    rw [if_neg early, level, level, place, bit, List.getElem?_cons_succ]

theorem number_cons (byte : UInt8) (rest : Sample) :
    number (byte :: rest) = 2 ^ 8 * number rest + byte.toNat := by
  rw [number, List.map_cons, Nat.ofDigits_cons, Nat.add_comm]
  rfl

/-- The induction is on the bytes: the lowest eight binary digits are those of the first byte. -/
theorem level_eq_testBit (sample : Sample) (index : Nat) :
    sample.level index = sample.number.testBit index := by
  induction sample generalizing index with
  | nil => simp [level, number]
  | cons byte rest ih =>
      rw [level_cons, number_cons, Nat.testBit_two_pow_mul_add _ byte.toNat_lt, ih]

/-- The levels determine the number, and the number of so many bytes determines these. -/
theorem eq_iff_level {first second : Sample} (sameLength : first.length = second.length) :
    first = second ↔ ∀ index, first.level index = second.level index := by
  constructor
  · intro same index
    rw [same]
  · intro agree
    -- Bytes are digits to the base of 256, so two numbers with as many bytes have the same ones.
    have digit (sample : Sample) : ∀ value ∈ sample.map UInt8.toNat, value < 256 := by
      intro value member
      rcases List.mem_map.mp member with ⟨byte, _, rfl⟩
      exact byte.toNat_lt
    have sameNumber : first.number = second.number := by
      apply Nat.eq_of_testBit_eq
      intro index
      rw [← level_eq_testBit, ← level_eq_testBit, agree]
    have sameDigits : first.map UInt8.toNat = second.map UInt8.toNat := by
      apply Nat.ofDigits_inj_of_len_eq (by omega) _ (digit first) (digit second) sameNumber
      rw [List.length_map, List.length_map, sameLength]
    exact List.map_injective_iff.mpr (fun _ _ => UInt8.toNat_inj.mp) sameDigits

/-- Cut or filled up to a size, samples are equal unless they differ in a level within that size. -/
theorem resize_eq_resize_iff (size : Nat) (first second : Sample) :
    first.resize size = second.resize size ↔
      ∀ index < 8 * size, first.level index = second.level index := by
  have lengthFirst := length_resize size first
  have lengthSecond := length_resize size second
  rw [eq_iff_level (lengthFirst.trans lengthSecond.symm)]
  constructor
  · intro agree index within
    rw [← first.level_resize within, ← second.level_resize within, agree]
  · intro agree index
    by_cases within : index < 8 * size
    · rw [first.level_resize within, second.level_resize within, agree index within]
    · rw [level_of_le (by omega), level_of_le (by omega)]

/-! ## Packing -/

theorem toNat_mask (index : Nat) : (mask index).toNat = 2 ^ (index % 8) := by
  have small : index % 8 < 8 := Nat.mod_lt index (by omega)
  have fits : 2 ^ (index % 8) < 2 ^ 8 := Nat.pow_lt_pow_right (by omega) small
  have count : (UInt8.ofNat (index % 8)).toNat % 8 = index % 8 := by
    rw [UInt8.toNat_ofNat']
    omega
  rw [mask, UInt8.toNat_shiftLeft, count, Nat.shiftLeft_eq, UInt8.toNat_one, Nat.one_mul,
    Nat.mod_eq_of_lt fits]

/-- A level is read by masking out the other bits of its byte. -/
theorem level_eq_masked (sample : Sample) (index : Nat) :
    sample.level index = sample[index / 8]?.any fun byte => byte &&& mask index != 0 := by
  rw [level]
  cases sample[index / 8]? with
  | none => rfl
  | some byte =>
      have masked : (byte &&& mask index).toNat =
          (byte.toNat.testBit (index % 8)).toNat * 2 ^ (index % 8) := by
        rw [UInt8.toNat_and, toNat_mask, Nat.and_two_pow]
      change byte.toNat.testBit (index % 8) = _
      rw [Option.any_some, Bool.eq_iff_iff, bne_iff_ne, ne_eq, ← UInt8.toNat_inj, masked]
      cases byte.toNat.testBit (index % 8) <;> simp

section Putting

variable {sample : Sample}

theorem length_put (index : Nat) (level : Bool) :
    (sample.put index level).length = sample.length :=
  List.length_modify _ _ _

/-- The mask reaches one bit of one byte, so every other level stays as it was. -/
theorem level_put {place : Nat} (within : place < 8 * sample.length) (level : Bool)
    (index : Nat) :
    (sample.put place level).level index = (sample.level index || (level && place = index)) := by
  rw [Sample.level, Sample.level, put, List.getElem?_modify]
  by_cases sameByte : place / 8 = index / 8
  · have present : index / 8 < sample.length := by omega
    have sameBit : place % 8 = index % 8 ↔ place = index := by omega
    cases level <;>
      simp [sameByte, List.getElem?_eq_getElem present, UInt8.toNat_or, toNat_mask,
        Nat.testBit_two_pow, sameBit]
  · have apart : place ≠ index := by
      rintro rfl
      exact sameByte rfl
    simp [sameByte, apart]

theorem length_putFrom (start : Nat) (levels : List Bool) :
    (sample.putFrom start levels).length = sample.length := by
  induction levels generalizing sample start with
  | nil => rfl
  | cons level rest ih => rw [putFrom, ih, length_put]

/-- The induction is on the levels; with each of them the next bit of the sample is settled. -/
theorem level_putFrom {start : Nat} {levels : List Bool}
    (within : start + levels.length ≤ 8 * sample.length) (index : Nat) :
    (sample.putFrom start levels).level index =
      (sample.level index || (start ≤ index && levels.getD (index - start) false)) := by
  induction levels generalizing sample start with
  | nil => simp [putFrom]
  | cons level rest ih =>
      rw [List.length_cons] at within
      have room : start + 1 + rest.length ≤ 8 * (sample.put start level).length := by
        rw [length_put]
        omega
      rw [putFrom, ih room, level_put (by omega), Bool.or_assoc]
      congr 1
      -- What is left is a matter of the levels alone: bit `index` belongs to the first one, to one
      -- behind it, or to none.
      by_cases reached : start ≤ index
      · obtain ⟨offset, rfl⟩ := Nat.exists_eq_add_of_le reached
        cases offset with
        | zero => simp
        | succ offset =>
            have rest : start + (offset + 1) - (start + 1) = offset := by omega
            simp [rest]
      · have later : ¬start + 1 ≤ index := by omega
        have apart : start ≠ index := by omega
        simp [reached, later, apart]

end Putting

theorem length_pack (levels : List Bool) : (pack levels).length = bytesFor levels.length := by
  rw [pack, length_putFrom, List.length_replicate]

theorem level_pack (levels : List Bool) (index : Nat) :
    (pack levels).level index = levels.getD index false := by
  have room : 0 + levels.length ≤
      8 * (List.replicate (bytesFor levels.length) (0 : UInt8)).length := by
    rw [List.length_replicate, bytesFor]
    omega
  rw [pack, level_putFrom room, level_replicate]
  simp

/-- The bytes of packed levels denote the number of which the levels are the binary digits. -/
theorem number_pack (levels : List Bool) : (pack levels).number = Nat.ofBits levels.get := by
  apply Nat.eq_of_testBit_eq
  intro index
  rw [← level_eq_testBit, level_pack, Nat.testBit_ofBits]
  by_cases listed : index < levels.length
  · rw [dif_pos listed, List.getD_eq_getElem _ _ listed, List.get_eq_getElem]
  · rw [dif_neg listed, List.getD_eq_default _ _ (Nat.le_of_not_lt listed)]

end Sample

theorem isLeast_bytesFor (bits : Nat) : IsLeast {size | bits ≤ 8 * size} (bytesFor bits) := by
  constructor
  · rw [Set.mem_ofPred_eq, bytesFor]
    omega
  · intro size holds
    rw [Set.mem_ofPred_eq] at holds
    rw [bytesFor]
    omega

/-! ## Skipped samples -/

namespace Encoder

/-- The encoder counts a sample and does nothing else. -/
def Skips (encoder : Encoder) (sample : Sample) : Prop :=
  encoder.step sample = ({ encoder with sampleCount := encoder.sampleCount + 1 }, none)

/-- Whether a sample is the first one or has, within the unit size, another level than the sample
before. -/
def changesLevel (encoder : Encoder) (samples : List Sample) (index : Nat) : Bool :=
  index = 0 || (List.range (8 * encoder.unitSize)).any fun bit =>
    (samples.getD index []).level bit != (samples.getD (index - 1) []).level bit

section Skipped

variable {encoder start : Encoder} {samples : List Sample}

theorem block?_eq_none_iff (index : Nat) (sample : Sample) :
    encoder.block? index sample = none ↔ encoder.previous = some sample := by
  rw [block?]
  cases encoder.previous with
  | none => simp
  | some last => simp [eq_comm]

/-- The test for a skip compares bytes, those of the sample in the unit size with those kept. -/
theorem skips_iff_previous (sample : Sample) :
    encoder.Skips sample ↔ encoder.previous = some (sample.resize encoder.unitSize) := by
  rw [← encoder.block?_eq_none_iff (encoder.sampleCount + 1)]
  constructor
  · intro skips
    cases made : encoder.block? (encoder.sampleCount + 1) (sample.resize encoder.unitSize) with
    | none => rfl
    | some block =>
        rw [Skips, step_of_some encoder made] at skips
        simp at skips
  · exact fun quiet => encoder.step_of_none quiet

theorem Follows.skips_iff (follows : encoder.Follows start samples) (sample : Sample) :
    encoder.Skips sample ↔
      ∃ last ∈ samples.getLast?,
        ∀ index < 8 * start.unitSize, sample.level index = last.level index := by
  rw [skips_iff_previous, follows.previous, follows.unitSize, Option.map_eq_some_iff]
  simp only [Option.mem_def, ← Sample.resize_eq_resize_iff, eq_comm]

theorem emits_eq_changesLevel (encoder : Encoder) (samples : List Sample) :
    encoder.emits samples = encoder.changesLevel samples := by
  funext index
  rw [emits, changesLevel, Bool.eq_iff_iff, Bool.or_eq_true, Bool.or_eq_true, bne_iff_ne, ne_eq,
    Sample.resize_eq_resize_iff]
  simp

end Skipped

end Encoder

/-- Levels are the binary digits of the number that the bytes denote, packed levels are read back,
as few bytes are taken as hold the levels, and samples of one size are equal if all their levels
are. Whatever calls an encoder was given, it skips a sample exactly when no level within the unit
size is another than in the sample before, and what it has returned are the blocks of the samples
that changed a level. -/
theorem levels_and_bytes_agree :
    (∀ (sample : Sample) (index : Nat),
      sample.level index = (sample[index / 8]?.any fun byte => byte &&& Sample.mask index != 0) ∧
      sample.level index = sample.number.testBit index ∧
      (8 * sample.length ≤ index → sample.level index = false)) ∧
    (∀ levels : List Bool,
      (Sample.pack levels).length = bytesFor levels.length ∧
      (Sample.pack levels).number = Nat.ofBits levels.get ∧
      ∀ index, (Sample.pack levels).level index = levels.getD index false) ∧
    (∀ bits, IsLeast {size | bits ≤ 8 * size} (bytesFor bits)) ∧
    (∀ first second : Sample, first.length = second.length →
      (first = second ↔ ∀ index, first.level index = second.level index)) ∧
    ∀ (capture : Capture) (options : EncoderOptions) (encoder : Encoder),
      (Encoder.create capture options).1 = .ok encoder →
      ∀ calls : List EncoderCall,
        let frames := encoder.framesOfAll calls
        let samples := frames.flatMap Frame.samples
        let current := encoder.performAll calls
        let changed := (List.range samples.length).filter (encoder.changesLevel samples)
        (∀ sample, current.Skips sample ↔
          ∃ last ∈ samples.getLast?,
            ∀ index < 8 * encoder.unitSize, sample.level index = last.level index) ∧
        ∃ texts, encoder.feed frames = (current, texts) ∧
          String.join texts = encoder.opening frames ++
            String.join (changed.map fun index => (encoder.blockAt samples index).text) := by
  refine ⟨?_, ?_, isLeast_bytesFor, ?_, ?_⟩
  · intro sample index
    exact ⟨sample.level_eq_masked index, sample.level_eq_testBit index, Sample.level_of_le⟩
  · intro levels
    exact ⟨Sample.length_pack levels, Sample.number_pack levels, Sample.level_pack levels⟩
  · intro first second sameLength
    exact Sample.eq_iff_level sameLength
  · intro capture options encoder accepted calls frames samples current changed
    rcases Encoder.feed_of_create accepted frames with ⟨follows, text⟩
    rw [← encoder.performAll_eq_feed] at follows
    refine ⟨follows.skips_iff, (encoder.feed frames).2, ?_, ?_⟩
    · exact Prod.ext (encoder.performAll_eq_feed calls).symm rfl
    · rw [text, Encoder.blocks, Encoder.blocksUpTo, encoder.emits_eq_changesLevel, List.map_map]
      rfl

/-- A clock that stays and a bus that changes, in samples of other sizes than the unit size. -/
theorem levels_and_bytes_agree_clockAndBus :
    (Sample.pack [true, false, false, false, false, false, false, false, true]).level 8 = true ∧
      Sample.level [1, 1] 16 = false ∧
      ([1, 0] : Sample).length = ([1, 2] : Sample).length ∧
      (([1, 0] : Sample) = [1, 2] ↔
        ∀ index, Sample.level [1, 0] index = Sample.level [1, 2] index) ∧
      (Encoder.create clockAndBus clockAndBusOptions).1 = .ok clockAndBusEncoder ∧
      (clockAndBusEncoder.performAll [.encode [1, 7, 7] 1]).Skips [7, 0, 9] ∧
      ¬(clockAndBusEncoder.performAll [.encode [1, 7, 7] 1]).Skips [7, 8] ∧
      ∃ texts,
        clockAndBusEncoder.feed [⟨[1, 7, 7], 1⟩] =
          (clockAndBusEncoder.performAll [.encode [1, 7, 7] 1], texts) ∧
        String.join texts = clockAndBusEncoder.opening [⟨[1, 7, 7], 1⟩] ++
          String.join ([0, 1].map fun index =>
            (clockAndBusEncoder.blockAt [[1], [7], [7]] index).text) := by
  obtain ⟨reading, packing, _, ext, encoding⟩ := levels_and_bytes_agree
  obtain ⟨skips, returned⟩ :=
    encoding clockAndBus clockAndBusOptions clockAndBusEncoder clockAndBus_accepted
      [.encode [1, 7, 7] 1]
  refine ⟨(packing _).2.2 8, (reading [1, 1] 16).2.2 (by decide), by decide,
    ext [1, 0] [1, 2] (by decide), clockAndBus_accepted, ?_, ?_, returned⟩
  · apply (skips [7, 0, 9]).mpr
    exact ⟨[7], rfl, by decide⟩
  · rw [skips [7, 8]]
    rintro ⟨last, isLast, agree⟩
    obtain rfl : [7] = last := Option.some.inj isLast
    exact absurd (agree 11 (by decide)) (by decide)

end WaveDump
