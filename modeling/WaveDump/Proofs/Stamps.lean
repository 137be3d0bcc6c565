import Mathlib.Algebra.Order.Floor.Div
import Mathlib.Tactic.Linarith
import WaveDump.Timescale

/-!
# What stamps tell apart

A stamp counts the whole ticks that have passed when a sample is taken. With at least one tick for
every sample, which the unit for a rate grants up to one gigahertz, neighbouring samples have
different stamps, and the index of a sample is its stamp taken back to samples and rounded up. Above
one gigahertz there are fewer ticks than samples, and some neighbours share a stamp long before
stamps are cut at the largest word.
-/

namespace WaveDump

/-! ## Whole ticks -/

section Ticks

variable {ticks rate earlier later : Nat}

theorem ticks_lt_ticks (positive : 0 < rate) (fine : rate ≤ ticks) (before : earlier < later) :
    earlier * ticks / rate < later * ticks / rate := by
  calc earlier * ticks / rate
    _ < earlier * ticks / rate + 1 := Nat.lt_succ_self _
    _ = (earlier * ticks + rate) / rate := (Nat.add_div_right _ positive).symm
    _ ≤ (earlier * ticks + ticks) / rate := by
        apply Nat.div_le_div_right
        omega
    _ = (earlier + 1) * ticks / rate := by rw [Nat.succ_mul]
    _ ≤ later * ticks / rate := by
        apply Nat.div_le_div_right
        exact Nat.mul_le_mul_right ticks before

/-- Taken back to samples and rounded up, the whole ticks give the sample they were counted for. -/
theorem ticks_ceilDiv (positive : 0 < rate) (fine : rate ≤ ticks) (index : Nat) :
    (index * ticks / rate * rate) ⌈/⌉ ticks = index := by
  have someTicks : 0 < ticks := by omega
  apply Nat.le_antisymm
  · apply (ceilDiv_le_iff_le_mul someTicks).mpr
    calc index * ticks / rate * rate
      _ ≤ index * ticks := Nat.div_mul_le_self _ _
      _ = ticks * index := Nat.mul_comm _ _
  · by_contra less
    rcases Nat.exists_eq_add_one.mpr (Nat.zero_lt_of_lt (Nat.lt_of_not_le less)) with
      ⟨before, rfl⟩
    have atMost : (before + 1) * ticks / rate * rate ≤ ticks * before :=
      (ceilDiv_le_iff_le_mul someTicks).mp (by omega)
    have passed := Nat.lt_mul_div_succ ((before + 1) * ticks) positive
    linarith

/-- With fewer ticks than samples two neighbours share their whole ticks: those around the place
where the ticks have first fallen behind by a whole sample. -/
theorem exists_same_ticks (coarse : ticks < rate) :
    ∃ index, 1 ≤ index ∧ index ≤ ticks + 1 ∧
      index * ticks / rate = (index + 1) * ticks / rate := by
  obtain ⟨behind, rfl⟩ : ∃ behind, rate = ticks + behind := ⟨rate - ticks, by omega⟩
  have positive : 0 < behind := by omega
  obtain ⟨count, counted⟩ : ∃ count, count = ticks / behind := ⟨_, rfl⟩
  have reached : count * behind ≤ ticks := by
    rw [counted]
    exact Nat.div_mul_le_self ticks behind
  have passed : ticks < (count + 1) * behind := by
    rw [counted, Nat.mul_comm]
    exact Nat.lt_mul_div_succ ticks positive
  have here : (count + 1) * ticks / (ticks + behind) = count := by
    apply Nat.div_eq_of_lt_le <;> linarith
  have next : (count + 1 + 1) * ticks / (ticks + behind) = count := by
    apply Nat.div_eq_of_lt_le <;> linarith
  refine ⟨count + 1, by omega, ?_, here.trans next.symm⟩
  have fewer := Nat.div_le_self ticks behind
  omega

end Ticks

/-! ## Stamps -/

namespace Timescale

variable {rate index : Nat}

theorem stamp_mono (timescale : Timescale) (rate : Option Nat) {earlier later : Nat}
    (le : earlier ≤ later) : timescale.stamp rate earlier ≤ timescale.stamp rate later := by
  unfold stamp
  split
  · exact le
  · exact le
  · rename_i hertz _
    have ticks : earlier * timescale.ticksPerSecond / hertz ≤
        later * timescale.ticksPerSecond / hertz :=
      Nat.div_le_div_right (Nat.mul_le_mul_right _ le)
    omega

theorem stamp_of_pos (timescale : Timescale) (positive : 0 < rate) (index : Nat) :
    timescale.stamp (some rate) index =
      min (index * timescale.ticksPerSecond / rate) maxWord := by
  obtain ⟨before, rfl⟩ := Nat.exists_eq_add_one.mpr positive
  rfl

theorem ticksPerSecond_le (timescale : Timescale) : timescale.ticksPerSecond ≤ gigahertz := by
  cases timescale <;> decide

/-- The unit for a rate has at least one tick for every sample exactly up to one gigahertz. -/
theorem rate_le_ticksPerSecond_iff (rate : Nat) :
    rate ≤ (ofRate (some rate)).ticksPerSecond ↔ rate ≤ gigahertz := by
  simp only [ofRate, Option.getD_some, megahertz, kilohertz, gigahertz]
  by_cases aboveMega : 1000000 < rate
  · simp [aboveMega, ticksPerSecond]
  · by_cases aboveKilo : 1000 < rate <;> simp [aboveMega, aboveKilo, ticksPerSecond] <;> omega

/-- The stamp as it is computed in words: the product in 128 bits, and the quotient cut at the
largest word of 64 bits. -/
def wordStamp (timescale : Timescale) (rate index : UInt64) : UInt64 :=
  let product := index.toBitVec.setWidth 128 * BitVec.ofNat 128 timescale.ticksPerSecond
  let ticks := product / rate.toBitVec.setWidth 128
  if ticks.toNat ≤ maxWord then .ofNat ticks.toNat else .ofNat maxWord

theorem product_lt (timescale : Timescale) (inWord : index ≤ maxWord) :
    index * timescale.ticksPerSecond < 2 ^ 128 := by
  have few := timescale.ticksPerSecond_le
  simp only [maxWord, gigahertz] at inWord few
  calc index * timescale.ticksPerSecond
    _ ≤ 0xFFFFFFFFFFFFFFFF * 1000000000 := Nat.mul_le_mul inWord few
    _ < 2 ^ 128 := by decide

/-- The product fits into 128 bits, so words compute the stamp. -/
theorem toNat_wordStamp (timescale : Timescale) {rate : UInt64} (positive : 0 < rate.toNat)
    (index : UInt64) :
    (timescale.wordStamp rate index).toNat =
      timescale.stamp (some rate.toNat) index.toNat := by
  have inWord : index.toNat ≤ maxWord := Nat.le_of_lt_succ index.toNat_lt
  have fits := timescale.product_lt inWord
  have few := timescale.ticksPerSecond_le
  have indexWide : index.toNat % 2 ^ 128 = index.toNat := Nat.mod_eq_of_lt (by
    have := index.toNat_lt
    omega)
  have rateWide : rate.toNat % 2 ^ 128 = rate.toNat := Nat.mod_eq_of_lt (by
    have := rate.toNat_lt
    omega)
  have ticksWide : timescale.ticksPerSecond % 2 ^ 128 = timescale.ticksPerSecond :=
    Nat.mod_eq_of_lt (by
      simp only [gigahertz] at few
      omega)
  rw [stamp_of_pos timescale positive]
  simp only [wordStamp, BitVec.toNat_udiv, BitVec.toNat_mul, BitVec.toNat_setWidth,
    BitVec.toNat_ofNat, UInt64.toNat_toBitVec, indexWide, rateWide, ticksWide,
    Nat.mod_eq_of_lt fits]
  split
  · rename_i small
    rw [Nat.min_eq_left small]
    exact UInt64.toNat_ofNat_of_lt' (Nat.lt_succ_of_le small)
  · rename_i large
    rw [Nat.min_eq_right (by omega)]
    rfl

/-- Stamps count the whole ticks, cut at the largest word, and no product overflows on the way. They
never decrease. Up to one gigahertz they lose nothing before they are cut: later samples have later
stamps, and the index of a sample is its stamp taken back to samples and rounded up. Above one
gigahertz two neighbours share a stamp before it is cut. Without a rate, stamps are indices. -/
theorem stamp_lossless_iff :
    (∀ rate : Nat, 1 ≤ rate → rate ≤ maxWord →
      let timescale := ofRate (some rate)
      let ticks := timescale.ticksPerSecond
      let stamp := timescale.stamp (some rate)
      (∀ index : Nat, index ≤ maxWord →
        stamp index = min (index * ticks / rate) (2 ^ 64 - 1) ∧
        index * ticks < 2 ^ 128 ∧
        (timescale.wordStamp (.ofNat rate) (.ofNat index)).toNat = stamp index) ∧
      (∀ earlier later, earlier ≤ later → stamp earlier ≤ stamp later) ∧
      (rate ≤ 10 ^ 9 →
        (∀ earlier later, earlier < later → later * ticks / rate < 2 ^ 64 →
          stamp earlier < stamp later) ∧
        ∀ index, index * ticks / rate < 2 ^ 64 → (stamp index * rate) ⌈/⌉ ticks = index) ∧
      (10 ^ 9 < rate →
        ∃ index, 1 ≤ index ∧ index + 1 ≤ maxWord ∧ stamp index = stamp (index + 1) ∧
          stamp index < maxWord)) ∧
    ∀ timescale : Timescale, ∀ index,
      timescale.stamp none index = index ∧ timescale.stamp (some 0) index = index := by
  refine ⟨?_, fun timescale index => ⟨rfl, rfl⟩⟩
  intro rate positive rateInWord timescale ticks stamp
  have stampEq (index : Nat) : stamp index = min (index * ticks / rate) maxWord :=
    timescale.stamp_of_pos positive index
  have uncut {index : Nat} (below : index * ticks / rate < 2 ^ 64) :
      stamp index = index * ticks / rate := by
    rw [stampEq]
    apply Nat.min_eq_left
    exact Nat.le_of_lt_succ below
  refine ⟨?_, ?_, ?_, ?_⟩
  · intro index inWord
    have rateWord : (UInt64.ofNat rate).toNat = rate :=
      UInt64.toNat_ofNat_of_lt' (Nat.lt_succ_of_le rateInWord)
    have indexWord : (UInt64.ofNat index).toNat = index :=
      UInt64.toNat_ofNat_of_lt' (Nat.lt_succ_of_le inWord)
    refine ⟨stampEq index, timescale.product_lt inWord, ?_⟩
    rw [timescale.toNat_wordStamp (by omega), rateWord, indexWord]
  · intro earlier later le
    exact timescale.stamp_mono (some rate) le
  · intro slow
    have fine : rate ≤ ticks := (rate_le_ticksPerSecond_iff rate).mpr slow
    constructor
    · intro earlier later before below
      have fewer := ticks_lt_ticks positive fine before
      rw [uncut below, uncut (Nat.lt_trans fewer below)]
      exact fewer
    · intro index below
      rw [uncut below]
      exact ticks_ceilDiv positive fine index
  · intro fast
    have coarse : ticks < rate := by
      apply Nat.lt_of_not_le
      intro fine
      exact absurd ((rate_le_ticksPerSecond_iff rate).mp fine) (Nat.not_le_of_lt fast)
    have few : ticks ≤ gigahertz := timescale.ticksPerSecond_le
    rcases exists_same_ticks coarse with ⟨index, atLeast, atMost, same⟩
    have inWord : index + 1 ≤ maxWord := by
      simp only [gigahertz, maxWord] at few ⊢
      omega
    have below : index * ticks / rate < maxWord := by
      calc index * ticks / rate
        _ ≤ index := by
            apply Nat.div_le_of_le_mul
            rw [Nat.mul_comm rate]
            exact Nat.mul_le_mul_left index (Nat.le_of_lt coarse)
        _ < maxWord := inWord
    refine ⟨index, atLeast, inWord, ?_, ?_⟩
    · rw [stampEq, stampEq, same]
    · rw [stampEq, Nat.min_eq_left (Nat.le_of_lt below)]
      exact below

/-- Three megahertz, where the ticks are no whole number of samples, and a rate just above one
gigahertz. -/
theorem stamp_lossless_iff_threeMegahertz :
    (1 ≤ 3000000 ∧ 3000000 ≤ maxWord ∧ 3000000 ≤ 10 ^ 9) ∧
      nanoseconds.stamp (some 3000000) 7 = 2333 ∧
      nanoseconds.stamp (some 3000000) 7 < nanoseconds.stamp (some 3000000) 8 ∧
      (nanoseconds.stamp (some 3000000) 7 * 3000000) ⌈/⌉ 1000000000 = 7 ∧
      10 ^ 9 < 1000000001 ∧
      ∃ index, 1 ≤ index ∧ index + 1 ≤ maxWord ∧
        nanoseconds.stamp (some 1000000001) index =
          nanoseconds.stamp (some 1000000001) (index + 1) ∧
        nanoseconds.stamp (some 1000000001) index < maxWord := by
  rcases stamp_lossless_iff.1 3000000 (by decide) (by decide) with ⟨_, _, lossless, _⟩
  rcases lossless (by decide) with ⟨increasing, recovered⟩
  rcases stamp_lossless_iff.1 1000000001 (by decide) (by decide) with ⟨_, _, _, lossy⟩
  exact ⟨by decide, by decide, increasing 7 8 (by decide) (by decide), recovered 7 (by decide),
    by decide, lossy (by decide)⟩

end Timescale

end WaveDump
