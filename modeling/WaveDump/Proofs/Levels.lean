import WaveDump.Proofs.Registration

/-!
# Levels and what depends on them

Values and changes of a probe depend on a sample through the levels of the probe's channels alone.
The unit size of an encoder covers every registered channel, so cutting a sample to it, or filling
it up, changes none of these levels.
-/

namespace WaveDump

namespace Sample

theorem level_resize (sample : Sample) {size index : Nat} (within : index < 8 * size) :
    (sample.resize size).level index = sample.level index := by
  have byteWithin : index / 8 < size := by omega
  simp only [level, resize]
  by_cases present : index / 8 < sample.length
  · rw [List.getElem?_append_left (by rw [List.length_take]; omega),
      List.getElem?_take_of_lt byteWithin]
  · have filled : (sample.take size ++ List.replicate (size - sample.length) 0)[index / 8]? =
        some 0 := by
      rw [List.getElem?_append_right (by rw [List.length_take]; omega), List.getElem?_replicate,
        if_pos (by rw [List.length_take]; omega)]
    rw [filled, List.getElem?_eq_none (by omega)]
    simp

end Sample

namespace Wiring

variable {first second : Sample}

theorem places_congr (count : Nat) {bits : List Placement}
    (agree : ∀ placement ∈ bits, first.level placement.sample = second.level placement.sample) :
    places first count bits = places second count bits := by
  induction count generalizing bits with
  | zero => rfl
  | succ count ih =>
      cases bits with
      | nil => rw [places, places, ih agree]
      | cons placement rest =>
          have restAgrees : ∀ other ∈ rest.dropWhile fun other => other.bit = count,
              first.level other.sample = second.level other.sample := fun other member =>
            agree other (List.mem_cons_of_mem _ ((List.dropWhile_sublist _).subset member))
          rw [places, places, ih agree, ih restAgrees, agree placement List.mem_cons_self]

theorem value_congr {wiring : Wiring}
    (agree : ∀ placement ∈ wiring.bits,
      first.level placement.sample = second.level placement.sample) :
    wiring.value first = wiring.value second := by
  cases wiring with
  | scalar position =>
      rw [value, value, agree ⟨0, position⟩ (by simp [bits])]
  | vector placements =>
      have placesAgree : ∀ placement ∈ placements,
          first.level placement.sample = second.level placement.sample := agree
      rw [value, value, places_congr _ placesAgree]

theorem level_eq_of_not_differs {wiring : Wiring} (same : wiring.differs first second = false) :
    ∀ placement ∈ wiring.bits,
      first.level placement.sample = second.level placement.sample := by
  intro placement member
  simp only [differs, List.any_eq_false, bne_iff_ne, ne_eq, Decidable.not_not] at same
  exact (same placement member).symm

theorem differs_congr {wiring : Wiring} {first' second' : Sample}
    (agreeFirst : ∀ placement ∈ wiring.bits,
      first.level placement.sample = first'.level placement.sample)
    (agreeSecond : ∀ placement ∈ wiring.bits,
      second.level placement.sample = second'.level placement.sample) :
    wiring.differs first second = wiring.differs first' second' := by
  rw [Bool.eq_iff_iff, differs, differs, List.any_eq_true, List.any_eq_true]
  constructor
  · rintro ⟨placement, member, distinct⟩
    rw [agreeFirst placement member, agreeSecond placement member] at distinct
    exact ⟨placement, member, distinct⟩
  · rintro ⟨placement, member, distinct⟩
    rw [← agreeFirst placement member, ← agreeSecond placement member] at distinct
    exact ⟨placement, member, distinct⟩

end Wiring

namespace Encoder

variable {capture : Capture} {options : EncoderOptions} {encoder : Encoder}

/-- Every registered channel has its bit within the unit size. -/
def Covers (encoder : Encoder) : Prop :=
  ∀ probe ∈ encoder.registry.probes, ∀ placement ∈ probe.bits,
    placement.sample < 8 * encoder.unitSize

theorem create_eq_ok (accepted : (create capture options).1 = .ok encoder) :
    Registry.ofChannels capture.channels = .ok encoder.registry ∧
      chooseUnitSize encoder.registry capture options.unitSize = .ok encoder.unitSize ∧
      encoder = fresh encoder.registry capture options encoder.unitSize := by
  unfold create at accepted
  split at accepted
  · simp at accepted
  · rename_i registry built
    split at accepted
    · simp at accepted
    · rename_i unitSize chosen
      simp only [Except.ok.injEq] at accepted
      subst accepted
      exact ⟨built, chosen, rfl⟩

theorem sample_lt_requiredUnitSize {registry : Registry} {probe : Probe}
    (member : probe ∈ registry.probes) {placement : Placement} (shown : placement ∈ probe.bits) :
    placement.sample < 8 * requiredUnitSize registry := by
  have listed : placement.sample ∈ registry.probes.flatMap fun probe =>
      probe.bits.map Placement.sample :=
    List.mem_flatMap.mpr ⟨probe, member, List.mem_map_of_mem shown⟩
  cases highest : registry.maxSample? with
  | none =>
      rw [Registry.maxSample?, List.max?_eq_none_iff] at highest
      simp [highest] at listed
  | some position =>
      have bound := (List.max?_eq_some_iff.mp highest).2 _ listed
      rw [requiredUnitSize, highest]
      simp only [bytesFor]
      omega

/-- The unit size is chosen so that it covers every channel that is shown. A size that was asked for
is checked against the probes, a derived one has room for the whole channel list. -/
theorem covers_of_create (accepted : (create capture options).1 = .ok encoder) :
    encoder.Covers := by
  rcases create_eq_ok accepted with ⟨built, chosen, _⟩
  intro probe member placement shown
  unfold chooseUnitSize at chosen
  split at chosen
  · simp only [Except.ok.injEq] at chosen
    rcases Registry.enabled_of_mem_bits built member shown with ⟨channel, found, _⟩
    rcases List.getElem?_eq_some_iff.mp found with ⟨inBounds, _⟩
    rw [← chosen, bytesFor]
    omega
  · have required := sample_lt_requiredUnitSize member shown
    simp only at chosen
    split at chosen
    · simp at chosen
    · simp only [Except.ok.injEq] at chosen
      omega

variable {probe : Probe} (covers : encoder.Covers) (member : probe ∈ encoder.registry.probes)
include covers member

theorem change_resize (sample : Sample) :
    probe.change (sample.resize encoder.unitSize) = probe.change sample := by
  have agree : ∀ placement ∈ probe.wiring.bits,
      (sample.resize encoder.unitSize).level placement.sample = sample.level placement.sample :=
    fun placement shown => sample.level_resize (covers probe member placement shown)
  rw [Probe.change, Probe.change, Wiring.value_congr agree]

theorem differs_resize (earlier later : Sample) :
    probe.differs (earlier.resize encoder.unitSize) (later.resize encoder.unitSize) =
      probe.differs earlier later :=
  Wiring.differs_congr
    (fun placement shown => earlier.level_resize (covers probe member placement shown))
    (fun placement shown => later.level_resize (covers probe member placement shown))

end Encoder

end WaveDump
