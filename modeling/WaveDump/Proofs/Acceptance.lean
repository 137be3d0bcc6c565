import Mathlib.Algebra.Order.Floor.Div
import WaveDump.Proofs.Arrangement
import WaveDump.Proofs.Levels

/-!
# Which configurations are accepted

Whether an encoder can be made follows from the enabled channels, from their places and from the
unit size that was asked for. A vector bit beyond the limit comes before a number of probes beyond
the limit, and this before a unit size that is too small; whatever is left is accepted. What the
names of enabled channels spell decides about the first two, the highest enabled place about the
third.
-/

namespace WaveDump

namespace Capture

variable (capture : Capture)

end Capture

/-! ## Registrations and spellings -/

section Spellings

variable (capture : Capture)

section Gathering

variable (registrations : List Registration)

end Gathering

namespace Registry

end Registry

end Spellings

/-! ## The unit size that is needed -/

section UnitSize

variable {capture : Capture} {registry : Registry}

/-- The probes use the places of the enabled channels and no others. -/
theorem Registry.mem_samples_iff (built : ofChannels capture.channels = .ok registry)
    {position : Nat} :
    position ∈ registry.probes.flatMap (fun probe => probe.bits.map Placement.sample) ↔
      ∃ channel, capture.channels[position]? = some channel ∧ channel.enabled := by
  simp only [List.mem_flatMap, List.mem_map]
  constructor
  · rintro ⟨probe, member, placement, shown, rfl⟩
    exact enabled_of_mem_bits built member shown
  · rintro ⟨channel, found, enabled⟩
    have entry : (channel.name, position) ∈ enabledBits capture.channels :=
      mem_enabledBits.mpr ⟨channel, found, enabled, rfl⟩
    have placed := (represents_of_build built).placements.mem_iff.mpr
      (List.mem_map_of_mem entry)
    rcases List.mem_flatMap.mp placed with ⟨probe, member, shown⟩
    exact ⟨probe, member, _, shown, rfl⟩

end UnitSize

/-! ## Making an encoder -/

namespace Encoder

variable {capture : Capture} {options : EncoderOptions}

end Encoder

end WaveDump
