import WaveDump.Proofs.Registration

/-!
# What a probe shows

The value of a vector is read off its bits in one pass from the highest place to the lowest. Here it
is compared with the channel list itself: at every place stands the level of the first enabled
channel whose name spells that bit, and places that no channel spells have no level.
-/

namespace WaveDump

/-! ## One pass and looking up -/

theorem find?_dropWhile_ne {place passed : Nat} (differ : place ≠ passed) (bits : List Placement) :
    (bits.dropWhile fun placement => placement.bit = passed).find?
        (fun placement => placement.bit = place) =
      bits.find? fun placement => placement.bit = place := by
  induction bits with
  | nil => rfl
  | cons placement rest ih =>
      by_cases here : placement.bit = passed
      · have skipped : placement.bit ≠ place := by omega
        simp [here, ih, show passed ≠ place by omega]
      · simp [here]

theorem lt_of_mem_dropWhile {highest : Nat} {bits : List Placement}
    (sorted : bits.Pairwise fun left right => right.bit ≤ left.bit)
    (below : ∀ placement ∈ bits, placement.bit ≤ highest) :
    ∀ placement ∈ bits.dropWhile fun placement => placement.bit = highest,
      placement.bit < highest := by
  induction bits with
  | nil => simp
  | cons first rest ih =>
      have firstBelow := below first List.mem_cons_self
      rw [List.pairwise_cons] at sorted
      by_cases here : first.bit = highest
      · rw [List.dropWhile_cons_of_pos (by simpa using here)]
        exact ih sorted.2 fun placement member => below placement (List.mem_cons_of_mem _ member)
      · rw [List.dropWhile_cons_of_neg (by simpa using here)]
        intro placement member
        rcases List.mem_cons.mp member with rfl | later
        · omega
        · have notAbove := sorted.1 placement later
          omega

/-- The level that stands at a place of a value: that of the first bit for the place, if any. -/
def levelAt? (bits : List Placement) (sample : Sample) (place : Nat) : Option Bool :=
  (bits.find? fun placement => placement.bit = place).map fun placement =>
    sample.level placement.sample

theorem levelAt?_descending (bits : List Placement) (sample : Sample) (place : Nat) :
    levelAt? (descending bits) sample place = levelAt? bits sample place := by
  rw [levelAt?, levelAt?, find?_descending]

/-- Reading a value off descending bits is looking every place up. -/
theorem places_eq_lookup (sample : Sample) (count : Nat) {bits : List Placement}
    (sorted : bits.Pairwise fun left right => right.bit ≤ left.bit)
    (below : ∀ placement ∈ bits, placement.bit < count) :
    Wiring.places sample count bits =
      (List.range count).reverse.map (levelAt? bits sample) := by
  induction count generalizing bits with
  | zero => rfl
  | succ count ih =>
      rw [List.range_succ, List.reverse_append, List.reverse_singleton, List.singleton_append,
        List.map_cons]
      cases bits with
      | nil =>
          rw [Wiring.places, ih List.Pairwise.nil (by simp)]
          rfl
      | cons placement rest =>
          rw [Wiring.places]
          have restSorted := (List.pairwise_cons.mp sorted).2
          have restBelow : ∀ other ∈ rest, other.bit ≤ count := fun other member =>
            Nat.le_of_lt_succ (below other (List.mem_cons_of_mem _ member))
          have firstBelow := below placement List.mem_cons_self
          split
          · rename_i here
            have laterSorted := restSorted.sublist
              (List.dropWhile_sublist fun other : Placement => decide (other.bit = count))
            rw [ih laterSorted (lt_of_mem_dropWhile restSorted restBelow)]
            congr 1
            · simp [levelAt?, here]
            · apply List.map_congr_left
              intro place placeMem
              have lower : place < count := by simpa using placeMem
              have differ : placement.bit ≠ place := by omega
              rw [levelAt?, levelAt?, find?_dropWhile_ne (by omega),
                List.find?_cons_of_neg (by simpa using differ)]
          · rename_i elsewhere
            have allBelow : ∀ other ∈ placement :: rest, other.bit < count := by
              intro other member
              rcases List.mem_cons.mp member with rfl | later
              · omega
              · have notAbove := (List.pairwise_cons.mp sorted).1 other later
                omega
            rw [ih sorted allBelow]
            congr 1
            have nowhere : (placement :: rest).find? (fun other => other.bit = count) = none := by
              rw [List.find?_eq_none]
              intro other member
              have lower := allBelow other member
              simp only [decide_eq_true_eq]
              omega
            rw [levelAt?, nowhere]
            rfl

namespace Wiring

theorem span_descending (placements : List Placement) :
    (vector (descending placements)).span = (placements.map Placement.bit).max?.getD 0 + 1 := by
  rw [max?_descending]
  cases descending placements <;> rfl

variable {placements : List Placement}
  (sorted : placements.Pairwise fun left right => right.bit ≤ left.bit)
include sorted

/-- The span reaches above every bit, since the highest one comes first. -/
theorem bit_lt_span : ∀ placement ∈ placements, placement.bit < (vector placements).span := by
  cases placements with
  | nil => simp
  | cons highest rest =>
      intro placement member
      rw [span, Nat.lt_succ_iff]
      rcases List.mem_cons.mp member with rfl | later
      · exact Nat.le_refl _
      · exact List.rel_of_pairwise_cons sorted later

theorem value_vector (sample : Sample) :
    (vector placements).value sample =
      .vector ((List.range (vector placements).span).reverse.map (levelAt? placements sample)) := by
  rw [value, places_eq_lookup sample _ sorted (bit_lt_span sorted)]

end Wiring

/-! ## The channel list as the measure -/

/-- Whether a channel is enabled and spells a bit of a vector. -/
def Channel.spells (base : String) (bit : Nat) (channel : Channel) : Bool :=
  channel.enabled && VectorBit.ofName? channel.name = some { base, bit }

def Channel.bitOf? (base : String) (channel : Channel) : Option Nat :=
  if channel.enabled then
    (VectorBit.ofName? channel.name).bind fun spelled =>
      if spelled.base = base then some spelled.bit else none
  else
    none

/-- What a viewer should see of a probe: the level of a scalar's channel, or, from the highest bit
that a channel of the list spells down to zero, the level of the first channel that spells it. -/
def Probe.reading (channels : List Channel) (probe : Probe) (sample : Sample) : Value :=
  match probe.wiring with
  | .scalar position => .scalar (sample.level position)
  | .vector _ =>
    let highest := (channels.filterMap (Channel.bitOf? probe.name)).max?.getD 0
    .vector ((List.range (highest + 1)).reverse.map fun bit =>
      (channels.findIdx? (Channel.spells probe.name bit)).map sample.level)

section Measure

variable {channels : List Channel} {base : String}

def placementAt? (base : String) (entry : Channel × Nat) : Option Placement :=
  (entry.1.bitOf? base).map fun bit => { bit, sample := entry.2 }

theorem placementAt?_none {channel : Channel} (spellsNone : channel.bitOf? base = none)
    (position : Nat) : placementAt? base (channel, position) = none := by
  simp [placementAt?, spellsNone]

theorem placementAt?_some {channel : Channel} {bit : Nat} (spelled : channel.bitOf? base = some bit)
    (position : Nat) :
    placementAt? base (channel, position) = some { bit, sample := position } := by
  simp [placementAt?, spelled]

theorem placements_eq (channels : List Channel) (base : String) :
    (Registry.registrations channels).filterMap (Registration.placementIn? base) =
      channels.zipIdx.filterMap (placementAt? base) := by
  rw [Registry.registrations, Registry.enabledBits, List.map_filterMap, List.filterMap_filterMap]
  apply List.filterMap_congr
  rintro ⟨channel, position⟩ _
  cases enabled : channel.enabled with
  | false => simp [placementAt?, Channel.bitOf?, enabled]
  | true =>
      cases spelled : VectorBit.ofName? channel.name with
      | none =>
          simp [placementAt?, Channel.bitOf?, enabled, spelled, Registration.ofName,
            Registration.placementIn?]
      | some bit =>
          by_cases sameBase : bit.base = base <;>
            simp [placementAt?, Channel.bitOf?, enabled, spelled, Registration.ofName,
              Registration.placementIn?, sameBase]

theorem map_bit_placements (channels : List Channel) (base : String) (start : Nat) :
    ((channels.zipIdx start).filterMap (placementAt? base)).map Placement.bit =
      channels.filterMap (Channel.bitOf? base) := by
  induction channels generalizing start with
  | nil => rfl
  | cons channel rest ih =>
      rw [List.zipIdx_cons]
      cases spelled : channel.bitOf? base with
      | none =>
          rw [List.filterMap_cons_none (placementAt?_none spelled start),
            List.filterMap_cons_none spelled, ih]
      | some bit =>
          rw [List.filterMap_cons_some (placementAt?_some spelled start),
            List.filterMap_cons_some spelled, List.map_cons, ih]

theorem spells_eq (channel : Channel) (bit : Nat) :
    channel.spells base bit = decide (channel.bitOf? base = some bit) := by
  cases enabled : channel.enabled with
  | false => simp [Channel.spells, Channel.bitOf?, enabled]
  | true =>
      cases spelled : VectorBit.ofName? channel.name with
      | none => simp [Channel.spells, Channel.bitOf?, enabled, spelled]
      | some other =>
          cases other
          simp [Channel.spells, Channel.bitOf?, enabled, spelled]

theorem find?_placements (channels : List Channel) (base : String) (bit start : Nat) :
    (((channels.zipIdx start).filterMap (placementAt? base)).find? fun placement =>
        placement.bit = bit).map Placement.sample =
      (channels.findIdx? (Channel.spells base bit)).map (· + start) := by
  induction channels generalizing start with
  | nil => rfl
  | cons channel rest ih =>
      rw [List.zipIdx_cons, List.findIdx?_cons, spells_eq]
      cases spelled : channel.bitOf? base with
      | none =>
          rw [List.filterMap_cons_none (placementAt?_none spelled start), ih]
          simp [Function.comp_def, Nat.add_comm, Nat.add_left_comm]
      | some other =>
          rw [List.filterMap_cons_some (placementAt?_some spelled start)]
          by_cases here : other = bit
          · simp [here]
          · rw [List.find?_cons_of_neg (by simpa using here), ih]
            simp [here, Function.comp_def, Nat.add_comm, Nat.add_left_comm]

end Measure

/-- The value of a registered probe is what the channel list says. -/
theorem Probe.value_eq_reading {channels : List Channel} {registry : Registry} {probe : Probe}
    (built : Registry.ofChannels channels = .ok registry) (member : probe ∈ registry.probes)
    (sample : Sample) : probe.wiring.value sample = probe.reading channels sample := by
  rcases Registry.wiring_of_mem built member with ⟨position, wired, _⟩ | ⟨wired, _⟩
  · simp [reading, wired, Wiring.value]
  · obtain ⟨placements, declared⟩ : ∃ placements, placements =
        (Registry.registrations channels).filterMap (Registration.placementIn? probe.name) :=
      ⟨_, rfl⟩
    rw [← declared] at wired
    have declaredBits : placements.map Placement.bit =
        channels.filterMap (Channel.bitOf? probe.name) := by
      rw [declared, placements_eq, map_bit_placements]
    have firstAt (bit : Nat) : (placements.find? fun placement => placement.bit = bit).map
        Placement.sample = channels.findIdx? (Channel.spells probe.name bit) := by
      rw [declared, placements_eq, find?_placements]
      simp
    rw [reading, wired, Wiring.value_vector (descending_pairwise placements),
      Wiring.span_descending, declaredBits]
    simp only [Value.vector.injEq]
    apply List.map_congr_left
    intro bit _
    rw [levelAt?_descending, levelAt?, ← firstAt, Option.map_map]
    rfl

end WaveDump
