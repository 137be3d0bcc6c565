import Mathlib
import WaveDump.Proofs.Reading

/-!
# Lines of vectors

The line of a vector shows one character for every place up to the highest bit that is declared: the
level of the first channel that is declared for the place, or `x` if there is none. The highest
place is always declared, and as many places have a level as there are different bits, so a vector
whose bits are all different is as wide as its line is long, less one for every `x`.
-/

namespace WaveDump

/-! ## Places with a level -/

theorem placeDigit_ne_x_iff {place : Option Bool} : placeDigit place ≠ 'x' ↔ place.isSome := by
  rcases place with _ | _ | _ <;> decide

theorem isSome_levelAt?_iff {bits : List Placement} {sample : Sample} {place : Nat} :
    (levelAt? bits sample place).isSome ↔ place ∈ bits.map Placement.bit := by
  simp [levelAt?]

/-- Among the places below a bound on all bits, those with a level are as many as there are
different bits. -/
theorem countP_levelAt? {bits : List Placement} {count : Nat} (sample : Sample)
    (below : ∀ placement ∈ bits, placement.bit < count) :
    (List.range count).countP (fun place => (levelAt? bits sample place).isSome) =
      (bits.map Placement.bit).toFinset.card := by
  have distinct : ((List.range count).filter fun place =>
      (levelAt? bits sample place).isSome).Nodup := List.nodup_range.filter _
  rw [List.countP_eq_length_filter, ← List.toFinset_card_of_nodup distinct]
  congr 1
  ext place
  simp only [List.mem_toFinset, List.mem_filter, List.mem_range, isSome_levelAt?_iff,
    and_iff_right_iff_imp]
  intro declared
  rcases List.mem_map.mp declared with ⟨placement, member, rfl⟩
  exact below placement member

/-- The characters of a vector's line that show its places, from the highest to the lowest. -/
def placeDigits (bits : List Placement) (sample : Sample) (span : Nat) : List Char :=
  (List.range span).reverse.map fun place => placeDigit (levelAt? bits sample place)

theorem countP_placeDigits {bits : List Placement} {span : Nat} (sample : Sample)
    (below : ∀ placement ∈ bits, placement.bit < span) :
    (placeDigits bits sample span).countP (· ≠ 'x') = (bits.map Placement.bit).toFinset.card := by
  rw [← countP_levelAt? sample below, placeDigits, List.countP_map, List.countP_reverse]
  apply List.countP_congr
  intro place _
  simp only [Function.comp_apply, decide_eq_true_eq]
  exact placeDigit_ne_x_iff

theorem countP_ne_x_add_count (digits : List Char) :
    digits.countP (· ≠ 'x') + digits.count 'x' = digits.length := by
  rw [List.length_eq_countP_add_countP (· ≠ 'x') (l := digits), List.count]
  congr 1
  apply List.countP_congr
  intro digit _
  simp

/-! ## The vectors of a registry -/

namespace Registry

variable {entries : List (String × Nat)} {registry : Registry} {probe : Probe}

/-- The bits of a vector that a list of names with samples declares, in the order of the list. -/
def declaredBits (entries : List (String × Nat)) (base : String) : List Placement :=
  entries.filterMap fun (name, sample) =>
    (VectorBit.ofName? name).bind fun spelled =>
      if spelled.base = base then some { bit := spelled.bit, sample } else none

theorem declaredBits_eq (entries : List (String × Nat)) (base : String) :
    declaredBits entries base =
      (entries.map fun (name, sample) => Registration.ofName name sample).filterMap
        (Registration.placementIn? base) := by
  rw [declaredBits, List.filterMap_map]
  apply List.filterMap_congr
  rintro ⟨name, sample⟩ _
  cases spelled : VectorBit.ofName? name <;>
    simp [Registration.ofName, spelled, Registration.placementIn?]

theorem wiring_of_isVector (built : build entries = .ok registry)
    (member : probe ∈ registry.probes) (isVector : probe.isVector) :
    probe.wiring = .vector (descending (declaredBits entries probe.name)) ∧
      declaredBits entries probe.name ≠ [] := by
  rcases wiring_of_mem_build built member with ⟨sample, wired, _⟩ | wired
  · simp [Probe.isVector, wired, Wiring.isVector] at isVector
  · rw [declaredBits_eq]
    exact wired

/-- A list with a bit beyond the limit is not registered. -/
theorem bit_lt_of_build (built : build entries = .ok registry) {base : String}
    {placement : Placement} (declared : placement ∈ declaredBits entries base) :
    placement.bit < bitLimit := by
  rw [declaredBits_eq] at declared
  rcases List.mem_filterMap.mp declared with ⟨registration, registered, placed⟩
  simp only [build] at built
  split at built
  · simp at built
  · rename_i noError
    have within := List.findSome?_eq_none_iff.mp noError registration registered
    cases registration with
    | scalar name sample => simp [Registration.placementIn?] at placed
    | vectorBit other own =>
        simp only [Registration.placementIn?, Option.ite_none_right_eq_some,
          Option.some.injEq] at placed
        rcases placed with ⟨_, rfl⟩
        simpa [Registration.error?] using within

/-- The highest declared bit is the top place of the line. -/
theorem exists_highest (built : build entries = .ok registry)
    (member : probe ∈ registry.probes) (isVector : probe.isVector) :
    ∃ highest ∈ declaredBits entries probe.name, probe.span = highest.bit + 1 ∧
      ∀ placement ∈ declaredBits entries probe.name, placement.bit ≤ highest.bit := by
  rcases wiring_of_isVector built member isVector with ⟨wired, nonempty⟩
  cases top : ((declaredBits entries probe.name).map Placement.bit).max? with
  | none =>
      rw [List.max?_eq_none_iff, List.map_eq_nil_iff] at top
      exact absurd top nonempty
  | some bit =>
      rcases List.max?_eq_some_iff.mp top with ⟨declared, greatest⟩
      rcases List.mem_map.mp declared with ⟨highest, highestMem, rfl⟩
      refine ⟨highest, highestMem, ?_, ?_⟩
      · rw [Probe.span, wired, Wiring.span_descending, top, Option.getD_some]
      · intro placement placementMem
        exact greatest placement.bit (List.mem_map_of_mem placementMem)

theorem value_of_isVector (built : build entries = .ok registry)
    (member : probe ∈ registry.probes) (isVector : probe.isVector) (sample : Sample) :
    probe.wiring.value sample = .vector ((List.range probe.span).reverse.map
      (levelAt? (declaredBits entries probe.name) sample)) := by
  rcases wiring_of_isVector built member isVector with ⟨wired, _⟩
  simp only [Probe.span, wired, Wiring.value_vector (descending_pairwise _), Value.vector.injEq]
  apply List.map_congr_left
  intro place _
  exact levelAt?_descending _ sample place

theorem width_of_isVector (built : build entries = .ok registry)
    (member : probe ∈ registry.probes) (isVector : probe.isVector) :
    probe.width = (declaredBits entries probe.name).length := by
  rcases wiring_of_isVector built member isVector with ⟨wired, _⟩
  simp only [Probe.width, Probe.bits, wired, Wiring.bits, descending, List.length_mergeSort]

/-- The line of a vector is what looking up every place in the list gives, from the highest declared
bit down to zero. -/
theorem line_of_vector (built : build entries = .ok registry) (member : probe ∈ registry.probes)
    (isVector : probe.isVector) (sample : Sample) :
    let declared := declaredBits entries probe.name
    let bits := declared.map Placement.bit
    let digits := (List.range probe.span).reverse.map fun place =>
      placeDigit ((declared.find? fun placement => placement.bit = place).map fun placement =>
        sample.level placement.sample)
    (probe.change sample).line = String.ofList ('b' :: (digits ++ [' ', probe.symbol, '\n'])) ∧
      digits.length = probe.span ∧
      (∃ highest ∈ bits, probe.span = highest + 1 ∧ ∀ bit ∈ bits, bit ≤ highest) ∧
      probe.span ≤ 65536 ∧
      digits.head? ≠ some 'x' ∧
      digits.countP (· ≠ 'x') = bits.toFinset.card ∧
      (bits.Nodup → probe.width ≤ digits.length ∧
        digits.length - probe.width = digits.count 'x') := by
  intro declared bits digits
  have digitsEq : digits = placeDigits declared sample probe.span := rfl
  rcases exists_highest built member isVector with ⟨highest, highestMem, span, greatest⟩
  have highestBit : highest.bit ∈ bits := List.mem_map_of_mem highestMem
  have lengthEq : digits.length = probe.span := by simp [digits]
  have different : digits.countP (· ≠ 'x') = bits.toFinset.card := by
    apply countP_placeDigits sample
    intro placement placementMem
    have atMost := greatest placement placementMem
    omega
  refine ⟨?_, lengthEq, ⟨highest.bit, highestBit, span, ?_⟩, ?_, ?_, different, ?_⟩
  · simp only [Probe.change, ValueChange.line, value_of_isVector built member isVector,
      List.map_map]
    rfl
  · intro bit bitMem
    rcases List.mem_map.mp bitMem with ⟨placement, placementMem, rfl⟩
    exact greatest placement placementMem
  · have within := bit_lt_of_build built highestMem
    simp only [bitLimit] at within
    omega
  · have top : (levelAt? declared sample highest.bit).isSome := isSome_levelAt?_iff.mpr highestBit
    simpa [digitsEq, placeDigits, span, List.range_succ] using placeDigit_ne_x_iff.mpr top
  · intro nodup
    -- There is one place with a level for every channel, and all others show an `x`.
    have places := countP_ne_x_add_count digits
    have width : probe.width = bits.toFinset.card := by
      rw [width_of_isVector built member isVector, List.toFinset_card_of_nodup nodup,
        List.length_map]
    omega

end Registry

/-- A bus of the bits three and zero, with a clock between them. -/
def gappedBus : List (String × Nat) :=
  [("d<0>", 9), ("clk", 1), ("d<3>", 4)]

def gappedBusProbe : Probe where
  name := "d"
  wiring := .vector [⟨3, 4⟩, ⟨0, 9⟩]
  symbol := '!'

theorem line_of_vector_gappedBus :
    Registry.build gappedBus = .ok ⟨[gappedBusProbe, ⟨⟨"clk", .scalar 1⟩, '"'⟩]⟩ ∧
      gappedBusProbe.isVector ∧
      (gappedBusProbe.change [16, 0]).line = "b1xx0 !\n" ∧
      gappedBusProbe.width ≤ 4 ∧ 4 - gappedBusProbe.width = ['1', 'x', 'x', '0'].count 'x' := by
  have built : Registry.build gappedBus =
      .ok ⟨[gappedBusProbe, ⟨⟨"clk", .scalar 1⟩, '"'⟩]⟩ := by cbv
  have declared : Registry.declaredBits gappedBus "d" = [⟨0, 9⟩, ⟨3, 4⟩] := by cbv
  rcases Registry.line_of_vector built List.mem_cons_self rfl [16, 0] with
    ⟨line, _, _, _, _, _, narrower⟩
  simp only [show gappedBusProbe.name = "d" from rfl, declared] at line narrower
  exact ⟨built, rfl, line, narrower (by decide)⟩

end WaveDump
