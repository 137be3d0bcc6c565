import Mathlib
import WaveDump.Proofs.Registration

/-!
# Which channels make up a probe

The entries of a channel list fall into parts, one for each probe: an entry that spells no vector
bit is a part of its own, and the entries that spell bits of one base are a part together. The
probes stand in the order of the first entries of their parts. Nothing is lost, repeated or
misplaced on the way, because the parts together are the list.

The entries are told apart by their indices. Names and samples would not do, since a list may repeat
both.
-/

namespace WaveDump

/-- Declared bits in descending order; bits that are declared repeatedly keep their order. -/
structure StablyDescending (declared bits : List Placement) : Prop where
  same : bits.Perm declared
  descending : bits.Pairwise fun left right => right.bit ≤ left.bit
  stable : ∀ place, bits.filter (fun placement => placement.bit = place) =
    declared.filter fun placement => placement.bit = place

theorem stablyDescending_descending (declared : List Placement) :
    StablyDescending declared (descending declared) :=
  ⟨List.mergeSort_perm declared _, descending_pairwise declared, filter_descending declared⟩

/-- The placement that a registration adds to the registry. -/
def Registration.placement : Registration → Placement
  | .scalar _ sample => { bit := 0, sample }
  | .vectorBit _ placement => placement

theorem Registration.placement_of_placementIn? {registration : Registration} {base : String}
    {placement : Placement} (placed : registration.placementIn? base = some placement) :
    registration.placement = placement := by
  cases registration with
  | scalar name sample => simp [placementIn?] at placed
  | vectorBit other own =>
      simp only [placementIn?, Option.ite_none_right_eq_some, Option.some.injEq] at placed
      exact placed.2

/-! ## Parts of a list of registrations -/

section Parts

variable {register : Nat → Registration} {indices part : List Nat} {signal : Signal}

/-- The indices whose registrations are bits of the vector `base`. -/
def indicesIn (register : Nat → Registration) (indices : List Nat) (base : String) : List Nat :=
  indices.filter fun index => ((register index).placementIn? base).isSome

/-- Every part has an index that comes before all indices of later parts. -/
def FirstsAscend (parts : List (List Nat)) : Prop :=
  parts.Pairwise fun earlier later => ∃ first ∈ earlier, ∀ index ∈ later, first < index

/-- The registrations at the indices of a part make up a signal: a single scalar, or all the bits of
a vector. -/
inductive MakesUp (register : Nat → Registration) (indices : List Nat) :
    List Nat → Signal → Prop
  | scalar {index sample : Nat} {name : String}
      (registered : register index = .scalar name sample) :
      MakesUp register indices [index] { name, wiring := .scalar sample }
  | vector {base : String} {bits : List Placement} (nonempty : indicesIn register indices base ≠ [])
      (sorted : StablyDescending
        ((indicesIn register indices base).filterMap fun index =>
          (register index).placementIn? base) bits) :
      MakesUp register indices (indicesIn register indices base)
        { name := base, wiring := .vector bits }

/-- Indices may be added that have no bits of the vectors among the others. -/
theorem MakesUp.mono {others : List Nat} (makesUp : MakesUp register others part signal)
    (same : ∀ base, indicesIn register others base ≠ [] →
      indicesIn register indices base = indicesIn register others base) :
    MakesUp register indices part signal := by
  cases makesUp with
  | scalar registered => exact .scalar registered
  | vector nonempty sorted =>
      have sameIndices := same _ nonempty
      rw [← sameIndices] at nonempty sorted ⊢
      exact .vector nonempty sorted

theorem indicesIn_cons_of_scalar {index sample : Nat} {name : String}
    (registered : register index = .scalar name sample) (base : String) :
    indicesIn register (index :: indices) base = indicesIn register indices base :=
  List.filter_cons_of_neg (by simp [registered, Registration.placementIn?])

/-- The indices whose registrations are no bits of the vector `base`. -/
def indicesOutside (register : Nat → Registration) (indices : List Nat) (base : String) :
    List Nat :=
  indices.filter fun index => ((register index).placementIn? base).isNone

theorem perm_indicesIn_append (register : Nat → Registration) (indices : List Nat)
    (base : String) :
    (indicesIn register indices base ++ indicesOutside register indices base).Perm indices := by
  have joined := List.filter_append_perm
    (fun index => ((register index).placementIn? base).isSome) indices
  simp only [Option.not_isSome] at joined
  exact joined

theorem map_indicesOutside (base : String) :
    (indicesOutside register indices base).map register =
      (indices.map register).filter fun registration =>
        (registration.placementIn? base).isNone := by
  rw [List.filter_map]
  rfl

theorem placements_indicesIn (register : Nat → Registration) (indices : List Nat)
    (base : String) :
    ((indicesIn register indices base).filterMap fun index =>
        (register index).placementIn? base) =
      (indices.map register).filterMap (Registration.placementIn? base) := by
  rw [List.filterMap_map, indicesIn, List.filterMap_filter]
  apply List.filterMap_congr
  intro index _
  cases placed : (register index).placementIn? base <;> simp [placed]

/-- Setting one vector aside takes nothing away from the others. -/
theorem indicesIn_indicesOutside {base other : String}
    (nonempty : indicesIn register (indicesOutside register indices base) other ≠ []) :
    indicesIn register (indicesOutside register indices base) other =
      indicesIn register indices other := by
  have differ : other ≠ base := by
    rintro rfl
    apply nonempty
    rw [indicesIn, indicesOutside, List.filter_filter, List.filter_eq_nil_iff]
    intro index _
    cases (register index).placementIn? other <;> simp
  rw [indicesIn, indicesIn, indicesOutside, List.filter_filter]
  apply List.filter_congr
  intro index _
  cases registered : register index with
  | scalar name sample => simp [Registration.placementIn?]
  | vectorBit name placement =>
      by_cases sameBase : name = other
      · simp [Registration.placementIn?, sameBase, differ]
      · simp [Registration.placementIn?, sameBase]

/-- The registrations fall into parts that make up the gathered signals in their order. -/
theorem exists_parts (register : Nat → Registration) (increasing : indices.Pairwise (· < ·)) :
    ∃ parts : List (List Nat), parts.flatten.Perm indices ∧ FirstsAscend parts ∧
      List.Forall₂ (MakesUp register indices) parts (gather (indices.map register)) := by
  generalize registered : indices.map register = registrations
  fun_induction gather registrations generalizing indices with
  | case1 =>
      have none : indices = [] := List.map_eq_nil_iff.mp registered
      subst none
      exact ⟨[], .refl _, .nil, .nil⟩
  | case2 name sample rest ih =>
      rcases List.map_eq_cons_iff.mp registered with ⟨index, others, rfl, here, rfl⟩
      rw [List.pairwise_cons] at increasing
      rcases ih increasing.2 rfl with ⟨parts, partition, ascend, formed⟩
      refine ⟨[index] :: parts, partition.cons index, List.pairwise_cons.mpr ⟨?_, ascend⟩, ?_⟩
      · intro later laterMem
        refine ⟨index, List.mem_singleton_self index, ?_⟩
        intro other otherMem
        exact increasing.1 other (partition.subset (List.mem_flatten_of_mem laterMem otherMem))
      · refine .cons (.scalar here) (formed.imp ?_)
        intro part signal makesUp
        exact makesUp.mono fun base _ => indicesIn_cons_of_scalar here base
  | case3 base placement rest ih =>
      rcases List.map_eq_cons_iff.mp registered with ⟨index, others, rfl, here, rfl⟩
      rw [List.pairwise_cons] at increasing
      simp only [List.unattach_filter, List.unattach_attach] at ih
      have placed : (register index).placementIn? base = some placement := by
        simp [here, Registration.placementIn?]
      have inBase : indicesIn register (index :: others) base =
          index :: indicesIn register others base :=
        List.filter_cons_of_pos (by simp [placed])
      have outside : indicesOutside register (index :: others) base =
          indicesOutside register others base :=
        List.filter_cons_of_neg (by simp [placed])
      have declared := placements_indicesIn register (index :: others) base
      rw [List.map_cons, List.filterMap_cons_some placed] at declared
      have increasingOutside : (indicesOutside register others base).Pairwise (· < ·) :=
        increasing.2.filter _
      rcases ih increasingOutside (map_indicesOutside base) with
        ⟨parts, partition, ascend, formed⟩
      rw [← outside] at formed
      rw [← declared]
      refine ⟨indicesIn register (index :: others) base :: parts, ?_,
        List.pairwise_cons.mpr ⟨?_, ascend⟩, .cons ?_ (formed.imp ?_)⟩
      · have joined := perm_indicesIn_append register (index :: others) base
        rw [outside] at joined
        exact (partition.append_left _).trans joined
      · intro later laterMem
        refine ⟨index, by simp [inBase], ?_⟩
        intro other otherMem
        have member := partition.subset (List.mem_flatten_of_mem laterMem otherMem)
        exact increasing.1 other (List.mem_filter.mp member).1
      · exact .vector (by simp [inBase]) (stablyDescending_descending _)
      · intro part signal makesUp
        exact makesUp.mono fun other nonempty => (indicesIn_indicesOutside nonempty).symm

/-! ## What parts say about their signals -/

theorem MakesUp.perm_bits (makesUp : MakesUp register indices part signal) :
    signal.wiring.bits.Perm (part.map fun index => (register index).placement) := by
  cases makesUp with
  | @scalar index sample name registered =>
      have placed : (register index).placement = { bit := 0, sample } := by rw [registered]; rfl
      rw [List.map_singleton, placed]
      exact .refl _
  | @vector base bits nonempty sorted =>
      have declared : (indicesIn register indices base).filterMap
          (fun index => (register index).placementIn? base) =
            (indicesIn register indices base).map fun index => (register index).placement := by
        rw [← List.filterMap_eq_map']
        apply List.filterMap_congr
        intro index member
        rcases Option.isSome_iff_exists.mp (List.mem_filter.mp member).2 with ⟨placement, placed⟩
        rw [placed, Registration.placement_of_placementIn? placed]
      rw [← declared]
      exact sorted.same

variable {parts : List (List Nat)} {signals : List Signal}

/-- Every registration adds its placement to one signal, and no signal has any other. -/
theorem perm_placements (formed : List.Forall₂ (MakesUp register indices) parts signals) :
    (signals.flatMap fun signal => signal.wiring.bits).Perm
      (parts.flatten.map fun index => (register index).placement) := by
  induction formed with
  | nil => exact .nil
  | cons makesUp _ ih =>
      rw [List.flatMap_cons, List.flatten_cons, List.map_append]
      exact makesUp.perm_bits.append ih

theorem exists_of_forall₂ {α β : Type} {related : α → β → Prop} {lefts : List α}
    {rights : List β} (paired : List.Forall₂ related lefts rights) {right : β}
    (member : right ∈ rights) : ∃ left ∈ lefts, related left right := by
  induction paired with
  | nil => simp at member
  | @cons left other _ _ here _ ih =>
      rcases List.mem_cons.mp member with rfl | later
      · exact ⟨left, List.mem_cons_self, here⟩
      · rcases ih later with ⟨found, foundMem, foundRelated⟩
        exact ⟨found, List.mem_cons_of_mem _ foundMem, foundRelated⟩

theorem MakesUp.eq_indicesIn (makesUp : MakesUp register indices part signal)
    (isVector : signal.wiring.isVector) :
    part = indicesIn register indices signal.name ∧ part ≠ [] := by
  cases makesUp with
  | scalar registered => simp [Wiring.isVector] at isVector
  | vector nonempty sorted => exact ⟨rfl, nonempty⟩

/-- No two vectors have the same base, for they would have the same part. -/
theorem vectors_nodup (formed : List.Forall₂ (MakesUp register indices) parts signals)
    (distinct : parts.flatten.Nodup) :
    ((signals.filter fun signal => signal.wiring.isVector).map Signal.name).Nodup := by
  induction formed with
  | nil => exact .nil
  | @cons part signal parts signals makesUp formed ih =>
      rw [List.flatten_cons, List.nodup_append] at distinct
      rcases distinct with ⟨_, distinctLater, disjoint⟩
      cases isVector : signal.wiring.isVector with
      | false =>
          rw [List.filter_cons_of_neg (by simp [isVector])]
          exact ih distinctLater
      | true =>
          rw [List.filter_cons_of_pos (by simpa using isVector), List.map_cons, List.nodup_cons]
          refine ⟨?_, ih distinctLater⟩
          intro repeated
          rcases List.mem_map.mp repeated with ⟨other, otherMem, sameName⟩
          rw [List.mem_filter] at otherMem
          rcases exists_of_forall₂ formed otherMem.1 with ⟨otherPart, otherPartMem, otherMakesUp⟩
          rcases makesUp.eq_indicesIn isVector with ⟨samePart, nonempty⟩
          rcases otherMakesUp.eq_indicesIn otherMem.2 with ⟨sameOtherPart, _⟩
          rw [sameName, ← samePart] at sameOtherPart
          subst sameOtherPart
          rcases List.exists_mem_of_ne_nil _ nonempty with ⟨index, indexMem⟩
          exact disjoint index indexMem index (List.mem_flatten_of_mem otherPartMem indexMem) rfl

end Parts

/-! ## Registries -/

namespace Registry

def registrationAt (entries : List (String × Nat)) (index : Nat) : Registration :=
  let (name, sample) := entries.getD index ("", 0)
  .ofName name sample

/-- The registry has the entry in the place that its name asks for: as a bit of the vector whose bit
the name spells, or else as a scalar of that name. -/
def Holds (registry : Registry) (name : String) (sample : Nat) : Prop :=
  match VectorBit.ofName? name with
  | some spelled =>
    ∃ probe ∈ registry.probes, probe.isVector ∧ probe.name = spelled.base ∧
      { bit := spelled.bit, sample } ∈ probe.bits
  | none => ∃ probe ∈ registry.probes, probe.name = name ∧ probe.wiring = .scalar sample

/-- What a registry has of a list of names with samples. -/
structure Represents (registry : Registry) (entries : List (String × Nat)) : Prop where
  /-- The entries fall into parts, each of which makes up one probe, in the order of their first
  entries. -/
  arranged : ∃ parts : List (List Nat),
    parts.flatten.Perm (List.range entries.length) ∧ FirstsAscend parts ∧
      List.Forall₂ (MakesUp (registrationAt entries) (List.range entries.length)) parts
        (registry.probes.map Probe.toSignal)
  /-- Every entry has exactly one placement, and there is no other. -/
  placements : (registry.probes.flatMap Probe.bits).Perm
    (entries.map fun (name, sample) =>
      { bit := (VectorBit.ofName? name).elim 0 VectorBit.bit, sample })
  holds : ∀ name sample, (name, sample) ∈ entries → registry.Holds name sample
  vectors : ((registry.probes.filter Probe.isVector).map fun probe => probe.name).Nodup
  symbols : ∀ (index : Nat) (inBounds : index < registry.probes.length),
    registry.probes[index].symbol.toNat = '!'.toNat + index ∧
      registry.probes[index].symbol ≤ '~'
  distinct : (registry.probes.map Probe.symbol).Nodup
  lookup : ∀ symbol probe, registry.find? symbol = some probe ↔
    probe ∈ registry.probes ∧ probe.symbol = symbol

section Signals

variable {signals : List Signal}

theorem toSignal_ofSignals (signals : List Signal) :
    (ofSignals signals).probes.map Probe.toSignal = signals := by
  apply List.ext_getElem <;> simp [ofSignals]

theorem find?_eq_some_iff (few : signals.length ≤ maxProbes) {symbol : Char} {probe : Probe} :
    (ofSignals signals).find? symbol = some probe ↔
      probe ∈ (ofSignals signals).probes ∧ probe.symbol = symbol := by
  have atLeast : '!' ≤ symbol ↔ 33 ≤ symbol.toNat := by
    rw [Char.le_def, UInt32.le_iff_toNat_le]
    rfl
  rw [find?, Option.ite_none_right_eq_some, atLeast]
  constructor
  · rintro ⟨printable, found⟩
    rcases List.getElem?_eq_some_iff.mp found with ⟨inBounds, rfl⟩
    refine ⟨List.getElem_mem inBounds, Char.toNat_inj.mp ?_⟩
    rw [toNat_symbol few inBounds]
    simp only [Char.reduceToNat]
    omega
  · rintro ⟨member, rfl⟩
    rcases List.mem_iff_getElem.mp member with ⟨index, inBounds, rfl⟩
    rw [toNat_symbol few inBounds]
    exact ⟨by omega, List.getElem?_eq_some_iff.mpr ⟨by simpa using inBounds, by simp⟩⟩

end Signals

section Entries

variable {entries : List (String × Nat)} {registry : Registry}

theorem map_registrationAt (entries : List (String × Nat)) :
    (List.range entries.length).map (registrationAt entries) =
      entries.map fun (name, sample) => Registration.ofName name sample := by
  apply List.ext_getElem
  · simp
  · intro index inBounds _
    simp only [List.length_map, List.length_range] at inBounds
    simp [registrationAt, inBounds]

theorem placement_ofName (name : String) (sample : Nat) :
    (Registration.ofName name sample).placement =
      { bit := (VectorBit.ofName? name).elim 0 VectorBit.bit, sample } := by
  unfold Registration.ofName
  split <;> rename_i spelled <;> rw [spelled] <;> rfl

theorem registrationAt_of_getElem? {index : Nat} {name : String} {sample : Nat}
    (found : entries[index]? = some (name, sample)) :
    registrationAt entries index = .ofName name sample := by
  simp [registrationAt, found]

theorem holds_of_makesUp {probe : Probe} (member : probe ∈ registry.probes) {part : List Nat}
    (makesUp : MakesUp (registrationAt entries) (List.range entries.length) part probe.toSignal)
    {index : Nat} (indexMem : index ∈ part) {name : String} {sample : Nat}
    (found : entries[index]? = some (name, sample)) : registry.Holds name sample := by
  have registered := registrationAt_of_getElem? found
  rcases probe with ⟨⟨probeName, wiring⟩, symbol⟩
  unfold Holds
  cases makesUp with
  | scalar isScalar =>
      rw [List.mem_singleton.mp indexMem] at registered
      rw [isScalar] at registered
      cases spelled : VectorBit.ofName? name with
      | none =>
          simp only [Registration.ofName, spelled, Registration.scalar.injEq] at registered
          rcases registered with ⟨rfl, rfl⟩
          exact ⟨_, member, rfl, rfl⟩
      | some bit => simp [Registration.ofName, spelled] at registered
  | vector nonempty sorted =>
      rcases Option.isSome_iff_exists.mp (List.mem_filter.mp indexMem).2 with ⟨placement, placed⟩
      have declared := sorted.same.mem_iff.mpr (List.mem_filterMap.mpr ⟨index, indexMem, placed⟩)
      rw [registered] at placed
      cases spelled : VectorBit.ofName? name with
      | none => simp [Registration.ofName, spelled, Registration.placementIn?] at placed
      | some bit =>
          simp only [Registration.ofName, spelled, Registration.placementIn?,
            Option.ite_none_right_eq_some, Option.some.injEq] at placed
          rcases placed with ⟨sameBase, rfl⟩
          exact ⟨_, member, rfl, sameBase.symm, declared⟩

theorem represents_of_build (built : build entries = .ok registry) :
    registry.Represents entries := by
  rcases eq_ofSignals_of_build built with ⟨isOfSignals, few⟩
  rw [← map_registrationAt] at isOfSignals few
  rcases exists_parts (registrationAt entries) List.pairwise_lt_range with
    ⟨parts, partition, ascend, formed⟩
  have signals : registry.probes.map Probe.toSignal =
      gather ((List.range entries.length).map (registrationAt entries)) := by
    rw [isOfSignals, toSignal_ofSignals]
  rw [← signals] at formed
  exact
    { arranged := ⟨parts, partition, ascend, formed⟩
      placements := by
        have placed := (perm_placements formed).trans (partition.map _)
        have listed : (List.range entries.length).map
            (fun index => (registrationAt entries index).placement) =
            entries.map fun (name, sample) =>
              { bit := (VectorBit.ofName? name).elim 0 VectorBit.bit, sample } := by
          have registered := congrArg (List.map Registration.placement) (map_registrationAt entries)
          rw [List.map_map, List.map_map] at registered
          refine registered.trans (List.map_congr_left ?_)
          intro entry _
          exact placement_ofName entry.1 entry.2
        rw [listed, List.flatMap_map] at placed
        exact placed
      holds := by
        intro name sample entryMem
        rcases List.mem_iff_getElem?.mp entryMem with ⟨index, found⟩
        have inRange : index ∈ List.range entries.length :=
          List.mem_range.mpr (List.getElem?_eq_some_iff.mp found).1
        rcases List.mem_flatten.mp (partition.mem_iff.mpr inRange) with ⟨part, partMem, indexMem⟩
        rcases exists_of_forall₂ (List.Forall₂.flip formed) partMem with
          ⟨signal, signalMem, makesUp⟩
        rcases List.mem_map.mp signalMem with ⟨probe, probeMem, rfl⟩
        exact holds_of_makesUp probeMem makesUp indexMem found
      vectors := by
        have distinct := vectors_nodup formed (partition.nodup_iff.mpr List.nodup_range)
        rw [List.filter_map, List.map_map] at distinct
        exact distinct
      symbols := by
        intro index inBounds
        subst isOfSignals
        have code := toNat_symbol few inBounds
        refine ⟨code, ?_⟩
        rw [Char.le_def, UInt32.le_iff_toNat_le]
        change (ofSignals _).probes[index].symbol.toNat ≤ 126
        simp only [ofSignals, List.length_mapIdx] at inBounds
        simp only [maxProbes] at few
        omega
      distinct := by
        rw [isOfSignals]
        exact symbols_nodup_ofSignals few
      lookup := by
        intro symbol probe
        rw [isOfSignals]
        exact find?_eq_some_iff few }

end Entries

/-! ## Channels -/

end Registry

end WaveDump
