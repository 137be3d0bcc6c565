import WaveDump.Encoder
import WaveDump.Proofs.BitNames

/-!
# What registration keeps

Gathering turns registrations into signals without losing where a bit comes from: a scalar shows the
channel that was registered under its name, and a vector has all placements that were registered for
its base, in descending order of bits. Sorting is stable, so among the placements of one bit the
first channel stays first.
-/

namespace WaveDump

/-! ## Descending bits -/

section Descending

variable (bits : List Placement)

theorem mem_descending {placement : Placement} : placement ∈ descending bits ↔ placement ∈ bits :=
  List.mem_mergeSort

theorem descending_pairwise :
    (descending bits).Pairwise fun left right => right.bit ≤ left.bit := by
  have sorted : (descending bits).Pairwise fun left right => decide (right.bit ≤ left.bit) := by
    apply List.pairwise_mergeSort
    · simp only [decide_eq_true_eq]
      omega
    · simp only [Bool.or_eq_true, decide_eq_true_eq]
      omega
  simpa using sorted

/-- The placements of one bit keep their order. -/
theorem filter_descending (place : Nat) :
    (descending bits).filter (fun placement => placement.bit = place) =
      bits.filter fun placement => placement.bit = place := by
  have kept : (bits.filter fun placement => placement.bit = place).Sublist (descending bits) := by
    apply List.sublist_mergeSort
    · simp only [decide_eq_true_eq]
      omega
    · simp only [Bool.or_eq_true, decide_eq_true_eq]
      omega
    · apply List.pairwise_of_forall_mem_list
      intro left leftMem right rightMem
      simp only [List.mem_filter, decide_eq_true_eq] at leftMem rightMem
      simp [leftMem.2, rightMem.2]
    · exact List.filter_sublist
  have keptFiltered := kept.filter fun placement => decide (placement.bit = place)
  rw [List.filter_filter] at keptFiltered
  simp only [Bool.and_self] at keptFiltered
  have sameLength : ((descending bits).filter fun placement => placement.bit = place).length =
      (bits.filter fun placement => placement.bit = place).length :=
    ((List.mergeSort_perm bits _).filter _).length_eq
  exact (keptFiltered.eq_of_length sameLength.symm).symm

theorem find?_descending (place : Nat) :
    (descending bits).find? (fun placement => placement.bit = place) =
      bits.find? fun placement => placement.bit = place := by
  rw [← List.head?_filter, ← List.head?_filter, filter_descending]

theorem max?_descending :
    (bits.map Placement.bit).max? = (descending bits).head?.map Placement.bit := by
  have sorted := descending_pairwise bits
  have sameMembers (bit : Nat) : bit ∈ bits.map Placement.bit ↔
      bit ∈ (descending bits).map Placement.bit := by
    simp only [List.mem_map, mem_descending]
  cases ordered : descending bits with
  | nil =>
      have noBits : bits = [] := by
        apply List.eq_nil_of_length_eq_zero
        rw [← List.length_mergeSort, ← descending, ordered]
        rfl
      simp [noBits]
  | cons highest rest =>
      rw [ordered] at sorted sameMembers
      simp only [List.head?_cons, Option.map_some, List.max?_eq_some_iff]
      constructor
      · exact (sameMembers highest.bit).mpr (by simp)
      · intro bit bitMem
        rcases List.mem_map.mp ((sameMembers bit).mp bitMem) with ⟨placement, placementMem, rfl⟩
        rcases List.mem_cons.mp placementMem with rfl | later
        · exact Nat.le_refl _
        · exact List.rel_of_pairwise_cons sorted later

end Descending

/-! ## Gathering -/

section Gathering

variable {registrations : List Registration} {signal : Signal}

theorem filterMap_placementIn?_filter {base other : String} (differ : other ≠ base)
    (registrations : List Registration) :
    (registrations.filter fun registration =>
        (registration.placementIn? base).isNone).filterMap (Registration.placementIn? other) =
      registrations.filterMap (Registration.placementIn? other) := by
  rw [List.filterMap_filter]
  apply List.filterMap_congr
  intro registration _
  cases registration with
  | scalar name sample => rfl
  | vectorBit name placement =>
      by_cases sameBase : name = base
      · subst sameBase
        simp [Registration.placementIn?, differ.symm]
      · simp [Registration.placementIn?, sameBase]

theorem wiring_of_mem_gather (member : signal ∈ gather registrations) :
    (∃ sample, signal.wiring = .scalar sample ∧
        Registration.scalar signal.name sample ∈ registrations) ∨
      (signal.wiring = .vector
          (descending (registrations.filterMap (Registration.placementIn? signal.name))) ∧
        registrations.filterMap (Registration.placementIn? signal.name) ≠ []) := by
  fun_induction gather registrations with
  | case1 => simp at member
  | case2 name sample rest ih =>
      rcases List.mem_cons.mp member with rfl | later
      · exact Or.inl ⟨sample, rfl, List.mem_cons_self⟩
      · rcases ih later with ⟨position, wired, registered⟩ | wired
        · exact Or.inl ⟨position, wired, List.mem_cons_of_mem _ registered⟩
        · exact Or.inr wired
  | case3 base placement rest ih =>
      simp only [List.unattach_filter, List.unattach_attach] at ih
      rcases List.mem_cons.mp member with rfl | later
      · right
        simp [Registration.placementIn?]
      · rcases ih later with ⟨position, wired, registered⟩ | ⟨wired, some⟩
        · exact Or.inl ⟨position, wired, List.mem_cons_of_mem _ (List.mem_filter.mp registered).1⟩
        · -- The first bit of `base` set all others aside, so later vectors have other names.
          have differ : signal.name ≠ base := by
            rintro rfl
            apply some
            simp only [List.filterMap_eq_nil_iff, List.mem_filter, Option.isNone_iff_eq_none]
            exact fun registration registered => registered.2
          rw [filterMap_placementIn?_filter differ] at wired some
          have skipped :
              (Registration.vectorBit base placement).placementIn? signal.name = none := by
            simp [Registration.placementIn?, differ.symm]
          rw [List.filterMap_cons_none skipped]
          exact Or.inr ⟨wired, some⟩

end Gathering

/-! ## Registries -/

namespace Registry

variable {channels : List Channel} {registry : Registry} {probe : Probe}

def registrations (channels : List Channel) : List Registration :=
  (enabledBits channels).map fun (name, sample) => Registration.ofName name sample

/-- The registry of signals that all find a symbol. -/
def ofSignals (signals : List Signal) : Registry where
  probes := signals.mapIdx fun index signal => { signal with symbol := symbolAt index }

theorem allot_eq_ok {signals : List Signal} {count : Nat}
    (few : count + signals.length ≤ maxProbes) :
    allot count signals =
      .ok (signals.mapIdx fun index signal =>
        { signal with symbol := symbolAt (count + index) }) := by
  induction signals generalizing count with
  | nil => rfl
  | cons signal rest ih =>
      rw [List.length_cons] at few
      have printable : nextSymbol? count = some (symbolAt count) := if_pos (by omega)
      have others := @ih (count + 1) (by omega)
      simp only [allot, printable, others, List.mapIdx_cons, Nat.add_zero, Nat.add_assoc,
        Nat.add_comm 1]

/-- Signals within the limit all find a symbol, so building does not fail for want of one. -/
theorem allot_zero {signals : List Signal} (few : signals.length ≤ maxProbes) :
    allot 0 signals = .ok (ofSignals signals).probes := by
  rw [allot_eq_ok (by omega), ofSignals]
  simp only [Nat.zero_add]

theorem eq_ofSignals_of_build {entries : List (String × Nat)}
    (built : build entries = .ok registry) :
    registry = ofSignals (gather (entries.map fun (name, sample) =>
        Registration.ofName name sample)) ∧
      (gather (entries.map fun (name, sample) =>
        Registration.ofName name sample)).length ≤ maxProbes := by
  unfold build at built
  simp only at built
  split at built
  · simp at built
  · split at built
    · rename_i fits
      rw [allot_zero fits] at built
      simp only [Except.ok.injEq] at built
      exact ⟨built.symm, fits⟩
    · simp at built

theorem eq_ofSignals_of_ofChannels (built : ofChannels channels = .ok registry) :
    registry = ofSignals (gather (registrations channels)) ∧
      (gather (registrations channels)).length ≤ maxProbes :=
  eq_ofSignals_of_build built

theorem mem_of_mem_ofSignals {signals : List Signal}
    (member : probe ∈ (ofSignals signals).probes) : probe.toSignal ∈ signals := by
  simp only [ofSignals, List.mem_mapIdx] at member
  rcases member with ⟨index, inBounds, rfl⟩
  exact List.getElem_mem inBounds

theorem wiring_of_mem_build {entries : List (String × Nat)} (built : build entries = .ok registry)
    (member : probe ∈ registry.probes) :
    let registrations := entries.map fun (name, sample) => Registration.ofName name sample
    (∃ sample, probe.wiring = .scalar sample ∧
        Registration.scalar probe.name sample ∈ registrations) ∨
      (probe.wiring = .vector
          (descending (registrations.filterMap (Registration.placementIn? probe.name))) ∧
        registrations.filterMap (Registration.placementIn? probe.name) ≠ []) := by
  rcases eq_ofSignals_of_build built with ⟨rfl, _⟩
  exact wiring_of_mem_gather (mem_of_mem_ofSignals member)

theorem wiring_of_mem (built : ofChannels channels = .ok registry)
    (member : probe ∈ registry.probes) :
    (∃ sample, probe.wiring = .scalar sample ∧
        Registration.scalar probe.name sample ∈ registrations channels) ∨
      (probe.wiring = .vector
          (descending ((registrations channels).filterMap
            (Registration.placementIn? probe.name))) ∧
        (registrations channels).filterMap (Registration.placementIn? probe.name) ≠ []) :=
  wiring_of_mem_build built member

/-! ### Symbols -/

theorem toNat_symbolAt {count : Nat} (printable : count < maxProbes) :
    (symbolAt count).toNat = 33 + count := by
  have onRange : ∀ count < maxProbes, (symbolAt count).toNat = 33 + count := by decide
  exact onRange count printable

theorem symbol_of_mem {entries : List (String × Nat)} (built : build entries = .ok registry)
    (member : probe ∈ registry.probes) :
    ∃ count < maxProbes, probe.symbol = symbolAt count := by
  rcases eq_ofSignals_of_build built with ⟨rfl, fits⟩
  simp only [ofSignals, List.mem_mapIdx] at member
  rcases member with ⟨index, inBounds, rfl⟩
  exact ⟨index, Nat.lt_of_lt_of_le inBounds fits, rfl⟩

theorem symbol_ne_lineFeed {entries : List (String × Nat)}
    (built : build entries = .ok registry) (member : probe ∈ registry.probes) :
    probe.symbol ≠ '\n' := by
  rcases symbol_of_mem built member with ⟨count, few, symbol⟩
  have code := toNat_symbolAt few
  intro lineFeed
  rw [← symbol, lineFeed] at code
  simp only [Char.reduceToNat] at code
  omega

theorem toNat_symbol {signals : List Signal} (few : signals.length ≤ maxProbes) {index : Nat}
    (inBounds : index < (ofSignals signals).probes.length) :
    (ofSignals signals).probes[index].symbol.toNat = 33 + index := by
  have printable : index < maxProbes := by
    simp only [ofSignals, List.length_mapIdx] at inBounds
    omega
  simpa [ofSignals] using toNat_symbolAt printable

theorem symbols_nodup_ofSignals {signals : List Signal} (few : signals.length ≤ maxProbes) :
    ((ofSignals signals).probes.map Probe.symbol).Nodup := by
  apply List.pairwise_iff_getElem.mpr
  intro first second firstBound secondBound before same
  rw [List.length_map] at firstBound secondBound
  rw [List.getElem_map, List.getElem_map] at same
  have firstCode := toNat_symbol few firstBound
  have secondCode := toNat_symbol few secondBound
  rw [same] at firstCode
  omega

theorem symbols_nodup (built : ofChannels channels = .ok registry) :
    (registry.probes.map Probe.symbol).Nodup := by
  rcases eq_ofSignals_of_ofChannels built with ⟨rfl, fits⟩
  exact symbols_nodup_ofSignals fits

/-! ### Names -/

/-- The name of a probe is that of a channel, or begins it. -/
theorem exists_entry_of_mem {entries : List (String × Nat)} (built : build entries = .ok registry)
    (member : probe ∈ registry.probes) :
    ∃ entry ∈ entries, probe.name.toList <+: entry.1.toList := by
  rcases wiring_of_mem_build built member with ⟨sample, _, registered⟩ | ⟨_, someBit⟩
  · rcases List.mem_map.mp registered with ⟨entry, entryMem, named⟩
    refine ⟨entry, entryMem, ?_⟩
    cases spelled : VectorBit.ofName? entry.1 with
    | none =>
        simp only [Registration.ofName, spelled, Registration.scalar.injEq] at named
        simp only [named.1, List.prefix_rfl]
    | some bit => simp [Registration.ofName, spelled] at named
  · rcases List.exists_mem_of_ne_nil _ someBit with ⟨placement, placed⟩
    rcases List.mem_filterMap.mp placed with ⟨_, registered, placedIn⟩
    rcases List.mem_map.mp registered with ⟨entry, entryMem, rfl⟩
    refine ⟨entry, entryMem, ?_⟩
    cases spelled : VectorBit.ofName? entry.1 with
    | none => simp [Registration.ofName, spelled, Registration.placementIn?] at placedIn
    | some bit =>
        simp only [Registration.ofName, spelled, Registration.placementIn?,
          Option.ite_none_right_eq_some] at placedIn
        rcases VectorBit.spells_of_ofName?_eq_some spelled with ⟨digits, spells⟩
        rw [spells.parts, ← placedIn.1]
        simp

/-! ### Bits of a sample -/

theorem mem_enabledBits {entry : String × Nat} :
    entry ∈ enabledBits channels ↔
      ∃ channel, channels[entry.2]? = some channel ∧ channel.enabled ∧ channel.name = entry.1 := by
  simp only [enabledBits, List.mem_filterMap, List.mem_zipIdx_iff_getElem?,
    Option.ite_none_right_eq_some, Option.some.injEq, Prod.exists]
  constructor
  · rintro ⟨channel, position, found, enabled, rfl⟩
    exact ⟨channel, found, enabled, rfl⟩
  · rintro ⟨channel, found, enabled, named⟩
    exact ⟨channel, entry.2, found, enabled, by rw [named]⟩

theorem mem_registrations {registration : Registration} :
    registration ∈ registrations channels ↔
      ∃ channel sample, channels[sample]? = some channel ∧ channel.enabled ∧
        Registration.ofName channel.name sample = registration := by
  simp only [registrations, List.mem_map, mem_enabledBits]
  constructor
  · rintro ⟨⟨name, sample⟩, ⟨channel, found, enabled, rfl⟩, rfl⟩
    exact ⟨channel, sample, found, enabled, rfl⟩
  · rintro ⟨channel, sample, found, enabled, rfl⟩
    exact ⟨(channel.name, sample), ⟨channel, found, enabled, rfl⟩, rfl⟩

/-- Scalars are registered under the full names of channels that spell no vector bit. -/
theorem scalar_mem_registrations {name : String} {sample : Nat} :
    Registration.scalar name sample ∈ registrations channels ↔
      ∃ channel, channels[sample]? = some channel ∧ channel.enabled ∧ channel.name = name ∧
        VectorBit.ofName? name = none := by
  rw [mem_registrations]
  constructor
  · rintro ⟨channel, position, found, enabled, registered⟩
    cases spelled : VectorBit.ofName? channel.name with
    | none =>
        simp only [Registration.ofName, spelled, Registration.scalar.injEq] at registered
        rcases registered with ⟨rfl, rfl⟩
        exact ⟨channel, found, enabled, rfl, spelled⟩
    | some bit => simp [Registration.ofName, spelled] at registered
  · rintro ⟨channel, found, enabled, rfl, spelled⟩
    exact ⟨channel, sample, found, enabled, by simp [Registration.ofName, spelled]⟩

/-- The placements in a vector are those of the channels that spell its bits. -/
theorem mem_placements {base : String} {placement : Placement} :
    placement ∈ (registrations channels).filterMap (Registration.placementIn? base) ↔
      ∃ channel, channels[placement.sample]? = some channel ∧ channel.enabled ∧
        VectorBit.ofName? channel.name = some ⟨base, placement.bit⟩ := by
  simp only [List.mem_filterMap, mem_registrations]
  constructor
  · rintro ⟨_, ⟨channel, sample, found, enabled, rfl⟩, placed⟩
    cases spelled : VectorBit.ofName? channel.name with
    | none => simp [Registration.ofName, spelled, Registration.placementIn?] at placed
    | some bit =>
        simp only [Registration.ofName, spelled, Registration.placementIn?,
          Option.ite_none_right_eq_some, Option.some.injEq] at placed
        rcases placed with ⟨rfl, rfl⟩
        exact ⟨channel, found, enabled, spelled⟩
  · rintro ⟨channel, found, enabled, spelled⟩
    exact ⟨_, ⟨channel, placement.sample, found, enabled, rfl⟩,
      by simp [Registration.ofName, spelled, Registration.placementIn?]⟩

theorem enabled_of_mem_bits (built : ofChannels channels = .ok registry)
    (member : probe ∈ registry.probes) {placement : Placement} (shown : placement ∈ probe.bits) :
    ∃ channel, channels[placement.sample]? = some channel ∧ channel.enabled := by
  rcases wiring_of_mem built member with ⟨sample, wired, registered⟩ | ⟨wired, _⟩
  · rcases scalar_mem_registrations.mp registered with ⟨channel, found, enabled, _⟩
    rw [Probe.bits, wired, Wiring.bits, List.mem_singleton] at shown
    subst shown
    exact ⟨channel, found, enabled⟩
  · rw [Probe.bits, wired, Wiring.bits, mem_descending] at shown
    rcases mem_placements.mp shown with ⟨channel, found, enabled, _⟩
    exact ⟨channel, found, enabled⟩

end Registry

end WaveDump
