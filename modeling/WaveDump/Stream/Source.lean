import WaveDump.Stream.Transfer

/-!
# Sources

A source hands out a string of bytes piece by piece. Its script says what the next calls do; after
the script every call hands out as much as fits. A source may read ahead: it then fetches whole
blocks and serves smaller reads from the block in hand.
-/

namespace WaveDump

/-- What a read call returns. No bytes mean the end of the input. -/
inductive Delivery where
  | bytes (piece : List UInt8)
  | interrupted
  | failed (failure : Failure)
deriving DecidableEq, Repr

structure Source where
  script : List Response := []
  data : List UInt8 := []
  /-- Size of the blocks that are read ahead, if any are. -/
  block : Option Nat := none
  /-- Bytes that have been read ahead and not handed out. -/
  held : List UInt8 := []
deriving Repr

namespace Source

def pending (source : Source) : List UInt8 :=
  source.held ++ source.data

/-- Calls and bytes that are left, which bounds the number of further reads. -/
def remaining (source : Source) : Nat :=
  source.script.length + source.held.length + source.data.length

/-- One call at the bottom, for as many bytes as there is room for. -/
def fetch (source : Source) (room : Nat) : Delivery × Source :=
  match source.script with
  | [] => (.bytes (source.data.take room), { source with data := source.data.drop room })
  | .atMost limit :: rest =>
    let count := min limit room
    (.bytes (source.data.take count),
      { source with script := rest, data := source.data.drop count })
  | .interrupted :: rest => (.interrupted, { source with script := rest })
  | .fails failure :: rest => (.failed failure, { source with script := rest })

def serve (source : Source) (room : Nat) : Delivery × Source :=
  (.bytes (source.held.take room), { source with held := source.held.drop room })

/-- Reads at most `room` bytes. With nothing in hand, a source that reads ahead fetches a whole
block, unless the room has at least the size of a block. -/
def read (source : Source) (room : Nat) : Delivery × Source :=
  if !source.held.isEmpty then
    source.serve room
  else
    match source.block with
    | none => source.fetch room
    | some size =>
      if size ≤ room then
        source.fetch room
      else
        match source.fetch size with
        | (.bytes piece, after) => { after with held := piece }.serve room
        | other => other

theorem remaining_fetch_bytes {source after : Source} {room : Nat} {piece : List UInt8}
    (fetched : source.fetch room = (.bytes piece, after)) :
    after.remaining + piece.length ≤ source.remaining ∧ after.held = source.held := by
  unfold fetch at fetched
  split at fetched <;>
    simp only [Prod.mk.injEq, Delivery.bytes.injEq, reduceCtorEq, false_and] at fetched
  · obtain ⟨rfl, rfl⟩ := fetched
    refine ⟨?_, rfl⟩
    simp only [remaining, List.length_drop, List.length_take]
    omega
  · rename_i scripted
    obtain ⟨rfl, rfl⟩ := fetched
    refine ⟨?_, rfl⟩
    simp only [remaining, scripted, List.length_drop, List.length_take, List.length_cons]
    omega

/-- A fetch that hands out nothing uses up a scripted call, unless it meets the end of the data. -/
theorem remaining_fetch_lt (source : Source) (room : Nat)
    (noBytes : ∀ piece, (source.fetch room).1 ≠ .bytes piece) :
    (source.fetch room).2.remaining < source.remaining := by
  unfold fetch at noBytes ⊢
  split at noBytes <;> rename_i scripted
  · simp at noBytes
  · simp at noBytes
  · simp [remaining, scripted]
  · simp [remaining, scripted]

/-- Every read that is not the end of the input leaves less to be read. -/
theorem remaining_read_lt (source : Source) (room : Nat)
    (notEnd : (source.read room).1 ≠ .bytes []) :
    (source.read room).2.remaining < source.remaining := by
  unfold read at notEnd ⊢
  split
  · rename_i inHand
    simp only [inHand, ↓reduceIte, serve] at notEnd ⊢
    have nonempty : (source.held.take room).length ≠ 0 := by
      simpa using notEnd
    simp only [remaining, List.length_drop]
    simp only [List.length_take] at nonempty
    omega
  · rename_i nothing
    simp only [nothing, Bool.false_eq_true, ↓reduceIte] at notEnd ⊢
    have direct : ∀ size, (source.fetch size).1 ≠ .bytes [] →
        (source.fetch size).2.remaining < source.remaining := by
      intro size ne
      match outcome : source.fetch size with
      | (.bytes piece, after) =>
        have bound := (remaining_fetch_bytes outcome).1
        have nonempty : piece.length ≠ 0 := by
          intro zero
          simp [outcome, List.eq_nil_of_length_eq_zero zero] at ne
        simp only
        omega
      | (.interrupted, after) =>
        have bound := remaining_fetch_lt source size (by simp [outcome])
        simpa [outcome] using bound
      | (.failed failure, after) =>
        have bound := remaining_fetch_lt source size (by simp [outcome])
        simpa [outcome] using bound
    split at notEnd
    · exact direct room notEnd
    · rename_i size _
      split at notEnd
      · rename_i large
        simpa only [large, ↓reduceIte] using direct room notEnd
      · rename_i small
        simp only [small, ↓reduceIte]
        match outcome : source.fetch size with
        | (.bytes piece, after) =>
          have bound := remaining_fetch_bytes outcome
          have empty : source.held = [] := by simpa using nothing
          simp only [outcome, serve] at notEnd ⊢
          have nonempty : (piece.take room).length ≠ 0 := by
            simpa using notEnd
          have afterEmpty : after.held.length = 0 := by rw [bound.2, empty]; rfl
          have total := bound.1
          simp only [remaining, List.length_drop, List.length_take] at total nonempty ⊢
          omega
        | (.interrupted, after) =>
          have shorter := direct size (by simp [outcome])
          simpa [outcome] using shorter
        | (.failed failure, after) =>
          have shorter := direct size (by simp [outcome])
          simpa [outcome] using shorter

theorem remaining_lt_of_read {source after : Source} {room : Nat} {delivery : Delivery}
    (delivered : source.read room = (delivery, after)) (notEnd : delivery ≠ .bytes []) :
    after.remaining < source.remaining := by
  simpa [delivered] using remaining_read_lt source room (by simpa [delivered])

end Source

end WaveDump
