/-!
# Packed samples

A logic analyzer delivers its channels packed: in every sample channel `n` is bit `n % 8` of byte
`n / 8`, least significant bit first. This module reads single levels, computes how many bytes a
number of channels takes, fits a sample to a given size and cuts a frame into samples.
-/

namespace WaveDump

/-- One packed sample: the levels of all channels at one instant. -/
abbrev Sample := List UInt8

def bytesFor (bits : Nat) : Nat :=
  (bits + 7) / 8

def levelDigit (level : Bool) : Char :=
  if level then '1' else '0'

namespace Sample

/-- The level of the channel at bit `index`; bits beyond the end are low. -/
def level (sample : Sample) (index : Nat) : Bool :=
  match sample[index / 8]? with
  | some byte => byte.toNat.testBit (index % 8)
  | none => false

/-- The sample cut to `size` bytes, or filled up to `size` bytes with low levels. -/
def resize (size : Nat) (sample : Sample) : Sample :=
  sample.take size ++ List.replicate (size - sample.length) 0

theorem length_resize (size : Nat) (sample : Sample) : (sample.resize size).length = size := by
  simp only [resize, List.length_append, List.length_take, List.length_replicate]
  omega

theorem resize_of_length {size : Nat} {sample : Sample} (sameLength : sample.length = size) :
    sample.resize size = sample := by
  simp [resize, ← sameLength]

/-- The whole samples of `stride` bytes in a frame; bytes after the last one are left out. -/
def ofFrame (stride : Nat) (frame : List UInt8) : List Sample :=
  let bytes := frame.toArray
  (List.range (bytes.size / stride)).map fun index =>
    (bytes.extract (index * stride) (index * stride + stride)).toList

theorem length_ofFrame (stride : Nat) (frame : List UInt8) :
    (ofFrame stride frame).length = frame.length / stride := by
  simp [ofFrame]

/-- The sample at an index is what the frame holds at that many strides. -/
theorem getElem_ofFrame {stride : Nat} {frame : List UInt8} {index : Nat}
    (inBounds : index < (ofFrame stride frame).length) :
    (ofFrame stride frame)[index] = (frame.drop (index * stride)).take stride := by
  simp [ofFrame, List.extract_eq_take_drop]

/-- A frame cut at a sample boundary has the samples of its two parts. -/
theorem ofFrame_append {stride : Nat} {first second : List UInt8} (positive : 0 < stride)
    (whole : stride ∣ first.length) :
    ofFrame stride (first ++ second) = ofFrame stride first ++ ofFrame stride second := by
  obtain ⟨count, size⟩ := whole
  have lengths : (first ++ second).length / stride = count + second.length / stride := by
    rw [List.length_append, size, Nat.add_comm, Nat.add_mul_div_left _ _ positive, Nat.add_comm]
  have firstCount : first.length / stride = count := by
    rw [size, Nat.mul_div_cancel_left _ positive]
  apply List.ext_getElem
  · simp only [length_ofFrame, List.length_append, firstCount] at lengths ⊢
    exact lengths
  · intro index inBounds _
    simp only [List.getElem_append, getElem_ofFrame, length_ofFrame, firstCount]
    split
    · rename_i early
      have fits : index * stride + stride ≤ first.length := by
        rw [size, Nat.mul_comm stride, ← Nat.succ_mul]
        exact Nat.mul_le_mul_right stride early
      rw [List.drop_append_of_le_length (by omega), List.take_append_of_le_length]
      simp only [List.length_drop]
      omega
    · rename_i late
      have past : first.length ≤ index * stride := by
        rw [size, Nat.mul_comm]
        exact Nat.mul_le_mul_right stride (Nat.le_of_not_lt late)
      rw [List.drop_append, List.drop_eq_nil_of_le past, List.nil_append, Nat.sub_mul, size,
        Nat.mul_comm stride count]
end Sample

end WaveDump
