/-!
# Words

Sample rates, sizes and stamps are words of 64 bits. They are kept as natural numbers and compared
with the largest word where they could leave the range.
-/

namespace WaveDump

def maxWord : Nat := 0xFFFFFFFFFFFFFFFF

end WaveDump
