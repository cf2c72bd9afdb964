import Mathlib

/-! Checksums of byte strings that combine as a CRC's do. The checksum of a
concatenation follows from the checksums of the two pieces and the length of
the second (`combine`), and the checksum of a string followed by zero bytes from
the string's checksum and their number (`zeroblock`). Code that keeps the
checksums of blocks and updates them from pieces relies on these laws only.
-/

set_option autoImplicit false

namespace Checksum

variable {W : Type} [Zero W]

/-- The laws of a checksum `crc` with its `combine` and `zeroblock`. -/
structure Laws (crc : List UInt8 → W) (combine : W → W → Nat → W) (zeroblock : W → Nat → W) : Prop where
  crc_nil : crc [] = 0
  combine_crc : ∀ first second, combine (crc first) (crc second) second.length = crc (first ++ second)
  zeroblock_crc : ∀ bytes zeros, zeroblock (crc bytes) zeros = crc (bytes ++ List.replicate zeros 0)

section

variable {crc : List UInt8 → W} {combine : W → W → Nat → W} {zeroblock : W → Nat → W}
  (laws : Laws crc combine zeroblock)
include laws

/-- The checksum of `zeros` zero bytes. -/
theorem Laws.zeroblock_zero (zeros : Nat) : zeroblock 0 zeros = crc (List.replicate zeros 0) := by
  rw [← laws.crc_nil, laws.zeroblock_crc, List.nil_append]

/-- A string cut in three: its checksum from those of the pieces. -/
theorem Laws.combine_three (first middle last : List UInt8) :
    combine (combine (crc first) (crc middle) middle.length) (crc last) last.length =
      crc (first ++ middle ++ last) := by
  rw [laws.combine_crc, laws.combine_crc]

end

end Checksum
