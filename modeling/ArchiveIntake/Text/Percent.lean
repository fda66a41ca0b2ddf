import ArchiveIntake.Text.Digit

/-! Bytes written as a percent sign and two hexadecimal digits. -/

namespace ArchiveIntake.Text

def byteChar (b : UInt8) : Char := Char.ofNat b.toNat

/-- The byte that two hexadecimal digits spell. -/
def escapedByte? (high low : UInt8) : Option UInt8 := do
  let high ← hexValue? (byteChar high)
  let low ← hexValue? (byteChar low)
  return UInt8.ofNat (16 * high + low)

end ArchiveIntake.Text
