/-!
# LEB128 numbers

Numbers of the binary format are written in groups of seven bits, the lowest first, with the high
bit of a byte set if more bytes follow.  A signed number is written in two's complement and read
back by extending the sign, so its last group has to show the sign.

Both encoders write as few bytes as the number allows.
-/

namespace WasmCodegen

/-- A sequence of bytes. -/
abbrev Bytes := List UInt8

namespace Leb128

/-- The bytes of an unsigned number. -/
def unsigned (n : Nat) : Bytes :=
  if n < 128 then
    [UInt8.ofNat n]
  else
    UInt8.ofNat (n % 128 + 128) :: unsigned (n / 128)
termination_by n

/-- The bytes of a signed number. -/
def signed (n : Int) : Bytes :=
  if -64 ≤ n ∧ n < 64 then
    [UInt8.ofNat (n % 128).toNat]
  else
    UInt8.ofNat ((n % 128).toNat + 128) :: signed (n / 128)
termination_by n.natAbs
decreasing_by omega

end Leb128

end WasmCodegen
