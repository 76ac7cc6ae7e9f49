import OneWire.Byte

/-!
# The checksum of 1-Wire identifiers

The generator is `x^8 + x^5 + x^4 + 1`. The register starts at zero and takes the data in wire
order, so the low bit of the register leaves first and the generator is written low bit first.
-/

namespace OneWire.Crc8

/-- The generator without its leading coefficient, lowest bit first. -/
def generator : Byte := 0x8C

def shift (register : Byte) : Byte :=
  if register.getLsbD 0 then (register >>> 1) ^^^ generator else register >>> 1

def shifts : Nat → Byte → Byte
  | 0, register => register
  | n + 1, register => shifts n (shift register)

def absorb (register byte : Byte) : Byte :=
  shifts 8 (register ^^^ byte)

def checksum (data : List Byte) : Byte :=
  data.foldl absorb 0

theorem checksum_concat (data : List Byte) (b : Byte) :
    checksum (data ++ [b]) = absorb (checksum data) b := by
  simp [checksum]

end OneWire.Crc8
