import OneWire.Byte

/-!
# The 1-Wire line

A line sees resets and time slots. A slot writes a bit or reads one. On the wire a read is a write
of 1 in which devices may pull the line low.
-/

namespace OneWire

class Wire (L : Type) where
  /-- Resets the line, and tells whether a device answers. -/
  reset : L → Bool × L
  read : L → Bool × L
  write : Bool → L → L
  /-- The devices are about to send, so that a slot of 1 reads. -/
  sending : L → Bool

namespace Wire

variable {L : Type} [Wire L]

/-- One slot of the wire: the level that was sent, and the level sampled. -/
def slot (b : Bool) (line : L) : Bool × L :=
  if b && sending line then read line else (b, write b line)

def readBits : Nat → L → List Bool × L
  | 0, line => ([], line)
  | n + 1, line =>
    let (b, line) := read line
    let (bs, line) := readBits n line
    (b :: bs, line)

def writeBits : List Bool → L → L
  | [], line => line
  | b :: bs, line => writeBits bs (write b line)

/-- Eight reads, low bit first. -/
def readByte (line : L) : Byte × L :=
  let (bs, line) := readBits 8 line
  (.ofBits bs, line)

/-- Eight writes, low bit first. -/
def writeByte (b : Byte) (line : L) : L :=
  writeBits b.bits line

end Wire

end OneWire
