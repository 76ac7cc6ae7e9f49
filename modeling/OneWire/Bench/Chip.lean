import OneWire.Ds2484.Register
import OneWire.Line.Wire

/-!
# A DS2484 on the bench

The chip drives a line at once, but its status shows it busy for a while.
-/

namespace OneWire.Bench

open Ds2484

/-- The registers of the chip, and how it behaves. -/
structure Chip where
  address : Byte := 0x18
  /-- How many status reads after a request show the chip busy. -/
  busy : Nat := 0
  /-- Bits that every status shows. -/
  noise : Byte := 0
  /-- The status after a reset of the chip. -/
  resetStatus : Byte := 0x10
  /-- The configuration bits that can be set. -/
  configurable : Byte := 0x0F
  pointer : Byte := statusPointer
  status : Byte := 0
  data : Byte := 0
  configuration : Byte := 0
  /-- How many more status reads show the chip busy. -/
  busyLeft : Nat := 0
deriving DecidableEq, Repr

namespace Chip

variable {L : Type} [Wire L]

def finish (chip : Chip) (status : Byte) : Chip :=
  { chip with status, busyLeft := chip.busy, pointer := statusPointer }

/-- Takes the bytes of an I²C write; nothing if it makes no sense of them. -/
def write (bytes : List Byte) (chip : Chip) (line : L) : Option (Chip × L) :=
  match bytes with
  | [b] =>
    if b = deviceReset then
      some ({ chip with
        status := chip.resetStatus, configuration := 0, busyLeft := 0,
        pointer := statusPointer }, line)
    else if b = lineReset then
      let (presence, line) := Wire.reset line
      some (chip.finish (if presence then 0x02 else 0), line)
    else if b = lineReadByte then
      let (data, line) := Wire.readByte line
      some ({ chip.finish 0 with data }, line)
    else
      none
  | [b, p] =>
    if b = writeConfiguration then
      let configuration :=
        if p >>> 4 = ~~~p &&& 0x0F then p &&& 0x0F &&& chip.configurable else chip.configuration
      some ({ chip with configuration, pointer := configurationPointer }, line)
    else if b = setReadPointer then
      some ({ chip with pointer := p }, line)
    else if b = singleBit then
      let (sample, line) := Wire.slot (p.getLsbD 7) line
      some (chip.finish (if sample then 0x20 else 0), line)
    else if b = lineWriteByte then
      some (chip.finish 0, Wire.writeByte p line)
    else
      none
  | _ => none

def read (chip : Chip) : Byte × Chip :=
  if chip.pointer = statusPointer then
    match chip.busyLeft with
    | 0 => (chip.status ||| chip.noise, chip)
    | busyLeft + 1 => (chip.status ||| chip.noise ||| 0x01, { chip with busyLeft })
  else if chip.pointer = dataPointer then
    (chip.data, chip)
  else if chip.pointer = configurationPointer then
    (chip.configuration, chip)
  else
    (0xFF, chip)

end Chip

/-- What answers over I²C. -/
inductive Peer where
  | chip (chip : Chip)
  /-- Answers the reads one after another, and then the same for ever. -/
  | recording (reads : List Byte) (rest : Byte)
deriving DecidableEq

end OneWire.Bench
