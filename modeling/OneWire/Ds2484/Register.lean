import OneWire.Byte

/-!
# The DS2484 as its host sees it

The DS2484 makes 1-Wire resets, slots and bytes on request over I²C. Its status register tells when
a request is done and how it went, and each request leaves the read pointer there.
-/

namespace OneWire.Ds2484

/-! ## Requests -/

def deviceReset : Byte := 0xF0
def setReadPointer : Byte := 0xE1
def writeConfiguration : Byte := 0xD2
def lineReset : Byte := 0xB4
def singleBit : Byte := 0x87
def lineWriteByte : Byte := 0xA5
def lineReadByte : Byte := 0x96

/-! ## Registers -/

def statusPointer : Byte := 0xF0
def dataPointer : Byte := 0xE1
def configurationPointer : Byte := 0xC3

def isBusy (status : Byte) : Bool := status.getLsbD 0
def hasPresence (status : Byte) : Bool := status.getLsbD 1
def wasReset (status : Byte) : Bool := status.getLsbD 4
/-- The level sampled in a slot. -/
def sampled (status : Byte) : Bool := status.getLsbD 5

@[simp] theorem isBusy_or (a b : Byte) : isBusy (a ||| b) = (isBusy a || isBusy b) :=
  BitVec.getLsbD_or

@[simp] theorem hasPresence_or (a b : Byte) :
    hasPresence (a ||| b) = (hasPresence a || hasPresence b) :=
  BitVec.getLsbD_or

@[simp] theorem sampled_or (a b : Byte) : sampled (a ||| b) = (sampled a || sampled b) :=
  BitVec.getLsbD_or

/-! ## Parameters -/

/-- The parameter that asks for a slot of the given bit. -/
def slotParameter (b : Bool) : Byte := if b then 0x80 else 0

/-- A configuration with its complement in the upper half, as the chip wants it. -/
def withComplement (configuration : Byte) : Byte :=
  (configuration &&& 0x0F) ||| (~~~configuration <<< 4)

end OneWire.Ds2484
