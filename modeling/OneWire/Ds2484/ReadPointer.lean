import OneWire.Ds2484.Bridge

/-!
# The read pointer of the DS2484

A read gives the register at the chip's read pointer, and which one that is depends on the requests
before it. Here each read of the bridge says which register it means, and a watched board keeps the
pointer and notes it at each read.
-/

namespace OneWire.Ds2484

inductive Register where
  | status
  | data
  | configuration
deriving DecidableEq, Repr

def Register.pointer : Register → Byte
  | status => statusPointer
  | data => dataPointer
  | configuration => configurationPointer

/-- Where a request that went well leaves the read pointer. -/
def pointed (pointer : Byte) : List Byte → Byte
  | [] => pointer
  | b :: parameters =>
    if b = writeConfiguration then
      configurationPointer
    else if b = setReadPointer then
      parameters.headD pointer
    else if b ∈ [deviceReset, lineReset, singleBit, lineWriteByte, lineReadByte] then
      statusPointer
    else
      pointer

/-! ## Reads that say what they mean -/

/-- For each register the wiring to use where that register is meant. -/
abbrev Ports (π : Type) := Register → Wiring π

namespace Ports

open Bridge

variable {π : Type} (w : Ports π) (c : Config)

def readByte : Action Failure π Byte := do
  let _ ← complete (w .status) c [lineReadByte]
  request (w .data) c [setReadPointer, dataPointer]
  readRegister (w .data) c

def start : Action Failure (Bridge π) Unit := do
  onBoard (setPin (w .status) true)
  modify ({ · with active := true })
  onBoard (resetChip (w .status) c)
  onBoard (configure (w .configuration) c c.register)

/-- Only a byte that is read means something other than the status. -/
def master : Master (Bridge π) Failure :=
  ByteMaster.toMaster { (Ds2484.master (w .status) c).toByteMaster with
    readByte := onBoard (w.readByte c) }

/-- Where all reads go the same way, this is the bridge itself. -/
theorem start_same (w : Wiring π) : start (fun _ => w) c = Bridge.start w c := rfl

theorem master_same (w : Wiring π) : master (fun _ => w) c = Ds2484.master w c := rfl

end Ports

/-! ## Watched boards -/

/-- The read pointer of a chip, and each read so far with the pointer at the time. -/
structure Watch where
  pointer : Byte
  reads : List (Register × Byte) := []

def Watch.point (bytes : List Byte) (watch : Watch) : Watch :=
  { watch with pointer := pointed watch.pointer bytes }

def Watch.note (r : Register) (watch : Watch) : Watch :=
  { watch with reads := watch.reads ++ [(r, watch.pointer)] }

variable {π α : Type}

/-- An action on the board, and what its success or its failure does to the watch. -/
def watching (ok failed : Watch → Watch) (act : Action Unit π α) : Action Unit (π × Watch) α :=
  fun p =>
    match act p.1 with
    | .ok a s => .ok a (s, ok p.2)
    | .error e s => .error e (s, failed p.2)

def Wiring.watched (w : Wiring π) (r : Register) : Wiring (π × Watch) where
  write address bytes := watching (.point bytes) id (w.write address bytes)
  read address := watching (.note r) (.note r) (w.read address)
  setPin := w.setPin.map fun set high => watching id id (set high)

end OneWire.Ds2484
