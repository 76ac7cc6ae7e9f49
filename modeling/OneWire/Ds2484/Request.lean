import OneWire.Action
import OneWire.Ds2484.Register

/-!
# Requests to the DS2484

A request is one I²C write. Its end is awaited by reading the status, a limited number of times.
-/

namespace OneWire.Ds2484

/-! ## The board -/

inductive Failure where
  | i2c
  /-- The pin SLPZ could not be set. -/
  | gpio
  /-- The chip stayed busy. -/
  | timeout
  /-- The chip was not reset. -/
  | reset
  /-- The configuration read back is not the one written. -/
  | config
  /-- An unlock without a lock. -/
  | unlock
deriving DecidableEq, Repr

/-- How the chip is wired up, over a board in state `π`. -/
structure Wiring (π : Type) where
  write : Byte → List Byte → Action Unit π Unit
  read : Byte → Action Unit π Byte
  /-- Sets the level of SLPZ, if that is wired. -/
  setPin : Option (Bool → Action Unit π Unit)

structure Config where
  address : Byte := 0x18
  activePullup : Bool := true
  deviceCount : Nat := 1
  /-- How often the status is read before the chip counts as stuck. -/
  pollLimit : Nat := 1000
deriving DecidableEq, Repr

def Config.register (c : Config) : Byte := if c.activePullup then 1 else 0

/-! ## Requests to the chip -/

section Chip

variable {π α : Type} (w : Wiring π) (c : Config)

/-- An action whose failures all count as `f`. -/
def failingAs (f : Failure) (act : Action Unit π α) : Action Failure π α := fun s =>
  match act s with
  | .ok a s => .ok a s
  | .error _ s => .error f s

def request (bytes : List Byte) : Action Failure π Unit :=
  failingAs .i2c (w.write c.address bytes)

def readRegister : Action Failure π Byte :=
  failingAs .i2c (w.read c.address)

/-- Reads the status until the chip is idle, at most `n` times. -/
def poll : Nat → Action Failure π Byte
  | 0 => throw .timeout
  | n + 1 => do
    let status ← readRegister w c
    if isBusy status then poll n else pure status

/-- Makes a request and waits for its end; the result is the final status. -/
def complete (bytes : List Byte) : Action Failure π Byte := do
  request w c bytes
  poll w c c.pollLimit

def reset : Action Failure π Bool := do
  pure (hasPresence (← complete w c [lineReset]))

/-- Makes one slot; the result is the level sampled. -/
def slot (b : Bool) : Action Failure π Bool := do
  pure (sampled (← complete w c [singleBit, slotParameter b]))

def writeByte (b : Byte) : Action Failure π Unit := do
  let _ ← complete w c [lineWriteByte, b]

def readByte : Action Failure π Byte := do
  let _ ← complete w c [lineReadByte]
  request w c [setReadPointer, dataPointer]
  readRegister w c

/-- Sets the level of SLPZ where it is wired. -/
def setPin (high : Bool) : Action Failure π Unit :=
  match w.setPin with
  | some set => failingAs .gpio (set high)
  | none => pure ()

/-- Resets the chip and sees that it did. -/
def resetChip : Action Failure π Unit := do
  request w c [deviceReset]
  let status ← readRegister w c
  if wasReset status then pure () else throw .reset

/-- Configures the chip and sees that it did. -/
def configure (configuration : Byte) : Action Failure π Unit := do
  request w c [writeConfiguration, withComplement configuration]
  let readback ← readRegister w c
  if readback = configuration &&& 0x0F then pure () else throw .config

/-- Waits for the end of what is under way. -/
def settle : Action Failure π Unit := do
  let _ ← complete w c [setReadPointer, statusPointer]

end Chip

end OneWire.Ds2484
