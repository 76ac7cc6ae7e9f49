import OneWire.Action
import OneWire.Byte

/-!
# Bus masters

A master makes time slots on the line, one bit each. Bytes are eight slots and blocks are bytes,
unless the master knows a better way.
-/

namespace OneWire

/-- What a request for a power state came to. -/
inductive PowerChange where
  | changed
  /-- The master was in the requested state before. -/
  | already
deriving DecidableEq, Repr

/-- A master that can do no more than it must. -/
structure Slots (σ ε : Type) where
  /-- Resets the line, and tells whether a device answered. -/
  reset : Action ε σ Bool
  readBit : Action ε σ Bool
  writeBit : Bool → Action ε σ Unit
  /-- Takes the bus. A master that is locked twice needs two unlocks. -/
  lock : Action ε σ Unit
  unlock : Action ε σ Unit
  resume : Action ε σ PowerChange
  suspend : Action ε σ PowerChange
  deviceCount : σ → Nat

structure ByteMaster (σ ε : Type) extends Slots σ ε where
  readByte : Action ε σ Byte
  writeByte : Byte → Action ε σ Unit

structure Master (σ ε : Type) extends ByteMaster σ ε where
  /-- Fills the buffer beside the state. A read that fails may have filled a part of it. -/
  readBlock : (n : Nat) → Action ε (σ × Vector Byte n) Unit
  writeBlock : List Byte → Action ε σ Unit

variable {σ ε : Type}

/-! ## Bytes from bits -/

namespace Slots

def readBits (bus : Slots σ ε) : Nat → Action ε σ (List Bool)
  | 0 => pure []
  | n + 1 => do
    let b ← bus.readBit
    let bs ← bus.readBits n
    pure (b :: bs)

def writeBits (bus : Slots σ ε) : List Bool → Action ε σ Unit
  | [] => pure ()
  | b :: bs => do
    bus.writeBit b
    bus.writeBits bs

/-- Transfers a byte as eight bits, low bit first. -/
def toByteMaster (bus : Slots σ ε) : ByteMaster σ ε where
  toSlots := bus
  readByte := do pure (.ofBits (← bus.readBits 8))
  writeByte b := bus.writeBits b.bits

end Slots

/-! ## Blocks from bytes -/

namespace ByteMaster

/-- Reads a byte for each of the given places of the buffer. -/
def fill (bus : ByteMaster σ ε) {n : Nat} : List (Fin n) → Action ε (σ × Vector Byte n) Unit
  | [] => pure ()
  | i :: rest => do
    let b ← bus.readByte.beside
    modify fun (s, buffer) => (s, buffer.set i b)
    bus.fill rest

def writeBytes (bus : ByteMaster σ ε) : List Byte → Action ε σ Unit
  | [] => pure ()
  | b :: bs => do
    bus.writeByte b
    bus.writeBytes bs

def toMaster (bus : ByteMaster σ ε) : Master σ ε where
  toByteMaster := bus
  readBlock n := bus.fill (List.finRange n)
  writeBlock := bus.writeBytes

end ByteMaster

def Slots.toMaster (bus : Slots σ ε) : Master σ ε :=
  bus.toByteMaster.toMaster

/-! ## Ownership -/

namespace Master

def whileLocked {α : Type} (bus : Master σ ε) (body : Action (Error ε) σ α) :
    Action (Error ε) σ α :=
  .between bus.lock bus.unlock body

/-- Runs `body` with the bus locked, and with something beside the state. -/
def whileLockedBeside {α β : Type} (bus : Master σ ε) (body : Action (Error ε) (σ × β) α) :
    Action (Error ε) (σ × β) α :=
  .between bus.lock.beside bus.unlock.beside body

def receive (bus : Master σ ε) (n : Nat) : Action ε σ (Vector Byte n) :=
  .filling (.replicate n 0) (bus.readBlock n)

end Master

end OneWire
