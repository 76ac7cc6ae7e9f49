import OneWire.Command
import OneWire.Master.Basic
import OneWire.Rom

/-!
# Addressing devices

Each transaction starts with a reset and a ROM command, which decides which devices take part in
what follows.
-/

namespace OneWire.Master

variable {σ ε : Type}

/-- Resets the line; an error if no device answers. -/
def expectPresence (bus : Master σ ε) : Action (Error ε) σ Unit := do
  if ← bus.reset.onBus then pure () else throw .noPresence

def issue (bus : Master σ ε) (c : Command) : Action (Error ε) σ Unit :=
  (bus.writeByte c.code).onBus

def issueMatch (bus : Master σ ε) (rom : Rom) : Action (Error ε) σ Unit := do
  bus.issue .matchRom
  (bus.writeBlock rom.toBytes.toList).onBus

/--
Reads the identifier of the only device. The answers of several devices collide, and then the
checksum almost always fails.
-/
def readRom (bus : Master σ ε) : Action (Error ε) σ Rom :=
  bus.whileLocked do
    bus.expectPresence
    bus.issue .readRom
    let rom := Rom.ofBytes (← (bus.receive Rom.size).onBus)
    if rom.isValid then pure rom else throw .checksumMismatch

/-- Selects the device `rom`. The others are silent until the next reset. -/
def matchRom (bus : Master σ ε) (rom : Rom) : Action (Error ε) σ Unit :=
  bus.whileLocked do
    bus.expectPresence
    bus.issueMatch rom

def skipRom (bus : Master σ ε) : Action (Error ε) σ Unit :=
  bus.whileLocked do
    bus.expectPresence
    bus.issue .skipRom

/-- Selects again the device that `matchRom` selected last. -/
def resumeRom (bus : Master σ ε) : Action (Error ε) σ Unit :=
  bus.whileLocked do
    bus.expectPresence
    bus.issue .resume

/-- Selects `rom`, by its identifier only where the board declares several devices. -/
def select (bus : Master σ ε) (rom : Rom) : Action (Error ε) σ Unit :=
  bus.whileLocked do
    bus.expectPresence
    if bus.deviceCount (← get) > 1 then
      bus.issueMatch rom
    else
      bus.issue .skipRom

def send (bus : Master σ ε) (rom : Rom) (data : List Byte) : Action (Error ε) σ Unit :=
  bus.whileLocked do
    bus.select rom
    (bus.writeBlock data).onBus

/-- Selects `rom`, sends `data` and fills the buffer beside the state with the response. -/
def exchange (bus : Master σ ε) (rom : Rom) (data : List Byte) (n : Nat) :
    Action (Error ε) (σ × Vector Byte n) Unit :=
  bus.whileLockedBeside do
    (bus.select rom).beside
    (bus.writeBlock data).onBus.beside
    (bus.readBlock n).onBus

end OneWire.Master
