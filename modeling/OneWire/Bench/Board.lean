import OneWire.Bench.Chip
import OneWire.Bench.Fault
import OneWire.Bench.Journal
import OneWire.Ds2484.Bridge

/-!
# A board with a DS2484 on the bench

The I²C bus and the pin fail on demand, and the board keeps a journal.
-/

namespace OneWire.Bench

open Ds2484

/-- How SLPZ is wired. -/
inductive SleepPin where
  | absent
  /-- Tied high, so that setting it does nothing. -/
  | tied
  | driven
deriving DecidableEq, Repr

inductive Access where
  | write
  | read
  | pinLow
  | pinHigh
deriving DecidableEq, Repr

inductive BoardEvent where
  | write (address : Byte) (bytes : List Byte)
  | read (address byte : Byte)
  | writeFailed (address : Byte) (bytes : List Byte)
  | readFailed (address : Byte)
  | pin (high : Bool)
  | pinFailed (high : Bool)
  | delay (ms : Nat)
deriving DecidableEq

structure Board (L : Type) where
  line : L
  peer : Peer
  meter : FaultMeter Access
  /-- The level of SLPZ, where it is driven. -/
  pin : Option Bool := none
  journal : Journal BoardEvent := {}

namespace Board

variable {L : Type}

def note (b : Board L) (e : BoardEvent) : Board L :=
  { b with journal := b.journal.note e }

/-- Makes an access unless it is to fail. `act` may refuse it, which is a failure too. -/
def access {α : Type} (m : Access) (failed : BoardEvent)
    (act : Board L → Option (α × BoardEvent × Board L)) : Action Unit (Board L) α := fun b =>
  let fails := b.meter.fails m
  let b := { b with meter := b.meter.tick m }
  match if fails then none else act b with
  | some (a, e, b) => .ok a (b.note e)
  | none => .error () (b.note failed)

/-- A chip answers to its own address while it is awake. -/
def hears (b : Board L) (chip : Chip) (address : Byte) : Bool :=
  chip.address == address && b.pin != some false

variable [Wire L]

def write (address : Byte) (bytes : List Byte) : Action Unit (Board L) Unit :=
  access .write (.writeFailed address bytes) fun b =>
    match b.peer with
    | .recording _ _ => some ((), .write address bytes, b)
    | .chip chip =>
      if b.hears chip address then
        (chip.write bytes b.line).map fun (chip, line) =>
          ((), .write address bytes, { b with peer := .chip chip, line })
      else
        none

omit [Wire L] in
def read (address : Byte) : Action Unit (Board L) Byte :=
  access .read (.readFailed address) fun b =>
    match b.peer with
    | .recording [] rest => some (rest, .read address rest, b)
    | .recording (byte :: reads) rest =>
      some (byte, .read address byte, { b with peer := .recording reads rest })
    | .chip chip =>
      if b.hears chip address then
        let (byte, chip) := chip.read
        some (byte, .read address byte, { b with peer := .chip chip })
      else
        none

omit [Wire L] in
def drive (high : Bool) : Action Unit (Board L) Unit :=
  access (if high then .pinHigh else .pinLow) (.pinFailed high) fun b =>
    some ((), .pin high, { b with pin := some high })

def wiring (pin : SleepPin) : Wiring (Board L) where
  write := write
  read := read
  setPin :=
    match pin with
    | .absent => none
    | .tied => some fun _ => pure ()
    | .driven => some drive

omit [Wire L] in
/-- Waits, which nothing but the journal shows. -/
def delay (ms : Nat) (b : Board L) : Board L :=
  b.note (.delay ms)

/-- A board just powered. A driven pin starts low. -/
def ofPin (line : L) (peer : Peer) (meter : FaultMeter Access) (pin : SleepPin) : Board L :=
  { line, peer, meter, pin := if pin = .driven then some false else none }

def host (pin : SleepPin) (config : Config) : Host (Bridge (Board L)) Failure :=
  Ds2484.host (wiring pin) config delay

end Board

end OneWire.Bench
