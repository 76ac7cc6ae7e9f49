import OneWire.Bench.Fault
import OneWire.Bench.Journal
import OneWire.Line.Wire
import OneWire.Session.Basic

/-!
# A master on the bench

It drives a line directly, fails on demand, and keeps a journal.
-/

namespace OneWire

namespace Bench

/-- The calls that a master can fail. A failure is named for its call. -/
inductive Call where
  | reset
  | readBit
  | writeBit
  | readByte
  | writeByte
  | lock
  | unlock
  | resume
  | suspend
deriving DecidableEq, Repr

inductive Event where
  /-- A reset, and whether a device answered. -/
  | reset (presence : Bool)
  | readBit (bit : Bool)
  | writeBit (bit : Bool)
  | readByte (byte : Byte)
  | writeByte (byte : Byte)
  | lock
  | unlock
  | resume (change : PowerChange)
  | suspend (change : PowerChange)
  | delay (ms : Nat)
  | failed (call : Call)
deriving DecidableEq, Repr

end Bench

open Bench

structure Bench (L : Type) where
  line : L
  meter : FaultMeter Call
  declared : Nat
  powered : Bool := false
  depth : Nat := 0
  journal : Journal Event := {}

namespace Bench

variable {L : Type} {α : Type}

def note (b : Bench L) (e : Event) : Bench L :=
  { b with journal := b.journal.note e }

/-- Makes a call unless it is to fail. `act` may refuse it, which is a failure too. -/
def call (c : Call) (act : Bench L → Option (α × Event × Bench L)) : Action Call (Bench L) α :=
  fun b =>
    let fails := b.meter.fails c
    let b := { b with meter := b.meter.tick c }
    match if fails then none else act b with
    | some (a, e, b) => .ok a (b.note e)
    | none => .error c (b.note (.failed c))

/-- The power state after a request for `powered`. -/
def setPower (powered : Bool) (b : Bench L) : PowerChange × Bench L :=
  if b.powered = powered then (.already, b) else (.changed, { b with powered })

variable [Wire L]

/-- The master that makes everything from bits. -/
def slots : Slots (Bench L) Call where
  reset := call .reset fun b =>
    let (presence, line) := Wire.reset b.line
    some (presence, .reset presence, { b with line })
  readBit := call .readBit fun b =>
    let (bit, line) := Wire.read b.line
    some (bit, .readBit bit, { b with line })
  writeBit bit := call .writeBit fun b =>
    some ((), .writeBit bit, { b with line := Wire.write bit b.line })
  lock := call .lock fun b => some ((), .lock, { b with depth := b.depth + 1 })
  unlock := call .unlock fun b =>
    match b.depth with
    | 0 => none
    | depth + 1 => some ((), .unlock, { b with depth })
  resume := call .resume fun b =>
    let (change, b) := b.setPower true
    some (change, .resume change, b)
  suspend := call .suspend fun b =>
    let (change, b) := b.setPower false
    some (change, .suspend change, b)
  deviceCount b := b.declared

/-- The master that transfers a byte in one call. -/
def byteMaster : ByteMaster (Bench L) Call where
  toSlots := slots
  readByte := call .readByte fun b =>
    let (byte, line) := Wire.readByte b.line
    some (byte, .readByte byte, { b with line })
  writeByte byte := call .writeByte fun b =>
    some ((), .writeByte byte, { b with line := Wire.writeByte byte b.line })

/-- Waits, which nothing but the journal shows. -/
def delay (ms : Nat) (b : Bench L) : Bench L :=
  b.note (.delay ms)

def bitHost : Host (Bench L) Call :=
  { slots.toMaster with delay }

def byteHost : Host (Bench L) Call :=
  { byteMaster.toMaster with delay }

end Bench

end OneWire
