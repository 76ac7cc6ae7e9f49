import OneWire.Master.Basic
import OneWire.Search.Cursor

/-!
# One search pass

At each of the 64 bits the devices that still take part send the bit and its complement. The line
is low where one of them pulls it low. The master answers with a branch, and the devices on the
other one fall silent, so that a pass ends with one identifier.
-/

namespace OneWire.Search

variable {σ ε : Type}

/-- The discrepancy left when a branch was taken at wire bit `i` on two equal answers or not. -/
def deepen (deepest : Discrepancy) (i : Nat) (value complement chosen : Bool) : Discrepancy :=
  if chosen && value == complement then .fork (i + 1) else deepest

/--
Walks the last `n` bits of a pass from cursor `c`. `path` is the path so far, and `deepest` what it
leaves to be done.
-/
def walk (bus : Slots σ ε) (c : Cursor) :
    Nat → Discrepancy → BitVec 64 → Action ε σ Cursor
  | 0, deepest, path => pure ⟨deepest, path⟩
  | n + 1, deepest, path => do
    let i := Rom.width - (n + 1)
    let value ← bus.readBit
    let complement ← bus.readBit
    match c.choose i value complement with
    | none => pure ⟨.noDevice, path⟩
    | some chosen =>
      bus.writeBit chosen
      walk bus c n (deepen deepest i value complement chosen) (withBit path i chosen)

/--
One pass from a cursor; the result is the cursor of the next. The bus is not locked, which is for
the caller to do.
-/
def pass (bus : ByteMaster σ ε) (scope : Scope) (c : Cursor) : Action ε σ Cursor := do
  if ← bus.reset then
    bus.writeByte scope.command.code
    walk bus.toSlots c Rom.width .lastDevice c.path
  else
    pure { c with last := .noDevice }

end OneWire.Search
