import OneWire.Line.Wire

/-!
# A recorded line

A recording gives the answers to resets and reads one after another, whatever is written.
-/

namespace OneWire

structure Recording where
  /-- The answers to resets; nobody answers after the end. -/
  presence : List Bool
  /-- The answers to reads; ones after the end. -/
  bits : List Bool
deriving DecidableEq

namespace Recording

def reset (line : Recording) : Bool × Recording :=
  (line.presence.headD false, { line with presence := line.presence.tail })

def read (line : Recording) : Bool × Recording :=
  (line.bits.headD true, { line with bits := line.bits.tail })

instance : Wire Recording where
  reset := reset
  read := read
  write _ line := line
  sending _ := true

end Recording

end OneWire
