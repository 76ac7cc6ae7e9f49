import OneWire.Search.Pass

/-!
# Enumerating the devices

A search repeats passes until one finds the last device or nobody answers. On a line that
contradicts itself there may be no such pass, so a search has a limit on their number.
-/

namespace OneWire.Search

variable {σ ε : Type}

/-- The family hint that stands for every family. -/
def anyFamily : Byte := 0

/--
Makes passes from cursor `c` after `count` finds, and appends what they find to the list beside the
state. The result is the number of finds, or nothing if `limit` passes did not suffice.
-/
def passes (bus : ByteMaster σ ε) (scope : Scope) :
    (limit count : Nat) → Cursor → Action ε (σ × List Rom) (Option Nat)
  | 0, _, _ => pure none
  | limit + 1, count, c => do
    let c ← (pass bus scope c).beside
    match c.found with
    | none => pure (some count)
    | some rom =>
      modify fun (s, found) => (s, found ++ [rom])
      if c.isFinished then pure (some (count + 1)) else passes bus scope limit (count + 1) c

/--
Finds the devices in `scope` with the bus locked throughout, and appends them to the list beside
the state, also when the search fails later. The result is their number, or nothing if `limit`
passes did not suffice. The family is a hint that this search does not use: it finds every family.
-/
def enumerate (bus : Master σ ε) (limit : Nat) (scope : Scope) (_family : Byte) :
    Action (Error ε) (σ × List Rom) (Option Nat) :=
  bus.whileLockedBeside (passes bus.toByteMaster scope limit 0 {}).onBus

def findAll (bus : Master σ ε) (limit : Nat) : Action (Error ε) (σ × List Rom) (Option Nat) :=
  enumerate bus limit .all anyFamily

def findAlarmed (bus : Master σ ε) (limit : Nat) : Action (Error ε) (σ × List Rom) (Option Nat) :=
  enumerate bus limit .alarmed anyFamily

end OneWire.Search
