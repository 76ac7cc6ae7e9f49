import OneWire.Command
import OneWire.Rom

/-!
# Search cursors

The identifiers on the line are the leaves of a binary tree with 64 levels. A cursor remembers the
path of the last pass and the deepest fork on it whose 0-branch is still to be visited.
-/

namespace OneWire.Search

/-- Which devices a search asks. -/
inductive Scope where
  | all
  | alarmed
deriving DecidableEq, Repr

def Scope.command : Scope → Command
  | all => .searchRom
  | alarmed => .searchAlarm

/-- What a pass leaves to be done. -/
inductive Discrepancy where
  | start
  /-- The deepest fork with an unvisited 0-branch; positions count from 1. -/
  | fork (position : Nat)
  /-- The last pass found the last device. -/
  | lastDevice
  /-- Nobody answered the last pass. -/
  | noDevice
deriving DecidableEq, Repr

/-- The position that decides which branch a pass takes at a fork. -/
def Discrepancy.position : Discrepancy → Nat
  | start => 0
  | fork p => p
  | lastDevice => Rom.width + 1
  | noDevice => Rom.width + 2

structure Cursor where
  last : Discrepancy := .start
  /-- The path of the last pass; wire bit `i` is bit `i`. -/
  path : BitVec 64 := 0
deriving DecidableEq, Repr

namespace Cursor

def found (c : Cursor) : Option Rom :=
  match c.last with
  | .fork _ | .lastDevice => some (.ofWireBits c.path)
  | .start | .noDevice => none

/-- No further pass will find anything. -/
def isFinished (c : Cursor) : Bool :=
  match c.last with
  | .lastDevice | .noDevice => true
  | .start | .fork _ => false

/--
The branch of a fork at wire bit `i`: the old path up to the last discrepancy, 0 there, and 1 after
it.
-/
def branch (c : Cursor) (i : Nat) : Bool :=
  c.last.position < i + 1 || (i + 1 < c.last.position && c.path.getLsbD i)

/-- The branch on the two answers at wire bit `i`; nothing where nobody answers. -/
def choose (c : Cursor) (i : Nat) (value complement : Bool) : Option Bool :=
  match value, complement with
  | true, true => none
  | true, false => some true
  | false, true => some false
  | false, false => some (c.branch i)

end Cursor

def withBit (path : BitVec 64) (i : Nat) (b : Bool) : BitVec 64 :=
  if b then path ||| BitVec.twoPow 64 i else path &&& ~~~BitVec.twoPow 64 i

theorem getLsbD_withBit (path : BitVec 64) (b : Bool) {i j : Nat} (hj : j < 64) :
    (withBit path i b).getLsbD j = if j = i then b else path.getLsbD j := by
  unfold withBit
  by_cases h : i = j
  · subst h
    cases b <;> simp [hj]
  · cases b <;> simp [Ne.symm h, hj]

end OneWire.Search
