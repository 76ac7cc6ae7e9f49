import OneWire.Error
import OneWire.Rom

/-!
# Reports of operations that carry on after a failure

A report keeps the first warnings and counts the rest, and keeps the first error.
-/

namespace OneWire

/-! ## Lists with a capacity -/

/-- A list of at most `capacity` items. -/
structure Bounded (α : Type) (capacity : Nat) where
  items : List α
  length_le : items.length ≤ capacity

namespace Bounded

variable {α : Type} {capacity : Nat}

def empty : Bounded α capacity := ⟨[], Nat.zero_le _⟩

/-- The first items of a list, as many as there is room for. -/
def ofList (l : List α) : Bounded α capacity :=
  ⟨l.take capacity, List.length_take_le _ _⟩

/-- Appends an item; nothing if there is no room. -/
def push? (b : Bounded α capacity) (a : α) : Option (Bounded α capacity) :=
  if h : b.items.length < capacity then
    some ⟨b.items ++ [a], by rw [List.length_append]; exact h⟩
  else
    none

theorem push?_eq_none_iff (b : Bounded α capacity) (a : α) :
    b.push? a = none ↔ capacity ≤ b.items.length := by
  simp [push?]

end Bounded

/-! ## Warnings -/

/-- A failure that did not stop the operation. -/
inductive Warning (ε : Type) where
  /-- The devices that need it could not be sent to sleep. -/
  | stillAwake (error : Error ε)
  /-- The caller rejected an identifier. -/
  | rejected (rom : Rom)
  /-- The scan record had no room for an identifier. -/
  | recordFull (rom : Rom)
deriving DecidableEq

def maxWarnings : Nat := 8

/-! ## Reports -/

structure Report (α ε : Type) where
  value : α
  /-- The warnings that were kept, oldest first. -/
  warnings : Bounded (Warning ε) maxWarnings := .empty
  /-- How many warnings found no room. -/
  dropped : Nat := 0
  error : Option (Error ε) := none

namespace Report

variable {α ε : Type}

def warn (r : Report α ε) (w : Warning ε) : Report α ε :=
  match r.warnings.push? w with
  | some warnings => { r with warnings }
  | none => { r with dropped := r.dropped + 1 }

/-- Records an error unless there is one already. -/
def fail (r : Report α ε) (e : Error ε) : Report α ε :=
  { r with error := r.error <|> some e }

def warningTotal (r : Report α ε) : Nat :=
  r.warnings.items.length + r.dropped

def isOk (r : Report α ε) : Bool :=
  r.error.isNone

def result (r : Report α ε) : Except (Error ε) α :=
  match r.error with
  | some e => .error e
  | none => .ok r.value

end Report

end OneWire
