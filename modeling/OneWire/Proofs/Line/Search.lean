import OneWire.Line.Wire
import OneWire.Proofs.Search.Answers

/-!
# Searches on a line

What the slots of a search pass do to a line. A line is consistent if its answers in a pass depend
only on the bits that were written in that pass.
-/

namespace OneWire.Wire

variable {L : Type} [Wire L]

/-- The two answers at a search position, and the line after them. -/
def answer (line : L) : (Bool × Bool) × L :=
  let (value, line) := read line
  let (complement, line) := read line
  ((value, complement), line)

/-- The line after a reset, a search command and a path. -/
def searched (c : Command) (p : List Bool) (line : L) : L :=
  p.foldl (fun line b => write b (answer line).2) (writeByte c.code (reset line).2)

theorem searched_concat (c : Command) (p : List Bool) (b : Bool) (line : L) :
    searched c (p ++ [b]) line = write b (answer (searched c p line)).2 := by
  simp [searched]

/-- The line after a pass down `p`. Short of a complete path, a pass ends with the answers. -/
def passed (c : Command) (p : List Bool) (line : L) : L :=
  if p.length = Rom.width then searched c p line else (answer (searched c p line)).2

/-- The line between passes. -/
inductive Between (c : Command) (line : L) : L → Prop
  | start : Between c line line
  | pass {l : L} (p : List Bool) (h : Between c line l) (hp : p.length ≤ Rom.width) :
      Between c line (passed c p l)

/-- Every pass meets a presence pulse and the answers `a`, whatever passes were made before. -/
structure Consistent (c : Command) (a : Search.Answers) (line : L) : Prop where
  presence : ∀ l, Between c line l → (reset l).1 = true
  answers : ∀ l p, Between c line l → p.length < Rom.width → (answer (searched c p l)).1 = a p

/-! ## What stays -/

/-- No reset and no slot changes whether `I` holds. -/
structure Closed (I : L → Prop) : Prop where
  reset : ∀ l, I l → I (reset l).2
  read : ∀ l, I l → I (read l).2
  write : ∀ b l, I l → I (write b l)

namespace Closed

variable {I : L → Prop}

theorem readBits (h : Closed I) (n : Nat) {l : L} (hl : I l) : I (readBits n l).2 := by
  induction n generalizing l with
  | zero => exact hl
  | succ n ih => exact ih (h.read l hl)

theorem writeBits (h : Closed I) (bs : List Bool) {l : L} (hl : I l) : I (writeBits bs l) := by
  induction bs generalizing l with
  | nil => exact hl
  | cons b bs ih => exact ih (h.write b l hl)

end Closed

end OneWire.Wire
