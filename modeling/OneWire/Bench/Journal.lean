/-!
# Journals

A journal lists what happened. Neighbours that are equal are kept once, with their number, since a
master that polls does the same thing very often.
-/

namespace OneWire

structure Journal (α : Type) where
  /-- What happened and how often in a row, newest first. -/
  newest : List (α × Nat) := []
deriving DecidableEq

namespace Journal

variable {α : Type} [DecidableEq α]

def note (j : Journal α) (a : α) : Journal α :=
  match j.newest with
  | (b, n) :: rest => if b = a then ⟨(b, n + 1) :: rest⟩ else ⟨(a, 1) :: j.newest⟩
  | [] => ⟨[(a, 1)]⟩

omit [DecidableEq α] in
/-- What happened and how often in a row, oldest first. -/
def runs (j : Journal α) : List (α × Nat) :=
  j.newest.reverse

omit [DecidableEq α] in
def toList (j : Journal α) : List α :=
  j.runs.flatMap fun (a, n) => List.replicate n a

theorem toList_note (j : Journal α) (a : α) : (j.note a).toList = j.toList ++ [a] := by
  obtain ⟨_ | ⟨⟨b, n⟩, rest⟩⟩ := j
  · rfl
  · by_cases h : b = a
    · simp [note, toList, runs, h, List.replicate_succ']
    · simp [note, toList, runs, h]

end Journal

end OneWire
