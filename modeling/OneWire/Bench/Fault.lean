/-!
# Faults on demand

Each call of a method has a number, counted from zero for each method apart. A plan says which
calls fail.
-/

namespace OneWire

/-- Failures of a method from call `first` on. -/
structure Fault (M : Type) where
  method : M
  first : Nat := 0
  /-- How many calls fail; all of them if there is no number. -/
  count : Option Nat := some 1
deriving DecidableEq

def Fault.strikes {M : Type} [DecidableEq M] (f : Fault M) (m : M) (call : Nat) : Bool :=
  f.method = m && f.first ≤ call &&
    match f.count with
    | some count => call < f.first + count
    | none => true

abbrev FaultPlan (M : Type) := M → Nat → Bool

/-- The calls that one of the faults strikes. -/
def FaultPlan.ofFaults {M : Type} [DecidableEq M] (faults : List (Fault M)) : FaultPlan M :=
  fun m call => faults.any (·.strikes m call)

structure FaultMeter (M : Type) where
  plan : FaultPlan M
  calls : List (M × Nat) := []

namespace FaultMeter

variable {M : Type} [DecidableEq M]

def count (meter : FaultMeter M) (m : M) : Nat :=
  (meter.calls.lookup m).getD 0

/-- The next call of a method will fail. -/
def fails (meter : FaultMeter M) (m : M) : Bool :=
  meter.plan m (meter.count m)

def tick (meter : FaultMeter M) (m : M) : FaultMeter M :=
  { meter with calls := bump meter.calls }
where
  bump : List (M × Nat) → List (M × Nat)
    | [] => [(m, 1)]
    | (k, n) :: rest => if k = m then (k, n + 1) :: rest else (k, n) :: bump rest

theorem count_tick_self (meter : FaultMeter M) (m : M) :
    (meter.tick m).count m = meter.count m + 1 := by
  have (l : List (M × Nat)) : ((tick.bump m l).lookup m).getD 0 = (l.lookup m).getD 0 + 1 := by
    induction l with
    | nil => simp [tick.bump]
    | cons p rest ih =>
      obtain ⟨k, n⟩ := p
      by_cases h : k = m
      · simp [tick.bump, h]
      · have h' : (m == k) = false := by simpa using fun e => h e.symm
        simp [tick.bump, h, List.lookup_cons, h', ih]
  exact this _

theorem count_tick_of_ne (meter : FaultMeter M) {m k : M} (h : k ≠ m) :
    (meter.tick m).count k = meter.count k := by
  have (l : List (M × Nat)) : (tick.bump m l).lookup k = l.lookup k := by
    induction l with
    | nil => simp [tick.bump, h]
    | cons p rest ih =>
      obtain ⟨i, n⟩ := p
      by_cases hi : i = m
      · have hk : (k == m) = false := by simpa using h
        simp [tick.bump, hi, List.lookup_cons, hk]
      · simp [tick.bump, hi, List.lookup_cons, ih]
  simp [count, tick, this]

end FaultMeter

end OneWire
