import OneWire.Error

/-!
# Actions on a bus

An action changes a state and returns a value or fails. A failed action may have changed the state
as well, as a transfer does that breaks off halfway.
-/

namespace OneWire

/-- An action on a state `σ` that returns an `α` or fails with an `ε`. -/
abbrev Action (ε σ α : Type) := EStateM ε σ α

namespace Action

variable {ε σ α β : Type}

def attempt (act : Action ε σ α) (s : σ) : Except ε α × σ :=
  match act s with
  | .ok a s => (.ok a, s)
  | .error e s => (.error e, s)

/-- The same action when its failures are those of a bus master. -/
def onBus (act : Action ε σ α) : Action (Error ε) σ α := fun s =>
  match act s with
  | .ok a s => .ok a s
  | .error e s => .error (.bus e) s

/-- The same action with something beside the state that it leaves alone. -/
def beside (act : Action ε σ α) : Action ε (σ × β) α := fun p =>
  match act p.1 with
  | .ok a s => .ok a (s, p.2)
  | .error e s => .error e (s, p.2)

/-- Runs an action with something beside the state, and returns what became of it. -/
def filling (b : β) (act : Action ε (σ × β) Unit) : Action ε σ β := fun s =>
  match act (s, b) with
  | .ok _ p => .ok p.2 p.1
  | .error e p => .error e p.1

/--
Runs `body` between `lock` and `unlock`. Once locked, it unlocks whatever happens, and an error of
`body` counts before one of `unlock`.
-/
def between (lock unlock : Action ε σ Unit) (body : Action (Error ε) σ α) :
    Action (Error ε) σ α := fun s =>
  match lock s with
  | .error e s => .error (.bus e) s
  | .ok _ s =>
    match body s with
    | .error e s =>
      match unlock s with
      | .ok _ s => .error e s
      | .error _ s => .error e s
    | .ok a s =>
      match unlock s with
      | .ok _ s => .ok a s
      | .error e s => .error (.bus e) s

end Action

end OneWire
