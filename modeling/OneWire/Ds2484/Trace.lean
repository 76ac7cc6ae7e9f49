import OneWire.Ds2484.Request

/-!
# Traces of a board

A traced board does what the board does, and lists the accesses with their outcomes, oldest first.
-/

namespace OneWire.Ds2484

/-- An access to the board and what came of it. -/
inductive BoardEntry where
  | write (address : Byte) (bytes : List Byte) (outcome : Except Unit Unit)
  | read (address : Byte) (outcome : Except Unit Byte)
  | pin (high : Bool) (outcome : Except Unit Unit)

variable {π α : Type}

def noting (entry : Except Unit α → BoardEntry) (act : Action Unit π α) :
    Action Unit (π × List BoardEntry) α := fun p =>
  match act p.1 with
  | .ok a s => .ok a (s, p.2 ++ [entry (.ok a)])
  | .error e s => .error e (s, p.2 ++ [entry (.error e)])

def Wiring.traced (w : Wiring π) : Wiring (π × List BoardEntry) where
  write address bytes := noting (.write address bytes) (w.write address bytes)
  read address := noting (.read address) (w.read address)
  setPin := w.setPin.map fun set high => noting (.pin high) (set high)

/-- The level of SLPZ after these accesses, if one of them set it. -/
def pinLevel (log : List BoardEntry) : Option Bool :=
  log.foldl (fun level e =>
    match e with
    | .pin high (.ok _) => some high
    | _ => level) none

end OneWire.Ds2484
