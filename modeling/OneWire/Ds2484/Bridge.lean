import OneWire.Ds2484.Request
import OneWire.Session.Basic

/-!
# The DS2484 as a bus master

The bridge counts locks and knows whether the chip is awake. The pin SLPZ puts the chip to sleep
while it is low.
-/

namespace OneWire.Ds2484

/-- The bridge on a board in state `π`. -/
structure Bridge (π : Type) where
  board : π
  /-- How often the bus is locked. The count stops at its greatest value. -/
  depth : Fin 256 := 0
  active : Bool := false

namespace Bridge

variable {π α : Type}

/-- A bridge that has done nothing yet. -/
def new (board : π) : Bridge π := { board }

/-- An action on the board as one of the bridge. -/
def onBoard (act : Action Failure π α) : Action Failure (Bridge π) α := fun s =>
  match act s.board with
  | .ok a board => .ok a { s with board }
  | .error e board => .error e { s with board }

def lock : Action Failure (Bridge π) Unit := fun s =>
  if h : s.depth.val + 1 < 256 then .ok () { s with depth := ⟨s.depth.val + 1, h⟩ } else .ok () s

def unlock : Action Failure (Bridge π) Unit := fun s =>
  if s.depth = 0 then
    .error .unlock s
  else
    .ok () { s with depth := ⟨s.depth.val - 1, by omega⟩ }

def resume (w : Wiring π) : Action Failure (Bridge π) PowerChange := do
  if (← get).active then
    pure .already
  else
    onBoard (setPin w true)
    modify ({ · with active := true })
    pure .changed

/-- Puts the chip to sleep once it has finished. -/
def suspend (w : Wiring π) (c : Config) : Action Failure (Bridge π) PowerChange := do
  if (← get).active then
    onBoard (settle w c)
    onBoard (setPin w false)
    modify ({ · with active := false })
    pure .changed
  else
    pure .already

/-- Wakes, resets and configures a chip whose bridge is new. -/
def start (w : Wiring π) (c : Config) : Action Failure (Bridge π) Unit := do
  onBoard (setPin w true)
  modify ({ · with active := true })
  onBoard (resetChip w c)
  onBoard (configure w c c.register)

end Bridge

open Bridge

def master {π : Type} (w : Wiring π) (c : Config) : Master (Bridge π) Failure :=
  ByteMaster.toMaster {
    reset := onBoard (reset w c)
    readBit := onBoard (slot w c true)
    writeBit := fun b => do
      let _ ← onBoard (slot w c b)
    readByte := onBoard (readByte w c)
    writeByte := fun b => onBoard (writeByte w c b)
    lock
    unlock
    resume := resume w
    suspend := suspend w c
    deviceCount := fun _ => c.deviceCount }

def host {π : Type} (w : Wiring π) (c : Config) (delay : Nat → π → π) :
    Host (Bridge π) Failure :=
  { master w c with delay := fun ms s => { s with board := delay ms s.board } }

end OneWire.Ds2484
