import OneWire.Master.Basic

/-!
# Traces of a bus master

A traced master does what the master does, and lists the calls with their outcomes, oldest first.
-/

namespace OneWire

/-- A call to a master and what came of it. -/
inductive Entry (ε : Type) where
  | reset (outcome : Except ε Bool)
  | readBit (outcome : Except ε Bool)
  | writeBit (bit : Bool) (outcome : Except ε Unit)
  | readByte (outcome : Except ε Byte)
  | writeByte (byte : Byte) (outcome : Except ε Unit)
  /-- With what the buffer holds afterwards. -/
  | readBlock (buffer : List Byte) (outcome : Except ε Unit)
  | writeBlock (data : List Byte) (outcome : Except ε Unit)
  | lock (outcome : Except ε Unit)
  | unlock (outcome : Except ε Unit)
  | resume (outcome : Except ε PowerChange)
  | suspend (outcome : Except ε PowerChange)
  | delay (ms : Nat)

variable {σ ε α : Type}

def Action.traced (entry : Except ε α → Entry ε) (act : Action ε σ α) :
    Action ε (σ × List (Entry ε)) α := fun p =>
  match act p.1 with
  | .ok a s => .ok a (s, p.2 ++ [entry (.ok a)])
  | .error e s => .error e (s, p.2 ++ [entry (.error e)])

def Action.tracedFill {n : Nat} (act : Action ε (σ × Vector Byte n) Unit) :
    Action ε ((σ × List (Entry ε)) × Vector Byte n) Unit := fun p =>
  match act (p.1.1, p.2) with
  | .ok _ q => .ok () ((q.1, p.1.2 ++ [.readBlock q.2.toList (.ok ())]), q.2)
  | .error e q => .error e ((q.1, p.1.2 ++ [.readBlock q.2.toList (.error e)]), q.2)

def Slots.traced (bus : Slots σ ε) : Slots (σ × List (Entry ε)) ε where
  reset := bus.reset.traced .reset
  readBit := bus.readBit.traced .readBit
  writeBit b := (bus.writeBit b).traced (.writeBit b)
  lock := bus.lock.traced .lock
  unlock := bus.unlock.traced .unlock
  resume := bus.resume.traced .resume
  suspend := bus.suspend.traced .suspend
  deviceCount s := bus.deviceCount s.1

def ByteMaster.traced (bus : ByteMaster σ ε) : ByteMaster (σ × List (Entry ε)) ε where
  toSlots := bus.toSlots.traced
  readByte := bus.readByte.traced .readByte
  writeByte b := (bus.writeByte b).traced (.writeByte b)

def Master.traced (bus : Master σ ε) : Master (σ × List (Entry ε)) ε where
  toByteMaster := bus.toByteMaster.traced
  readBlock n := (bus.readBlock n).tracedFill
  writeBlock data := (bus.writeBlock data).traced (.writeBlock data)

theorem Action.attempt_traced (entry : Except ε α → Entry ε) (act : Action ε σ α) (s : σ)
    (entries : List (Entry ε)) :
    (act.traced entry).attempt (s, entries) =
      ((act.attempt s).1, (act.attempt s).2, entries ++ [entry (act.attempt s).1]) := by
  cases h : act s <;> simp [attempt, traced, h]

end OneWire
