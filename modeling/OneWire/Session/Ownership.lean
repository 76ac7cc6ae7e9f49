import OneWire.Master.Addressing
import OneWire.Session.Basic

/-!
# Taking the bus and giving it back

To acquire, a session locks the bus, powers the master up and checks the line. To release, it sends
to sleep the devices that need to be told, powers the master down and unlocks the bus.
-/

namespace OneWire.Session

variable {σ ε α : Type}

/-! ## Acquire -/

/-- Powers the master up, waits, and checks the line. An empty line is fine. -/
def wake (host : Host σ ε) (settleMs : Nat) : Action ε σ Unit := do
  let _ ← host.resume
  modify (host.delay settleMs)
  let _ ← host.reset

/-- Takes the bus and powers it up. If that fails the bus is given back, but not powered down. -/
def acquire (host : Host σ ε) : Action (Error ε) (Session σ) Unit := fun s =>
  match s.phase with
  | .acquired => .error .alreadyAcquired s
  | .idle =>
    match host.lock s.bus with
    | .error e bus => .error (.bus e) { s with bus }
    | .ok _ bus =>
      match wake host s.config.settleMs bus with
      | .ok _ bus => .ok () { s with bus, phase := .acquired }
      | .error e bus => .error (.bus e) { s with bus := (host.unlock.attempt bus).2 }

/-! ## Release -/

/-- Sends to sleep the devices that must be told. An empty line has none. -/
def sendToSleep (host : Host σ ε) (sleepCommand : Byte) : Action (Error ε) σ Unit := do
  if ← host.reset.onBus then
    host.skipRom
    (host.writeBlock [sleepCommand]).onBus
  else
    pure ()

/-- Runs an action and enters its error, if any, into the report beside the state. -/
def entering {ρ ε' : Type} (enter : ρ → ε' → ρ) (act : Action ε' σ α) : ρ × σ → ρ × σ :=
  fun p =>
    match act p.2 with
    | .ok _ s => (p.1, s)
    | .error e s => (enter p.1 e, s)

/--
Gives the bus back. A device that does not go to sleep is a warning. The master is powered down and
the bus unlocked in any case, and the report keeps the first error of the two.
-/
def release (host : Host σ ε) (s : Session σ) : Report Unit ε × Session σ :=
  let blank : Report Unit ε := { value := () }
  match s.phase with
  | .idle => (blank.fail .notAcquired, s)
  | .acquired =>
    let asleep :=
      if s.sleeper then
        entering (fun r e => r.warn (.stillAwake e)) (sendToSleep host s.config.sleepCommand)
          (blank, s.bus)
      else
        (blank, s.bus)
    let suspended := entering (fun r e => r.fail (.bus e)) host.suspend asleep
    let (report, bus) := entering (fun r e => r.fail (.bus e)) host.unlock suspended
    (report, { s with bus, phase := .idle, sleeper := false })

end OneWire.Session
