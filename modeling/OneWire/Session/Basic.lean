import OneWire.Master.Trace
import OneWire.Report
import OneWire.Search.Enumerate

/-!
# Sessions

A session brackets work on the bus. While it owns the bus, scans and addressed transactions are
allowed.
-/

namespace OneWire

/-- A master and a clock to wait by. -/
structure Host (σ ε : Type) extends Master σ ε where
  /-- Waits that many milliseconds. -/
  delay : Nat → σ → σ

/-- A host that lists its calls and its waits beside the state. -/
def Host.traced {σ ε : Type} (host : Host σ ε) : Host (σ × List (Entry ε)) ε where
  toMaster := host.toMaster.traced
  delay ms p := (host.delay ms p.1, p.2 ++ [.delay ms])

namespace Session

/-! ## Settings -/

/-- The family of the DS28E17, which sleeps only when told to. -/
def ds28e17Family : Byte := 0x19

/-- The command that lets the DS28E17 sleep. -/
def ds28e17Sleep : Byte := 0x1E

structure Config where
  /-- How long the line settles after power-up, in milliseconds. -/
  settleMs : Nat := 3
  /-- The family of the devices that must be told to sleep. -/
  sleeperFamily : Byte := ds28e17Family
  sleepCommand : Byte := ds28e17Sleep
  scope : Search.Scope := .all
deriving DecidableEq, Repr

/-- The room for identifiers in a scan unless told otherwise. -/
def defaultCapacity : Nat := 16

/-! ## State -/

inductive Phase where
  | idle
  /-- The bus is locked and powered. -/
  | acquired
deriving DecidableEq, Repr

end Session

/-- A session on a bus in state `σ`. -/
structure Session (σ : Type) where
  bus : σ
  config : Session.Config := {}
  /-- How many identifiers a scan can hand out. -/
  capacity : Nat := Session.defaultCapacity
  phase : Session.Phase := .idle
  /-- The last scan found a device that must be told to sleep. -/
  sleeper : Bool := false

namespace Session

variable {σ ε α β : Type}

def renew (s : Session σ) (config : Config) : Session σ :=
  { bus := s.bus, config, capacity := s.capacity }

/-! ## Actions of a session -/

/-- An action on the bus as one of the session. -/
def onBus (act : Action ε σ α) : Action ε (Session σ) α := fun s =>
  match act s.bus with
  | .ok a bus => .ok a { s with bus }
  | .error e bus => .error e { s with bus }

/-- An action that is refused unless the session owns the bus. -/
def gated (act : Action (Error ε) σ α) : Action (Error ε) (Session σ) α := fun s =>
  match s.phase with
  | .idle => .error .notAcquired s
  | .acquired => onBus act s

/-- The same for an action with something beside the state. -/
def gatedBeside (act : Action (Error ε) (σ × β) α) : Action (Error ε) (Session σ × β) α :=
  fun p =>
    match p.1.phase with
    | .idle => .error .notAcquired p
    | .acquired =>
      match act (p.1.bus, p.2) with
      | .ok a q => .ok a ({ p.1 with bus := q.1 }, q.2)
      | .error e q => .error e ({ p.1 with bus := q.1 }, q.2)

theorem gated_idle (act : Action (Error ε) σ α) {s : Session σ} (h : s.phase = .idle) :
    gated act s = .error .notAcquired s := by
  simp [gated, h]

theorem gated_acquired (act : Action (Error ε) σ α) {s : Session σ} (h : s.phase = .acquired) :
    gated act s = onBus act s := by
  simp [gated, h]

end Session

end OneWire
