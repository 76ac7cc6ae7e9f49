import OneWire.Session.Basic

/-!
# Scans

A scan searches the line to the end and then offers the caller what it found. It reports the
identifiers that found no room and those that the caller rejected.
-/

namespace OneWire.Session

variable {σ ε κ : Type}

/-! ## Discovery -/

/-- What a scan knows of the identifiers found so far. -/
structure Intake (ε : Type) (capacity : Nat) where
  /-- The identifiers to be offered, in the order of discovery. -/
  record : Bounded Rom capacity := .empty
  /-- One of the identifiers found, recorded or not, is of the family that must be told to sleep. -/
  sleeper : Bool := false
  /-- Its value is the number of identifiers found. -/
  report : Report Nat ε := { value := 0 }

def Intake.add {capacity : Nat} (family : Byte) (i : Intake ε capacity) (rom : Rom) :
    Intake ε capacity :=
  let sleeper := i.sleeper || rom.family == family
  let report := { i.report with value := i.report.value + 1 }
  match i.record.push? rom with
  | some record => { record, sleeper, report }
  | none => { record := i.record, sleeper, report := report.warn (.recordFull rom) }

/-! ## Offers -/

/-- Offers identifiers to the caller, who accepts each or not, and reports the rejected ones. -/
def offer (accept : Rom → κ → Bool × κ) : List Rom → Report Nat ε × κ → Report Nat ε × κ
  | [], state => state
  | rom :: rest, (report, k) =>
    let (accepted, k) := accept rom k
    offer accept rest (if accepted then report else report.warn (.rejected rom), k)

/-! ## Scan -/

/--
Finds the devices and offers them to `accept`, which has a state `κ` of its own. The report tells
of a search that failed, and counts what it found before. There is no report, and no offer, if the
search did not end within `limit` passes.
-/
def scan (host : Host σ ε) (limit : Nat) (accept : Rom → κ → Bool × κ) (s : Session σ) (k : κ) :
    Option (Report Nat ε) × Session σ × κ :=
  match s.phase with
  | .idle => (some (({ value := 0 } : Report Nat ε).fail .notAcquired), s, k)
  | .acquired =>
    let (outcome, bus, found) :=
      (Search.enumerate host.toMaster limit s.config.scope Search.anyFamily).attempt (s.bus, [])
    let intake : Intake ε s.capacity := found.foldl (Intake.add s.config.sleeperFamily) {}
    let s := { s with bus, sleeper := intake.sleeper }
    match outcome with
    | .ok none => (none, s, k)
    | .ok (some _) =>
      let (report, k) := offer accept intake.record.items (intake.report, k)
      (some report, s, k)
    | .error e =>
      let (report, k) := offer accept intake.record.items (intake.report.fail e, k)
      (some report, s, k)

end OneWire.Session
