import OneWire.Session.Ownership
import OneWire.Session.Scan

/-!
# Requests to a session

Everything that can be asked of a session, as data, and what it answers. All but the first is
refused unless the session owns the bus.
-/

namespace OneWire.Session

inductive Request where
  | acquire
  | release
  /-- The caller decides on an identifier by the ones offered before it. -/
  | scan (accept : List Rom → Rom → Bool)
  | readRom
  | matchRom (rom : Rom)
  | skipRom
  | resume
  | select (rom : Rom)
  | send (rom : Rom) (data : List Byte)
  | exchange (rom : Rom) (data : List Byte) {n : Nat} (buffer : Vector Byte n)

inductive Answer (ε : Type) where
  | done (outcome : Except (Error ε) Unit)
  | released (report : Report Unit ε)
  /-- With the identifiers offered. The report is missing if the search did not end. -/
  | scanned (report : Option (Report Nat ε)) (offered : List Rom)
  | identified (outcome : Except (Error ε) Rom)
  | exchanged (outcome : Except (Error ε) Unit) (buffer : List Byte)

variable {σ ε : Type}

/-- A scan that lists what it offered. -/
def scanListing (host : Host σ ε) (limit : Nat) (accept : List Rom → Rom → Bool) (s : Session σ) :
    Option (Report Nat ε) × Session σ × List Rom :=
  scan host limit (fun rom offered => (accept offered rom, offered ++ [rom])) s []

/-- Fulfils a request. A scan makes at most `limit` passes. -/
def perform (host : Host σ ε) (limit : Nat) (request : Request) (s : Session σ) :
    Answer ε × Session σ :=
  match request with
  | .acquire => answer .done (acquire host)
  | .release =>
    let (report, s) := release host s
    (.released report, s)
  | .scan accept =>
    let (report, s, offered) := scanListing host limit accept s
    (.scanned report offered, s)
  | .readRom => answer .identified (gated host.readRom)
  | .matchRom rom => answer .done (gated (host.matchRom rom))
  | .skipRom => answer .done (gated host.skipRom)
  | .resume => answer .done (gated host.resumeRom)
  | .select rom => answer .done (gated (host.select rom))
  | .send rom data => answer .done (gated (host.send rom data))
  | .exchange (n := n) rom data buffer =>
    let (outcome, s, buffer) := (gatedBeside (host.exchange rom data n)).attempt (s, buffer)
    (.exchanged outcome buffer.toList, s)
where
  answer {α : Type} (wrap : Except (Error ε) α → Answer ε)
      (act : Action (Error ε) (Session σ) α) : Answer ε × Session σ :=
    let (outcome, s) := act.attempt s
    (wrap outcome, s)

end OneWire.Session
