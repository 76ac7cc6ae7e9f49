import OneWire.Master.Request
import OneWire.Session.Request

/-!
# Operations

What a program does with a session: it asks the session, or it asks the master behind it.
-/

namespace OneWire

inductive Operation where
  | session (request : Session.Request)
  | bus (request : Master.Request)

inductive Outcome (ε : Type) where
  | session (answer : Session.Answer ε)
  | bus (answer : Master.Answer ε)

namespace Session

variable {σ ε : Type}

/-- Carries out an operation. A search makes at most `limit` passes. -/
def operate (host : Host σ ε) (limit : Nat) (operation : Operation) (s : Session σ) :
    Outcome ε × Session σ :=
  match operation with
  | .session request =>
    let (answer, s) := s.perform host limit request
    (.session answer, s)
  | .bus request =>
    let (answer, bus) := host.toMaster.perform limit request s.bus
    (.bus answer, { s with bus })

def run (host : Host σ ε) (limit : Nat) :
    List Operation → Session σ → List (Outcome ε) × Session σ
  | [], s => ([], s)
  | operation :: rest, s =>
    let (outcome, s) := operate host limit operation s
    let (outcomes, s) := run host limit rest s
    (outcome :: outcomes, s)

end Session

end OneWire
