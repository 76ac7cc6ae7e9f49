import OneWire.Search.Enumerate
import OneWire.Master.Addressing

/-!
# Requests to a bus master

Everything that can be asked of a master, as data, and what it answers.
-/

namespace OneWire.Master

inductive Request where
  | reset
  | readBit
  | writeBit (bit : Bool)
  | readByte
  | writeByte (byte : Byte)
  | readBlock {n : Nat} (buffer : Vector Byte n)
  | writeBlock (data : List Byte)
  /-- Locks several times, until one fails. -/
  | lock (times : Nat)
  /-- Unlocks several times, until one fails. -/
  | unlock (times : Nat)
  | powerUp
  | powerDown
  | deviceCount
  | readRom
  | matchRom (rom : Rom)
  | skipRom
  | resume
  | select (rom : Rom)
  | send (rom : Rom) (data : List Byte)
  | exchange (rom : Rom) (data : List Byte) {n : Nat} (buffer : Vector Byte n)
  | pass (scope : Search.Scope) (cursor : Search.Cursor)
  | enumerate (scope : Search.Scope) (family : Byte)
  | findAll
  | findAlarmed

inductive Answer (ε : Type) where
  | bit (outcome : Except ε Bool)
  | byte (outcome : Except ε Byte)
  | sent (outcome : Except ε Unit)
  | received (outcome : Except ε Unit) (buffer : List Byte)
  /-- With the number of times that went well. -/
  | repeated (outcome : Except ε Unit) (done : Nat)
  | power (outcome : Except ε PowerChange)
  | count (n : Nat)
  | identified (outcome : Except (Error ε) Rom)
  | addressed (outcome : Except (Error ε) Unit)
  | exchanged (outcome : Except (Error ε) Unit) (buffer : List Byte)
  | searched (outcome : Except (Error ε) Search.Cursor)
  /-- The count is missing if the search did not end within its limit. -/
  | enumerated (outcome : Except (Error ε) (Option Nat)) (found : List Rom)

variable {σ ε : Type}

/-- Does the same `n` times after `done` times, until it fails. -/
def repeated (act : Action ε σ Unit) : (n done : Nat) → σ → Except ε Unit × Nat × σ
  | 0, done, s => (.ok (), done, s)
  | n + 1, done, s =>
    match act s with
    | .ok _ s => repeated act n (done + 1) s
    | .error e s => (.error e, done, s)

/-- Fulfils a request. A search makes at most `limit` passes. -/
def perform (bus : Master σ ε) (limit : Nat) (request : Request) (s : σ) : Answer ε × σ :=
  match request with
  | .reset => answer .bit bus.reset
  | .readBit => answer .bit bus.readBit
  | .writeBit b => answer .sent (bus.writeBit b)
  | .readByte => answer .byte bus.readByte
  | .writeByte b => answer .sent (bus.writeByte b)
  | .readBlock (n := n) buffer => filled .received (bus.readBlock n) buffer
  | .writeBlock data => answer .sent (bus.writeBlock data)
  | .lock n => counted (repeated bus.lock n 0 s)
  | .unlock n => counted (repeated bus.unlock n 0 s)
  | .powerUp => answer .power bus.resume
  | .powerDown => answer .power bus.suspend
  | .deviceCount => (.count (bus.deviceCount s), s)
  | .readRom => answer .identified bus.readRom
  | .matchRom rom => answer .addressed (bus.matchRom rom)
  | .skipRom => answer .addressed bus.skipRom
  | .resume => answer .addressed bus.resumeRom
  | .select rom => answer .addressed (bus.select rom)
  | .send rom data => answer .addressed (bus.send rom data)
  | .exchange (n := n) rom data buffer => filled .exchanged (bus.exchange rom data n) buffer
  | .pass scope cursor => answer .searched (Search.pass bus.toByteMaster scope cursor).onBus
  | .enumerate scope family => listed (Search.enumerate bus limit scope family)
  | .findAll => listed (Search.findAll bus limit)
  | .findAlarmed => listed (Search.findAlarmed bus limit)
where
  answer {ε' α : Type} (wrap : Except ε' α → Answer ε) (act : Action ε' σ α) : Answer ε × σ :=
    let (outcome, s) := act.attempt s
    (wrap outcome, s)
  filled {ε' : Type} {n : Nat} (wrap : Except ε' Unit → List Byte → Answer ε)
      (act : Action ε' (σ × Vector Byte n) Unit) (buffer : Vector Byte n) : Answer ε × σ :=
    let (outcome, s, buffer) := act.attempt (s, buffer)
    (wrap outcome buffer.toList, s)
  counted : Except ε Unit × Nat × σ → Answer ε × σ
    | (outcome, done, s) => (.repeated outcome done, s)
  listed (act : Action (Error ε) (σ × List Rom) (Option Nat)) : Answer ε × σ :=
    let (outcome, s, found) := act.attempt (s, [])
    (.enumerated outcome found, s)

/-- The state after several requests. -/
def performAll (bus : Master σ ε) (limit : Nat) (requests : List Request) (s : σ) : σ :=
  requests.foldl (fun s request => (bus.perform limit request s).2) s

end OneWire.Master
