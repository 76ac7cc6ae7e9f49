import OneWire.Master.Request
import OneWire.Master.Trace
import OneWire.Proofs.Mirror.Action

/-!
# Masters that mirror each other

Where the calls of two masters mirror each other, so do searches and transactions.
-/

namespace OneWire

open OneWire.Action

variable {σ τ ε : Type} {R : σ → τ → Prop}

structure Slots.Mirrors (bus : Slots σ ε) (bus' : Slots τ ε) (R : σ → τ → Prop) : Prop where
  reset : bus.reset.Mirrors R bus'.reset
  readBit : bus.readBit.Mirrors R bus'.readBit
  writeBit (b : Bool) : (bus.writeBit b).Mirrors R (bus'.writeBit b)
  lock : bus.lock.Mirrors R bus'.lock
  unlock : bus.unlock.Mirrors R bus'.unlock
  resume : bus.resume.Mirrors R bus'.resume
  suspend : bus.suspend.Mirrors R bus'.suspend
  deviceCount {s : σ} {t : τ} (hR : R s t) : bus.deviceCount s = bus'.deviceCount t

structure ByteMaster.Mirrors (bus : ByteMaster σ ε) (bus' : ByteMaster τ ε) (R : σ → τ → Prop) :
    Prop extends bits : bus.toSlots.Mirrors bus'.toSlots R where
  readByte : bus.readByte.Mirrors R bus'.readByte
  writeByte (b : Byte) : (bus.writeByte b).Mirrors R (bus'.writeByte b)

structure Master.Mirrors (bus : Master σ ε) (bus' : Master τ ε) (R : σ → τ → Prop) : Prop
    extends bytes : bus.toByteMaster.Mirrors bus'.toByteMaster R where
  readBlock (n : Nat) : (bus.readBlock n).Mirrors (Beside R) (bus'.readBlock n)
  writeBlock (data : List Byte) : (bus.writeBlock data).Mirrors R (bus'.writeBlock data)

/-! ## Bytes and blocks -/

namespace Slots

variable {bus : Slots σ ε} {bus' : Slots τ ε}

theorem readBits_mirrors (h : bus.readBit.Mirrors R bus'.readBit) (n : Nat) :
    (bus.readBits n).Mirrors R (bus'.readBits n) := by
  induction n with
  | zero => exact .pure
  | succ n ih =>
    unfold readBits
    exact h.bind fun _ => ih.bind fun _ => .pure

theorem readByte_mirrors (h : bus.readBit.Mirrors R bus'.readBit) :
    bus.toByteMaster.readByte.Mirrors R bus'.toByteMaster.readByte :=
  (readBits_mirrors h 8).bind fun _ => .pure

theorem writeBits_mirrors (h : ∀ b, (bus.writeBit b).Mirrors R (bus'.writeBit b))
    (bs : List Bool) : (bus.writeBits bs).Mirrors R (bus'.writeBits bs) := by
  induction bs with
  | nil => exact .pure
  | cons b bs ih =>
    unfold writeBits
    exact (h b).bind fun _ => ih

theorem Mirrors.toByteMaster (h : bus.Mirrors bus' R) :
    bus.toByteMaster.Mirrors bus'.toByteMaster R where
  bits := h
  readByte := readByte_mirrors h.readBit
  writeByte b := writeBits_mirrors h.writeBit b.bits

end Slots

namespace ByteMaster

variable {bus : ByteMaster σ ε} {bus' : ByteMaster τ ε}

theorem fill_mirrors (h : bus.readByte.Mirrors R bus'.readByte) {n : Nat}
    (places : List (Fin n)) : (bus.fill places).Mirrors (Beside R) (bus'.fill places) := by
  induction places with
  | nil => exact .pure
  | cons i rest ih =>
    unfold fill
    refine h.beside.bind fun b => (Mirrors.modify ?_).bind fun _ => ih
    rintro ⟨s, buffer⟩ ⟨t, _⟩ ⟨hR, rfl⟩
    exact ⟨hR, rfl⟩

theorem writeBytes_mirrors (h : ∀ b, (bus.writeByte b).Mirrors R (bus'.writeByte b))
    (bs : List Byte) : (bus.writeBytes bs).Mirrors R (bus'.writeBytes bs) := by
  induction bs with
  | nil => exact .pure
  | cons b bs ih =>
    unfold writeBytes
    exact (h b).bind fun _ => ih

theorem Mirrors.toMaster (h : bus.Mirrors bus' R) : bus.toMaster.Mirrors bus'.toMaster R where
  bytes := h
  readBlock n := fill_mirrors h.readByte (List.finRange n)
  writeBlock := writeBytes_mirrors h.writeByte

end ByteMaster

/-! ## Searches -/

namespace ByteMaster.Mirrors

variable {bus : ByteMaster σ ε} {bus' : ByteMaster τ ε}

theorem walk (h : bus.Mirrors bus' R) (c : Search.Cursor) (n : Nat) (d : Search.Discrepancy)
    (path : BitVec 64) :
    (Search.walk bus.toSlots c n d path).Mirrors R (Search.walk bus'.toSlots c n d path) := by
  induction n generalizing d path with
  | zero => exact .pure
  | succ n ih =>
    unfold Search.walk
    refine h.readBit.bind fun v => h.readBit.bind fun w => ?_
    split
    · exact .pure
    · exact (h.writeBit _).bind fun _ => ih _ _

theorem pass (h : bus.Mirrors bus' R) (scope : Search.Scope) (c : Search.Cursor) :
    (Search.pass bus scope c).Mirrors R (Search.pass bus' scope c) := by
  unfold Search.pass
  refine h.reset.bind fun present => ?_
  split
  · exact (h.writeByte _).bind fun _ => h.walk c _ _ _
  · exact .pure

end ByteMaster.Mirrors

theorem Search.passes_mirrors {bus : ByteMaster σ ε} {bus' : ByteMaster τ ε} {scope : Search.Scope}
    (h : ∀ c, (Search.pass bus scope c).Mirrors R (Search.pass bus' scope c)) (limit count : Nat)
    (c : Search.Cursor) :
    (Search.passes bus scope limit count c).Mirrors (Beside R)
      (Search.passes bus' scope limit count c) := by
  induction limit generalizing count c with
  | zero => exact .pure
  | succ limit ih =>
    unfold Search.passes
    refine (h c).beside.bind fun c' => ?_
    split
    · exact .pure
    · refine (Mirrors.modify ?_).bind fun _ => ?_
      · rintro p q ⟨hR, hfound⟩
        exact ⟨hR, congrArg (· ++ [_]) hfound⟩
      · split
        · exact .pure
        · exact ih _ _

/-! ## Transactions -/

/--
The calls that transactions make mirror each other, where `R d` relates masters that are locked `d`
times. Nothing locks a master more than three times.
-/
structure Master.Nests (bus : Master σ ε) (bus' : Master τ ε) (R : Nat → σ → τ → Prop) :
    Prop where
  reset (d : Nat) : bus.reset.Mirrors (R d) bus'.reset
  writeByte (d : Nat) (b : Byte) : (bus.writeByte b).Mirrors (R d) (bus'.writeByte b)
  readBlock (d n : Nat) : (bus.readBlock n).Mirrors (Beside (R d)) (bus'.readBlock n)
  writeBlock (d : Nat) (data : List Byte) :
    (bus.writeBlock data).Mirrors (R d) (bus'.writeBlock data)
  pass (d : Nat) (scope : Search.Scope) (c : Search.Cursor) :
    (Search.pass bus.toByteMaster scope c).Mirrors (R d) (Search.pass bus'.toByteMaster scope c)
  lock {d : Nat} (hd : d < 3) : Shifts (R d) (fun _ => R (d + 1)) (R d) bus.lock bus'.lock
  unlock {d : Nat} (hd : d < 3) : Shifts (R (d + 1)) (fun _ => R d) (R d) bus.unlock bus'.unlock
  resume (d : Nat) : bus.resume.Mirrors (R d) bus'.resume
  suspend (d : Nat) : bus.suspend.Mirrors (R d) bus'.suspend
  deviceCount {d : Nat} {s : σ} {t : τ} (hR : R d s t) : bus.deviceCount s = bus'.deviceCount t

theorem Master.Mirrors.nests {bus : Master σ ε} {bus' : Master τ ε} (h : bus.Mirrors bus' R) :
    bus.Nests bus' fun _ => R where
  reset _ := h.reset
  writeByte _ := h.writeByte
  readBlock _ := h.readBlock
  writeBlock _ := h.writeBlock
  pass _ := h.bytes.pass
  lock _ := h.lock.shifts
  unlock _ := h.unlock.shifts
  resume _ := h.resume
  suspend _ := h.suspend
  deviceCount := h.deviceCount

namespace Master

/-- The request is for a transaction with devices or for a search, not for single calls. -/
def Request.isTransaction : Request → Bool
  | readRom | matchRom _ | skipRom | resume | select _ | send _ _ | exchange _ _ _
  | enumerate _ _ | findAll | findAlarmed => true
  | _ => false

/-! ### Answers -/

section Answers

variable {s : σ} {t : τ}

theorem answer_mirrors {ε' α : Type} {act : Action ε' σ α} {act' : Action ε' τ α}
    (h : act.Mirrors R act') (wrap : Except ε' α → Answer ε) (hR : R s t) :
    (perform.answer s wrap act).1 = (perform.answer t wrap act').1 ∧
      R (perform.answer s wrap act).2 (perform.answer t wrap act').2 := by
  obtain ⟨houtcome, hR'⟩ := h s t hR
  exact ⟨congrArg wrap houtcome, hR'⟩

theorem filled_mirrors {ε' : Type} {n : Nat} {act : Action ε' (σ × Vector Byte n) Unit}
    {act' : Action ε' (τ × Vector Byte n) Unit} (h : act.Mirrors (Beside R) act')
    (wrap : Except ε' Unit → List Byte → Answer ε) (buffer : Vector Byte n) (hR : R s t) :
    (perform.filled s wrap act buffer).1 = (perform.filled t wrap act' buffer).1 ∧
      R (perform.filled s wrap act buffer).2 (perform.filled t wrap act' buffer).2 := by
  obtain ⟨houtcome, hR', hbuffer⟩ := h (s, buffer) (t, buffer) ⟨hR, rfl⟩
  exact ⟨congr (congrArg wrap houtcome) (congrArg Vector.toList hbuffer), hR'⟩

theorem listed_mirrors {act : Action (Error ε) (σ × List Rom) (Option Nat)}
    {act' : Action (Error ε) (τ × List Rom) (Option Nat)} (h : act.Mirrors (Beside R) act')
    (hR : R s t) :
    (perform.listed s act).1 = (perform.listed t act').1 ∧
      R (perform.listed s act).2 (perform.listed t act').2 := by
  obtain ⟨houtcome, hR', hfound⟩ := h (s, []) (t, []) ⟨hR, rfl⟩
  exact ⟨congr (congrArg Answer.enumerated houtcome) hfound, hR'⟩

theorem repeated_mirrors {act : Action ε σ Unit} {act' : Action ε τ Unit} (h : act.Mirrors R act')
    (n done : Nat) {s : σ} {t : τ} (hR : R s t) :
    (repeated act n done s).1 = (repeated act' n done t).1 ∧
      (repeated act n done s).2.1 = (repeated act' n done t).2.1 ∧
      R (repeated act n done s).2.2 (repeated act' n done t).2.2 := by
  induction n generalizing done s t with
  | zero => exact ⟨rfl, rfl, hR⟩
  | succ n ih =>
    unfold repeated
    rcases h.cases hR with ⟨_, s', t', hs, ht, hR'⟩ | ⟨e, s', t', hs, ht, hR'⟩
    · simp only [hs, ht]
      exact ih (done + 1) hR'
    · simp only [hs, ht, true_and]
      exact hR'

theorem counted_mirrors {act : Action ε σ Unit} {act' : Action ε τ Unit} (h : act.Mirrors R act')
    (n : Nat) (hR : R s t) :
    (perform.counted (repeated act n 0 s)).1 = (perform.counted (repeated act' n 0 t)).1 ∧
      R (perform.counted (repeated act n 0 s)).2 (perform.counted (repeated act' n 0 t)).2 := by
  obtain ⟨houtcome, hdone, hR'⟩ := repeated_mirrors h n 0 hR
  exact ⟨congr (congrArg Answer.repeated houtcome) hdone, hR'⟩

end Answers

namespace Nests

variable {bus : Master σ ε} {bus' : Master τ ε} {R : Nat → σ → τ → Prop} {d : Nat}

theorem whileLocked {α : Type} {body : Action (Error ε) σ α} {body' : Action (Error ε) τ α}
    (h : bus.Nests bus' R) (hd : d < 3) (hbody : body.Mirrors (R (d + 1)) body') :
    (bus.whileLocked body).Mirrors (R d) (bus'.whileLocked body') :=
  Shifts.between (h.lock hd) (h.unlock hd) hbody

theorem whileLockedBeside {α β : Type} {body : Action (Error ε) (σ × β) α}
    {body' : Action (Error ε) (τ × β) α} (h : bus.Nests bus' R) (hd : d < 3)
    (hbody : body.Mirrors (Beside (R (d + 1))) body') :
    (bus.whileLockedBeside body).Mirrors (Beside (R d)) (bus'.whileLockedBeside body') :=
  Shifts.between (h.lock hd).beside (h.unlock hd).beside hbody

theorem expectPresence (h : bus.Nests bus' R) (d : Nat) :
    bus.expectPresence.Mirrors (R d) bus'.expectPresence := by
  unfold Master.expectPresence
  refine (h.reset d).onBus.bind fun present => ?_
  split
  · exact .pure
  · exact .throw

theorem issue (h : bus.Nests bus' R) (d : Nat) (c : Command) :
    (bus.issue c).Mirrors (R d) (bus'.issue c) :=
  (h.writeByte d c.code).onBus

theorem issueMatch (h : bus.Nests bus' R) (d : Nat) (rom : Rom) :
    (bus.issueMatch rom).Mirrors (R d) (bus'.issueMatch rom) := by
  unfold Master.issueMatch
  exact (h.issue d .matchRom).bind fun _ => (h.writeBlock d _).onBus

theorem readRom (h : bus.Nests bus' R) (hd : d < 3) : bus.readRom.Mirrors (R d) bus'.readRom := by
  unfold Master.readRom
  refine h.whileLocked hd ((h.expectPresence _).bind fun _ => (h.issue _ .readRom).bind fun _ => ?_)
  refine (Mirrors.filling (h.readBlock _ Rom.size)).onBus.bind fun bytes => ?_
  simp only
  split
  · exact .pure
  · exact .throw

theorem matchRom (h : bus.Nests bus' R) (hd : d < 3) (rom : Rom) :
    (bus.matchRom rom).Mirrors (R d) (bus'.matchRom rom) :=
  h.whileLocked hd ((h.expectPresence _).bind fun _ => h.issueMatch _ rom)

theorem skipRom (h : bus.Nests bus' R) (hd : d < 3) : bus.skipRom.Mirrors (R d) bus'.skipRom :=
  h.whileLocked hd ((h.expectPresence _).bind fun _ => h.issue _ .skipRom)

theorem resumeRom (h : bus.Nests bus' R) (hd : d < 3) :
    bus.resumeRom.Mirrors (R d) bus'.resumeRom :=
  h.whileLocked hd ((h.expectPresence _).bind fun _ => h.issue _ .resume)

theorem select (h : bus.Nests bus' R) (hd : d < 3) (rom : Rom) :
    (bus.select rom).Mirrors (R d) (bus'.select rom) := by
  unfold Master.select
  refine h.whileLocked hd ((h.expectPresence _).bind fun _ => Mirrors.get_bind fun s t hR => ?_)
  rw [h.deviceCount hR]
  split
  · exact h.issueMatch _ rom
  · exact h.issue _ .skipRom

theorem send (h : bus.Nests bus' R) (hd : d < 2) (rom : Rom) (data : List Byte) :
    (bus.send rom data).Mirrors (R d) (bus'.send rom data) :=
  h.whileLocked (by omega) ((h.select (by omega) rom).bind fun _ => (h.writeBlock _ data).onBus)

theorem exchange (h : bus.Nests bus' R) (hd : d < 2) (rom : Rom) (data : List Byte) (n : Nat) :
    (bus.exchange rom data n).Mirrors (Beside (R d)) (bus'.exchange rom data n) :=
  h.whileLockedBeside (by omega) ((h.select (by omega) rom).beside.bind fun _ =>
    (h.writeBlock _ data).onBus.beside.bind fun _ => (h.readBlock _ n).onBus)

theorem enumerate (h : bus.Nests bus' R) (hd : d < 3) (limit : Nat) (scope : Search.Scope)
    (family : Byte) :
    (Search.enumerate bus limit scope family).Mirrors (Beside (R d))
      (Search.enumerate bus' limit scope family) :=
  h.whileLockedBeside hd (Search.passes_mirrors (h.pass _ scope) limit 0 {}).onBus

theorem perform (h : bus.Nests bus' R) (hd : d < 2) (limit : Nat) {request : Request}
    (hrequest : request.isTransaction = true) {s : σ} {t : τ} (hR : R d s t) :
    (bus.perform limit request s).1 = (bus'.perform limit request t).1 ∧
      R d (bus.perform limit request s).2 (bus'.perform limit request t).2 := by
  have hd' : d < 3 := by omega
  cases request with
  | readRom => exact answer_mirrors (h.readRom hd') .identified hR
  | matchRom rom => exact answer_mirrors (h.matchRom hd' rom) .addressed hR
  | skipRom => exact answer_mirrors (h.skipRom hd') .addressed hR
  | resume => exact answer_mirrors (h.resumeRom hd') .addressed hR
  | select rom => exact answer_mirrors (h.select hd' rom) .addressed hR
  | send rom data => exact answer_mirrors (h.send hd rom data) .addressed hR
  | exchange rom data buffer => exact filled_mirrors (h.exchange hd rom data _) .exchanged buffer hR
  | enumerate scope family => exact listed_mirrors (h.enumerate hd' limit scope family) hR
  | findAll => exact listed_mirrors (h.enumerate hd' limit .all _) hR
  | findAlarmed => exact listed_mirrors (h.enumerate hd' limit .alarmed _) hR
  | _ => contradiction

end Nests

theorem Mirrors.perform {bus : Master σ ε} {bus' : Master τ ε} (h : bus.Mirrors bus' R)
    (limit : Nat) (request : Request) {s : σ} {t : τ} (hR : R s t) :
    (bus.perform limit request s).1 = (bus'.perform limit request t).1 ∧
      R (bus.perform limit request s).2 (bus'.perform limit request t).2 := by
  cases hrequest : request.isTransaction with
  | true => exact h.nests.perform (d := 0) (by omega) limit hrequest hR
  | false =>
    cases request with
    | reset => exact answer_mirrors h.reset .bit hR
    | readBit => exact answer_mirrors h.readBit .bit hR
    | writeBit b => exact answer_mirrors (h.writeBit b) .sent hR
    | readByte => exact answer_mirrors h.readByte .byte hR
    | writeByte b => exact answer_mirrors (h.writeByte b) .sent hR
    | readBlock buffer => exact filled_mirrors (h.readBlock _) .received buffer hR
    | writeBlock data => exact answer_mirrors (h.writeBlock data) .sent hR
    | lock n => exact counted_mirrors h.lock n hR
    | unlock n => exact counted_mirrors h.unlock n hR
    | powerUp => exact answer_mirrors h.resume .power hR
    | powerDown => exact answer_mirrors h.suspend .power hR
    | deviceCount => exact ⟨congrArg Answer.count (h.deviceCount hR), hR⟩
    | pass scope c => exact answer_mirrors (h.bytes.pass scope c).onBus .searched hR
    | _ => contradiction

theorem Mirrors.performAll {bus : Master σ ε} {bus' : Master τ ε} (h : bus.Mirrors bus' R)
    (limit : Nat) (requests : List Request) {s : σ} {t : τ} (hR : R s t) :
    R (bus.performAll limit requests s) (bus'.performAll limit requests t) := by
  induction requests generalizing s t with
  | nil => exact hR
  | cons request requests ih => exact ih (h.perform limit request hR).2

end Master

/-! ## Traced masters -/

theorem mirrors_traced {α : Type} (entry : Except ε α → Entry ε) (act : Action ε σ α) :
    (act.traced entry).Mirrors (fun p s => p.1 = s) act := by
  rintro ⟨s, log⟩ _ rfl
  rw [attempt_traced]
  exact ⟨rfl, rfl⟩

theorem mirrors_tracedFill {n : Nat} (act : Action ε (σ × Vector Byte n) Unit) :
    act.tracedFill.Mirrors (Beside fun p s => p.1 = s) act := by
  rintro ⟨⟨s, log⟩, buffer⟩ ⟨_, _⟩ ⟨rfl, rfl⟩
  unfold attempt tracedFill
  cases act (s, buffer) <;> simp [Beside]

theorem Slots.traced_mirrors (bus : Slots σ ε) : bus.traced.Mirrors bus fun p s => p.1 = s where
  reset := mirrors_traced _ _
  readBit := mirrors_traced _ _
  writeBit _ := mirrors_traced _ _
  lock := mirrors_traced _ _
  unlock := mirrors_traced _ _
  resume := mirrors_traced _ _
  suspend := mirrors_traced _ _
  deviceCount hR := congrArg bus.deviceCount hR

end OneWire
