import OneWire.Proofs.Line.Search
import OneWire.Proofs.Mirror.Master

/-!
# What masters keep

What the calls of a master keep, whether they succeed or not, everything that can be asked of the
master keeps.
-/

namespace OneWire

open OneWire.Action

variable {σ ε : Type} {I : σ → Prop}

/-- No call changes whether `I` holds, a failed one included. -/
structure Slots.Keeps (bus : Slots σ ε) (I : σ → Prop) : Prop where
  reset : bus.reset.Keeps I
  readBit : bus.readBit.Keeps I
  writeBit (b : Bool) : (bus.writeBit b).Keeps I
  lock : bus.lock.Keeps I
  unlock : bus.unlock.Keeps I
  resume : bus.resume.Keeps I
  suspend : bus.suspend.Keeps I

structure ByteMaster.Keeps (bus : ByteMaster σ ε) (I : σ → Prop) : Prop
    extends bits : bus.toSlots.Keeps I where
  readByte : bus.readByte.Keeps I
  writeByte (b : Byte) : (bus.writeByte b).Keeps I

structure Master.Keeps (bus : Master σ ε) (I : σ → Prop) : Prop
    extends bytes : bus.toByteMaster.Keeps I where
  readBlock (n : Nat) : (bus.readBlock n).Keeps fun p => I p.1
  writeBlock (data : List Byte) : (bus.writeBlock data).Keeps I

/-! ## Bytes and blocks -/

namespace Slots

variable {bus : Slots σ ε}

theorem readByte_keeps (h : bus.readBit.Keeps I) : bus.toByteMaster.readByte.Keeps I :=
  keeps_iff_mirrors.2 (readByte_mirrors (keeps_iff_mirrors.1 h))

theorem writeByte_keeps (h : ∀ b, (bus.writeBit b).Keeps I) (byte : Byte) :
    (bus.toByteMaster.writeByte byte).Keeps I :=
  keeps_iff_mirrors.2 (writeBits_mirrors (fun b => keeps_iff_mirrors.1 (h b)) byte.bits)

theorem Keeps.toByteMaster (h : bus.Keeps I) : bus.toByteMaster.Keeps I where
  bits := h
  readByte := readByte_keeps h.readBit
  writeByte := writeByte_keeps h.writeBit

end Slots

namespace ByteMaster

variable {bus : ByteMaster σ ε}

theorem readBlock_keeps (h : bus.readByte.Keeps I) (n : Nat) :
    (bus.toMaster.readBlock n).Keeps fun p => I p.1 := by
  rw [keeps_iff_mirrors, ← beside_kept]
  exact fill_mirrors (keeps_iff_mirrors.1 h) (List.finRange n)

theorem writeBlock_keeps (h : ∀ b, (bus.writeByte b).Keeps I) (data : List Byte) :
    (bus.toMaster.writeBlock data).Keeps I :=
  keeps_iff_mirrors.2 (writeBytes_mirrors (fun b => keeps_iff_mirrors.1 (h b)) data)

theorem Keeps.toMaster (h : bus.Keeps I) : bus.toMaster.Keeps I where
  bytes := h
  readBlock := readBlock_keeps h.readByte
  writeBlock := writeBlock_keeps h.writeByte

end ByteMaster

/-! ## Searches and transactions -/

theorem Slots.Keeps.mirrors {bus : Slots σ ε} (h : bus.Keeps I) : bus.Mirrors bus (Kept I) where
  reset := keeps_iff_mirrors.1 h.reset
  readBit := keeps_iff_mirrors.1 h.readBit
  writeBit b := keeps_iff_mirrors.1 (h.writeBit b)
  lock := keeps_iff_mirrors.1 h.lock
  unlock := keeps_iff_mirrors.1 h.unlock
  resume := keeps_iff_mirrors.1 h.resume
  suspend := keeps_iff_mirrors.1 h.suspend
  deviceCount hst := congrArg bus.deviceCount hst.2

theorem ByteMaster.Keeps.mirrors {bus : ByteMaster σ ε} (h : bus.Keeps I) :
    bus.Mirrors bus (Kept I) where
  bits := h.bits.mirrors
  readByte := keeps_iff_mirrors.1 h.readByte
  writeByte b := keeps_iff_mirrors.1 (h.writeByte b)

theorem ByteMaster.Keeps.pass {bus : ByteMaster σ ε} (h : bus.Keeps I) (scope : Search.Scope)
    (c : Search.Cursor) : (Search.pass bus scope c).Keeps I :=
  keeps_iff_mirrors.2 (h.mirrors.pass scope c)

theorem Master.Keeps.mirrors {bus : Master σ ε} (h : bus.Keeps I) : bus.Mirrors bus (Kept I) where
  bytes := h.bytes.mirrors
  readBlock n := beside_kept I ▸ keeps_iff_mirrors.1 (h.readBlock n)
  writeBlock data := keeps_iff_mirrors.1 (h.writeBlock data)

theorem Master.Keeps.perform {bus : Master σ ε} (h : bus.Keeps I) (limit : Nat)
    (request : Request) {s : σ} (hs : I s) : I (bus.perform limit request s).2 := by
  obtain ⟨-, hs', -⟩ := h.mirrors.perform limit request ⟨hs, rfl⟩
  exact hs'

theorem Master.Keeps.performAll {bus : Master σ ε} (h : bus.Keeps I) (limit : Nat)
    (requests : List Request) {s : σ} (hs : I s) : I (bus.performAll limit requests s) :=
  (h.mirrors.performAll limit requests ⟨hs, rfl⟩).1

/-! ## Masters that search alike -/

theorem Search.walk_congr {bus bus' : Slots σ ε} (hread : bus.readBit = bus'.readBit)
    (hwrite : bus.writeBit = bus'.writeBit) (c : Search.Cursor) (n : Nat)
    (d : Search.Discrepancy) (path : BitVec 64) :
    Search.walk bus c n d path = Search.walk bus' c n d path := by
  induction n generalizing d path with
  | zero => rfl
  | succ n ih =>
    unfold Search.walk
    simp only [hread, hwrite, ih]

theorem Search.pass_congr {bus bus' : ByteMaster σ ε} (hreset : bus.reset = bus'.reset)
    (hread : bus.readBit = bus'.readBit) (hwrite : bus.writeBit = bus'.writeBit)
    (hbyte : bus.writeByte = bus'.writeByte) (scope : Search.Scope) (c : Search.Cursor) :
    Search.pass bus scope c = Search.pass bus' scope c := by
  unfold Search.pass
  rw [hreset, hbyte]
  simp only [Search.walk_congr hread hwrite]

theorem Search.passes_congr {bus bus' : ByteMaster σ ε} {scope : Search.Scope}
    (hpass : ∀ c, Search.pass bus scope c = Search.pass bus' scope c) (limit count : Nat)
    (c : Search.Cursor) :
    Search.passes bus scope limit count c = Search.passes bus' scope limit count c := by
  induction limit generalizing count c with
  | zero => rfl
  | succ limit ih =>
    unfold Search.passes
    simp only [hpass, ih]

/-! ## Requests other than for power -/

/-- The master with power calls that do nothing. -/
def Master.unpowered (bus : Master σ ε) : Master σ ε :=
  { bus with resume := pure .already, suspend := pure .already }

theorem Search.pass_unpowered (bus : Master σ ε) (scope : Search.Scope) (c : Search.Cursor) :
    Search.pass bus.unpowered.toByteMaster scope c = Search.pass bus.toByteMaster scope c := by
  apply Search.pass_congr <;> rfl

theorem Search.enumerate_unpowered (bus : Master σ ε) (limit : Nat) (scope : Search.Scope)
    (family : Byte) :
    Search.enumerate bus.unpowered limit scope family =
      Search.enumerate bus limit scope family := by
  unfold Search.enumerate
  rw [Search.passes_congr (Search.pass_unpowered bus scope)]
  rfl

theorem Master.perform_unpowered (bus : Master σ ε) (limit : Nat) {request : Request}
    (hup : request ≠ .powerUp) (hdown : request ≠ .powerDown) (s : σ) :
    bus.unpowered.perform limit request s = bus.perform limit request s := by
  cases request with
  | powerUp => contradiction
  | powerDown => contradiction
  | pass scope c => simp only [perform, Search.pass_unpowered]
  | enumerate scope family => simp only [perform, Search.enumerate_unpowered]
  | findAll => simp only [perform, Search.findAll, Search.enumerate_unpowered]
  | findAlarmed => simp only [perform, Search.findAlarmed, Search.enumerate_unpowered]
  | _ => rfl

theorem Master.Keeps.perform_unpowered {bus : Master σ ε} (h : bus.unpowered.Keeps I)
    (limit : Nat) {request : Request} (hup : request ≠ .powerUp) (hdown : request ≠ .powerDown)
    {s : σ} (hs : I s) : I (bus.perform limit request s).2 := by
  rw [← Master.perform_unpowered bus limit hup hdown s]
  exact h.perform limit request hs

/-! ## Transactions between a lock and an unlock -/

/-- The master with locks and unlocks that do nothing. -/
def Master.lockless (bus : Master σ ε) : Master σ ε :=
  { bus with lock := pure (), unlock := pure () }

theorem Search.passes_lockless (bus : Master σ ε) (scope : Search.Scope) (limit count : Nat)
    (c : Search.Cursor) :
    Search.passes bus.lockless.toByteMaster scope limit count c =
      Search.passes bus.toByteMaster scope limit count c := by
  apply Search.passes_congr
  intro c
  apply Search.pass_congr <;> rfl

theorem Action.between_pure {α : Type} (body : Action (Error ε) σ α) :
    between (pure ()) (pure ()) body = body := by
  funext s
  unfold between
  simp only [pure, EStateM.pure]
  cases body s <;> rfl

/-! ## The line -/

/-- The calls, failed ones included, do nothing to the line but resets and slots. -/
def Master.Confined {L : Type} [Wire L] (bus : Master σ ε) (line : σ → L) : Prop :=
  ∀ I : L → Prop, Wire.Closed I → bus.Keeps fun s => I (line s)

end OneWire
