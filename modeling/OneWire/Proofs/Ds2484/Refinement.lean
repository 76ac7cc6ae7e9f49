import OneWire.Line.Shared
import OneWire.Proofs.Bench.Drive
import OneWire.Proofs.Ds2484.Board
import OneWire.Proofs.Line.Shared
import OneWire.Proofs.Mirror.Session

/-!
# The DS2484 against a master that drives the line itself

The bridge knows nothing of the line but what the chip reports. Still transactions, searches and
sessions come to the same over it as over the bench, which drives the line itself.
-/

namespace OneWire

open OneWire.Action Bench Line

namespace Bench

variable {L ε : Type} [Wire L]

/-- The master on the bench that transfers bytes, with other names for its failures. -/
def plainHost (name : Call → ε) : Host (Bench L) ε :=
  { (byteMaster.renaming name).toMaster with delay }

theorem plainHost_performs (name : Call → ε) (b₀ : Bench L) :
    (plainHost name : Host (Bench L) ε).toByteMaster.Performs (Rests b₀) line :=
  (byteHost_performs b₀).renaming name

end Bench

/-! ## Slots of a search -/

namespace Wire

variable {L : Type} [Wire L]

theorem slot_sending {line : L} (h : sending line = true) : slot true line = read line := by
  simp [slot, h]

theorem slot_silent {line : L} (h : sending line = false) (b : Bool) :
    slot b line = (b, write b line) := by
  simp [slot, h]

end Wire

namespace Line

/-- What the devices expect after a read. -/
def Turn.afterRead : Turn → Turn
  | .value => .complement
  | .complement => .branch
  | .branch => .branch

section Search

variable {line : Line} {i : Nat} {turn : Turn} (h : line.mode = .search i turn)
include h

theorem sending_search : Wire.sending line = (turn != .branch) := by
  have hsending : Wire.sending line = isSending line := rfl
  rw [hsending, isSending, h]
  cases turn <;> rfl

theorem mode_read : (Wire.read line).2.mode = .search i turn.afterRead := by
  have hread : Wire.read line = read line := rfl
  rw [hread, read, h]
  cases turn <;> first | rfl | exact h

theorem mode_write (b : Bool) :
    (Wire.write b line).mode = after i (.search (i + 1) .value) (.selected 0) := by
  have hwrite : Wire.write b line = write b line := rfl
  rw [hwrite, write, h]

end Search

theorem mode_reset {line : Line} (h : (Wire.reset line).1 = true) :
    (Wire.reset line).2.mode = .command [] := by
  have hreset : Wire.reset line = reset line := rfl
  rw [hreset] at h ⊢
  by_cases hleft : line.resetsLeft = some 0
  · rw [reset, hleft] at h
    contradiction
  · rw [reset_snd hleft]

theorem mode_searching {line : Line} (h : line.mode = .command []) (scope : Search.Scope) :
    (Wire.writeByte scope.command.code line).mode = .search 0 .value := by
  rw [writeByte_command h]
  cases scope <;> rfl

end Line

/-! ## The bridge -/

namespace Ds2484

open Bridge

variable {π α : Type}

/-- The bridge and the bench are at the same line, and locked `d` times or more. -/
structure Agree (c : Config) (view : π → View Line) (sound : π → Prop) (d : Nat) (s : Bridge π)
    (t : Bench Line) : Prop where
  ready : Ready c view sound s.board
  quiet : t.Quiet
  line : (view s.board).line = t.line
  powered : s.active = t.powered
  declared : c.deviceCount = t.declared
  bridge : d ≤ s.depth.val
  bench : d ≤ t.depth

section Agree

variable {w : Wiring π} {c : Config} {delay : Nat → π → π} {view : π → View Line}
  {sound : π → Prop} (name : Call → Failure) {d : Nat}

theorem Agree.rests {s : Bridge π} {t t' : Bench Line} {board : π} (h : Agree c view sound d s t)
    (hready : Ready c view sound board) (hrests : Rests t t')
    (hline : (view board).line = t'.line) : Agree c view sound d { s with board } t' where
  ready := hready
  quiet := hrests.quiet
  line := hline
  powered := h.powered.trans hrests.powered.symm
  declared := h.declared.trans hrests.declared.symm
  bridge := h.bridge
  bench := hrests.depth ▸ h.bench

theorem shifts_calls {act : Action Failure π α} {act' : Action Failure (Bench Line) α}
    {effect effect' : Line → α × Line} {P : Line → Prop} {Q : α → Line → Prop}
    {E : Bridge π → Bench Line → Prop}
    (hact : act.Performs (Ready c view sound) (fun s => (view s).line) effect)
    (hact' : ∀ t, act'.Performs (Rests t) Bench.line effect')
    (h : ∀ line, P line → effect line = effect' line ∧ Q (effect' line).1 (effect' line).2) :
    Shifts (fun s t => Agree c view sound d s t ∧ P t.line)
      (fun a s t => Agree c view sound d s t ∧ Q a t.line) E (onBoard act) act' := by
  refine Shifts.of_ensures ?_
  rintro s t ⟨hagree, hP⟩
  obtain ⟨heffect, hQ⟩ := h t.line hP
  rw [ensures_onBoard]
  refine (hact s.board hagree.ready).mono ?_ fun _ _ => id
  rintro a board ⟨hready, hline⟩
  refine (hact' t t hagree.quiet.rests).mono ?_ fun _ _ => id
  rintro a' t' ⟨hrests, hline'⟩
  simp only [hagree.line, heffect, ← hline', Prod.mk.injEq] at hline hQ
  exact ⟨hline.1, hagree.rests hready hrests hline.2, hline.1 ▸ hQ⟩

theorem mirrors_calls {act : Action Failure π α} {act' : Action Failure (Bench Line) α}
    {effect : Line → α × Line}
    (hact : act.Performs (Ready c view sound) (fun s => (view s).line) effect)
    (hact' : ∀ t, act'.Performs (Rests t) Bench.line effect) :
    (onBoard act).Mirrors (Agree c view sound d) act' := by
  have hshifts := shifts_calls (d := d) (E := Agree c view sound d) (P := fun _ => True)
    (Q := fun _ _ => True) hact hact' fun _ _ => ⟨rfl, trivial⟩
  exact (hshifts.mono (fun _ _ h => ⟨h, trivial⟩) fun _ _ _ => And.left).mirrors

/-! ## Searches -/

section Serves

variable (h : Serves w c delay view sound)
include h

theorem read_shifts {E : Bridge π → Bench Line → Prop} (i : Nat) {turn : Turn}
    (hturn : turn ≠ .branch) :
    Shifts (fun s t => Agree c view sound d s t ∧ t.line.mode = .search i turn)
      (fun _ s t => Agree c view sound d s t ∧ t.line.mode = .search i turn.afterRead) E
      (master w c).readBit (plainHost name).readBit := by
  refine shifts_calls (performs_slot h true) (fun t => (plainHost_performs name t).readBit)
    (P := fun line => line.mode = .search i turn)
    (Q := fun _ line => line.mode = .search i turn.afterRead) ?_
  intro line hmode
  have hsending : Wire.sending line = true := by rw [sending_search hmode]; simpa using hturn
  exact ⟨Wire.slot_sending hsending, mode_read hmode⟩

theorem write_shifts {E : Bridge π → Bench Line → Prop} (i : Nat) (b : Bool) :
    Shifts (fun s t => Agree c view sound d s t ∧ t.line.mode = .search i .branch)
      (fun _ s t => Agree c view sound d s t ∧
        t.line.mode = after i (.search (i + 1) .value) (.selected 0)) E
      ((master w c).writeBit b) ((plainHost name).writeBit b) := by
  simp only [master, ByteMaster.toMaster, onBoard_discard]
  refine shifts_calls (performs_slot h b).discard (fun t => (plainHost_performs name t).writeBit b)
    (P := fun line => line.mode = .search i .branch)
    (Q := fun _ line => line.mode = after i (.search (i + 1) .value) (.selected 0)) ?_
  intro line hmode
  exact ⟨by rw [Wire.slot_silent (sending_search hmode)], mode_write hmode b⟩

theorem walk_shifts {E : Bridge π → Bench Line → Prop} (cursor : Search.Cursor) {n : Nat}
    (hn : n ≤ Rom.width) (deepest : Search.Discrepancy) (path : BitVec 64) :
    Shifts
      (fun s t => Agree c view sound d s t ∧
        (0 < n → t.line.mode = .search (Rom.width - n) .value))
      (fun _ => Agree c view sound d) E
      (Search.walk (master w c).toSlots cursor n deepest path)
      (Search.walk (plainHost name).toSlots cursor n deepest path) := by
  -- The devices are always at the position of the walk, which decides what a slot of 1 is.
  induction n generalizing deepest path with
  | zero => exact .pure fun _ _ => And.left
  | succ n ih =>
    unfold Search.walk
    have hvalue : Turn.value ≠ .branch := by decide
    have hcomplement : Turn.complement ≠ .branch := by decide
    have hfirst := read_shifts name h (d := d) (E := E) (Rom.width - (n + 1)) hvalue
    refine (hfirst.mono (fun s t hst => ⟨hst.1, hst.2 (by omega)⟩) fun _ _ _ => id).bind
      fun value => (read_shifts name h _ hcomplement).bind fun complement => ?_
    split
    · exact .pure fun _ _ => And.left
    · rename_i chosen _
      have hwrite := write_shifts name h (d := d) (E := E) (Rom.width - (n + 1)) chosen
      refine (hwrite.mono (fun _ _ => id) ?_).bind fun _ => ih (by omega) _ _
      rintro _ s t ⟨hagree, hmode⟩
      refine ⟨hagree, fun hpos => ?_⟩
      -- Only after the last position is there no next one.
      rw [hmode, after, if_neg (by omega), Mode.search.injEq]
      exact ⟨by omega, rfl⟩

theorem pass_mirrors (scope : Search.Scope) (cursor : Search.Cursor) :
    (Search.pass (master w c).toByteMaster scope cursor).Mirrors (Agree c view sound d)
      (Search.pass (plainHost name).toByteMaster scope cursor) := by
  refine Shifts.mirrors ?_
  unfold Search.pass
  -- Only a line that answers the reset takes what follows as a command.
  have hreset := shifts_calls (d := d) (E := Agree c view sound d) (P := fun _ => True)
    (Q := fun present line => present = true → line.mode = .command []) (performs_reset h)
    (fun t => (plainHost_performs name t).reset) fun line _ => ⟨rfl, mode_reset⟩
  refine (hreset.mono (fun _ _ hagree => ⟨hagree, trivial⟩) fun _ _ _ => id).bind fun present => ?_
  cases present with
  | false => exact .pure fun _ _ => And.left
  | true =>
    have hcommand := shifts_calls (d := d) (E := Agree c view sound d)
      (P := fun line => true = true → line.mode = .command [])
      (Q := fun _ line => 0 < Rom.width → line.mode = .search (Rom.width - Rom.width) .value)
      (performs_writeByte h scope.command.code)
      (fun t => (plainHost_performs name t).writeByte scope.command.code)
      fun line hmode => ⟨rfl, fun _ => by rw [mode_searching (hmode rfl), Nat.sub_self]⟩
    exact hcommand.bind fun _ => walk_shifts name h cursor le_rfl _ _

/-! ## Locks and power -/

omit h in
theorem lock_shifts (hd : d < 3) :
    Shifts (Agree c view sound d) (fun _ => Agree c view sound (d + 1)) (Agree c view sound d)
      Bridge.lock (plainHost name).lock := by
  refine Shifts.of_ensures fun s t hagree => ?_
  -- The bridge counts no further than 255, so its depth can fall behind that of the bench.
  have hbridge := hagree.bridge
  have hbench := hagree.bench
  refine (ensures_lock s).mono ?_ fun _ _ => id
  rintro _ _ ⟨depth, rfl, hdepth⟩
  simp only [plainHost, ByteMaster.toMaster, ByteMaster.renaming, byteMaster, slots,
    ensures_adaptExcept]
  refine ensures_call_of_quiet hagree.quiet ⟨_, _, _, rfl, trivial, ?_⟩
  exact { hagree with bridge := by simp only; omega, bench := by simp only [note]; omega }

omit h in
theorem unlock_shifts :
    Shifts (Agree c view sound (d + 1)) (fun _ => Agree c view sound d) (Agree c view sound d)
      Bridge.unlock (plainHost name).unlock := by
  refine Shifts.of_ensures fun s t hagree => ?_
  have hbridge := hagree.bridge
  have hbench := hagree.bench
  refine (ensures_unlock (by omega)).mono ?_ fun _ _ => id
  rintro _ _ ⟨depth, rfl, hdepth⟩
  obtain ⟨n, hn⟩ := Nat.exists_eq_add_one.2 (Nat.zero_lt_of_lt hbench)
  simp only [plainHost, ByteMaster.toMaster, ByteMaster.renaming, byteMaster, slots,
    ensures_adaptExcept]
  refine ensures_call_of_quiet hagree.quiet
    ⟨(), .unlock, { t with meter := t.meter.tick .unlock, depth := n }, ?_, trivial, ?_⟩
  · simp only [hn]
  · exact { hagree with bridge := by simp only; omega, bench := by simp only [note]; omega }

/-- The action wakes the chip or puts it to sleep. -/
def Switches (c : Config) (view : π → View Line) (sound : π → Prop) (powered : Bool)
    (act : Action Failure (Bridge π) PowerChange) : Prop :=
  ∀ s, Ready c view sound s.board → act.Ensures s
    (fun change s' => change = (if s.active = powered then .already else .changed) ∧
      ∃ board, s' = { s with board, active := powered } ∧ Ready c view sound board ∧
        (view board).line = (view s.board).line)
    fun _ _ => False

theorem switches_resume : Switches c view sound true (Bridge.resume w) := by
  intro s hs
  unfold Bridge.resume
  rw [ensures_bind, ensures_get]
  split
  · rename_i hactive
    exact ⟨rfl, s.board, by rw [← hactive], hs, rfl⟩
  · rw [ensures_bind, ensures_onBoard]
    refine (performs_setPin h true s.board hs).mono ?_ fun _ _ => id
    rintro _ board ⟨hready, hline⟩
    exact ⟨rfl, board, rfl, hready, congrArg Prod.snd hline⟩

theorem switches_suspend : Switches c view sound false (Bridge.suspend w c) := by
  intro s hs
  unfold Bridge.suspend
  rw [ensures_bind, ensures_get]
  split
  · rename_i hactive
    rw [ensures_bind, ensures_onBoard]
    refine (performs_settle h s.board hs).mono ?_ fun _ _ => id
    rintro _ board₁ ⟨hready₁, hline₁⟩
    rw [ensures_bind, ensures_onBoard]
    refine (performs_setPin h false board₁ hready₁).mono ?_ fun _ _ => id
    rintro _ board₂ ⟨hready₂, hline₂⟩
    rw [if_neg (by simp [hactive])]
    exact ⟨rfl, board₂, rfl, hready₂, congrArg Prod.snd (hline₂.trans hline₁)⟩
  · rename_i hactive
    rw [Bool.not_eq_true] at hactive
    rw [if_pos hactive]
    exact ⟨rfl, s.board, by rw [← hactive], hs, rfl⟩

omit h in
theorem mirrors_switch {powered : Bool} {act : Action Failure (Bridge π) PowerChange} {call' : Call}
    {event : PowerChange → Event} (hact : Switches c view sound powered act) :
    act.Mirrors (Agree c view sound d)
      (EStateM.adaptExcept name (call call' fun b : Bench Line =>
        some ((b.setPower powered).1, event (b.setPower powered).1, (b.setPower powered).2))) := by
  refine Shifts.mirrors (Shifts.of_ensures fun s t hagree => ?_)
  refine (hact s hagree.ready).mono ?_ fun _ _ => id
  rintro _ _ ⟨rfl, board, rfl, hready, hline⟩
  rw [ensures_adaptExcept, hagree.powered]
  refine (ensures_setPower hagree.quiet).mono ?_ fun _ _ => id
  rintro _ t' ⟨rfl, hrests, hline'⟩
  refine ⟨rfl, hready, hrests.quiet, ?_, hrests.powered.symm, ?_, hagree.bridge, ?_⟩
  · rw [hline, hline', hagree.line]
  · rw [hrests.declared, hagree.declared]
  · rw [hrests.depth]
    exact hagree.bench

/-! ## Sessions -/

theorem host_nests :
    (Ds2484.host w c delay).Nests (plainHost name) (Agree c view sound) := by
  have hreadByte (d : Nat) := mirrors_calls (d := d) (performs_readByte h) fun t =>
    (plainHost_performs name t).readByte
  have hwriteByte (d : Nat) (b : Byte) := mirrors_calls (d := d) (performs_writeByte h b) fun t =>
    (plainHost_performs name t).writeByte b
  exact
    { reset := fun d => mirrors_calls (performs_reset h) fun t => (plainHost_performs name t).reset
      writeByte := hwriteByte
      readBlock := fun d n => ByteMaster.fill_mirrors (hreadByte d) (List.finRange n)
      writeBlock := fun d => ByteMaster.writeBytes_mirrors (hwriteByte d)
      pass := fun d => pass_mirrors name h
      lock := lock_shifts name
      unlock := fun hd => unlock_shifts name
      resume := fun d => mirrors_switch name (switches_resume h)
      suspend := fun d => mirrors_switch name (switches_suspend h)
      deviceCount := fun hagree => hagree.declared
      delay := by
        intro d ms s t hagree
        obtain ⟨hsound, hview⟩ := h.delay ms s.board hagree.ready.1
        have hready : Ready c view sound (delay ms s.board) :=
          ⟨hsound, by rw [hview]; exact hagree.ready.2⟩
        have hline : (view (delay ms s.board)).line = t.line := by rw [hview, hagree.line]
        exact { hagree with ready := hready, line := hline } }

end Serves

end Agree

/-- A bench without faults at the line of the bridge. -/
def Bridge.plain (c : Config) (view : π → View Line) (s : Bridge π) : Bench Line :=
  { Bench.idle (view s.board).line with
    declared := c.deviceCount, powered := s.active, depth := s.depth.val }

/--
Whatever transactions, searches and sessions are made with a DS2484 that does what it is for, they
come to the same as with a master that drives the line itself, and so does the line. A session that
has taken its bus is only asked to have it locked.
-/
theorem agrees_with_plain {w : Wiring π} {c : Config} {delay : Nat → π → π} {view : π → View Line}
    {sound : π → Prop} (h : Serves w c delay view sound) (name : Call → Failure) (limit : Nat)
    {operations : List Operation}
    (hoperations : ∀ operation ∈ operations, operation.isTransaction = true)
    {s s' : Session (Bridge π)} {t' : Session (Bench Line)}
    {outcomes outcomes' : List (Outcome Failure)}
    (hready : Ready c view sound s.bus.board) (hlocked : s.phase.locks ≤ s.bus.depth.val)
    (hbridge : Session.run (Ds2484.host w c delay) limit operations s = (outcomes, s'))
    (hplain : Session.run (plainHost name) limit operations (s.on (s.bus.plain c view)) =
      (outcomes', t')) :
    outcomes = outcomes' ∧ t' = s'.on t'.bus ∧ (view s'.bus.board).line = t'.bus.line ∧
      s'.bus.active = t'.bus.powered := by
  have hagree : Agree c view sound s.phase.locks s.bus (s.bus.plain c view) :=
    ⟨hready, fun _ _ => rfl, rfl, rfl, rfl, hlocked, hlocked⟩
  obtain ⟨houtcomes, bus, hagree', hsession⟩ :=
    (host_nests name h).run limit hoperations ⟨_, hagree, rfl⟩
  rw [hbridge] at houtcomes hagree' hsession
  rw [hplain] at houtcomes hsession
  subst hsession
  exact ⟨houtcomes, rfl, hagree'.line, hagree'.powered⟩

/-- Two devices, behind a chip that is slow and sets bits that mean nothing. -/
def slow : Session (Bridge (Board Line)) where
  bus := .new (.ofPin
    (.ofDevices [{ rom := .ofWireBits 0x19, data := [0xA5] }, { rom := .ofWireBits 6 }])
    (.chip { busy := 3, noise := 0x94 }) { plan := fun _ _ => false } .tied)

theorem agrees_with_plain_slow :
    let config : Config := { deviceCount := 2, pollLimit := 4 }
    let operations : List Operation := [.session .acquire, .bus .findAll,
      .session (.exchange (.ofWireBits 0x19) [1, 2] (.replicate 2 0)), .session .release]
    ∃ outcomes s' t',
      Session.run (Board.host .tied config) 3 operations slow = (outcomes, s') ∧
      Session.run (plainHost fun _ => .i2c) 3 operations
        (slow.on (slow.bus.plain config Board.view)) = (outcomes, t') ∧
      s'.bus.board.view.line = t'.bus.line ∧ t'.bus.line.mode = .selected 16 := by
  intro config operations
  let wiring : Wiring (Board Line) := Board.wiring .tied
  have hserves : Serves wiring config Board.delay Board.view (Board.Sound config) :=
    Board.serves (by decide) config
  have hready : Ready config Board.view (Board.Sound config) slow.bus.board :=
    ⟨⟨fun _ _ => rfl, by decide, _, rfl, ⟨rfl, by decide, rfl, rfl, rfl, rfl⟩⟩, by decide⟩
  have hoperations : ∀ operation ∈ operations, operation.isTransaction = true := by
    simp [operations, Operation.isTransaction, Master.Request.isTransaction]
  let plain : Host (Bench Line) Failure := plainHost fun _ => .i2c
  have hmode : (Session.run plain 3 operations
      (slow.on (slow.bus.plain config Board.view))).2.bus.line.mode = .selected 16 := by
    decide +kernel
  generalize hplain : Session.run plain 3 operations
    (slow.on (slow.bus.plain config Board.view)) = r' at hmode
  generalize hbridge : Session.run (Board.host .tied config) 3 operations slow = r
  obtain ⟨outcomes, s'⟩ := r
  obtain ⟨outcomes', t'⟩ := r'
  obtain ⟨rfl, -, hline, -⟩ := agrees_with_plain hserves (fun _ => .i2c) 3 hoperations hready
    (Nat.zero_le _) hbridge hplain
  exact ⟨outcomes, s', t', rfl, rfl, hline, hmode⟩

end Ds2484

end OneWire
