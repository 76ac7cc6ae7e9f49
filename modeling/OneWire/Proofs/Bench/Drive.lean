import OneWire.Bench.Master
import OneWire.Proofs.Master.Drive
import OneWire.Proofs.Master.Keeps

/-!
# The master on the bench drives its line

Both masters on the bench do to the line what a call is for, and nothing at all when the call
fails. Where the plan has no fault, no call fails but an unlock too many.
-/

namespace OneWire.Bench

variable {L α : Type}

theorem ensures_call {c : Call} {act : Bench L → Option (α × Event × Bench L)} {b : Bench L}
    {ok : α → Bench L → Prop} {failed : Call → Bench L → Prop}
    (hok : ∀ a e b', act { b with meter := b.meter.tick c } = some (a, e, b') → ok a (b'.note e))
    (hfailed : b.meter.fails c = true ∨ act { b with meter := b.meter.tick c } = none →
      failed c (note { b with meter := b.meter.tick c } (.failed c))) :
    (call c act).Ensures b ok failed := by
  unfold Action.Ensures call
  by_cases hfails : b.meter.fails c = true
  · simp only [hfails, if_true]
    exact hfailed (.inl hfails)
  · simp only [hfails]
    cases h : act { b with meter := b.meter.tick c } with
    | none => exact hfailed (.inr h)
    | some r => exact hok _ _ _ h

theorem drives_call {c : Call} {act : Bench L → Option (α × Event × Bench L)}
    {effect : L → α × L}
    (h : ∀ b a e b', act b = some (a, e, b') →
      a = (effect b.line).1 ∧ b'.line = (effect b.line).2) :
    (call c act).Drives line effect := by
  intro b
  refine ensures_call (fun a e b' hact => ?_) fun _ => trivial
  exact h { b with meter := b.meter.tick c } a e b' hact

theorem line_setPower (powered : Bool) (b : Bench L) : (b.setPower powered).2.line = b.line := by
  unfold setPower
  split <;> rfl

variable [Wire L]

theorem slots_drives : (slots : Slots (Bench L) Call).Drives line where
  reset := by
    simp only [slots]
    exact drives_call (by rintro _ _ _ _ ⟨⟩; exact ⟨rfl, rfl⟩)
  readBit := by
    simp only [slots]
    exact drives_call (by rintro _ _ _ _ ⟨⟩; exact ⟨rfl, rfl⟩)
  writeBit _ := by
    simp only [slots]
    exact drives_call (by rintro _ _ _ _ ⟨⟩; exact ⟨rfl, rfl⟩)
  lock := by
    simp only [slots]
    exact drives_call (by rintro _ _ _ _ ⟨⟩; exact ⟨rfl, rfl⟩)
  unlock := by
    simp only [slots]
    apply drives_call
    intro b a e b' h
    split at h
    · contradiction
    · cases h
      exact ⟨rfl, rfl⟩

theorem bitHost_drives : (bitHost : Host (Bench L) Call).toByteMaster.Drives line :=
  slots_drives.toByteMaster

theorem byteHost_drives : (byteHost : Host (Bench L) Call).toByteMaster.Drives line where
  toDrives := slots_drives
  readByte := by
    simp only [byteHost, ByteMaster.toMaster, byteMaster]
    exact drives_call (by rintro _ _ _ _ ⟨⟩; exact ⟨rfl, rfl⟩)
  writeByte _ := by
    simp only [byteHost, ByteMaster.toMaster, byteMaster]
    exact drives_call (by rintro _ _ _ _ ⟨⟩; exact ⟨rfl, rfl⟩)

/-! ## Whatever the faults -/

omit [Wire L] in
theorem keeps_call {I : L → Prop} {c : Call} {act : Bench L → Option (α × Event × Bench L)}
    (h : ∀ b a e b', act b = some (a, e, b') → I b.line → I b'.line) :
    (call c act).Keeps fun b => I b.line := by
  intro b hb
  refine ensures_call (fun a e b' hact => ?_) fun _ => hb
  exact h _ a e b' hact hb

theorem slots_keeps {I : L → Prop} (hI : Wire.Closed I) :
    (slots : Slots (Bench L) Call).Keeps fun b => I b.line where
  reset := by
    simp only [slots]
    exact keeps_call (by rintro b _ _ _ ⟨⟩; exact hI.reset b.line)
  readBit := by
    simp only [slots]
    exact keeps_call (by rintro b _ _ _ ⟨⟩; exact hI.read b.line)
  writeBit bit := by
    simp only [slots]
    exact keeps_call (by rintro b _ _ _ ⟨⟩; exact hI.write bit b.line)
  lock := by
    simp only [slots]
    exact keeps_call (by rintro b _ _ _ ⟨⟩; exact id)
  unlock := by
    simp only [slots]
    apply keeps_call
    intro b a e b' h
    split at h
    · contradiction
    · cases h
      exact id
  resume := by
    simp only [slots]
    apply keeps_call
    rintro b _ _ _ ⟨⟩
    rw [line_setPower]
    exact id
  suspend := by
    simp only [slots]
    apply keeps_call
    rintro b _ _ _ ⟨⟩
    rw [line_setPower]
    exact id

theorem bitHost_confined : (bitHost : Host (Bench L) Call).toMaster.Confined line :=
  fun _ hI => (slots_keeps hI).toByteMaster.toMaster

theorem byteHost_confined : (byteHost : Host (Bench L) Call).toMaster.Confined line := by
  intro I hI
  have hkeeps : (byteMaster : ByteMaster (Bench L) Call).Keeps fun b => I b.line := by
    refine ⟨slots_keeps hI, ?_, fun byte => ?_⟩
    · simp only [byteMaster]
      exact keeps_call (by rintro b _ _ _ ⟨⟩; exact hI.readBits 8)
    · simp only [byteMaster]
      exact keeps_call (by rintro b _ _ _ ⟨⟩; exact hI.writeBits byte.bits)
  exact hkeeps.toMaster

/-! ## No faults -/

/-- No call is to fail. -/
def Quiet (b : Bench L) : Prop :=
  ∀ c n, b.meter.plan c n = false

/-- A bench just set up, with no faults planned. -/
def idle (line : L) : Bench L where
  line
  meter := { plan := fun _ _ => false }
  declared := 0

omit [Wire L] in
theorem quiet_idle (line : L) : (idle line).Quiet := fun _ _ => rfl

omit [Wire L] in
theorem ensures_call_of_quiet {c : Call} {act : Bench L → Option (α × Event × Bench L)}
    {b : Bench L} {ok : α → Bench L → Prop} (hb : b.Quiet)
    (h : ∃ a e b', act { b with meter := b.meter.tick c } = some (a, e, b') ∧ ok a (b'.note e)) :
    (call c act).Ensures b ok fun _ _ => False := by
  obtain ⟨a, e, b', hact, hok⟩ := h
  refine ensures_call (fun a e b' hact' => ?_) ?_
  · rw [hact] at hact'
    cases hact'
    exact hok
  · rintro (hfails | hnone)
    · rw [FaultMeter.fails, hb] at hfails
      contradiction
    · rw [hact] at hnone
      contradiction

/-- A quiet bench that differs from `b₀` in its line and its records at most. -/
structure Rests (b₀ b : Bench L) : Prop where
  quiet : b.Quiet
  depth : b.depth = b₀.depth
  powered : b.powered = b₀.powered
  declared : b.declared = b₀.declared

omit [Wire L] in
theorem Quiet.rests {b : Bench L} (hb : b.Quiet) : Rests b b :=
  ⟨hb, rfl, rfl, rfl⟩

omit [Wire L] in
theorem performs_call {c : Call} {act : Bench L → Option (α × Event × Bench L)}
    {effect : L → α × L}
    (h : ∀ b, ∃ e, act b = some ((effect b.line).1, e, { b with line := (effect b.line).2 }))
    (b₀ : Bench L) : (call c act).Performs (Rests b₀) line effect := by
  intro b hb
  obtain ⟨e, hact⟩ := h { b with meter := b.meter.tick c }
  exact ensures_call_of_quiet hb.quiet ⟨_, e, _, hact, { hb with }, rfl⟩

omit [Wire L] in
theorem ensures_setPower {c : Call} {event : PowerChange → Event} {powered : Bool} {b : Bench L}
    (hb : b.Quiet) :
    (call c fun b => some ((b.setPower powered).1, event (b.setPower powered).1,
        (b.setPower powered).2)).Ensures b
      (fun change b' => change = (if b.powered = powered then .already else .changed) ∧
        Rests { b with powered } b' ∧ b'.line = b.line) fun _ _ => False := by
  refine ensures_call_of_quiet hb ⟨_, _, _, rfl, ?_⟩
  unfold setPower
  split
  · rename_i hpowered
    exact ⟨rfl, ⟨hb, rfl, hpowered, rfl⟩, rfl⟩
  · exact ⟨rfl, ⟨hb, rfl, rfl, rfl⟩, rfl⟩

theorem byteHost_performs (b₀ : Bench L) :
    (byteHost : Host (Bench L) Call).toByteMaster.Performs (Rests b₀) line where
  reset := by
    simp only [byteHost, ByteMaster.toMaster, byteMaster, slots]
    exact performs_call (fun _ => ⟨_, rfl⟩) b₀
  readBit := by
    simp only [byteHost, ByteMaster.toMaster, byteMaster, slots]
    exact performs_call (fun _ => ⟨_, rfl⟩) b₀
  writeBit _ := by
    simp only [byteHost, ByteMaster.toMaster, byteMaster, slots]
    exact performs_call (fun _ => ⟨_, rfl⟩) b₀
  readByte := by
    simp only [byteHost, ByteMaster.toMaster, byteMaster]
    exact performs_call (fun _ => ⟨_, rfl⟩) b₀
  writeByte _ := by
    simp only [byteHost, ByteMaster.toMaster, byteMaster]
    exact performs_call (fun _ => ⟨_, rfl⟩) b₀

/-- A quiet bench that declares `n` devices. -/
structure Declares (n : Nat) (b : Bench L) : Prop where
  quiet : b.Quiet
  declared : b.declared = n

section Declares

variable {n : Nat}

omit [Wire L] in
theorem works_of_performs {act : Action Call (Bench L) α} {effect : L → α × L}
    (h : ∀ b₀, act.Performs (Rests b₀) line effect) : act.Works (Declares n) depth := by
  intro b hb
  refine (h b b hb.quiet.rests).mono ?_ fun _ _ => id
  rintro a b' ⟨hrests, -⟩
  exact ⟨⟨hrests.quiet, hrests.declared.trans hb.declared⟩, hrests.depth⟩

variable (n)

theorem byteHost_faultless_declares :
    (byteHost : Host (Bench L) Call).toMaster.Faultless (Declares n) depth where
  reset := works_of_performs fun b₀ => (byteHost_performs b₀).reset
  readBit := works_of_performs fun b₀ => (byteHost_performs b₀).readBit
  writeBit bit := works_of_performs fun b₀ => (byteHost_performs b₀).writeBit bit
  writeByte byte := works_of_performs fun b₀ => (byteHost_performs b₀).writeByte byte
  lock := by
    intro b hb
    simp only [byteHost, ByteMaster.toMaster, byteMaster, slots]
    exact ensures_call_of_quiet hb.quiet ⟨_, _, _, rfl, ⟨hb.quiet, hb.declared⟩, rfl⟩
  unlock := by
    intro b hb hd
    obtain ⟨k, hk⟩ := Nat.exists_eq_add_one.2 hd
    simp only [byteHost, ByteMaster.toMaster, byteMaster, slots]
    refine ensures_call_of_quiet hb.quiet
      ⟨(), .unlock, { b with meter := b.meter.tick .unlock, depth := k }, ?_,
        ⟨hb.quiet, hb.declared⟩, hk.symm⟩
    simp only [hk]

theorem bitHost_faultless_declares :
    (bitHost : Host (Bench L) Call).toMaster.Faultless (Declares n) depth where
  reset := (byteHost_faultless_declares n).reset
  readBit := (byteHost_faultless_declares n).readBit
  writeBit := (byteHost_faultless_declares n).writeBit
  writeByte b := Slots.writeBits_works (byteHost_faultless_declares n).writeBit b.bits
  lock := (byteHost_faultless_declares n).lock
  unlock := (byteHost_faultless_declares n).unlock

end Declares

omit [Wire L] in
theorem faultless_of_declares {bus : Master (Bench L) Call}
    (h : ∀ n, bus.Faultless (Declares n) depth) : bus.Faultless Quiet depth where
  reset b hb := ((h b.declared).reset b ⟨hb, rfl⟩).mono
    (fun _ _ h => h.imp_left Declares.quiet) fun _ _ => id
  readBit b hb := ((h b.declared).readBit b ⟨hb, rfl⟩).mono
    (fun _ _ h => h.imp_left Declares.quiet) fun _ _ => id
  writeBit bit b hb := ((h b.declared).writeBit bit b ⟨hb, rfl⟩).mono
    (fun _ _ h => h.imp_left Declares.quiet) fun _ _ => id
  writeByte byte b hb := ((h b.declared).writeByte byte b ⟨hb, rfl⟩).mono
    (fun _ _ h => h.imp_left Declares.quiet) fun _ _ => id
  lock b hb := ((h b.declared).lock b ⟨hb, rfl⟩).mono
    (fun _ _ h => h.imp_left Declares.quiet) fun _ _ => id
  unlock b hb hd := ((h b.declared).unlock b ⟨hb, rfl⟩ hd).mono
    (fun _ _ h => h.imp_left Declares.quiet) fun _ _ => id

theorem byteHost_faultless :
    (byteHost : Host (Bench L) Call).toMaster.Faultless Quiet depth :=
  faultless_of_declares byteHost_faultless_declares

theorem bitHost_faultless :
    (bitHost : Host (Bench L) Call).toMaster.Faultless Quiet depth :=
  faultless_of_declares bitHost_faultless_declares

end OneWire.Bench
