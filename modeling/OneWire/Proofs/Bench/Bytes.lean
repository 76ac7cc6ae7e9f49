import OneWire.Line.Shared
import OneWire.Proofs.Bench.Drive
import OneWire.Proofs.Mirror.Session

/-!
# Bytes and their bits on the bench

Whether the master on the bench makes its bytes from bits or transfers them in one call shows only
in its journal, and there each byte stands as its eight bits.
-/

namespace OneWire.Bench

open OneWire.Action

variable {L α : Type}

def Call.isTransfer : Call → Bool
  | readBit | writeBit | readByte | writeByte => true
  | reset | lock | unlock | resume | suspend => false

/-- The event with a byte as its bits. -/
def Event.bitwise : Event → List Event
  | readByte b => b.bits.map readBit
  | writeByte b => b.bits.map writeBit
  | e => [e]

/-- No transfer is to fail. -/
def Sparing (b : Bench L) : Prop :=
  ∀ c n, c.isTransfer = true → b.meter.plan c n = false

/-! ## Transfers -/

/-- From `b` to `b'` there were only transfers, which the journal shows as `events`. -/
structure Moved (b b' : Bench L) (events : List Event) : Prop where
  declared : b'.declared = b.declared
  powered : b'.powered = b.powered
  depth : b'.depth = b.depth
  plan : b'.meter.plan = b.meter.plan
  count (c : Call) (hc : c.isTransfer = false) : b'.meter.count c = b.meter.count c
  journal : b'.journal.toList = b.journal.toList ++ events

theorem Moved.refl (b : Bench L) : Moved b b [] :=
  ⟨rfl, rfl, rfl, rfl, fun _ _ => rfl, (List.append_nil _).symm⟩

theorem Moved.trans {b₁ b₂ b₃ : Bench L} {events events' : List Event} (h : Moved b₁ b₂ events)
    (h' : Moved b₂ b₃ events') : Moved b₁ b₃ (events ++ events') where
  declared := h'.declared.trans h.declared
  powered := h'.powered.trans h.powered
  depth := h'.depth.trans h.depth
  plan := h'.plan.trans h.plan
  count c hc := (h'.count c hc).trans (h.count c hc)
  journal := by rw [h'.journal, h.journal, List.append_assoc]

theorem Moved.sparing {b b' : Bench L} {events : List Event} (h : Moved b b' events)
    (hb : b.Sparing) : b'.Sparing := by
  intro c n hc
  rw [h.plan]
  exact hb c n hc

theorem moved_call {c : Call} (hc : c.isTransfer = true) (b : Bench L) (line : L) (e : Event) :
    Moved b (note { b with meter := b.meter.tick c, line } e) [e] where
  declared := rfl
  powered := rfl
  depth := rfl
  plan := rfl
  count c' hc' := by
    refine b.meter.count_tick_of_ne ?_
    rintro rfl
    rw [hc] at hc'
    contradiction
  journal := b.journal.toList_note e

/-- The action succeeds, with transfers only. -/
def Transfers (events : α → List Event) (act : Action Call (Bench L) α) : Prop :=
  ∀ b, b.Sparing → act.Ensures b (fun a b' => Moved b b' (events a)) fun _ _ => False

theorem transfers_call {c : Call} (hc : c.isTransfer = true) {event : α → Event}
    {act : Bench L → Option (α × Event × Bench L)}
    (h : ∀ b, ∃ a line, act b = some (a, event a, { b with line })) :
    Transfers (fun a => [event a]) (call c act) := by
  intro b hb
  refine ensures_call (fun a e b' hact => ?_) ?_
  · obtain ⟨a', line, hact'⟩ := h { b with meter := b.meter.tick c }
    rw [hact'] at hact
    cases hact
    exact moved_call hc b line (event _)
  · rintro (hfails | hnone)
    · rw [FaultMeter.fails, hb c _ hc] at hfails
      contradiction
    · obtain ⟨a', line, hact'⟩ := h { b with meter := b.meter.tick c }
      rw [hact'] at hnone
      contradiction

section Wire

variable [Wire L]

theorem transfers_readBit :
    Transfers (fun b => [.readBit b]) (slots : Slots (Bench L) Call).readBit := by
  simp only [slots]
  exact transfers_call rfl fun _ => ⟨_, _, rfl⟩

theorem transfers_writeBit (bit : Bool) :
    Transfers (fun _ => [.writeBit bit]) ((slots : Slots (Bench L) Call).writeBit bit) := by
  simp only [slots]
  exact transfers_call rfl fun _ => ⟨_, _, rfl⟩

theorem transfers_readByte :
    Transfers (fun b => [.readByte b]) (byteMaster : ByteMaster (Bench L) Call).readByte := by
  simp only [byteMaster]
  exact transfers_call rfl fun _ => ⟨_, _, rfl⟩

theorem transfers_writeByte (byte : Byte) :
    Transfers (fun _ => [.writeByte byte])
      ((byteMaster : ByteMaster (Bench L) Call).writeByte byte) := by
  simp only [byteMaster]
  exact transfers_call rfl fun _ => ⟨_, _, rfl⟩

theorem readBits_moved (n : Nat) {b : Bench L} (hb : b.Sparing) :
    ((slots : Slots (Bench L) Call).readBits n).Ensures b
      (fun bs b' => bs.length = n ∧ Moved b b' (bs.map .readBit)) fun _ _ => False := by
  induction n generalizing b with
  | zero => exact ⟨rfl, .refl b⟩
  | succ n ih =>
    unfold Slots.readBits
    refine (transfers_readBit b hb).bind fun bit b₁ h => ?_
    refine (ih (h.sparing hb)).bind ?_
    rintro bits b₂ ⟨hlength, h'⟩
    exact ⟨congrArg (· + 1) hlength, h.trans h'⟩

theorem transfers_readByte_bits :
    Transfers (fun byte => byte.bits.map .readBit)
      (slots : Slots (Bench L) Call).toByteMaster.readByte := by
  intro b hb
  refine (readBits_moved 8 hb).bind ?_
  rintro bits b' ⟨hlength, h⟩
  simp only [ensures_pure, Byte.bits_ofBits hlength]
  exact h

theorem transfers_writeBits (bs : List Bool) :
    Transfers (fun _ => bs.map .writeBit) ((slots : Slots (Bench L) Call).writeBits bs) := by
  induction bs with
  | nil => exact fun b _ => Moved.refl b
  | cons bit bs ih =>
    intro b hb
    unfold Slots.writeBits
    refine (transfers_writeBit bit b hb).bind fun _ b₁ h => ?_
    exact (ih b₁ (h.sparing hb)).mono (fun _ _ h' => h.trans h') fun _ _ => id

end Wire

/-! ## Benches that differ in their journals -/

/-- The journal of `b` is that of `b'` with the bytes that came after `start` as bits. -/
structure Bitwise (start : List Event) (b b' : Bench L) : Prop where
  line : b.line = b'.line
  declared : b.declared = b'.declared
  powered : b.powered = b'.powered
  depth : b.depth = b'.depth
  plan : b.meter.plan = b'.meter.plan
  sparing : b.Sparing
  count (c : Call) (hc : c.isTransfer = false) : b.meter.count c = b'.meter.count c
  journal : ∃ events, b'.journal.toList = start ++ events ∧
    b.journal.toList = start ++ events.flatMap Event.bitwise

theorem Sparing.bitwise {b : Bench L} (h : b.Sparing) : Bitwise b.journal.toList b b :=
  ⟨rfl, rfl, rfl, rfl, rfl, h, fun _ _ => rfl, [], by simp, by simp⟩

namespace Bitwise

variable {start : List Event} {b b' : Bench L}

theorem sparing' (h : Bitwise start b b') : b'.Sparing := by
  intro c n hc
  rw [← h.plan]
  exact h.sparing c n hc

theorem moved (h : Bitwise start b b') {b₁ b₁' : Bench L} {events : List Event}
    (hb : Moved b b₁ (events.flatMap Event.bitwise)) (hb' : Moved b' b₁' events)
    (hline : b₁.line = b₁'.line) : Bitwise start b₁ b₁' where
  line := hline
  declared := by rw [hb.declared, hb'.declared, h.declared]
  powered := by rw [hb.powered, hb'.powered, h.powered]
  depth := by rw [hb.depth, hb'.depth, h.depth]
  plan := by rw [hb.plan, hb'.plan, h.plan]
  sparing := hb.sparing h.sparing
  count c hc := by rw [hb.count c hc, hb'.count c hc, h.count c hc]
  journal := by
    obtain ⟨before, hbefore, hbefore'⟩ := h.journal
    refine ⟨before ++ events, ?_, ?_⟩
    · rw [hb'.journal, hbefore, List.append_assoc]
    · rw [hb.journal, hbefore', List.flatMap_append, List.append_assoc]

theorem fails (h : Bitwise start b b') {c : Call} : b.meter.fails c = b'.meter.fails c := by
  unfold FaultMeter.fails
  -- The counts of transfers differ, since a byte counts for eight bits, but no transfer fails.
  cases hc : c.isTransfer with
  | true => rw [h.sparing c _ hc, h.sparing' c _ hc]
  | false => rw [h.plan, h.count c hc]

theorem tick (h : Bitwise start b b') (c : Call) :
    Bitwise start { b with meter := b.meter.tick c } { b' with meter := b'.meter.tick c } where
  line := h.line
  declared := h.declared
  powered := h.powered
  depth := h.depth
  plan := h.plan
  sparing := h.sparing
  count c' hc := by
    by_cases hne : c' = c
    · subst hne
      simp only [FaultMeter.count_tick_self, h.count c' hc]
    · simp only [FaultMeter.count_tick_of_ne _ hne, h.count c' hc]
  journal := h.journal

theorem note (h : Bitwise start b b') {e : Event} (he : e.bitwise = [e]) :
    Bitwise start (b.note e) (b'.note e) where
  line := h.line
  declared := h.declared
  powered := h.powered
  depth := h.depth
  plan := h.plan
  sparing := h.sparing
  count := h.count
  journal := by
    obtain ⟨events, hevents, hevents'⟩ := h.journal
    refine ⟨events ++ [e], ?_, ?_⟩
    · rw [Bench.note, Journal.toList_note, hevents, List.append_assoc]
    · rw [Bench.note, Journal.toList_note, hevents', List.flatMap_append, List.flatMap_singleton,
        he, List.append_assoc]

end Bitwise

/-! ## Calls -/

variable {start : List Event}

/-- Both refuse, or both do the same. -/
def Agree (start : List Event) : (r r' : Option (α × Event × Bench L)) → Prop
  | none, none => True
  | some (a, e, b), some (a', e', b') => a = a' ∧ e = e' ∧ e.bitwise = [e] ∧ Bitwise start b b'
  | _, _ => False

theorem mirrors_call (c : Call) {act : Bench L → Option (α × Event × Bench L)}
    (h : ∀ b b', Bitwise start b b' → Agree start (act b) (act b')) :
    (call c act).Mirrors (Bitwise start) (call c act) := by
  intro b b' hb
  unfold attempt call
  simp only [hb.fails (c := c)]
  cases b'.meter.fails c with
  | true => exact ⟨rfl, (hb.tick c).note rfl⟩
  | false =>
    have hagree := h _ _ (hb.tick c)
    revert hagree
    simp only [Bool.false_eq_true, if_false]
    cases act { b with meter := b.meter.tick c } with
    | none =>
      cases act { b' with meter := b'.meter.tick c } with
      | none => exact fun _ => ⟨rfl, (hb.tick c).note rfl⟩
      | some r => exact False.elim
    | some r =>
      cases act { b' with meter := b'.meter.tick c } with
      | none => exact False.elim
      | some r' =>
        rintro ⟨ha, he, hbitwise, hb'⟩
        simp only [ha, he, true_and]
        exact hb'.note (he ▸ hbitwise)

theorem mirrors_transfers {events events' : α → List Event} {effect : L → α × L}
    {act act' : Action Call (Bench L) α} (hact : Transfers events act)
    (hact' : Transfers events' act') (hdrives : act.Drives line effect)
    (hdrives' : act'.Drives line effect)
    (hevents : ∀ a, events a = (events' a).flatMap Event.bitwise) :
    act.Mirrors (Bitwise start) act' := by
  intro b b' h
  obtain ⟨a, b₁, hok, hmoved⟩ := (hact b h.sparing).returns
  obtain ⟨a', b₁', hok', hmoved'⟩ := (hact' b' h.sparing').returns
  obtain ⟨rfl, hline⟩ := (hdrives b).of_ok hok
  obtain ⟨rfl, hline'⟩ := (hdrives' b').of_ok hok'
  rw [attempt_of_ok hok, attempt_of_ok hok']
  rw [hevents] at hmoved
  rw [h.line] at hmoved hline ⊢
  exact ⟨rfl, h.moved hmoved hmoved' (hline.trans hline'.symm)⟩

variable [Wire L]

theorem slots_bitwise : (slots : Slots (Bench L) Call).Mirrors slots (Bitwise start) where
  reset := by
    simp only [slots]
    refine mirrors_call .reset fun b b' h => ?_
    rw [h.line]
    exact ⟨rfl, rfl, rfl, { h with line := rfl }⟩
  readBit := mirrors_transfers transfers_readBit transfers_readBit slots_drives.readBit
    slots_drives.readBit fun _ => rfl
  writeBit bit := mirrors_transfers (transfers_writeBit bit) (transfers_writeBit bit)
    (slots_drives.writeBit bit) (slots_drives.writeBit bit) fun _ => rfl
  lock := by
    simp only [slots]
    refine mirrors_call .lock fun b b' h => ?_
    rw [h.depth]
    exact ⟨rfl, rfl, rfl, { h with depth := rfl }⟩
  unlock := by
    simp only [slots]
    refine mirrors_call .unlock fun b b' h => ?_
    rw [h.depth]
    cases b'.depth with
    | zero => trivial
    | succ depth => exact ⟨rfl, rfl, rfl, { h with depth := rfl }⟩
  resume := by
    simp only [slots, setPower]
    refine mirrors_call .resume fun b b' h => ?_
    rw [h.powered]
    split
    · exact ⟨rfl, rfl, rfl, h⟩
    · exact ⟨rfl, rfl, rfl, { h with powered := rfl }⟩
  suspend := by
    simp only [slots, setPower]
    refine mirrors_call .suspend fun b b' h => ?_
    rw [h.powered]
    split
    · exact ⟨rfl, rfl, rfl, h⟩
    · exact ⟨rfl, rfl, rfl, { h with powered := rfl }⟩
  deviceCount h := h.declared

theorem hosts_bitwise : (bitHost : Host (Bench L) Call).Mirrors byteHost (Bitwise start) := by
  have hbytes : (slots : Slots (Bench L) Call).toByteMaster.Mirrors byteMaster (Bitwise start) :=
    { slots_bitwise with
      readByte := mirrors_transfers transfers_readByte_bits transfers_readByte
        bitHost_drives.readByte byteHost_drives.readByte fun byte => by simp [Event.bitwise]
      writeByte := fun byte => mirrors_transfers (transfers_writeBits byte.bits)
        (transfers_writeByte byte) (bitHost_drives.writeByte byte) (byteHost_drives.writeByte byte)
        fun _ => by simp [Event.bitwise] }
  exact { hbytes.toMaster with delay := fun ms _ _ h => h.note rfl }

/-! ## Sessions -/

/--
Whatever is done on benches where no transfer is to fail, the master that has only bits gets the
results of the one that has bytes, and leaves the line, the depth and the power in the same state.
Its journal is the other with each byte as its eight bits.
-/
theorem bits_agree_with_bytes (limit : Nat) (operations : List Operation)
    {s s₁ s₂ : Session (Bench L)} {outcomes₁ outcomes₂ : List (Outcome Call)}
    (hs : s.bus.Sparing) (hbits : Session.run bitHost limit operations s = (outcomes₁, s₁))
    (hbytes : Session.run byteHost limit operations s = (outcomes₂, s₂)) :
    outcomes₁ = outcomes₂ ∧ s₂ = s₁.on s₂.bus ∧ s₁.bus.line = s₂.bus.line ∧
      s₁.bus.depth = s₂.bus.depth ∧ s₁.bus.powered = s₂.bus.powered ∧
      ∃ events, s₂.bus.journal.toList = s.bus.journal.toList ++ events ∧
        s₁.bus.journal.toList = s.bus.journal.toList ++ events.flatMap Event.bitwise := by
  have hstart : Session.Alike (Bitwise s.bus.journal.toList) s s := ⟨s.bus, hs.bitwise, rfl⟩
  obtain ⟨houtcomes, bus, hbus, hsession⟩ := hosts_bitwise.run limit operations hstart
  rw [hbits, hbytes] at houtcomes hsession
  rw [hbits] at hbus
  subst hsession
  exact ⟨houtcomes, rfl, hbus.line, hbus.depth, hbus.powered, hbus.journal⟩

/-- Two devices. The second reset and the power-down fail. -/
def shaky : Session (Bench Line) where
  bus :=
    { line := .ofDevices [{ rom := .ofWireBits 0x19, data := [0xA5] }, { rom := .ofWireBits 6 }]
      meter := { plan := fun c n => c == .reset && n == 1 || c == .suspend }
      declared := 2 }

theorem bits_agree_with_bytes_shaky :
    let operations : List Operation := [.session .acquire, .session (.scan fun _ _ => true),
      .session (.exchange (.ofWireBits 0x19) [1, 2] (.replicate 2 0)), .bus .readByte,
      .session .release]
    ∃ outcomes s₁ s₂, Session.run bitHost 2 operations shaky = (outcomes, s₁) ∧
      Session.run byteHost 2 operations shaky = (outcomes, s₂) ∧
      s₁.bus.line = s₂.bus.line ∧
      s₁.bus.journal.toList = s₂.bus.journal.toList.flatMap Event.bitwise := by
  intro operations
  have hs : shaky.bus.Sparing := by
    intro c n hc
    cases c <;> first | rfl | contradiction
  generalize hbits : Session.run bitHost 2 operations shaky = r₁
  generalize hbytes : Session.run byteHost 2 operations shaky = r₂
  obtain ⟨outcomes₁, s₁⟩ := r₁
  obtain ⟨outcomes₂, s₂⟩ := r₂
  obtain ⟨rfl, -, hline, -, -, events, hjournal₂, hjournal₁⟩ :=
    bits_agree_with_bytes 2 operations hs hbits hbytes
  refine ⟨outcomes₁, s₁, s₂, rfl, rfl, hline, ?_⟩
  rw [hjournal₁, hjournal₂]
  rfl

end OneWire.Bench
