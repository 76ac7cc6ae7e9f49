import OneWire.Proofs.Bench.Drive
import OneWire.Proofs.Session.Depth

/-!
# The bench counts its locks
-/

namespace OneWire.Bench

variable {L α : Type}

theorem depth_setPower (powered : Bool) (b : Bench L) : (b.setPower powered).2.depth = b.depth := by
  unfold setPower
  split <;> rfl

theorem keeps_field {β : Type} {f : Bench L → β} (hmeter : ∀ b meter, f { b with meter } = f b)
    (hjournal : ∀ b journal, f { b with journal } = f b) {c : Call}
    {act : Bench L → Option (α × Event × Bench L)}
    (h : ∀ b a e b', act b = some (a, e, b') → f b' = f b) (x : β) :
    (call c act).Keeps fun b => f b = x := by
  intro b hb
  refine ensures_call (fun a e b' hact => ?_) fun _ => ?_
  · exact (hjournal _ _).trans ((h _ a e b' hact).trans ((hmeter b _).trans hb))
  · exact (hjournal _ _).trans ((hmeter b _).trans hb)

theorem keeps_depth {c : Call} {act : Bench L → Option (α × Event × Bench L)}
    (h : ∀ b a e b', act b = some (a, e, b') → b'.depth = b.depth) (n : Nat) :
    (call c act).Keeps fun b => b.depth = n :=
  keeps_field (fun _ _ => rfl) (fun _ _ => rfl) h n

theorem keeps_powered {c : Call} {act : Bench L → Option (α × Event × Bench L)}
    (h : ∀ b a e b', act b = some (a, e, b') → b'.powered = b.powered) (on : Bool) :
    (call c act).Keeps fun b => b.powered = on :=
  keeps_field (fun _ _ => rfl) (fun _ _ => rfl) h on

variable [Wire L]

theorem bitHost_readBit_depth (n : Nat) :
    (bitHost : Host (Bench L) Call).readBit.Keeps fun b => b.depth = n := by
  simp only [bitHost, Slots.toMaster, Slots.toByteMaster, ByteMaster.toMaster, slots]
  exact keeps_depth (by rintro _ _ _ _ ⟨⟩; rfl) n

theorem bitHost_writeBit_depth (n : Nat) (bit : Bool) :
    ((bitHost : Host (Bench L) Call).writeBit bit).Keeps fun b => b.depth = n := by
  simp only [bitHost, Slots.toMaster, Slots.toByteMaster, ByteMaster.toMaster, slots]
  exact keeps_depth (by rintro _ _ _ _ ⟨⟩; rfl) n

theorem bitHost_readByte_depth (n : Nat) :
    (bitHost : Host (Bench L) Call).readByte.Keeps fun b => b.depth = n :=
  Slots.readByte_keeps (bitHost_readBit_depth n)

theorem bitHost_writeByte_depth (n : Nat) (byte : Byte) :
    ((bitHost : Host (Bench L) Call).writeByte byte).Keeps fun b => b.depth = n :=
  Slots.writeByte_keeps (bitHost_writeBit_depth n) byte

theorem bitHost_counts : (bitHost : Host (Bench L) Call).Counts depth where
  lock b := by
    simp only [bitHost, Slots.toMaster, Slots.toByteMaster, ByteMaster.toMaster, slots]
    exact ensures_call (by rintro _ _ _ ⟨⟩; rfl) fun _ => rfl
  unlock b := by
    simp only [bitHost, Slots.toMaster, Slots.toByteMaster, ByteMaster.toMaster, slots]
    refine ensures_call (fun a e b' hact => ?_) fun _ => rfl
    split at hact
    · contradiction
    · rename_i n hn
      cases hact
      exact hn.symm
  reset := by
    simp only [bitHost, Slots.toMaster, Slots.toByteMaster, ByteMaster.toMaster, slots]
    exact keeps_depth (by rintro _ _ _ _ ⟨⟩; rfl)
  readBit := bitHost_readBit_depth
  writeBit bit n := bitHost_writeBit_depth n bit
  readByte := bitHost_readByte_depth
  writeByte byte n := bitHost_writeByte_depth n byte
  readBlock k n := ByteMaster.readBlock_keeps (bitHost_readByte_depth n) k
  writeBlock data n := ByteMaster.writeBlock_keeps (bitHost_writeByte_depth n) data
  resume := by
    simp only [bitHost, Slots.toMaster, Slots.toByteMaster, ByteMaster.toMaster, slots]
    exact keeps_depth (by rintro b _ _ _ ⟨⟩; exact depth_setPower true b)
  suspend := by
    simp only [bitHost, Slots.toMaster, Slots.toByteMaster, ByteMaster.toMaster, slots]
    exact keeps_depth (by rintro b _ _ _ ⟨⟩; exact depth_setPower false b)
  delay _ _ := rfl

end OneWire.Bench
