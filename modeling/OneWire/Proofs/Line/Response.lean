import OneWire.Proofs.Search.Addressing

/-!
# What the selected device sends

Once one device is selected, each read gives the next bit of its data and each write is lost. MATCH
ROM selects a device among others, and SKIP ROM the only one.
-/

namespace OneWire

/-- Byte `i` of what the device sends once selected; all ones past the end. -/
def Device.dataByte (d : Device) (i : Nat) : Byte :=
  d.data[i]?.getD 0xFF

def Device.response (d : Device) (n : Nat) : Vector Byte n :=
  .ofFn fun i => d.dataByte i

theorem Device.bits_dataByte (d : Device) (i : Nat) :
    (d.dataByte i).bits = (List.range 8).map fun j => d.dataBit (8 * i + j) := by
  have hbit (k : Nat) : d.dataBit k = (d.dataByte (k / 8)).getLsbD (k % 8) := by
    have hones : (BitVec.allOnes 8).getLsbD (k % 8) = true := by
      rw [BitVec.getLsbD_allOnes]
      exact decide_eq_true (Nat.mod_lt k (by omega))
    unfold dataBit dataByte
    cases d.data[k / 8]? with
    | some b => rfl
    | none => exact hones.symm
  simp only [hbit]
  exact Byte.bits_eq d.dataByte i

/-- The bytes that select `rom` on a board that declares `count` devices. -/
def Rom.selection (count : Nat) (rom : Rom) : List Byte :=
  if count > 1 then Command.matchRom.code :: rom.toBytes.toList else [Command.skipRom.code]

namespace Line

/-! ## Slots -/

/-- Just `d` is selected, and bit `i` is the next it sends. -/
structure Sends (d : Device) (i : Nat) (line : Line) : Prop where
  mode : line.mode = .selected i
  active : line.activeDevices = [d]

theorem level_active (line : Line) (bit : Device → Bool) :
    level line.nodes (·.active) (fun node => bit node.device) = line.activeDevices.all bit := by
  unfold level activeDevices
  rw [List.all_map, List.all_filter]
  rfl

variable {d : Device} {i : Nat} {line : Line}

theorem Sends.writeBits (h : line.Sends d i) (bs : List Bool) : Wire.writeBits bs line = line := by
  induction bs with
  | nil => rfl
  | cons b bs ih =>
    have hwrite : Wire.write b line = line := by
      change write b line = line
      unfold write
      rw [h.mode]
    rw [Wire.writeBits, hwrite, ih]

theorem Sends.read (h : line.Sends d i) :
    (Wire.read line).1 = d.dataBit i ∧ (Wire.read line).2.Sends d (i + 1) := by
  have hread : Wire.read line = (level line.nodes (·.active) (·.device.dataBit i),
      { line with mode := .selected (i + 1) }) := by
    change Line.read line = _
    unfold Line.read
    rw [h.mode]
  rw [hread]
  constructor
  · rw [level_active line (·.dataBit i), h.active]
    simp
  · exact ⟨rfl, h.active⟩

theorem Sends.readByte (h : line.Sends d (8 * i)) :
    (Wire.readByte line).1 = d.dataByte i ∧ (Wire.readByte line).2.Sends d (8 * (i + 1)) := by
  obtain ⟨hbits, hnext⟩ := Wire.readBits_of_reads (n := 8) (fun _ _ _ => Sends.read) h
  refine ⟨?_, hnext⟩
  change Byte.ofBits (Wire.readBits 8 line).1 = d.dataByte i
  rw [hbits, ← d.bits_dataByte i, Byte.ofBits_bits]

/-! ## Selection -/

theorem skipped_sends (hleft : line.resetsLeft ≠ some 0) (honly : line.devices = [d]) :
    (Wire.writeByte Command.skipRom.code (Wire.reset line).2).Sends d 0 := by
  have hreset : (Wire.reset line).2 = (reset line).2 := rfl
  rw [hreset, reset_snd hleft, writeByte_command rfl]
  refine ⟨rfl, ?_⟩
  unfold devices at honly
  simp [obey, activeDevices, List.filter_map, Function.comp_def, honly]

theorem matched_sends (hleft : line.resetsLeft ≠ some 0)
    (hdistinct : (line.devices.map (·.rom)).Nodup) (hd : d ∈ line.devices) :
    (Wire.writeBits d.rom.wireBits
      (Wire.writeByte Command.matchRom.code (Wire.reset line).2)).Sends d 0 := by
  have hselected := selected_matching line d.rom
  rw [writeBits_matching hleft (by simp)]
  rw [← devices_matching d.rom.wireBits line] at hdistinct hd
  exact ⟨hselected.mode, hselected.activeDevices_of_mem hdistinct hd⟩

theorem selection_sends (hleft : line.resetsLeft ≠ some 0)
    (hdistinct : (line.devices.map (·.rom)).Nodup) {count : Nat}
    (hfew : line.devices.length ≤ max 1 count) (hd : d ∈ line.devices) :
    (Wire.writeBits ((d.rom.selection count).flatMap Byte.bits) (Wire.reset line).2).Sends d 0 := by
  unfold Rom.selection
  split
  · rw [List.flatMap_cons, Wire.writeBits_append, Rom.flatMap_bits_toBytes]
    exact matched_sends hleft hdistinct hd
  · have honly : line.devices = [d] := by
      have hlength : line.devices.length ≤ 1 := by omega
      obtain ⟨d', hd'⟩ := List.length_eq_one_iff.1
        (hlength.antisymm (List.length_pos_of_mem hd))
      rw [hd', List.mem_singleton] at hd
      rw [hd', hd]
    rw [List.flatMap_singleton]
    exact skipped_sends hleft honly

theorem reset_fst_iff (hleft : line.resetsLeft ≠ some 0) :
    (Wire.reset line).1 = true ↔ line.devices ≠ [] := by
  have hreset : (Wire.reset line).1 = (reset line).1 := rfl
  rw [hreset, reset_fst hleft]
  simp [devices]

theorem reset_fst_of_mem (hleft : line.resetsLeft ≠ some 0) (hd : d ∈ line.devices) :
    (Wire.reset line).1 = true :=
  (reset_fst_iff hleft).2 (List.ne_nil_of_mem hd)

theorem reset_fst_of_nil (hnone : line.devices = []) : (Wire.reset line).1 = false := by
  have hreset : (Wire.reset line).1 = (reset line).1 := rfl
  have hnodes : line.nodes = [] := by simpa [devices] using hnone
  rw [hreset]
  unfold reset
  split
  · rfl
  · simp [hnodes]

end Line

end OneWire
