import OneWire.Bench.Master
import OneWire.Line.Recording
import OneWire.Master.Addressing
import OneWire.Proofs.Action
import OneWire.Proofs.Crc8.Detection
import OneWire.Proofs.Rom.WireBits

/-!
# Damaged identifiers

An intact identifier has no valid checksum any more when an odd number of its wire bits is wrong, or
two of them, or any within eight in a row. READ ROM refuses what arrives so.
-/

namespace OneWire

/-! ## Errors -/

theorem getElem_wireBits (n : BitVec 64) {i : Nat} (hi : i < (wireBits n).length) :
    (wireBits n)[i] = n.getLsbD i := by
  simp [wireBits]

theorem wireBits_xor (m n : BitVec 64) :
    wireBits (m ^^^ n) = List.zipWith (· ^^ ·) (wireBits m) (wireBits n) := by
  simp [wireBits]

theorem true_mem_wireBits {n : BitVec 64} (h : n ≠ 0) : true ∈ wireBits n := by
  by_contra hnone
  apply h
  apply BitVec.eq_of_getLsbD_eq
  intro i hi
  have hmem : n.getLsbD i ∈ wireBits n := List.mem_map_of_mem (List.mem_range.2 hi)
  cases hbit : n.getLsbD i
  · simp
  · exact absurd (hbit ▸ hmem) hnone

namespace Crc8

theorem absorbBits_wireBits_ne_zero {e : BitVec 64} {i : Nat} (hne : e ≠ 0)
    (h : ∀ j, e.getLsbD j = true → i ≤ j ∧ j < i + 8) : absorbBits 0 (wireBits e) ≠ 0 := by
  have hsplit : wireBits e =
      (wireBits e).take i ++ ((wireBits e).drop i).take 8 ++ (wireBits e).drop (i + 8) := by
    rw [List.append_assoc, ← List.drop_drop, List.take_append_drop, List.take_append_drop]
  have hbefore : true ∉ (wireBits e).take i := by
    intro hmem
    obtain ⟨j, hj, hbit⟩ := List.mem_take_iff_getElem.1 hmem
    rw [getElem_wireBits] at hbit
    have := h j hbit
    omega
  have hafter : true ∉ (wireBits e).drop (i + 8) := by
    intro hmem
    obtain ⟨j, hj, hbit⟩ := List.mem_drop_iff_getElem.1 hmem
    rw [getElem_wireBits] at hbit
    have := h _ hbit
    omega
  have hburst : true ∈ ((wireBits e).drop i).take 8 := by
    have hmem := true_mem_wireBits hne
    rw [hsplit, List.mem_append, List.mem_append] at hmem
    tauto
  rw [hsplit]
  apply absorbBits_ne_zero_of_burst hbefore _ hburst hafter
  exact List.length_take_le _ _

end Crc8

namespace Rom

/-- The identifier that arrives when the wire bits in `e` are wrong. -/
def flip (r : Rom) (e : BitVec 64) : Rom :=
  .ofWireBits (r.toWireBits ^^^ e)

theorem isValid_iff (r : Rom) : r.isValid = true ↔ Crc8.absorbBits 0 r.wireBits = 0 := by
  unfold isValid
  rw [beq_iff_eq, Crc8.checksum_eq_absorbBits, flatMap_bits_toBytes]

theorem wireBits_flip (r : Rom) (e : BitVec 64) :
    (r.flip e).wireBits = List.zipWith (· ^^ ·) r.wireBits (OneWire.wireBits e) := by
  unfold flip
  rw [wireBits_ofWireBits, wireBits_xor, ← wireBits]

theorem isValid_flip_iff {r : Rom} (hr : r.isValid = true) (e : BitVec 64) :
    (r.flip e).isValid = true ↔ Crc8.absorbBits 0 (OneWire.wireBits e) = 0 := by
  have hlength : r.wireBits.length = (OneWire.wireBits e).length := by simp
  have hlinear := Crc8.absorbBits_zipWith_xor 0 0 hlength
  rw [isValid_iff] at hr
  rw [hr] at hlinear
  rw [isValid_iff, wireBits_flip]
  simp only [BitVec.ofNat_eq_ofNat, BitVec.xor_self, BitVec.zero_xor] at hlinear ⊢
  rw [hlinear]

end Rom

/-! ## READ ROM -/

theorem Master.readRom_of_invalid {σ ε : Type} (bus : Master σ ε) {rom : Rom}
    (hrom : rom.isValid = false) {s s₁ s₂ s₃ s₄ : σ} (hlock : bus.lock s = .ok () s₁)
    (hreset : bus.reset s₁ = .ok true s₂)
    (hcommand : bus.writeByte Command.readRom.code s₂ = .ok () s₃)
    (hread : bus.readBlock Rom.size (s₃, .replicate Rom.size 0) = .ok () (s₄, rom.toBytes)) :
    bus.readRom s = .error .checksumMismatch (bus.unlock.attempt s₄).2 := by
  have hbody : (do
      bus.expectPresence
      bus.issue .readRom
      let rom := Rom.ofBytes (← (bus.receive Rom.size).onBus)
      if rom.isValid then pure rom else throw .checksumMismatch :
        Action (Error ε) σ Rom) s₁ = .error .checksumMismatch s₄ := by
    have hpresence : bus.expectPresence s₁ = .ok () s₂ := by
      unfold expectPresence Action.onBus
      simp only [bind, EStateM.bind, hreset]
      rfl
    have hissue : bus.issue .readRom s₂ = .ok () s₃ := by
      unfold issue Action.onBus
      simp only [hcommand]
    have hbytes : (bus.receive Rom.size).onBus s₃ = .ok rom.toBytes s₄ := by
      unfold receive Action.filling Action.onBus
      simp only [hread]
    simp only [bind, EStateM.bind, hpresence, hissue, hbytes, Rom.ofBytes_toBytes, hrom]
    rfl
  unfold readRom whileLocked Action.between
  simp only [hlock, hbody]
  unfold Action.attempt
  cases hunlock : bus.unlock s₄ <;> rfl

/--
The bytes that arrive differ on the wire where `e` is set. An intact identifier is not valid any
more when an odd number of its wire bits is wrong, or two, or any within eight in a row. If it
arrives so, READ ROM fails with a checksum error.
-/
theorem damage_detected {r : Rom} (hr : r.isValid = true) {e : BitVec 64}
    (he : Odd ((wireBits e).count true) ∨ (wireBits e).count true = 2 ∨
      e ≠ 0 ∧ ∃ i, ∀ j, e.getLsbD j = true → i ≤ j ∧ j < i + 8) :
    (r.flip e).toBytes.toList.flatMap Byte.bits =
        List.zipWith (· ^^ ·) (r.toBytes.toList.flatMap Byte.bits) (wireBits e) ∧
      (r.flip e).isValid = false ∧
      ∀ {σ ε : Type} (bus : Master σ ε) {s s₁ s₂ s₃ s₄ : σ}, bus.lock s = .ok () s₁ →
        bus.reset s₁ = .ok true s₂ → bus.writeByte Command.readRom.code s₂ = .ok () s₃ →
        bus.readBlock Rom.size (s₃, .replicate Rom.size 0) =
          .ok () (s₄, (r.flip e).toBytes) →
        bus.readRom s = .error .checksumMismatch (bus.unlock.attempt s₄).2 := by
  have hwire : (r.flip e).toBytes.toList.flatMap Byte.bits =
      List.zipWith (· ^^ ·) (r.toBytes.toList.flatMap Byte.bits) (wireBits e) := by
    rw [Rom.flatMap_bits_toBytes, Rom.flatMap_bits_toBytes, Rom.wireBits_flip]
  have hinvalid : (r.flip e).isValid = false := by
    rw [← Bool.not_eq_true, Rom.isValid_flip_iff hr]
    rcases he with hodd | htwo | ⟨hne, i, hburst⟩
    · exact Crc8.absorbBits_ne_zero_of_odd hodd
    · exact Crc8.absorbBits_ne_zero_of_two (by simp [Rom.width]) htwo
    · exact Crc8.absorbBits_wireBits_ne_zero hne hburst
  exact ⟨hwire, hinvalid, fun bus _ _ _ _ _ hlock hreset hcommand hread =>
    bus.readRom_of_invalid hinvalid hlock hreset hcommand hread⟩

/-- The identifier of a thermometer. -/
def thermometer : Rom := .issue 0x28 #v[0x01, 0x23, 0x45, 0x67, 0x89, 0x00]

/-- A bench on which the identifier of the thermometer arrives with the wire bits of `e` wrong. -/
def damagedBench (e : BitVec 64) : Bench Recording where
  line := ⟨[true], (thermometer.flip e).wireBits⟩
  meter := ⟨fun _ _ => false, []⟩
  declared := 1

/-- Four wrong bits within eight, which cross from one byte into the next. -/
theorem damage_detected_thermometer :
    thermometer.isValid = true ∧ (thermometer.flip 0x2980).isValid = false ∧
      (Bench.byteHost.readRom.attempt (damagedBench 0x2980)).1 = .error .checksumMismatch := by
  have hvalid : thermometer.isValid = true := by decide +kernel
  have hbits : ∀ j < 64, (0x2980 : BitVec 64).getLsbD j = true → 7 ≤ j ∧ j < 7 + 8 := by decide
  obtain ⟨-, hinvalid, hread⟩ := damage_detected hvalid
    (.inr (.inr ⟨by decide, 7, fun j hj => hbits j (BitVec.lt_of_getLsbD hj) hj⟩))
  refine ⟨hvalid, hinvalid, ?_⟩
  let bus : Master (Bench Recording) Bench.Call := Bench.byteHost.toMaster
  let s₁ := (bus.lock.attempt (damagedBench 0x2980)).2
  let s₂ := (bus.reset.attempt s₁).2
  let s₃ := ((bus.writeByte Command.readRom.code).attempt s₂).2
  have hlock : bus.lock (damagedBench 0x2980) = .ok () s₁ :=
    Action.eq_ok_of_attempt (by decide +kernel)
  have hreset : bus.reset s₁ = .ok true s₂ := Action.eq_ok_of_attempt (by decide +kernel)
  have hcommand : bus.writeByte Command.readRom.code s₂ = .ok () s₃ :=
    Action.eq_ok_of_attempt (by decide +kernel)
  have hfilled := Action.eq_ok_of_attempt_beside (bus.readBlock Rom.size)
    (p := (s₃, .replicate Rom.size 0)) (a := ()) (b := (thermometer.flip 0x2980).toBytes)
    (by decide +kernel) (by decide +kernel)
  exact congrArg Prod.fst (Action.attempt_of_error (hread bus hlock hreset hcommand hfilled))

end OneWire
