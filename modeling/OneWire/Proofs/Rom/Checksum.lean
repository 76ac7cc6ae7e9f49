import OneWire.Proofs.Crc8.Detection
import OneWire.Rom

/-!
# What the checksum identifies

A byte behind some data makes the checksum zero only if it is the checksum of the data. So each
family and serial number have one valid identifier.
-/

namespace OneWire

namespace Crc8

theorem shifts_xor (n : Nat) (a b : Byte) : shifts n (a ^^^ b) = shifts n a ^^^ shifts n b := by
  induction n generalizing a b with
  | zero => rfl
  | succ n ih => rw [shifts, shift_xor, ih, shifts, shifts]

theorem absorb_xor (r r' a b : Byte) :
    absorb (r ^^^ r') (a ^^^ b) = absorb r a ^^^ absorb r' b := by
  unfold absorb
  rw [← shifts_xor]
  congr 1
  ac_rfl

theorem absorb_eq_zero_iff (register byte : Byte) : absorb register byte = 0 ↔ byte = register := by
  unfold absorb
  rw [shifts_eq_zero_iff]
  exact BitVec.xor_eq_zero_iff.trans eq_comm

theorem checksum_concat_eq_zero_iff (data : List Byte) (c : Byte) :
    checksum (data ++ [c]) = 0 ↔ c = checksum data := by
  rw [checksum_concat, absorb_eq_zero_iff]

-- The digits 1 to 9 and their checksum, the usual check value.
example :
    checksum ([0x31, 0x32, 0x33, 0x34, 0x35, 0x36, 0x37, 0x38, 0x39] ++ [0xA1]) = 0 := by
  decide +kernel

theorem checksum_zipWith_xor {a b : List Byte} (h : a.length = b.length) :
    checksum (List.zipWith (· ^^^ ·) a b) = checksum a ^^^ checksum b := by
  suffices ∀ r r', (List.zipWith (· ^^^ ·) a b).foldl absorb (r ^^^ r') =
      a.foldl absorb r ^^^ b.foldl absorb r' from this 0 0
  induction a generalizing b with
  | nil =>
    obtain rfl := List.length_eq_zero_iff.1 h.symm
    exact fun _ _ => rfl
  | cons x a ih =>
    obtain ⟨y, b, rfl⟩ := List.exists_cons_of_length_eq_add_one h.symm
    intro r r'
    rw [List.zipWith_cons_cons, List.foldl_cons, absorb_xor, ih (by simpa using h)]
    rfl

end Crc8

namespace Rom

theorem isValid_iff_crc (r : Rom) :
    r.isValid = true ↔ r.crc = Crc8.checksum (r.family :: r.serial.toList) := by
  unfold isValid
  rw [beq_iff_eq, toList_toBytes_eq, Crc8.checksum_concat_eq_zero_iff]

theorem isValid_issue (family : Byte) (serial : Vector Byte 6) :
    (issue family serial).isValid = true :=
  (isValid_iff_crc _).2 rfl

theorem eq_issue_of_isValid {r : Rom} (h : r.isValid = true) : r = issue r.family r.serial := by
  rw [isValid_iff_crc] at h
  unfold issue
  rw [← h]

/--
Data with a byte behind it have the checksum zero exactly if that byte is the checksum of the data,
and the checksum of a sum is the sum of the checksums. So an identifier is valid exactly if it
carries the checksum of its family and serial number, and those have one valid identifier.
-/
theorem checksum_identifies :
    (∀ (data : List Byte) (c : Byte),
        Crc8.checksum (data ++ [c]) = 0 ↔ c = Crc8.checksum data) ∧
      (∀ a b : List Byte, a.length = b.length →
        Crc8.checksum (List.zipWith (· ^^^ ·) a b) = Crc8.checksum a ^^^ Crc8.checksum b) ∧
      (∀ r : Rom, r.isValid = true ↔ r.crc = Crc8.checksum (r.family :: r.serial.toList)) ∧
      ∀ (family : Byte) (serial : Vector Byte 6) (r : Rom),
        r.isValid = true ∧ r.family = family ∧ r.serial = serial ↔ r = issue family serial := by
  refine ⟨Crc8.checksum_concat_eq_zero_iff, fun _ _ => Crc8.checksum_zipWith_xor, isValid_iff_crc,
    fun family serial r => ⟨?_, ?_⟩⟩
  · rintro ⟨hvalid, rfl, rfl⟩
    exact eq_issue_of_isValid hvalid
  · rintro rfl
    exact ⟨isValid_issue family serial, rfl, rfl⟩

end Rom

end OneWire
