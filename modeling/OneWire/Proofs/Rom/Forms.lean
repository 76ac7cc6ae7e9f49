import OneWire.Proofs.Rom.WireBits

/-!
# The forms of an identifier

The bytes, the number and the wire bits are three forms of one identifier. The number has its bytes
in the opposite order of the wire bits, so what comes first on the wire weighs most in it. That is
why identifiers are ordered as their numbers are.
-/

namespace OneWire

/-! ## The opposite order of bytes -/

/-- The number with its eight bytes in the opposite order. -/
def swapBytes (n : BitVec 64) : BitVec 64 :=
  appendBytes (byteAt n)

theorem getLsbD_swapBytes (n : BitVec 64) {i : Nat} (hi : i < 64) :
    (swapBytes n).getLsbD i = n.getLsbD (8 * (7 - i / 8) + i % 8) := by
  rw [swapBytes, getLsbD_appendBytes _ hi, getLsbD_byteAt n _ (Nat.mod_lt i (by omega))]

theorem byteAt_swapBytes (n : BitVec 64) {k : Nat} (hk : k < 8) :
    byteAt (swapBytes n) k = byteAt n (7 - k) := by
  apply BitVec.eq_of_getLsbD_eq
  intro j hj
  have hdiv : (8 * k + j) / 8 = k := by omega
  have hmod : (8 * k + j) % 8 = j := by omega
  rw [getLsbD_byteAt _ k hj, getLsbD_swapBytes n (by omega), hdiv, hmod, getLsbD_byteAt n _ hj]

theorem swapBytes_swapBytes (n : BitVec 64) : swapBytes (swapBytes n) = n := by
  apply BitVec.eq_of_getLsbD_eq
  intro i hi
  have hback : 8 * (7 - (8 * (7 - i / 8) + i % 8) / 8) + (8 * (7 - i / 8) + i % 8) % 8 = i := by
    omega
  rw [getLsbD_swapBytes _ hi, getLsbD_swapBytes n (by omega), hback]

/-! ## The order of sequences -/

theorem compare_append_of_length_eq {l l' : List Byte} (h : l.length = l'.length)
    (m m' : List Byte) :
    compare (l ++ m) (l' ++ m') = (compare l l').then (compare m m') := by
  induction l generalizing l' with
  | nil =>
    obtain rfl := List.length_eq_zero_iff.1 h.symm
    rfl
  | cons b l ih =>
    obtain ⟨b', l', rfl⟩ := List.exists_cons_of_length_eq_add_one h.symm
    rw [List.cons_append, List.cons_append, List.compare_cons_cons, List.compare_cons_cons,
      ih (by simpa using h), Ordering.then_assoc]

theorem compare_toNat {w : Nat} (a b : BitVec w) : compare a.toNat b.toNat = compare a b := by
  simp only [compare, compareOfLessAndEq, BitVec.lt_def, BitVec.toNat_inj]

theorem radix_lt {base q q' r r' : Nat} (hr : r < base) (hq : q < q') :
    base * q + r < base * q' + r' :=
  calc base * q + r
      < base * q + base := Nat.add_lt_add_left hr _
    _ = base * (q + 1) := (Nat.mul_succ base q).symm
    _ ≤ base * q' := Nat.mul_le_mul_left base hq
    _ ≤ base * q' + r' := Nat.le_add_right _ _

theorem compare_radix {base q q' r r' : Nat} (hr : r < base) (hr' : r' < base) :
    compare (base * q + r) (base * q' + r') = (compare q q').then (compare r r') := by
  rcases Nat.lt_trichotomy q q' with hq | rfl | hq
  · rw [Nat.compare_eq_lt.2 hq, Nat.compare_eq_lt.2 (radix_lt hr hq), Ordering.lt_then]
  · rw [Nat.compare_eq_eq.2 rfl, Ordering.eq_then]
    simp only [compare, compareOfLessAndEq, Nat.add_lt_add_iff_left, Nat.add_left_cancel_iff]
  · rw [Nat.compare_eq_gt.2 hq, Nat.compare_eq_gt.2 (radix_lt hr' hq), Ordering.gt_then]

theorem toNat_append_eq_add {m n : Nat} (high : BitVec m) (low : BitVec n) :
    (high ++ low).toNat = 2 ^ n * high.toNat + low.toNat := by
  rw [BitVec.toNat_append, ← Nat.shiftLeft_add_eq_or_of_lt low.isLt, Nat.shiftLeft_eq, Nat.mul_comm]

theorem compare_append {m n : Nat} (high high' : BitVec m) (low low' : BitVec n) :
    compare (high ++ low) (high' ++ low') = (compare high high').then (compare low low') := by
  rw [← compare_toNat, toNat_append_eq_add, toNat_append_eq_add, compare_radix low.isLt low'.isLt,
    compare_toNat, compare_toNat]

theorem compare_appendBytes (b b' : Nat → Byte) :
    compare (appendBytes b) (appendBytes b') =
      compare ((List.range 8).map b) ((List.range 8).map b') := by
  -- The law of appends wants the width as a sum.
  change @compare (BitVec (8 + 8 + 8 + 8 + 8 + 8 + 8 + 8)) _ (appendBytes b) (appendBytes b') =
    compare [b 0, b 1, b 2, b 3, b 4, b 5, b 6, b 7] [b' 0, b' 1, b' 2, b' 3, b' 4, b' 5, b' 6, b' 7]
  simp only [appendBytes, compare_append, List.compare_cons_cons, List.compare_nil_nil,
    Ordering.then_assoc, Ordering.then_eq]

namespace Rom

/-! ## The number and the wire bits -/

theorem toNumber_eq (r : Rom) : r.toNumber = swapBytes r.toWireBits := by
  have hbytes : byteAt r.toWireBits = r.byte := funext r.byteAt_toWireBits
  rw [swapBytes, hbytes]
  rfl

theorem ofNumber_eq (n : BitVec 64) : ofNumber n = ofWireBits (swapBytes n) := by
  unfold ofNumber ofWireBits
  congr 2
  funext i
  exact (byteAt_swapBytes n i.isLt).symm

theorem toNumber_ofNumber (n : BitVec 64) : (ofNumber n).toNumber = n := by
  rw [ofNumber_eq, toNumber_eq, toWireBits_ofWireBits, swapBytes_swapBytes]

theorem ofNumber_toNumber (r : Rom) : ofNumber r.toNumber = r := by
  rw [ofNumber_eq, toNumber_eq, swapBytes_swapBytes, ofWireBits_toWireBits]

/-! ## The order of identifiers -/

theorem compare_def (a b : Rom) : compare a b = (compare a.family b.family).then
    ((compare a.serial.toList b.serial.toList).then (compare a.crc b.crc)) := rfl

theorem compare_eq_compare_toBytes (a b : Rom) :
    compare a b = compare a.toBytes.toList b.toBytes.toList := by
  have hlength : a.serial.toList.length = b.serial.toList.length := by simp
  rw [toList_toBytes_eq, toList_toBytes_eq, List.cons_append, List.cons_append,
    List.compare_cons_cons, compare_append_of_length_eq hlength, List.compare_cons_cons,
    List.compare_nil_nil, Ordering.then_eq, compare_def]

theorem compare_eq_compare_toNumber (a b : Rom) :
    compare a b = compare a.toNumber.toNat b.toNumber.toNat := by
  calc compare a b
      = compare a.toBytes.toList b.toBytes.toList := compare_eq_compare_toBytes a b
    _ = compare ((List.range 8).map a.byte) ((List.range 8).map b.byte) := by
      rw [toList_toBytes, toList_toBytes]
    _ = compare a.toNumber b.toNumber := (compare_appendBytes a.byte b.byte).symm
    _ = compare a.toNumber.toNat b.toNumber.toNat := (compare_toNat _ _).symm

theorem lt_iff_toNumber_lt (a b : Rom) : a < b ↔ a.toNumber.toNat < b.toNumber.toNat := by
  change compare a b = .lt ↔ _
  rw [compare_eq_compare_toNumber, Nat.compare_eq_lt]

theorem le_iff_toNumber_le (a b : Rom) : a ≤ b ↔ a.toNumber.toNat ≤ b.toNumber.toNat := by
  change (compare a b).isLE = true ↔ _
  rw [compare_eq_compare_toNumber, Nat.isLE_compare]

/--
Bytes, number and wire bits each give back the identifier, and every eight bytes and every 64 bits
are a form of one. Wire bit `i` is bit `i % 8` of wire byte `i / 8`, the number has the bytes of the
wire bits in the opposite order, and identifiers are ordered as their numbers are.
-/
theorem forms_agree :
    (∀ r : Rom, ofBytes r.toBytes = r ∧ ofNumber r.toNumber = r ∧ ofWireBits r.toWireBits = r) ∧
      (∀ b : Vector Byte size, (ofBytes b).toBytes = b) ∧
      (∀ n : BitVec 64, (ofNumber n).toNumber = n ∧ (ofWireBits n).toWireBits = n) ∧
      (∀ (r : Rom) (i : Fin width), r.toWireBits.getLsbD i =
        (r.toBytes.get ⟨i / 8, Nat.div_lt_of_lt_mul i.isLt⟩).getLsbD (i % 8)) ∧
      (∀ r : Rom, r.toNumber = swapBytes r.toWireBits) ∧
      ∀ a b : Rom, compare a b = compare a.toNumber.toNat b.toNumber.toNat ∧
        (a < b ↔ a.toNumber.toNat < b.toNumber.toNat) ∧
        (a ≤ b ↔ a.toNumber.toNat ≤ b.toNumber.toNat) := by
  refine ⟨fun r => ⟨ofBytes_toBytes r, ofNumber_toNumber r, ofWireBits_toWireBits r⟩,
    toBytes_ofBytes, fun n => ⟨toNumber_ofNumber n, toWireBits_ofWireBits n⟩, fun r i => ?_,
    toNumber_eq, fun a b => ⟨compare_eq_compare_toNumber a b, lt_iff_toNumber_lt a b,
      le_iff_toNumber_le a b⟩⟩
  have hbyte : i / 8 < size := Nat.div_lt_of_lt_mul i.isLt
  rw [getLsbD_toWireBits, bit, ← getElem_toBytes r hbyte]
  rfl

-- A thermometer (family 28): its number starts with the family, its wire bits end with it.
example : (ofNumber 0x28FF4C3B7216049F).family = 0x28 ∧
    (ofNumber 0x28FF4C3B7216049F).toWireBits = 0x9F0416723B4CFF28 := by
  decide

end Rom

end OneWire
