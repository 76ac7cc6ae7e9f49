import Mathlib.Algebra.Ring.Parity
import OneWire.Crc8

/-!
# What the checksum detects

The register takes its data one bit after another, and it does so linearly: the checksums of two
equally long data streams differ by the checksum of the difference. So an error goes undetected only
if its own checksum is zero.
-/

namespace OneWire.Crc8

/-! ## The register is linear -/

theorem shift_xor (a b : Byte) : shift (a ^^^ b) = shift a ^^^ shift b := by
  unfold shift
  simp only [BitVec.getLsbD_xor, BitVec.ushiftRight_xor_distrib]
  cases a.getLsbD 0 <;> cases b.getLsbD 0
  · rfl
  · exact BitVec.xor_assoc _ _ _
  · simp only [Bool.xor_false, Bool.false_eq_true, if_true, if_false]
    ac_rfl
  · have hcancel : generator ^^^ generator = 0#8 := BitVec.xor_self
    calc a >>> 1 ^^^ b >>> 1
        = a >>> 1 ^^^ b >>> 1 ^^^ (generator ^^^ generator) := by rw [hcancel, BitVec.xor_zero]
      _ = a >>> 1 ^^^ generator ^^^ (b >>> 1 ^^^ generator) := by ac_rfl

theorem shift_eq_zero_iff (r : Byte) : shift r = 0 ↔ r = 0 := by
  decide +revert

theorem shifts_eq_zero_iff (n : Nat) (r : Byte) : shifts n r = 0 ↔ r = 0 := by
  induction n generalizing r with
  | zero => rfl
  | succ n ih => rw [shifts, ih, shift_eq_zero_iff]

/-! ## One bit after another -/

/-- The register after one more bit of data. -/
def absorbBit (register : Byte) (b : Bool) : Byte :=
  shift (register ^^^ (BitVec.ofBool b).setWidth 8)

def absorbBits (register : Byte) (bits : List Bool) : Byte :=
  bits.foldl absorbBit register

theorem absorbBits_cons (register : Byte) (b : Bool) (bits : List Bool) :
    absorbBits register (b :: bits) = absorbBits (absorbBit register b) bits := rfl

theorem absorbBits_append (register : Byte) (bits bits' : List Bool) :
    absorbBits register (bits ++ bits') = absorbBits (absorbBits register bits) bits' :=
  List.foldl_append

theorem absorbBits_eq_shifts (register : Byte) {bits : List Bool} (h : bits.length ≤ 8) :
    absorbBits register bits = shifts bits.length (register ^^^ Byte.ofBits bits) := by
  induction bits generalizing register with
  | nil => simp [absorbBits, Byte.ofBits, shifts]
  | cons b bits ih =>
    rw [List.length_cons] at h
    have hor : ∀ x : Byte, x <<< 1 ||| (BitVec.ofBool b).setWidth 8 =
        (BitVec.ofBool b).setWidth 8 ^^^ x <<< 1 := by
      decide +revert
    -- Of up to eight bits none leaves the register before its turn.
    have hback : ∀ x : Byte, x.getLsbD 7 = false → shift (x <<< 1) = x := by decide
    have htop : (Byte.ofBits bits).getLsbD 7 = false := by
      rw [Byte.getLsbD_ofBits bits (by omega), List.getD_eq_getElem?_getD,
        List.getElem?_eq_none (by omega), Option.getD_none]
    rw [absorbBits_cons, ih _ (by omega), List.length_cons, shifts, absorbBit, Byte.ofBits, hor,
      ← BitVec.xor_assoc, shift_xor _ (Byte.ofBits bits <<< 1), hback _ htop]

theorem absorb_eq_absorbBits (register byte : Byte) :
    absorb register byte = absorbBits register byte.bits := by
  have hlen := byte.length_bits
  rw [absorbBits_eq_shifts register (Nat.le_of_eq hlen), hlen, Byte.ofBits_bits, absorb]

theorem checksum_eq_absorbBits (data : List Byte) :
    checksum data = absorbBits 0 (data.flatMap Byte.bits) := by
  suffices ∀ register, data.foldl absorb register =
      absorbBits register (data.flatMap Byte.bits) from this 0
  induction data with
  | nil => exact fun _ => rfl
  | cons byte data ih =>
    intro register
    rw [List.foldl_cons, ih, absorb_eq_absorbBits, List.flatMap_cons, absorbBits_append]

theorem absorbBit_xor (r r' : Byte) (b b' : Bool) :
    absorbBit (r ^^^ r') (b ^^ b') = absorbBit r b ^^^ absorbBit r' b' := by
  have hbit : (BitVec.ofBool (b ^^ b')).setWidth 8 =
      (BitVec.ofBool b).setWidth 8 ^^^ (BitVec.ofBool b').setWidth 8 := by
    cases b <;> cases b' <;> rfl
  unfold absorbBit
  rw [← shift_xor, hbit]
  congr 1
  ac_rfl

theorem absorbBits_zipWith_xor (r r' : Byte) {bits bits' : List Bool}
    (h : bits.length = bits'.length) :
    absorbBits (r ^^^ r') (List.zipWith (· ^^ ·) bits bits') =
      absorbBits r bits ^^^ absorbBits r' bits' := by
  induction bits generalizing r r' bits' with
  | nil =>
    obtain rfl := List.length_eq_zero_iff.1 h.symm
    rfl
  | cons b bits ih =>
    obtain ⟨b', bits', rfl⟩ := List.exists_cons_of_length_eq_add_one h.symm
    rw [List.zipWith_cons_cons, absorbBits_cons, absorbBit_xor, ih _ _ (by simpa using h),
      absorbBits_cons, absorbBits_cons]

theorem absorbBits_of_no_ones (register : Byte) {bits : List Bool} (h : true ∉ bits) :
    absorbBits register bits = shifts bits.length register := by
  induction bits generalizing register with
  | nil => rfl
  | cons b bits ih =>
    obtain ⟨rfl, hbits⟩ : b = false ∧ true ∉ bits := by simpa using h
    have hzero : absorbBit register false = shift register := by simp [absorbBit]
    rw [absorbBits_cons, ih _ hbits, hzero, List.length_cons, shifts]

/-! ## An odd number of bits -/

def parity (b : Byte) : Bool :=
  b.bits.foldl (· ^^ ·) false

/-- The generator has an even number of terms, so a shift keeps the parity. -/
theorem parity_absorbBit (register : Byte) (b : Bool) :
    parity (absorbBit register b) = (parity register ^^ b) := by
  decide +revert +kernel

theorem parity_absorbBits (register : Byte) (bits : List Bool) :
    parity (absorbBits register bits) = (parity register ^^ decide (Odd (bits.count true))) := by
  induction bits generalizing register with
  | nil => simp [absorbBits]
  | cons b bits ih =>
    rw [absorbBits_cons, ih, parity_absorbBit]
    cases b with
    | false => simp
    | true =>
      have hodd : decide (Odd (bits.count true + 1)) = !decide (Odd (bits.count true)) := by
        rw [← decide_not]
        exact decide_eq_decide.2 Nat.odd_add_one
      rw [List.count_cons_self, hodd, Bool.xor_true, Bool.not_xor, Bool.xor_not]

theorem absorbBits_ne_zero_of_odd {bits : List Bool} (h : Odd (bits.count true)) :
    absorbBits 0 bits ≠ 0 := by
  intro hzero
  have hparity := parity_absorbBits 0 bits
  have hnone : parity 0 = false := rfl
  rw [hzero, hnone] at hparity
  simp [h] at hparity

/-! ## Two bits -/

theorem shifts_one_ne {n : Nat} (hpos : 0 < n) (h : n < 127) : shifts n 1 ≠ 1 := by
  -- It takes 127 shifts until the register is the same again.
  have hall : ∀ n < 127, 0 < n → shifts n 1 ≠ 1 := by decide
  exact hall n h hpos

theorem shifts_succ_right (n : Nat) (r : Byte) : shift (shifts n r) = shifts (n + 1) r := by
  induction n generalizing r with
  | zero => rfl
  | succ n ih => rw [shifts, ih, shifts, shifts, shifts]

theorem absorbBits_shifts_one_ne_zero {n : Nat} {bits : List Bool} (hpos : 0 < n)
    (hlen : n + bits.length ≤ 127) (h : bits.count true = 1) :
    absorbBits (shifts n 1) bits ≠ 0 := by
  induction bits generalizing n with
  | nil => simp at h
  | cons b bits ih =>
    rw [List.length_cons] at hlen
    rw [absorbBits_cons]
    cases b with
    | false =>
      have hnext : absorbBit (shifts n 1) false = shifts (n + 1) 1 := by
        simp [absorbBit, shifts_succ_right]
      rw [hnext]
      exact ih (by omega) (by omega) (by simpa using h)
    | true =>
      have hnone : true ∉ bits := List.count_eq_zero.1 (by simpa using h)
      have hne := shifts_one_ne hpos (by omega)
      rw [absorbBits_of_no_ones _ hnone, ne_eq, shifts_eq_zero_iff, absorbBit, shift_eq_zero_iff]
      intro hzero
      exact hne (BitVec.xor_eq_zero_iff.1 hzero)

theorem absorbBits_ne_zero_of_two {bits : List Bool} (hlen : bits.length ≤ 127)
    (h : bits.count true = 2) : absorbBits 0 bits ≠ 0 := by
  induction bits with
  | nil => simp at h
  | cons b bits ih =>
    rw [List.length_cons] at hlen
    rw [absorbBits_cons]
    cases b with
    | false =>
      have hzero : absorbBit 0 false = 0 := rfl
      rw [hzero]
      exact ih (by omega) (by simpa using h)
    | true =>
      have hone : absorbBit 0 true = shifts 1 1 := rfl
      rw [hone]
      exact absorbBits_shifts_one_ne_zero (by omega) (by omega) (by simpa using h)

/-! ## Bits close together -/

theorem ofBits_ne_zero {bits : List Bool} (hlen : bits.length ≤ 8) (h : true ∈ bits) :
    Byte.ofBits bits ≠ 0 := by
  obtain ⟨i, hi, hbit⟩ := List.getElem_of_mem h
  intro hzero
  have hget := Byte.getLsbD_ofBits bits (show i < 8 by omega)
  simp [hzero, List.getD_eq_getElem?_getD, List.getElem?_eq_getElem hi, hbit] at hget

theorem absorbBits_ne_zero_of_burst {before burst after : List Bool} (hbefore : true ∉ before)
    (hlen : burst.length ≤ 8) (hburst : true ∈ burst) (hafter : true ∉ after) :
    absorbBits 0 (before ++ burst ++ after) ≠ 0 := by
  have hstart : absorbBits 0 before = 0 := by
    rw [absorbBits_of_no_ones 0 hbefore, shifts_eq_zero_iff]
  rw [absorbBits_append, absorbBits_append, hstart, absorbBits_of_no_ones _ hafter, ne_eq,
    shifts_eq_zero_iff, absorbBits_eq_shifts 0 hlen, shifts_eq_zero_iff]
  simpa using ofBits_ne_zero hlen hburst

end OneWire.Crc8
