/-! # Bytes and the order of their bits on the wire -/

namespace OneWire

/-- Eight bits; bit 0 is the first of them on the wire. -/
abbrev Byte := BitVec 8

namespace Byte

def bits (b : Byte) : List Bool :=
  (List.range 8).map b.getLsbD

/-- The byte that arrives as the given bits. Bits after the eighth are lost. -/
def ofBits : List Bool → Byte
  | [] => 0
  | b :: bs => (ofBits bs <<< 1) ||| (BitVec.ofBool b).setWidth 8

theorem length_bits (b : Byte) : b.bits.length = 8 := by
  simp [bits]

theorem getLsbD_ofBits (bs : List Bool) {i : Nat} (hi : i < 8) :
    (ofBits bs).getLsbD i = bs.getD i false := by
  induction bs generalizing i with
  | nil => simp [ofBits]
  | cons b bs ih =>
    cases i with
    | zero => cases b <;> simp [ofBits]
    | succ i =>
      rw [List.getD_cons_succ, ← ih (by omega)]
      have h : (ofBits (b :: bs)).getLsbD (i + 1) = (ofBits bs)[i] := by simp [ofBits, hi]
      rw [h, BitVec.getLsbD_eq_getElem (by omega)]

theorem bits_ofBits {bs : List Bool} (h : bs.length = 8) : (ofBits bs).bits = bs := by
  apply List.ext_getElem
  · simp [bits, h]
  · intro i hi hi'
    have hb : (ofBits bs).getLsbD i = bs[i] := by
      simp [getLsbD_ofBits bs (show i < 8 by omega), List.getD_eq_getElem?_getD, hi']
    simpa [bits] using hb

theorem ofBits_bits (b : Byte) : ofBits b.bits = b := by
  decide +revert

end Byte

end OneWire
