import Mathlib.Data.Fintype.EquivFin
import Mathlib.Tactic.IntervalCases
import OneWire.Rom

/-!
# The wire bits of an identifier

The wire bits as a number, bit by bit and as a list say the same, and each number is the wire bits
of one identifier.
-/

namespace OneWire

/-- The 64 bits of a number in wire order. -/
def wireBits (n : BitVec 64) : List Bool :=
  (List.range Rom.width).map n.getLsbD

@[simp] theorem length_wireBits (n : BitVec 64) : (wireBits n).length = Rom.width := by
  simp [wireBits]

theorem getElem?_wireBits (n : BitVec 64) {i : Nat} (hi : i < Rom.width) :
    (wireBits n)[i]? = some (n.getLsbD i) := by
  simp [wireBits, hi]

theorem wireBits_inj {m n : BitVec 64} (h : wireBits m = wireBits n) : m = n := by
  apply BitVec.eq_of_getLsbD_eq
  intro i hi
  have hm := getElem?_wireBits m hi
  rw [h, getElem?_wireBits n hi] at hm
  exact (Option.some.inj hm).symm

theorem Byte.bits_eq (byteAt : Nat → Byte) (i : Nat) :
    (byteAt i).bits =
      (List.range 8).map fun j => (byteAt ((8 * i + j) / 8)).getLsbD ((8 * i + j) % 8) := by
  unfold Byte.bits
  refine List.map_congr_left fun j hj => ?_
  have hj : j < 8 := List.mem_range.1 hj
  rw [Nat.mul_add_div (by omega), Nat.div_eq_of_lt hj, Nat.add_zero, Nat.mul_add_mod,
    Nat.mod_eq_of_lt hj]

/-! ## Numbers of eight bytes -/

/-- Eight bytes as one number, the first of them on top. -/
def appendBytes (b : Nat → Byte) : BitVec 64 :=
  b 0 ++ b 1 ++ b 2 ++ b 3 ++ b 4 ++ b 5 ++ b 6 ++ b 7

theorem getLsbD_appendBytes (b : Nat → Byte) {i : Nat} (hi : i < 64) :
    (appendBytes b).getLsbD i = (b (7 - i / 8)).getLsbD (i % 8) := by
  -- The law of appends wants the width as a sum.
  change @BitVec.getLsbD (8 + 8 + 8 + 8 + 8 + 8 + 8 + 8) _ i = _
  simp only [appendBytes, BitVec.getLsbD_append]
  obtain ⟨q, hq⟩ : ∃ q, i / 8 = q := ⟨_, rfl⟩
  have hlt : q < 8 := by omega
  rw [hq]
  interval_cases q
  all_goals grind

/-- Byte `k` of a number, from the lowest one on. -/
def byteAt (n : BitVec 64) (k : Nat) : Byte :=
  n.extractLsb' (8 * k) 8

theorem getLsbD_byteAt (n : BitVec 64) (k : Nat) {j : Nat} (hj : j < 8) :
    (byteAt n k).getLsbD j = n.getLsbD (8 * k + j) := by
  rw [byteAt, BitVec.getLsbD_extractLsb', decide_eq_true hj, Bool.true_and]

namespace Rom

/-- The wire bits in the order of their arrival. -/
def wireBits (r : Rom) : List Bool := OneWire.wireBits r.toWireBits

@[simp] theorem length_wireBits (r : Rom) : r.wireBits.length = width :=
  OneWire.length_wireBits _

/-! ## Bytes -/

theorem getElem_toBytes (r : Rom) {i : Nat} (hi : i < size) : r.toBytes[i] = r.byte i := by
  have : i < 8 := hi
  interval_cases i <;> simp [toBytes, byte]

theorem byte_of_size_le (r : Rom) {i : Nat} (hi : size ≤ i) : r.byte i = 0 := by
  have : 8 ≤ i := hi
  match i with
  | i + 8 => simp [byte]

theorem byte_ofBytes (b : Vector Byte size) {i : Nat} (hi : i < size) :
    (ofBytes b).byte i = b[i] := by
  have : i < 8 := hi
  interval_cases i <;> simp [ofBytes, byte]

/-! ## Bits -/

theorem getLsbD_toWireBits (r : Rom) (i : Nat) : r.toWireBits.getLsbD i = r.bit i := by
  have hbytes : r.toWireBits = appendBytes fun k => r.byte (7 - k) := rfl
  by_cases hi : i < 64
  · have hback : 7 - (7 - i / 8) = i / 8 := by omega
    rw [hbytes, getLsbD_appendBytes _ hi, hback, bit]
  · have hpast : size ≤ i / 8 := by
      rw [size]
      omega
    rw [BitVec.getLsbD_of_ge _ _ (Nat.le_of_not_lt hi), bit, byte_of_size_le r hpast]
    exact BitVec.getLsbD_zero.symm

theorem bit_ofWireBits (n : BitVec 64) {i : Nat} (hi : i < width) :
    (ofWireBits n).bit i = n.getLsbD i := by
  have hi : i < 64 := hi
  have hb : i / 8 < size := by rw [size]; omega
  rw [bit, ofWireBits, byte_ofBytes _ hb, Vector.getElem_ofFn, BitVec.getLsbD_extractLsb',
    Nat.div_add_mod]
  simp [Nat.mod_lt]

theorem toWireBits_ofWireBits (n : BitVec 64) : (ofWireBits n).toWireBits = n := by
  apply BitVec.eq_of_getLsbD_eq
  intro i hi
  rw [getLsbD_toWireBits, bit_ofWireBits n hi]

theorem byteAt_toWireBits (r : Rom) (k : Nat) : byteAt r.toWireBits k = r.byte k := by
  apply BitVec.eq_of_getLsbD_eq
  intro j hj
  have hdiv : (8 * k + j) / 8 = k := by omega
  have hmod : (8 * k + j) % 8 = j := by omega
  rw [getLsbD_byteAt _ k hj, getLsbD_toWireBits, bit, hdiv, hmod]

theorem ofWireBits_toWireBits (r : Rom) : ofWireBits r.toWireBits = r := by
  have hbytes : (Vector.ofFn fun i : Fin size => byteAt r.toWireBits i) = r.toBytes := by
    apply Vector.ext
    intro i hi
    rw [Vector.getElem_ofFn, byteAt_toWireBits, getElem_toBytes r hi]
  unfold byteAt at hbytes
  rw [ofWireBits, hbytes, ofBytes_toBytes]

theorem wireBits_ofWireBits (n : BitVec 64) : (ofWireBits n).wireBits = OneWire.wireBits n := by
  rw [wireBits, toWireBits_ofWireBits]

theorem wireBits_injective {a b : Rom} (h : a.wireBits = b.wireBits) : a = b := by
  rw [← ofWireBits_toWireBits a, wireBits_inj h, ofWireBits_toWireBits]

instance : Finite Rom :=
  .of_injective (fun r => r.toWireBits.toFin) fun _ _ h =>
    wireBits_injective (congrArg OneWire.wireBits (BitVec.toFin_inj.1 h))

/-! ## Bytes on the wire -/

theorem bits_byte (r : Rom) (i : Nat) :
    (r.byte i).bits = (List.range 8).map fun j => r.bit (8 * i + j) :=
  Byte.bits_eq r.byte i

theorem toList_toBytes (r : Rom) : r.toBytes.toList = (List.range size).map r.byte := by
  simp [toBytes, byte, List.range_succ]

theorem flatMap_bits_toBytes (r : Rom) : r.toBytes.toList.flatMap Byte.bits = r.wireBits := by
  have hrange : List.range width =
      (List.range size).flatMap fun i => (List.range 8).map (8 * i + ·) := rfl
  rw [wireBits, OneWire.wireBits, hrange, List.map_flatMap, toList_toBytes, List.flatMap_map]
  refine List.flatMap_congr fun i _ => ?_
  rw [bits_byte, List.map_map]
  exact List.map_congr_left fun j _ => (r.getLsbD_toWireBits (8 * i + j)).symm

end Rom

end OneWire
