import OneWire.Crc8

/-!
# Device identifiers

An identifier is a family code, a serial number of six bytes and a checksum over both. It travels
family first, and each byte low bit first.
-/

namespace OneWire

structure Rom where
  family : Byte
  serial : Vector Byte 6
  crc : Byte
deriving DecidableEq, Repr

namespace Rom

instance : Inhabited Rom := ⟨⟨0, .replicate 6 0, 0⟩⟩

/-! ## Wire bytes -/

abbrev size : Nat := 8

abbrev width : Nat := 64

/-- The bytes in wire order: family, serial number, checksum. -/
def toBytes (r : Rom) : Vector Byte size :=
  #v[r.family, r.serial[0], r.serial[1], r.serial[2], r.serial[3], r.serial[4], r.serial[5], r.crc]

def ofBytes (b : Vector Byte size) : Rom :=
  ⟨b[0], #v[b[1], b[2], b[3], b[4], b[5], b[6]], b[7]⟩

/-- Wire byte `i`; zero past the end. -/
def byte (r : Rom) : Nat → Byte
  | 0 => r.family
  | 7 => r.crc
  | i + 1 => r.serial[i]?.getD 0

def bit (r : Rom) (i : Nat) : Bool :=
  (r.byte (i / 8)).getLsbD (i % 8)

/-! ## Numbers -/

/-- The identifier as a number with the family code in its top byte. -/
def toNumber (r : Rom) : BitVec 64 :=
  r.family ++ r.serial[0] ++ r.serial[1] ++ r.serial[2] ++ r.serial[3] ++ r.serial[4] ++
    r.serial[5] ++ r.crc

def ofNumber (n : BitVec 64) : Rom :=
  .ofBytes (.ofFn fun i => n.extractLsb' (8 * (7 - i)) 8)

/-- The 64 wire bits as a number; wire bit `i` is bit `i` of the number. -/
def toWireBits (r : Rom) : BitVec 64 :=
  r.crc ++ r.serial[5] ++ r.serial[4] ++ r.serial[3] ++ r.serial[2] ++ r.serial[1] ++
    r.serial[0] ++ r.family

def ofWireBits (n : BitVec 64) : Rom :=
  .ofBytes (.ofFn fun i => n.extractLsb' (8 * i) 8)

/-! ## Checksum -/

/-- The identifier of a family and serial number, with its checksum. -/
def issue (family : Byte) (serial : Vector Byte 6) : Rom :=
  ⟨family, serial, Crc8.checksum (family :: serial.toList)⟩

/-- The checksum over all eight bytes of an intact identifier is zero. -/
def isValid (r : Rom) : Bool :=
  Crc8.checksum r.toBytes.toList == 0

/-! ## Order -/

/-- Identifiers are ordered by family, then serial number, then checksum. -/
instance : Ord Rom where
  compare a b :=
    (compare a.family b.family).then
      ((compare a.serial.toList b.serial.toList).then (compare a.crc b.crc))

instance : LT Rom := ltOfOrd
instance : LE Rom := leOfOrd

/-! ## The forms agree -/

theorem ofBytes_toBytes (r : Rom) : ofBytes r.toBytes = r := by
  obtain ⟨f, ⟨⟨s⟩, h⟩, c⟩ := r
  match s, h with
  | [_, _, _, _, _, _], _ => rfl

theorem toBytes_ofBytes (b : Vector Byte size) : (ofBytes b).toBytes = b := by
  obtain ⟨⟨l⟩, h⟩ := b
  match l, h with
  | [_, _, _, _, _, _, _, _], _ => rfl

theorem toList_toBytes_eq (r : Rom) : r.toBytes.toList = r.family :: r.serial.toList ++ [r.crc] := by
  obtain ⟨family, ⟨⟨serial⟩, h⟩, crc⟩ := r
  match serial, h with
  | [_, _, _, _, _, _], _ => rfl

end Rom

end OneWire
