import OneWire.Byte

/-! # ROM commands, the byte that follows a reset -/

namespace OneWire

inductive Command where
  | searchRom
  | searchAlarm
  /-- Asks the only device for its identifier. -/
  | readRom
  /-- Selects the device whose identifier follows. -/
  | matchRom
  | skipRom
  /-- Selects again the device of the last `matchRom`. -/
  | resume
deriving DecidableEq, Repr

namespace Command

def code : Command → Byte
  | searchRom => 0xF0
  | searchAlarm => 0xEC
  | readRom => 0x33
  | matchRom => 0x55
  | skipRom => 0xCC
  | resume => 0xA5

def ofCode? (b : Byte) : Option Command :=
  [searchRom, searchAlarm, readRom, matchRom, skipRom, resume].find? (·.code == b)

theorem ofCode?_code (c : Command) : ofCode? c.code = some c := by
  cases c <;> rfl

end Command

end OneWire
