/-! # What stops an operation -/

namespace OneWire

/-- Why an operation failed, over the failures `ε` of the bus master. -/
inductive Error (ε : Type) where
  /-- No device answered the reset. -/
  | noPresence
  | bus (failure : ε)
  /-- An identifier arrived damaged. -/
  | checksumMismatch
  | notAcquired
  | alreadyAcquired
deriving DecidableEq, Repr

/-- An error without the failure behind it. -/
inductive ErrorKind where
  | noPresence
  | bus
  | checksumMismatch
  | notAcquired
  | alreadyAcquired
deriving DecidableEq, Repr

def Error.kind {ε : Type} : Error ε → ErrorKind
  | noPresence => .noPresence
  | bus _ => .bus
  | checksumMismatch => .checksumMismatch
  | notAcquired => .notAcquired
  | alreadyAcquired => .alreadyAcquired

end OneWire
