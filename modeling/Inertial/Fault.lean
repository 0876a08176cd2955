import Inertial.Power
import Inertial.Register.Address

/-!
# Faults

A register access fails with a fault of the bus, and a driver call fails for one of five reasons.
`kind` names the reason and `message` writes it out.
-/

set_option autoImplicit false

namespace Inertial

/-- A failed register access. -/
inductive BusFault where
  | read (a : Address)
  | write (a : Address)
  | readBlock (a : Address)
  /-- A failed transfer on a serial bus, which does not say what it was for. -/
  | transfer
deriving DecidableEq, Repr

/-- Why a driver call failed. -/
inductive DriverError where
  | bus (fault : BusFault)
  | wrongIdentity (expected found : Byte)
  | resetNotConfirmed
  | unknownChip (number : Nat)
  | rail (r : Rail)
deriving DecidableEq, Repr

namespace BusFault

def message : BusFault → String
  | .read a => "Read(" ++ toString a ++ ")"
  | .write a => "Write(" ++ toString a ++ ")"
  | .readBlock a => "BulkRead(" ++ toString a ++ ")"
  | .transfer => "Spi"

end BusFault

namespace DriverError

def kind : DriverError → String
  | .bus _ => "Bus"
  | .wrongIdentity .. => "WhoAmIMismatch"
  | .resetNotConfirmed => "ResetNotConfirmed"
  | .unknownChip _ => "InvalidChipId"
  | .rail _ => "Rail"

def message : DriverError → String
  | .bus fault => "Bus(" ++ fault.message ++ ")"
  | .wrongIdentity expected found =>
    "WhoAmIMismatch \x7b expected: " ++ toString expected.toNat
      ++ ", found: " ++ toString found.toNat ++ " \x7d"
  | .resetNotConfirmed => "ResetNotConfirmed"
  | .unknownChip number => "InvalidChipId(" ++ toString number ++ ")"
  | .rail .vdd => "Rail(Vdd)"
  | .rail .vddio => "Rail(Vddio)"

end DriverError

end Inertial
