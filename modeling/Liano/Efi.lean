import Mathlib.Algebra.Ring.Nat

/-! Status codes and the widths of the machine's unsigned integers. -/
namespace Liano

/-- The `EFI_STATUS`/`RETURN_STATUS` values the modelled functions return. -/
inductive EfiStatus
  | success
  | invalidParameter
  | unsupported
  | bufferTooSmall
  | deviceError
  | writeProtected
  | outOfResources
  | notFound
  | alreadyStarted
  | aborted
  | notAvailableYet
  | accessDenied
  | protocolError
  | securityViolation
deriving DecidableEq, Repr

/-- `EFI_ERROR (Status)`. -/
def EfiStatus.isError : EfiStatus → Bool
  | .success => false
  | _ => true

/-- The cast to `UINT16`. -/
def toUint16 (n : Nat) : Nat := n % 2^16

/-- The cast to `UINT32`. -/
def toUint32 (n : Nat) : Nat := n % 2^32

/-- The value of a `UINT64`/`UINTN` computation. -/
def toUint64 (n : Nat) : Nat := n % 2^64

theorem if_ff {α : Sort*} (a b : α) : (if false = true then a else b) = b := rfl

theorem toUint32_le (n : Nat) : toUint32 n ≤ n := Nat.mod_le _ _

theorem toUint32_of_lt {n : Nat} (h : n < 2^32) : toUint32 n = n := Nat.mod_eq_of_lt h

theorem toUint64_of_lt {n : Nat} (h : n < 2^64) : toUint64 n = n := Nat.mod_eq_of_lt h

end Liano
