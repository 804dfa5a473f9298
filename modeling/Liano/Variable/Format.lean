import Liano.Lib.Bytes
import Liano.Efi

/-! The layout of a variable store (`VariableFormat.h`) and the pointer functions of
`VariableParsing.c`. Memory is a byte array that starts at the `VARIABLE_STORE_HEADER`; a
pointer is an offset into it. Stores lie at addresses aligned to `HEADER_ALIGNMENT`. -/
namespace Liano.Variable
open Bytes (slice leValue)

def variableData : Nat := 0x55AA

def varInDeletedTransition : UInt8 := 0xfe
def varDeleted : UInt8 := 0xfd
def varHeaderValidOnly : UInt8 := 0x7f
def varAdded : UInt8 := 0x3f

def efiVariableNonVolatile : UInt32 := 0x01
def efiVariableBootserviceAccess : UInt32 := 0x02
def efiVariableRuntimeAccess : UInt32 := 0x04
def efiVariableHardwareErrorRecord : UInt32 := 0x08
def efiVariableAuthenticatedWriteAccess : UInt32 := 0x10
def efiVariableTimeBasedAuthenticatedWriteAccess : UInt32 := 0x20
def efiVariableAppendWrite : UInt32 := 0x40

/-- `GET_PAD_SIZE` for `ALIGNMENT` 1. -/
def getPadSize (_ : Nat) : Nat := 0

/-- `HEADER_ALIGN`, with `HEADER_ALIGNMENT` 4. -/
def headerAlign (n : Nat) : Nat := (n+3) / 4 * 4

theorem le_headerAlign (n : Nat) : n ≤ headerAlign n := by
  unfold headerAlign
  omega

theorem headerAlign_of_dvd {n : Nat} (h : 4 ∣ n) : headerAlign n = n := by
  unfold headerAlign
  omega

theorem dvd_headerAlign (n : Nat) : 4 ∣ headerAlign n := ⟨(n+3) / 4, mul_comm _ _⟩

theorem headerAlign_add {p : Nat} (n : Nat) (h : 4 ∣ p) : headerAlign (p+n) = p + headerAlign n := by
  unfold headerAlign
  omega

/-- The little-endian number in `len` bytes. -/
def uintAt (b : Bytes) (off len : Nat) : Nat := leValue (slice b off len)

/-- `sizeof (VARIABLE_STORE_HEADER)`. -/
def variableStoreHeaderSize : Nat := 28

/-- `Size` of the `VARIABLE_STORE_HEADER`. -/
def storeSize (b : Bytes) : Nat := uintAt b 16 4

/-- Where `VARIABLE_HEADER` and `AUTHENTICATED_VARIABLE_HEADER` differ. -/
structure HeaderLayout where
  size : Nat
  nameSize : Nat
  dataSize : Nat
  vendorGuid : Nat
deriving DecidableEq, Repr

def headerLayout (authFormat : Bool) : HeaderLayout :=
  if authFormat then { size := 60, nameSize := 36, dataSize := 40, vendorGuid := 44 }
  else { size := 32, nameSize := 8, dataSize := 12, vendorGuid := 16 }

def startId (b : Bytes) (p : Nat) : Nat := uintAt b p 2

/-- `OFFSET_OF (VARIABLE_HEADER, State)`. -/
def offsetOfState : Nat := 2

def state (b : Bytes) (p : Nat) : UInt8 := b.getD (p+offsetOfState) 0

def attributes (b : Bytes) (p : Nat) : UInt32 := UInt32.ofNat (uintAt b (p+4) 4)

section
variable (authFormat : Bool)

def getVariableHeaderSize : Nat := (headerLayout authFormat).size

section
variable (b : Bytes) (p : Nat)

/-- `GetVariableNamePtr`/`GetVariableDataPtr` are read through these sizes, which are 0 while one
of the fields has not been written. -/
def sizesErased : Bool := state b p == 0xff ||
    uintAt b (p + (headerLayout authFormat).dataSize) 4 == 0xffffffff ||
    uintAt b (p + (headerLayout authFormat).nameSize) 4 == 0xffffffff ||
    attributes b p == 0xffffffff

def nameSizeOfVariable : Nat :=
  if sizesErased authFormat b p then 0
  else uintAt b (p + (headerLayout authFormat).nameSize) 4

def dataSizeOfVariable : Nat :=
  if sizesErased authFormat b p then 0
  else uintAt b (p + (headerLayout authFormat).dataSize) 4

/-- `sizeof (EFI_GUID)` bytes at `GetVendorGuidPtr`. -/
def vendorGuidOf : Bytes :=
  slice b (p + (headerLayout authFormat).vendorGuid) 16

def getVariableNamePtr (p : Nat) : Nat := p + getVariableHeaderSize authFormat

def getVariableDataPtr : Nat :=
  getVariableNamePtr authFormat p + nameSizeOfVariable authFormat b p +
    getPadSize (nameSizeOfVariable authFormat b p)

def getVariableDataOffset : Nat :=
  getVariableHeaderSize authFormat + nameSizeOfVariable authFormat b p +
    getPadSize (nameSizeOfVariable authFormat b p)

def getNextVariablePtr : Nat :=
  headerAlign (getVariableDataPtr authFormat b p + dataSizeOfVariable authFormat b p +
    getPadSize (dataSizeOfVariable authFormat b p))

end

end

def getStartPointer : Nat := headerAlign variableStoreHeaderSize

def getEndPointer (b : Bytes) : Nat := headerAlign (storeSize b)

def isValidVariableHeader (b : Bytes) (p endPtr : Nat) : Bool :=
  decide (p < endPtr) && startId b p == variableData

def nameOf (authFormat : Bool) (b : Bytes) (p : Nat) : Bytes :=
  slice b (getVariableNamePtr authFormat p) (nameSizeOfVariable authFormat b p)

def dataOf (authFormat : Bool) (b : Bytes) (p : Nat) : Bytes :=
  slice b (getVariableDataPtr authFormat b p) (dataSizeOfVariable authFormat b p)

/-- The headers that a loop visits which starts at `p`, goes on while
`IsValidVariableHeader` holds and steps with `GetNextVariablePtr`. -/
def headersFrom (authFormat : Bool) (b : Bytes) (endPtr : Nat) : Nat → Nat → List Nat
  | 0, _ => []
  | fuel+1, p =>
    if isValidVariableHeader b p endPtr then
      p :: headersFrom authFormat b endPtr fuel
        (getNextVariablePtr authFormat b p)
    else []

def walkEndFrom (authFormat : Bool) (b : Bytes) (endPtr : Nat) : Nat → Nat → Nat
  | 0, p => p
  | fuel+1, p =>
    if isValidVariableHeader b p endPtr then
      walkEndFrom authFormat b endPtr fuel (getNextVariablePtr authFormat b p)
    else p

/-- The headers of a store, from `GetStartPointer` to `GetEndPointer`. -/
def headers (authFormat : Bool) (b : Bytes) : List Nat :=
  headersFrom authFormat b (getEndPointer b) b.length getStartPointer

def walkEnd (authFormat : Bool) (b : Bytes) : Nat :=
  walkEndFrom authFormat b (getEndPointer b) b.length getStartPointer

/-! The number of bytes is fuel enough: a header inside the memory is followed by a later one. -/

theorem lt_getNextVariablePtr (auth : Bool) (b : Bytes) (p : Nat) :
    p < getNextVariablePtr auth b p := by
  have h := le_headerAlign (getVariableDataPtr auth b p +
    dataSizeOfVariable auth b p + getPadSize (dataSizeOfVariable auth b p))
  have hs : 0 < getVariableHeaderSize auth := by cases auth <;> decide
  simp only [getNextVariablePtr, getVariableDataPtr, getVariableNamePtr] at h ⊢
  omega

end Liano.Variable
