import Liano.Variable.Format

/-! `FindVariableEx`, `FindVariable`, `VariableServiceGetVariable` and
`VariableServiceGetNextVariableInternal`. A name argument is the memory its pointer points to. -/
namespace Liano.Variable
open Bytes (slice)

/-- `VariableName[0] == 0`. -/
def isEmptyName (variableName : Bytes) : Bool := uintAt variableName 0 2 == 0

/-- `StrSize`, the bytes up to and with the terminator. -/
def strSize : Bytes → Nat
  | lo :: hi :: s => if lo = 0 ∧ hi = 0 then 2 else 2 + strSize s
  | _ => 2

/-- A variable's name, with its terminator, and its vendor GUID. -/
structure VariableKey where
  name : Bytes
  vendorGuid : Bytes
deriving DecidableEq, Repr

def keyAt (authFormat : Bool) (b : Bytes) (p : Nat) : VariableKey where
  name := nameOf authFormat b p
  vendorGuid := vendorGuidOf authFormat b p

/-- `VARIABLE_POINTER_TRACK` without the range it searches, which the store gives. -/
structure VariablePointerTrack where
  currPtr : Option Nat
  inDeletedTransitionPtr : Option Nat
deriving DecidableEq, Repr

def isAdded (b : Bytes) (p : Nat) : Bool := state b p == varAdded

def isInDeletedTransition (b : Bytes) (p : Nat) : Bool := state b p == varInDeletedTransition &&& varAdded

def isAccessible (atRuntime ignoreRtCheck : Bool) (b : Bytes) (p : Nat) : Bool :=
  (isAdded b p || isInDeletedTransition b p) &&
    (ignoreRtCheck || !atRuntime || attributes b p &&& efiVariableRuntimeAccess != 0)

/-- An empty name matches every variable; otherwise `CompareMem` runs over the `NameSize` of
the entry. -/
def nameMatches (authFormat : Bool) (variableName vendorGuid : Bytes) (b : Bytes) (p : Nat) : Bool :=
  isEmptyName variableName ||
    (vendorGuid == vendorGuidOf authFormat b p &&
      variableName.take (nameSizeOfVariable authFormat b p) == nameOf authFormat b p)

/-- The loop of `FindVariableEx`, with the local `InDeletedVariable`. -/
def findVariableLoop (matching : Nat → Bool) (b : Bytes) : Option Nat → List Nat → VariablePointerTrack
  | inDeletedVariable, [] => { currPtr := inDeletedVariable, inDeletedTransitionPtr := none }
  | inDeletedVariable, p :: ps =>
    if matching p then
      if isInDeletedTransition b p then findVariableLoop matching b (some p) ps
      else { currPtr := some p, inDeletedTransitionPtr := inDeletedVariable }
    else findVariableLoop matching b inDeletedVariable ps

def findVariableEx (authFormat atRuntime : Bool) (variableName vendorGuid : Bytes)
    (ignoreRtCheck : Bool) (b : Bytes) : VariablePointerTrack × EfiStatus :=
  let track := findVariableLoop
    (fun p => isAccessible atRuntime ignoreRtCheck b p && nameMatches authFormat variableName vendorGuid b p)
    b none (headers authFormat b)
  (track, if track.currPtr.isSome then .success else .notFound)

/-- `VARIABLE_STORE_TYPE`, in its order. -/
inductive VariableStoreType
  | volatile
  | hob
  | nv
deriving DecidableEq, Repr

def VariableStoreType.all : List VariableStoreType := [.volatile, .hob, .nv]

/-- `VariableStoreList`; a NULL pointer is `none`. -/
abbrev VariableStoreList := VariableStoreType → Option Bytes

structure VariablePtr where
  storeType : VariableStoreType
  offset : Nat
deriving DecidableEq, Repr

def findInStores (authFormat atRuntime : Bool) (stores : VariableStoreList)
    (variableName vendorGuid : Bytes) (ignoreRtCheck : Bool) :
    List VariableStoreType → Option (VariableStoreType × VariablePointerTrack)
  | [] => none
  | t :: ts =>
    match stores t with
    | none => findInStores authFormat atRuntime stores variableName vendorGuid ignoreRtCheck ts
    | some b =>
      let find := findVariableEx authFormat atRuntime variableName vendorGuid ignoreRtCheck b
      if find.2.isError then
        findInStores authFormat atRuntime stores variableName vendorGuid ignoreRtCheck ts
      else some (t,find.1)

section
variable (authFormat atRuntime : Bool) (stores : VariableStoreList)
  (variableName vendorGuid : Bytes)

/-- `FindVariable`, which returns `EFI_NOT_FOUND` for `none`. -/
def findVariable (ignoreRtCheck : Bool) :
    Option (VariableStoreType × VariablePointerTrack) :=
  findInStores authFormat atRuntime stores variableName vendorGuid ignoreRtCheck
    VariableStoreType.all

def findPointer : Option VariablePtr := do
  let (t,track) ← findInStores authFormat atRuntime stores variableName vendorGuid false
    VariableStoreType.all
  let p ← track.currPtr
  return ⟨t, p⟩

/-- What `VariableServiceGetVariable` returns in a large enough buffer: the attributes and the
data, or `EFI_NOT_FOUND`. -/
def variableServiceGetVariable : Option (UInt32 × Bytes) := if isEmptyName variableName then none
  else do
    let (t,track) ← findVariable authFormat atRuntime stores variableName vendorGuid false
    let p ← track.currPtr
    let b ← stores t
    return (attributes b p, dataOf authFormat b p)

def VariableStoreType.later : VariableStoreType → List VariableStoreType
  | .volatile => [.hob, .nv]
  | .hob => [.nv]
  | .nv => []

def storeHeaders (authFormat : Bool) (stores : VariableStoreList) (t : VariableStoreType) :
    List VariablePtr := match stores t with
  | none => []
  | some b => (headers authFormat b).map (VariablePtr.mk t)

/-- The headers the `while (TRUE)` loop of `VariableServiceGetNextVariableInternal` comes to from
offset `p` of a store on, with its switches to the next store. -/
def headersOnward (authFormat : Bool) (stores : VariableStoreList) (t : VariableStoreType)
    (p : Nat) : List VariablePtr := (match stores t with
    | none => []
    | some b => (headersFrom authFormat b (getEndPointer b) b.length p).map (VariablePtr.mk t)) ++
  t.later.flatMap (storeHeaders authFormat stores)

/-- The checks of the loop body: the variable is accessible, not an IN_DELETED_TRANSITION one with
an ADDED twin in its store, and not an NV variable that the HOB overrides. -/
def isReturned (authFormat atRuntime : Bool) (stores : VariableStoreList) (v : VariablePtr) : Bool :=
  match stores v.storeType with
  | none => false
  | some b =>
    let find := findVariableEx authFormat atRuntime
      (b.drop (getVariableNamePtr authFormat v.offset)) (vendorGuidOf authFormat b v.offset) false
    isAccessible atRuntime false b v.offset &&
    !(isInDeletedTransition b v.offset && !(find b).2.isError && (find b).1.currPtr.any (isAdded b)) &&
    !(v.storeType == .nv && (stores .hob).any fun hob => !(find hob).2.isError)

/-- `EFI_SUCCESS` with `*VariablePtr`, or `EFI_NOT_FOUND`. -/
def nextResult : Option VariablePtr → EfiStatus × Option VariablePtr
  | none => (.notFound, none)
  | some v => (.success, some v)

def variableServiceGetNextVariableInternal : EfiStatus × Option VariablePtr :=
  match findPointer authFormat atRuntime stores variableName vendorGuid with
  | none => (if isEmptyName variableName then .notFound else .invalidParameter, none)
  | some v =>
    let p := if isEmptyName variableName then v.offset
      else getNextVariablePtr authFormat ((stores v.storeType).getD []) v.offset
    nextResult ((headersOnward authFormat stores v.storeType p).find?
      (isReturned authFormat atRuntime stores))

end

/-- The name and GUID that `VariableServiceGetNextVariableName` copies to its caller. -/
def returnedKey (authFormat : Bool) (stores : VariableStoreList) (v : VariablePtr) : VariableKey :=
  keyAt authFormat ((stores v.storeType).getD []) v.offset

end Liano.Variable
