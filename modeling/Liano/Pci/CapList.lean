import Mathlib.Data.List.Sort
import Liano.Efi

/-! `BasePciCapLib.c`: parsing the capability lists of a PCI device. An ordered collection is the
list of its user structures in their order, an entry of it the list from that entry on; a pointer
to a `PCI_CAP` is an index into the `PCI_CAP`s allocated so far. -/
namespace Liano.Pci

inductive PciCapDomain
  | normal
  | extended
deriving DecidableEq, Repr

def PciCapDomain.toNat : PciCapDomain → Nat
  | .normal => 0
  | .extended => 1

structure PciCapKey where
  domain : PciCapDomain
  capId : Nat
  capInstance : Nat
deriving DecidableEq, Repr

inductive PciCapNumInstances
  | numInstances (n : Nat)
  | instanceZero (p : Nat)
deriving DecidableEq, Repr

/-- `PCI_CAP`. At most 1024 headers are inserted, so that `Instance` and `NumInstances` do not wrap. -/
structure PciCap where
  key : PciCapKey
  numInstancesUnion : PciCapNumInstances
  offset : Nat
  maxSizeHint : Nat
  version : Nat
deriving DecidableEq, Repr

def pciMaxConfigOffset : Nat := 0x100
def pciExpMaxConfigOffset : Nat := 0x1000
def pciPrimaryStatusOffset : Nat := 0x06
def pciCapabilityPointerOffset : Nat := 0x34
def efiPciStatusCapability : Nat := 0x0010
def efiPciCapabilityIdPciexp : Nat := 0x10

def comparePciCapKey (key1 key2 : PciCapKey) : Int := if key1.domain.toNat < key2.domain.toNat then -1
  else if key1.domain.toNat > key2.domain.toNat then 1
  else if key1.capId < key2.capId then -1
  else if key1.capId > key2.capId then 1
  else if key1.capInstance < key2.capInstance then -1
  else if key1.capInstance > key2.capInstance then 1
  else 0

def comparePciCapOffset (offset1 offset2 : Nat) : Int := offset1-offset2

/-- The `PCI_CAP`s allocated, `none` for those freed; the two collections; the outcomes of the
coming allocations, which succeed where the list ends. -/
structure PciParse where
  caps : List (Option PciCap)
  capabilities : List Nat
  capHdrOffsets : List Nat
  allocations : List Bool
deriving DecidableEq, Repr

section
variable (caps : List (Option PciCap))

/-- The `PCI_CAP` behind a pointer. -/
def capAt (p : Nat) : PciCap :=
  (caps.getD p none).getD ⟨⟨.normal, 0, 0⟩, .numInstances 0, 0, 0, 0⟩

def keyAt (p : Nat) : PciCapKey := (capAt caps p).key

def offsetAt (p : Nat) : Nat := (capAt caps p).offset

section
variable (st : PciParse)

def PciParse.modify (p : Nat) (f : PciCap → PciCap) : PciParse :=
  { st with caps := st.caps.modify p (Option.map f) }

def PciParse.free (p : Nat) : PciParse := { st with caps := st.caps.set p none }

/-- What `OrderedCollectionInsert` returns, and the collection after it. -/
inductive InsertResult
  | success (collection : List Nat)
  | alreadyStarted (p : Nat)
  | outOfResources
deriving DecidableEq, Repr

/-- `OrderedCollectionInsert`; a new entry is allocated when no equal one is found. -/
def orderedCollectionInsert (cmp : Nat → Nat → Int) (collection : List Nat) (p : Nat)
    (allocated : Bool) : InsertResult := match collection.find? fun q => cmp p q == 0 with
  | some q => .alreadyStarted q
  | none =>
    if allocated then .success (collection.orderedInsert (fun a b => cmp a b ≤ 0) p)
    else .outOfResources

/-- The labels at the end of `InsertPciCap`: the new `PCI_CAP` is taken out and freed. -/
def deletePciCap (p : Nat) : PciParse :=
  { st with capabilities := st.capabilities.filter (· != p) }.free p

/-- `InstanceZero->NumInstancesUnion.NumInstances++`. -/
def countInstance (instanceZero : Nat) : PciParse := st.modify instanceZero fun cap =>
    { cap with numInstancesUnion := match cap.numInstancesUnion with
        | .numInstances n => .numInstances (n+1)
        | .instanceZero p => .instanceZero p }

/-- The new `PCI_CAP` at `p` has been inserted in `Capabilities`; it is linked into
`CapHdrOffsets` too. -/
def linkCapHdrOffset (p : Nat) (instanceZero : Option Nat) : PciParse × EfiStatus :=
  match orderedCollectionInsert
      (fun a b => comparePciCapOffset (offsetAt st.caps a) (offsetAt st.caps b))
      st.capHdrOffsets p (st.allocations.headD true) with
  | .alreadyStarted _ => (deletePciCap st p, .deviceError)
  | .outOfResources => (deletePciCap { st with allocations := st.allocations.tail } p, .outOfResources)
  | .success collection =>
    let st := { st with capHdrOffsets := collection, allocations := st.allocations.tail }
    (instanceZero.elim st (countInstance st), .success)

def PciCapNumInstances.count : PciCapNumInstances → Nat
  | .numInstances n => n
  | .instanceZero _ => 0

def compareCaps (a b : Nat) : Int :=
  comparePciCapKey (keyAt caps a) (keyAt caps b)

/-- The second insertion, as a further instance of the capability at `instanceZero`. -/
def insertFurtherInstance (p instanceZero : Nat) : PciParse × EfiStatus :=
  let n := (capAt st.caps instanceZero).numInstancesUnion.count
  let st := st.modify p fun cap =>
    { cap with
      key := { cap.key with capInstance := n }
      numInstancesUnion := .instanceZero instanceZero }
  match orderedCollectionInsert (compareCaps st.caps) st.capabilities p
      (st.allocations.headD true) with
  | .success collection =>
    linkCapHdrOffset { st with capabilities := collection, allocations := st.allocations.tail } p
      (some instanceZero)
  | .alreadyStarted _ => (st.free p, .alreadyStarted)
  | .outOfResources => ({ st with allocations := st.allocations.tail }.free p, .outOfResources)

def insertPciCap (domain : PciCapDomain) (capId offset version : Nat) :
    PciParse × EfiStatus := if st.allocations.headD true = false then
    ({ st with allocations := st.allocations.tail }, .outOfResources)
  else
    let p := st.caps.length
    let st := { st with
      caps := st.caps ++ [some ⟨⟨domain, capId, 0⟩, .numInstances 1, offset, 0, version⟩]
      allocations := st.allocations.tail }
    match orderedCollectionInsert (compareCaps st.caps) st.capabilities p
        (st.allocations.headD true) with
    | .success collection =>
      linkCapHdrOffset { st with capabilities := collection, allocations := st.allocations.tail } p
        none
    | .outOfResources => ({ st with allocations := st.allocations.tail }.free p, .outOfResources)
    | .alreadyStarted q => insertFurtherInstance st p q

/-- `ReadConfig`: the little-endian value of the bytes at an offset, or an error. -/
abbrev ReadConfig := Nat → Nat → Except EfiStatus Nat

def configSpace (config : Nat → UInt8) : ReadConfig
  | _, 0 => .ok 0
  | offset, size+1 => (configSpace config (offset+1) size).map fun n => (config offset).toNat + 256*n

/-- The loop over the normal capabilities list, with `DeviceIsExpress`; `none` is the loop going on
after `fuel` headers. -/
def parseNormal (read : ReadConfig) : Nat → Nat → PciParse → Bool → Option (PciParse × Bool × EfiStatus)
  | 0, _, _, _ => none
  | fuel+1, normalCapHdrOffset, st, deviceIsExpress =>
    if normalCapHdrOffset = 0 then some (st, deviceIsExpress, .success)
    else
      match read normalCapHdrOffset 2 with
      | .error status => some (st,deviceIsExpress,status)
      | .ok hdr =>
        let capabilityId := hdr % 256
        let nextItemPtr := hdr / 256
        let r := insertPciCap st .normal capabilityId normalCapHdrOffset 0
        if r.2.isError then some (r.1,deviceIsExpress,r.2)
        else
          parseNormal read fuel (nextItemPtr &&& 0xFC) r.1
            (deviceIsExpress || capabilityId == efiPciCapabilityIdPciexp)

def parseExtended (read : ReadConfig) : Nat → Nat → PciParse → Option (PciParse × EfiStatus)
  | 0, _, _ => none
  | fuel+1, extendedCapHdrOffset, st =>
    if extendedCapHdrOffset = 0 then some (st, .success)
    else
      match read extendedCapHdrOffset 4 with
      | .error status =>
        -- a device without extended config space has no extended capabilities
        if extendedCapHdrOffset = pciMaxConfigOffset then some (st, .success)
        else some (st,status)
      | .ok hdr =>
        if extendedCapHdrOffset = pciMaxConfigOffset ∧ hdr = 0 then some (st, .success)
        else
          let capabilityId := hdr % 2^16
          let capabilityVersion := hdr / 2^16 % 2^4
          let nextCapabilityOffset := hdr / 2^20
          let r := insertPciCap st .extended capabilityId extendedCapHdrOffset capabilityVersion
          if r.2.isError then some r
          else
            let next := nextCapabilityOffset &&& 0xFFC
            if next > 0 ∧ next < pciMaxConfigOffset then some (r.1, .deviceError)
            else parseExtended read fuel next r.1

def calculatePciCapMaxSizeHint (cap : PciCap) (nextOffset : Option Nat) : PciCap :=
  let configSpaceSize := match cap.key.domain with
    | .normal => pciMaxConfigOffset
    | .extended => pciExpMaxConfigOffset
  match nextOffset with
  | none => { cap with maxSizeHint := configSpaceSize - cap.offset }
  | some next =>
    if next ≥ configSpaceSize then { cap with maxSizeHint := configSpaceSize - cap.offset }
    else { cap with maxSizeHint := next - cap.offset }

/-- The loop that empties `CapHdrOffsets`. -/
def calculateHints : List Nat → PciParse → PciParse
  | [], st => st
  | [p], st => { st.modify p (calculatePciCapMaxSizeHint · none) with capHdrOffsets := [] }
  | p :: q :: offsets, st =>
    calculateHints (q :: offsets)
      { st.modify p (calculatePciCapMaxSizeHint · (some (offsetAt st.caps q))) with
        capHdrOffsets := q :: offsets }

def emptyAndUninitPciCapCollection (collection : List Nat) (freePciCap : Bool) (st : PciParse) :
    PciParse := if freePciCap then collection.foldl PciParse.free st else st

/-- What `PciCapListInit` leaves: the list with its `PCI_CAP`s, or the `PCI_CAP`s that the labels
at its end have not freed. -/
structure PciCapListResult where
  status : EfiStatus
  caps : List (Option PciCap)
  capabilities : List Nat
deriving DecidableEq, Repr

/-- The labels `FreeCapHdrOffsets`, `FreeCapabilities` and `FreeOutCapList`. -/
def freeCapHdrOffsets (status : EfiStatus) : PciCapListResult :=
  let st := emptyAndUninitPciCapCollection st.capHdrOffsets false st
  let st := emptyAndUninitPciCapCollection st.capabilities true st
  ⟨status, st.caps, []⟩

end

def finishPciCapList (r : PciParse × EfiStatus) : PciCapListResult :=
  if r.2.isError then freeCapHdrOffsets r.1 r.2
  else
    let st := calculateHints r.1.capHdrOffsets r.1
    ⟨.success, st.caps, st.capabilities⟩

/-- Both traversals; `fuel` bounds the headers of each. -/
def parseCapabilities (read : ReadConfig) (fuel : Nat) (st : PciParse) : Option (PciParse × EfiStatus) :=
  match read pciPrimaryStatusOffset 2 with
  | .error status => some (st,status)
  | .ok pciStatusReg =>
    if pciStatusReg &&& efiPciStatusCapability = 0 then some (st, .success)
    else
      match read pciCapabilityPointerOffset 1 with
      | .error status => some (st,status)
      | .ok normalCapHdrOffset => do
          let (st,deviceIsExpress,status) ←
            parseNormal read fuel (normalCapHdrOffset &&& 0xFC) st false
          if status.isError || !deviceIsExpress then some (st,status)
          else parseExtended read fuel pciMaxConfigOffset st

/-- `PciCapListInit`, with the outcomes of its allocations; `none` is a traversal that goes on after
`fuel` headers. -/
def pciCapListInit (read : ReadConfig) (allocations : List Bool) (fuel : Nat) : Option PciCapListResult :=
  -- OutCapList, Capabilities and CapHdrOffsets are allocated first
  if (allocations.take 3).all id then
    (parseCapabilities read fuel ⟨[], [], [], allocations.drop 3⟩).map finishPciCapList
  else some ⟨.outOfResources, [], []⟩

/-- `OrderedCollectionFind`: the entry with the key and those after it. -/
def orderedCollectionFind (capabilities : List Nat)
    (key : PciCapKey) : List Nat := capabilities.dropWhile fun p => comparePciCapKey key (keyAt caps p) != 0

def pciCapListFindCap (capabilities : List Nat)
    (domain : PciCapDomain) (capId capInstance : Nat) : Option Nat :=
  (orderedCollectionFind caps capabilities ⟨domain, capId, capInstance⟩).head?

def findCapVersionLoop (caps : List (Option PciCap)) (domain : PciCapDomain)
    (capId minVersion : Nat) : List Nat → Option Nat
  | [] => none
  | p :: ps =>
    let cap := capAt caps p
    if cap.key.domain ≠ domain ∨ cap.key.capId ≠ capId then none
    else if cap.version ≥ minVersion then some p
    else findCapVersionLoop caps domain capId minVersion ps

def pciCapListFindCapVersion (capabilities : List Nat)
    (domain : PciCapDomain) (capId minVersion : Nat) : Option Nat :=
  findCapVersionLoop caps domain capId minVersion
    (orderedCollectionFind caps capabilities ⟨domain, capId, 0⟩)

/-- `PciCapGetInfo`: the number of instances. -/
def numInstancesOf (p : Nat) : Nat := let cap := capAt caps p
  match cap.numInstancesUnion with
  | .numInstances n => n
  | .instanceZero q => (capAt caps q).numInstancesUnion.count

end

end Liano.Pci
