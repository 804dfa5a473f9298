import Mathlib.Data.List.Sort
import Liano.Efi

/-! `QemuFwCfgAcpi.c`: the linker/loader script that QEMU passes in `etc/table-loader`. An ordered
collection is the list of its user structures in their order. -/
namespace Liano.Qemu

/-- The `QEMU_LOADER_FNAME_SIZE` bytes of a file name. -/
abbrev FileName := List UInt8

def qemuLoaderFnameSize : Nat := 56

/-- The name as an ASCII string, up to its NUL. -/
def asciiStr (file : FileName) : List UInt8 := file.takeWhile (· ≠ 0)

/-- The last byte is no NUL. -/
def malformed (file : FileName) : Bool := file.getD (qemuLoaderFnameSize-1) 0 != 0

structure QemuLoaderAllocate where
  file : FileName
  alignment : Nat
deriving DecidableEq, Repr

structure QemuLoaderAddPointer where
  pointerFile : FileName
  pointeeFile : FileName
  pointerOffset : Nat
  pointerSize : Nat
deriving DecidableEq, Repr

structure QemuLoaderAddChecksum where
  file : FileName
  resultOffset : Nat
  start : Nat
  length : Nat
deriving DecidableEq, Repr

structure QemuLoaderWritePointer where
  pointerFile : FileName
  pointeeFile : FileName
  pointerOffset : Nat
  pointeeOffset : Nat
  pointerSize : Nat
deriving DecidableEq, Repr

inductive QemuLoaderEntry
  | allocate (command : QemuLoaderAllocate)
  | addPointer (command : QemuLoaderAddPointer)
  | addChecksum (command : QemuLoaderAddChecksum)
  | writePointer (command : QemuLoaderWritePointer)
  | unknown (type : Nat)
deriving DecidableEq, Repr

/-- `sizeof (QEMU_LOADER_ENTRY)`. -/
def sizeOfLoaderEntry : Nat := 128

def efiPageSize : Nat := 4096

abbrev PageRange := Nat × Nat

/-- An installed ACPI table, with the key for uninstalling it. -/
structure InstalledTable where
  address : Nat
  size : Nat
  key : Nat
deriving DecidableEq, Repr

/-- The fw_cfg interface and the services of the environment. A service that fails has an error for
its status. -/
structure Services where
  /-- `QemuFwCfgFindFile`: status, item and size. -/
  findFile : List UInt8 → EfiStatus × Nat × Nat
  /-- The bytes read from an item. -/
  contents : Nat → List UInt8
  s3Enabled : Bool
  /-- `AllocatePages`, below an address, with the ranges that are allocated. -/
  allocatePages : List PageRange → Nat → Nat → EfiStatus × Nat
  /-- `InstallAcpiTable`, with the tables installed so far: status and key. -/
  installAcpiTable : List InstalledTable → Nat → Nat → EfiStatus × Nat
  /-- `QemuFwCfgS3CallWhenBootScriptReady`. -/
  callWhenBootScriptReady : EfiStatus

/-- Bytes written to a fw_cfg file: its item, the offset, the size and the number written. -/
structure FwCfgWrite where
  item : Nat
  offset : Nat
  size : Nat
  value : Nat
deriving DecidableEq, Repr

structure Blob where
  file : FileName
  size : Nat
  base : Nat
  hostsOnlyTableData : Bool
deriving DecidableEq, Repr

/-- `S3_CONTEXT`: the room for condensed commands, and those saved. -/
structure S3Context where
  allocated : Nat
  writePointers : List FwCfgWrite
deriving DecidableEq, Repr

/-- The memory, the tracker and what has been done so far: the pages allocated and freed for blobs,
the writes to fw_cfg, the tables installed and the keys uninstalled; then the outcomes of the coming
pool allocations, which succeed where the list ends. -/
structure LoaderState where
  memory : Nat → UInt8
  tracker : List Blob
  allocated : List PageRange
  freed : List PageRange
  writes : List FwCfgWrite
  installed : List InstalledTable
  uninstalled : List Nat
  s3Context : Option S3Context
  seenPointers : List Nat
  pool : List Bool

/-- `AllocatePool`. -/
def LoaderState.takePool (st : LoaderState) : Bool × LoaderState :=
  (st.pool.headD true, { st with pool := st.pool.tail })

def efiSizeToPages (size : Nat) : Nat := size / efiPageSize + if size % efiPageSize = 0 then 0 else 1

def Blob.range (b : Blob) : PageRange := (b.base, efiSizeToPages b.size)

def readBytes (memory : Nat → UInt8) : Nat → Nat → Nat
  | _, 0 => 0
  | address, size+1 => (memory address).toNat + 256 * readBytes memory (address+1) size

/-- The low `size` bytes of a number, written at an address. -/
def writeBytes (memory : Nat → UInt8) (address size value : Nat) : Nat → UInt8 := fun x =>
  if address ≤ x ∧ x < address+size then UInt8.ofNat (value / 256 ^ (x-address)) else memory x

def calculateSum8 (memory : Nat → UInt8) : Nat → Nat → UInt8
  | _, 0 => 0
  | address, length+1 => memory address + calculateSum8 memory (address+1) length

def asciiStrCmp : List UInt8 → List UInt8 → Int
  | [], [] => 0
  | [], b :: _ => -(b.toNat : Int)
  | a :: _, [] => a.toNat
  | a :: as, b :: bs => if a = b then asciiStrCmp as bs else (a.toNat : Int) - b.toNat

def findBlob (tracker : List Blob) (file : FileName) : Option Blob :=
  tracker.find? fun b => asciiStr file == asciiStr b.file

def markOpaque (tracker : List Blob) (file : FileName) : List Blob := tracker.map fun b =>
    if asciiStr file = asciiStr b.file then { b with hostsOnlyTableData := false } else b

def collectAllocationsRestrictedTo32Bit : List QemuLoaderEntry → List (List UInt8) → LoaderState →
      LoaderState × EfiStatus × List (List UInt8)
  | [], collection, st => (st, .success, collection)
  | .addPointer command :: entries, collection, st =>
    if command.pointerSize ≥ 8 then collectAllocationsRestrictedTo32Bit entries collection st
    else if malformed command.pointeeFile then (st, .protocolError, [])
    else if asciiStr command.pointeeFile ∈ collection then
      collectAllocationsRestrictedTo32Bit entries collection st
    else
      let p := st.takePool
      if !p.1 then (p.2, .outOfResources, [])
      else
        collectAllocationsRestrictedTo32Bit entries (asciiStr command.pointeeFile :: collection) p.2
  | _ :: entries, collection, st => collectAllocationsRestrictedTo32Bit entries collection st

def loadBlob (memory : Nat → UInt8) (contents : List UInt8) (b : Blob) : Nat → UInt8 := fun x =>
  if b.base ≤ x ∧ x < b.base+b.size then contents.getD (x-b.base) 0
  else if b.base ≤ x ∧ x < b.base + efiSizeToPages b.size * efiPageSize then 0
  else memory x

def LoaderState.freePages (st : LoaderState) (range : PageRange) : LoaderState :=
  { st with freed := st.freed ++ [range] }

def LoaderState.live (st : LoaderState) : List PageRange := st.allocated.diff st.freed

section
variable (services : Services)

def trackBlob (st : LoaderState) (item : Nat) (blob : Blob) :
    LoaderState × EfiStatus := let p := st.takePool
  if !p.1 then (p.2.freePages blob.range, .outOfResources)
  else if (findBlob p.2.tracker blob.file).isSome then (p.2.freePages blob.range, .protocolError)
  else
    let q := p.2.takePool
    if !q.1 then (q.2.freePages blob.range, .outOfResources)
    else
      ({ q.2 with
        tracker := q.2.tracker.orderedInsert
          (fun a b => asciiStrCmp (asciiStr a.file) (asciiStr b.file) ≤ 0) blob
        memory := loadBlob q.2.memory (services.contents item) blob }, .success)

def processCmdAllocate (restricted : List (List UInt8))
    (command : QemuLoaderAllocate) (st : LoaderState) : LoaderState × EfiStatus :=
  if malformed command.file then (st, .protocolError)
  else if command.alignment > efiPageSize then (st, .unsupported)
  else
    let file := services.findFile (asciiStr command.file)
    if file.1.isError then (st,file.1)
    else
      let maxAddress := if asciiStr command.file ∈ restricted then 2^32-1 else 2^64-1
      let pages := services.allocatePages st.live maxAddress (efiSizeToPages file.2.2)
      if pages.1.isError then (st,pages.1)
      else
        let blob : Blob := ⟨command.file, file.2.2, pages.2, true⟩
        trackBlob services { st with allocated := st.allocated ++ [blob.range] } file.2.1 blob

def validPointerSize (size : Nat) : Bool := size == 1 || size == 2 || size == 4 || size == 8

def unrepresentable (size value : Nat) : Bool := decide (size < 8) && value / 2 ^ (size*8) != 0

/-- `ProcessCmdAddPointer`; `none` is a failed assertion. -/
def processCmdAddPointer (command : QemuLoaderAddPointer) (st : LoaderState) :
    Option (LoaderState × EfiStatus) :=
  if malformed command.pointerFile || malformed command.pointeeFile then some (st, .protocolError)
  else
    match findBlob st.tracker command.pointerFile, findBlob st.tracker command.pointeeFile with
    | some blob, some blob2 =>
      if !validPointerSize command.pointerSize ∨ blob.size < command.pointerSize ∨
          blob.size-command.pointerSize < command.pointerOffset then some (st, .protocolError)
      else
        let field := blob.base+command.pointerOffset
        let value := readBytes st.memory field command.pointerSize
        if value ≥ blob2.size then some (st, .protocolError)
        -- ASSERT ((UINTN)Blob2->Base <= MAX_ADDRESS - Blob2->Size)
        else if blob2.base > 2^64-1-blob2.size then none
        else if unrepresentable command.pointerSize (value+blob2.base) then
          some (st, .protocolError)
        else
          some ({ st with
            memory := writeBytes st.memory field command.pointerSize (value+blob2.base) }, .success)
    | _, _ => some (st, .protocolError)

def processCmdAddChecksum (command : QemuLoaderAddChecksum) (st : LoaderState) :
    LoaderState × EfiStatus := if malformed command.file then (st, .protocolError)
  else
    match findBlob st.tracker command.file with
    | none => (st, .protocolError)
    | some blob =>
      if blob.size ≤ command.resultOffset ∨ blob.size < command.length ∨
          blob.size-command.length < command.start then (st, .protocolError)
      else
        let checksum := -calculateSum8 st.memory (blob.base+command.start) command.length
        ({ st with
          memory := writeBytes st.memory (blob.base+command.resultOffset) 1 checksum.toNat }, .success)

/-- `SaveCondensedWritePointerToS3Context`, where there is a context. -/
def saveCondensedWritePointer (context : Option S3Context) (write : FwCfgWrite) :
    Option S3Context × EfiStatus := match context with
  | none => (none, .success)
  | some c =>
    if c.writePointers.length = c.allocated then (some c, .outOfResources)
    else (some { c with writePointers := c.writePointers ++ [write] }, .success)

/-- `ProcessCmdWritePointer`; `none` is a failed assertion. -/
def processCmdWritePointer (command : QemuLoaderWritePointer)
    (st : LoaderState) : Option (LoaderState × EfiStatus) :=
  if malformed command.pointerFile || malformed command.pointeeFile then some (st, .protocolError)
  else
    let file := services.findFile (asciiStr command.pointerFile)
    match findBlob st.tracker command.pointeeFile with
    | none => some (st, .protocolError)
    | some blob =>
      if file.1.isError then some (st, .protocolError)
      else if !validPointerSize command.pointerSize ∨ file.2.2 < command.pointerSize ∨
          file.2.2-command.pointerSize < command.pointerOffset then some (st, .protocolError)
      else if command.pointeeOffset ≥ blob.size then some (st, .protocolError)
      -- ASSERT ((UINTN)PointeeBlob->Base <= MAX_ADDRESS - PointeeBlob->Size)
      else if blob.base > 2^64-1-blob.size then none
      else
        let value := command.pointeeOffset+blob.base
        if unrepresentable command.pointerSize value then some (st, .protocolError)
        else
          let write : FwCfgWrite := ⟨file.2.1, command.pointerOffset, command.pointerSize, value⟩
          let saved := saveCondensedWritePointer st.s3Context write
          if saved.2.isError then some (st,saved.2)
          else
            some ({ st with
              s3Context := saved.1
              writes := st.writes ++ [write]
              tracker := markOpaque st.tracker command.pointeeFile }, .success)

def processEntry (restricted : List (List UInt8)) (entry : QemuLoaderEntry)
    (st : LoaderState) : Option (LoaderState × EfiStatus) := match entry with
  | .allocate command => some (processCmdAllocate services restricted command st)
  | .addPointer command => processCmdAddPointer command st
  | .addChecksum command => some (processCmdAddChecksum command st)
  | .writePointer command => processCmdWritePointer services command st
  | .unknown _ => some (st, .success)

def QemuLoaderEntry.isWritePointer : QemuLoaderEntry → Bool
  | .writePointer _ => true
  | _ => false

/-- The first pass from an entry on, behind the entries `done`; `subset` are those before
`WritePointerSubsetEnd`. -/
def firstPass (services : Services) (restricted : List (List UInt8)) :
    List QemuLoaderEntry → List QemuLoaderEntry → List QemuLoaderEntry → LoaderState →
      Option (LoaderState × EfiStatus × List QemuLoaderEntry)
  | _, subset, [], st => some (st, .success, subset)
  | done, subset, entry :: entries, st =>
    (processEntry services restricted entry st).bind fun r =>
      if r.2.isError then some (r.1,r.2,subset)
      else
        firstPass services restricted (done ++ [entry])
          (if entry.isWritePointer then done ++ [entry] else subset) entries r.1

def installedTablesMax : Nat := 128

def sizeOfFacs : Nat := 64
def sizeOfDescriptionHeader : Nat := 36

def signature (a b c d : Char) : Nat := a.toNat + 256 * (b.toNat + 256 * (c.toNat + 256*d.toNat))

inductive Target
  | table (size : Nat)
  | rootTable
  | other
deriving DecidableEq, Repr

/-- The checks for an ACPI header, with the bytes remaining in the blob. -/
def identify (memory : Nat → UInt8) (address remaining : Nat) : Target :=
  let sig := readBytes memory address 4
  let length := readBytes memory (address+4) 4
  if sizeOfFacs ≤ remaining ∧ sizeOfFacs ≤ length ∧ length ≤ remaining ∧
      sig = signature 'F' 'A' 'C' 'S' then .table length
  else if sizeOfDescriptionHeader ≤ remaining ∧ sizeOfDescriptionHeader ≤ length ∧
      length ≤ remaining ∧ calculateSum8 memory address length = 0 then
    if sig = signature 'R' 'S' 'D' 'T' ∨ sig = signature 'X' 'S' 'D' 'T' then .rootTable
    else .table length
  else .other

/-- `PointerValue` as the second pass reads it. -/
def pointerValue (memory : Nat → UInt8) (blob : Blob) (command : QemuLoaderAddPointer) : Nat :=
  readBytes memory (blob.base+command.pointerOffset) command.pointerSize

/-- `Process2ndPassCmdAddPointer`, behind the check of `NumInstalled`; `none` is a failed assertion
or a name that is not tracked. -/
def process2ndPassCmdAddPointer (command : QemuLoaderAddPointer)
    (st : LoaderState) : Option (LoaderState × EfiStatus) :=
  match findBlob st.tracker command.pointerFile, findBlob st.tracker command.pointeeFile with
  | some blob, some blob2 =>
    let value := pointerValue st.memory blob command
    if value < blob2.base ∨ blob2.base+blob2.size ≤ value then none
    else if value ∈ st.seenPointers then some (st, .success)
    else
      let p := st.takePool
      if !p.1 then some (p.2, .outOfResources)
      else
        let st := { p.2 with seenPointers := value :: st.seenPointers }
        match identify st.memory value (blob2.base+blob2.size-value) with
        | .rootTable => some (st, .success)
        | .other => some ({ st with tracker := markOpaque st.tracker command.pointeeFile }, .success)
        | .table size =>
          if st.installed.length = installedTablesMax then
            some ({ st with seenPointers := st.seenPointers.erase value }, .outOfResources)
          else
            let r := services.installAcpiTable st.installed value size
            if r.1.isError then
              some ({ st with seenPointers := st.seenPointers.erase value }, r.1)
            else some ({ st with installed := st.installed ++ [⟨value, size, r.2⟩] }, .success)
  | _, _ => none

def secondPass (services : Services) : List QemuLoaderEntry → LoaderState → Option (LoaderState × EfiStatus)
  | [], st => some (st, .success)
  | .addPointer command :: entries, st =>
    if st.installed.length > installedTablesMax then some (st, .invalidParameter)
    else
      (process2ndPassCmdAddPointer services command st).bind fun r =>
        if r.2.isError then some r else secondPass services entries r.1
  | _ :: entries, st => secondPass services entries st

def transferS3Context (st : LoaderState) : EfiStatus := match st.s3Context with
  | none => .success
  | some c => if c.writePointers = [] then .success else services.callWhenBootScriptReady

def uninstallAcpiTables (st : LoaderState) (status : EfiStatus) : LoaderState := if status.isError then
    { st with uninstalled := st.uninstalled ++ (st.installed.map InstalledTable.key).reverse }
  else st

/-- `UndoCmdWritePointer`; `none` is a failed assertion. -/
def undoCmdWritePointer (command : QemuLoaderWritePointer)
    (st : LoaderState) : Option LoaderState := let file := services.findFile (asciiStr command.pointerFile)
  if file.1.isError then none
  else some { st with
    writes := st.writes ++ [⟨file.2.1, command.pointerOffset, command.pointerSize, 0⟩] }

def rollbackWritePointers (services : Services) : List QemuLoaderEntry → LoaderState → Option LoaderState
  | [], st => some st
  | .writePointer command :: entries, st =>
    (undoCmdWritePointer services command st).bind (rollbackWritePointers services entries)
  | _ :: entries, st => rollbackWritePointers services entries st

def keptBlobs (tracker : List Blob) (status : EfiStatus) : List Blob :=
  tracker.filter fun b => !(status.isError || b.hostsOnlyTableData)

def freeTracker (st : LoaderState) (status : EfiStatus) : LoaderState :=
  (st.tracker.filter fun b => status.isError || b.hostsOnlyTableData).foldl
    (fun st b => st.freePages b.range) st

/-- From the label `RollbackWritePointersAndFreeTracker` on; the blobs are still in the state. -/
def rollbackAndFreeTracker (subset : List QemuLoaderEntry) (st : LoaderState)
    (status : EfiStatus) : Option (LoaderState × EfiStatus) :=
  (if status.isError then rollbackWritePointers services subset.reverse st else some st).map
    fun st => (freeTracker st status, status)

def identifyTables (script subset : List QemuLoaderEntry) (st : LoaderState) :
    Option (LoaderState × EfiStatus) := let p := st.takePool
  if !p.1 then rollbackAndFreeTracker services subset p.2 .outOfResources
  else
    let q := p.2.takePool
    if !q.1 then rollbackAndFreeTracker services subset q.2 .outOfResources
    else
      (secondPass services script q.2).bind fun r =>
        let status := if r.2.isError then r.2 else transferS3Context services r.1
        rollbackAndFreeTracker services subset (uninstallAcpiTables r.1 status) status

def allocateS3Context (st : LoaderState) (writePointerCount : Nat) : LoaderState × EfiStatus :=
  if writePointerCount = 0 then (st, .invalidParameter)
  else
    let p := st.takePool
    if !p.1 then (p.2, .outOfResources)
    else
      let q := p.2.takePool
      if !q.1 then (q.2, .outOfResources)
      else ({ q.2 with s3Context := some ⟨writePointerCount, []⟩ }, .success)

def processScript (restricted : List (List UInt8))
    (script : List QemuLoaderEntry) (st : LoaderState) : Option (LoaderState × EfiStatus) :=
  let p := st.takePool
  if !p.1 then some (p.2, .outOfResources)
  else
    (firstPass services restricted [] [] script p.2).bind fun r =>
      if r.2.1.isError then rollbackAndFreeTracker services r.2.2 r.1 r.2.1
      else identifyTables services script r.2.2 r.1

def initialState (memory : Nat → UInt8) (pool : List Bool) : LoaderState :=
  ⟨memory, [], [], [], [], [], [], none, [], pool⟩

def installQemuFwCfgTables (loader : EfiStatus × Nat)
    (script : List QemuLoaderEntry) (memory : Nat → UInt8) (pool : List Bool) :
    Option (LoaderState × EfiStatus) := let st := initialState memory pool
  if loader.1.isError then some (st,loader.1)
  else if loader.2 % sizeOfLoaderEntry ≠ 0 then some (st, .protocolError)
  else
    let p := st.takePool
    if !p.1 then some (p.2, .outOfResources)
    else
      let q := p.2.takePool
      if !q.1 then some (q.2, .outOfResources)
      else
        let collected := collectAllocationsRestrictedTo32Bit script [] q.2
        if collected.2.1.isError then some (collected.1,collected.2.1)
        else if services.s3Enabled then
          let s3 := allocateS3Context collected.1 script.length
          if s3.2.isError then some s3
          else processScript services collected.2.2 script s3.1
        else processScript services collected.2.2 script collected.1

end

end Liano.Qemu
