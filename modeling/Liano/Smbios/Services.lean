import Liano.Smbios.Record

/-! Adding, updating and removing SMBIOS records, and the tables that are made of them (SmbiosDxe/SmbiosDxe.c). -/
namespace Liano.Smbios
open Bytes

/-- EFI_SMBIOS_ENTRY with its record header and the record. -/
structure SmbiosEntry where
  record : Bytes
  producerHandle : Nat
  numberOfStrings : Nat
  smbios32BitTable : Bool
  smbios64BitTable : Bool
deriving DecidableEq, Repr

/-- The pages of a table and what was written to them; `installed` tells whether the configuration table names the
entry point. -/
structure TablePages where
  preAllocatedPages : Nat
  contents : Option Bytes
  installed : Bool
deriving DecidableEq, Repr

/-- SMBIOS_TABLE_ENTRY_POINT -/
structure EntryPoint32 where
  tableLength : Nat
  numberOfSmbiosStructures : Nat
  maxStructureSize : Nat
  pages : TablePages
deriving DecidableEq, Repr

/-- SMBIOS_TABLE_3_0_ENTRY_POINT -/
structure EntryPoint64 where
  tableMaximumSize : Nat
  pages : TablePages
deriving DecidableEq, Repr

structure SmbiosState where
  dataList : List SmbiosEntry
  allocatedHandleList : List Nat
  entryPointStructure : Option EntryPoint32
  smbios30EntryPointStructure : Option EntryPoint64
deriving DecidableEq, Repr

structure Allocations where
  smbiosEntry : Bool
  handleEntry : Bool
  entryPointBelow4G : Bool
  entryPointAnywhere : Bool
  table32 : Bool
  configurationTable32 : Bool
  entryPoint64 : Bool
  table64 : Bool
  configurationTable64 : Bool
deriving DecidableEq, Repr

section
variable (cfg : SmbiosConfig)

def maxSmbiosHandle : Nat :=
  if cfg.majorVersion = 2 ∧ cfg.minorVersion = 0 then 0xFFFE else 0xFEFF

def SmbiosConfig.produces32 : Bool :=
  decide (cfg.majorVersion < 3) || cfg.provideMethod.testBit 0

def SmbiosConfig.produces64 : Bool :=
  decide (cfg.majorVersion ≥ 3) && cfg.provideMethod.testBit 1

/-- The size that GetSmbiosStructureSize returns, whatever its status. -/
def structureSize (record : Bytes) : Option Nat :=
  (getSmbiosStructureSize cfg record).map (·.2.1)

/-- EFI_SMBIOS_TABLE_END_STRUCTURE -/
def endStructure : Bytes := [0x7F, 4] ++ leBytes 2 (maxSmbiosHandle cfg) ++ [0, 0]

def efiSizeToPages (size : Nat) : Nat := size / 4096 + if size % 4096 = 0 then 0 else 1

def assemble (records : List Bytes) (sizes : List Nat) : Bytes :=
  (records.zipWith (fun record size => record.take size) sizes).flatten ++ endStructure cfg

def placeTable (pages : TablePages) (tableLength : Nat) (allocated : Bool) (contents : Bytes) :
    Bool × TablePages := if efiSizeToPages tableLength > pages.preAllocatedPages then
    if allocated then (true, ⟨efiSizeToPages tableLength, some contents, pages.installed⟩)
    else (false, ⟨0, none, pages.installed⟩)
  else (true, { pages with contents := some contents })

def newEntryPoint32 : EntryPoint32 := ⟨0, 0, 0, ⟨0, none, false⟩⟩

/-- SmbiosCreateTable, and the installation of the entry point. -/
def smbiosCreateTable (records : List Bytes) (allocations : Allocations)
    (entryPoint : Option EntryPoint32) : Option (Option EntryPoint32) :=
  if entryPoint = none ∧ !allocations.entryPointBelow4G ∧ !allocations.entryPointAnywhere then some none
  else
    (records.mapM (structureSize cfg)).map fun sizes =>
      let ep := entryPoint.getD newEntryPoint32
      let tableLength := toUint16 (sizes.foldl (fun length size => toUint16 (length+size)) 0 + 6)
      let maxStructureSize :=
        sizes.foldl (fun largest size => if size > largest then toUint16 size else largest) 0
      let (placed,pages) := placeTable ep.pages tableLength allocations.table32 (assemble cfg records sizes)
      some {
        tableLength := tableLength
        numberOfSmbiosStructures := toUint16 (sizes.length+1)
        maxStructureSize := if 6 > maxStructureSize then 6 else maxStructureSize
        pages := { pages with installed := pages.installed || (placed && allocations.configurationTable32) } }

def newEntryPoint64 : EntryPoint64 := ⟨0, ⟨0, none, false⟩⟩

/-- SmbiosCreate64BitTable, and the installation of the entry point. -/
def smbiosCreate64BitTable (records : List Bytes) (allocations : Allocations)
    (entryPoint : Option EntryPoint64) : Option (Option EntryPoint64) :=
  if entryPoint = none ∧ !allocations.entryPoint64 then some none
  else
    (records.mapM (structureSize cfg)).map fun sizes =>
      let ep := entryPoint.getD newEntryPoint64
      let tableMaximumSize := toUint32 (sizes.foldl (fun length size => toUint32 (length+size)) 0 + 6)
      let (placed,pages) := placeTable ep.pages tableMaximumSize allocations.table64 (assemble cfg records sizes)
      some {
        tableMaximumSize := tableMaximumSize
        pages := { pages with installed := pages.installed || (placed && allocations.configurationTable64) } }

end

def members32 (dataList : List SmbiosEntry) : List Bytes :=
  (dataList.filter (·.smbios32BitTable)).map (·.record)

def members64 (dataList : List SmbiosEntry) : List Bytes :=
  (dataList.filter (·.smbios64BitTable)).map (·.record)

section
variable (cfg : SmbiosConfig) (st : SmbiosState)

def smbiosTableConstruction (smbios32BitTable smbios64BitTable : Bool)
    (allocations : Allocations) : Option SmbiosState := (if smbios32BitTable then
    smbiosCreateTable cfg (members32 st.dataList) allocations st.entryPointStructure
  else some st.entryPointStructure).bind fun entryPoint =>
    (if smbios64BitTable then
      smbiosCreate64BitTable cfg (members64 st.dataList) allocations st.smbios30EntryPointStructure
    else some st.smbios30EntryPointStructure).map fun entryPoint64 =>
      { st with entryPointStructure := entryPoint, smbios30EntryPointStructure := entryPoint64 }

def goesTo32 (size : Nat) : Bool :=
  cfg.produces32 && st.entryPointStructure.all fun ep => decide (ep.tableLength+size ≤ SMBIOS_TABLE_MAX_LENGTH)

def goesTo64 (size : Nat) : Bool :=
  cfg.produces64 && st.smbios30EntryPointStructure.all fun ep =>
    decide (ep.tableMaximumSize+size ≤ SMBIOS_3_0_TABLE_MAX_LENGTH)

def getAvailableSmbiosHandle : Option Nat :=
  (List.range (maxSmbiosHandle cfg)).find? fun handle => !st.allocatedHandleList.contains handle

def chooseHandle (smbiosHandle : Nat) : Except EfiStatus Nat :=
  if smbiosHandle ≠ SMBIOS_HANDLE_PI_RESERVED ∧ st.allocatedHandleList.contains smbiosHandle then
    .error .alreadyStarted
  else if smbiosHandle = SMBIOS_HANDLE_PI_RESERVED then
    match getAvailableSmbiosHandle cfg st with
    | none => .error .outOfResources
    | some handle => .ok handle
  else if smbiosHandle > maxSmbiosHandle cfg then .error .invalidParameter
  else .ok smbiosHandle

/-- The arguments of SmbiosAdd. `memory` begins with the record. -/
structure AddRequest where
  producerHandle : Nat
  smbiosHandle : Nat
  memory : Bytes
deriving DecidableEq, Repr

def newEntry (req : AddRequest) (handle size numberOfStrings : Nat) :
    SmbiosEntry where
  record := patch (req.memory.take size) 2 (leBytes 2 handle)
  producerHandle := req.producerHandle
  numberOfStrings := numberOfStrings
  smbios32BitTable := goesTo32 cfg st size
  smbios64BitTable := goesTo64 cfg st size

def insertEntry (st : SmbiosState) (entry : SmbiosEntry) (handle : Nat) : SmbiosState :=
  { st with dataList := st.dataList ++ [entry], allocatedHandleList := st.allocatedHandleList ++ [handle] }

def smbiosAdd (req : AddRequest) (allocations : Allocations) :
    Option (EfiStatus × SmbiosState) := match chooseHandle cfg st req.smbiosHandle with
  | .error status => some (status,st)
  | .ok handle =>
    (getSmbiosStructureSize cfg req.memory).bind fun (status,size,numberOfStrings) =>
      if status.isError then some (status,st)
      else if !goesTo32 cfg st size && !goesTo64 cfg st size then some (.outOfResources, st)
      else if !allocations.smbiosEntry || !allocations.handleEntry then some (.outOfResources, st)
      else
        (smbiosTableConstruction cfg (insertEntry st (newEntry cfg st req handle size numberOfStrings) handle)
          (goesTo32 cfg st size) (goesTo64 cfg st size) allocations).map fun st => (.success, st)

def staysIn32 (inputStrLen targetStrLen : Nat) : Bool :=
  cfg.produces32 && st.entryPointStructure.all fun ep =>
    decide (toUint64 (ep.tableLength+inputStrLen + 2^64 - targetStrLen) ≤ SMBIOS_TABLE_MAX_LENGTH)

def staysIn64 (inputStrLen targetStrLen : Nat) : Bool :=
  cfg.produces64 && st.smbios30EntryPointStructure.all fun ep =>
    decide (toUint64 (ep.tableMaximumSize+inputStrLen + 2^64 - targetStrLen) ≤ SMBIOS_3_0_TABLE_MAX_LENGTH)

def isTooLong (cfg : SmbiosConfig) (inputStrLen : Nat) : Bool := decide (inputStrLen > cfg.maxLen)

/-- The arguments of SmbiosUpdateString; the string is without its NUL. -/
structure UpdateRequest where
  smbiosHandle : Nat
  stringNumber : Nat
  string : Bytes
  noNul : (0 : UInt8) ∉ string

def putEntry (st : SmbiosState) (index : Nat) (entry : SmbiosEntry) : SmbiosState :=
  { st with dataList := st.dataList.set index entry }

def findEntry (st : SmbiosState) (smbiosHandle : Nat) : Option Nat :=
  st.dataList.findIdx? fun entry => recordHandle entry.record == smbiosHandle

/-- AsciiStrCpyS copies into a buffer of this size. -/
def SmbiosConfig.copies (cfg : SmbiosConfig) (destMax : Nat) : Bool :=
  cfg.maximumAsciiStringLength == 0 || decide (destMax ≤ cfg.maximumAsciiStringLength)

/-- Another string of the same length is copied into the record; the status of the copy is not looked at. -/
def updateInPlace (index : Nat) (entry : SmbiosEntry)
    (length targetStrOffset : Nat) (string : Bytes) (allocations : Allocations) : Option (EfiStatus × SmbiosState) :=
  (smbiosTableConstruction cfg (putEntry st index { entry with
        record := if cfg.copies (string.length+1) then
            replaceString entry.record length targetStrOffset string.length string
          else entry.record })
    entry.smbios32BitTable entry.smbios64BitTable allocations).map fun st => (.success, st)

def updateResized (index : Nat) (entry : SmbiosEntry)
    (length targetStrOffset targetStrLen : Nat) (string : Bytes) (allocations : Allocations) :
    Option (EfiStatus × SmbiosState) := let entry := { entry with
    smbios32BitTable := staysIn32 cfg st string.length targetStrLen
    smbios64BitTable := staysIn64 cfg st string.length targetStrLen }
  if !entry.smbios32BitTable && !entry.smbios64BitTable then some (.unsupported, putEntry st index entry)
  else if !allocations.smbiosEntry then some (.outOfResources, putEntry st index entry)
  else
    (smbiosTableConstruction cfg (putEntry st index
        { entry with record := replaceString entry.record length targetStrOffset targetStrLen string })
      entry.smbios32BitTable entry.smbios64BitTable allocations).map fun st => (.success, st)

def updateEntry (req : UpdateRequest) (allocations : Allocations)
    (index : Nat) (entry : SmbiosEntry) : Option (EfiStatus × SmbiosState) :=
  if req.stringNumber > entry.numberOfStrings then some (.notFound, st)
  else
    (formattedLength entry.record).bind fun length =>
      (findString (entry.record.drop length) req.stringNumber).bind fun
        | .notFound => some (.notFound, st)
        | .found targetStrOffset =>
          (asciiStrLen ((entry.record.drop length).drop targetStrOffset)).bind fun targetStrLen =>
            if req.string.length = targetStrLen then
              updateInPlace cfg st index entry length targetStrOffset req.string allocations
            else updateResized cfg st index entry length targetStrOffset targetStrLen req.string allocations

def smbiosUpdateString (req : UpdateRequest) (allocations : Allocations) :
    Option (EfiStatus × SmbiosState) :=
  if req.smbiosHandle > maxSmbiosHandle cfg then some (.invalidParameter, st)
  else if req.stringNumber = 0 then some (.notFound, st)
  else if isTooLong cfg req.string.length then some (.unsupported, st)
  else
    match findEntry st req.smbiosHandle with
    | none => some (.invalidParameter, st)
    | some index => (st.dataList[index]?).bind (updateEntry cfg st req allocations index)

def dropEntry (st : SmbiosState) (index smbiosHandle : Nat) : SmbiosState := { st with
    dataList := st.dataList.eraseIdx index
    allocatedHandleList := st.allocatedHandleList.erase smbiosHandle }

def smbiosRemove (smbiosHandle : Nat) (allocations : Allocations) :
    Option (EfiStatus × SmbiosState) :=
  if smbiosHandle > maxSmbiosHandle cfg then some (.invalidParameter, st)
  else
    match findEntry st smbiosHandle with
    | none => some (.invalidParameter, st)
    | some index =>
      (st.dataList[index]?).bind fun entry =>
        (smbiosTableConstruction cfg (dropEntry st index smbiosHandle) entry.smbios32BitTable
          entry.smbios64BitTable allocations).map fun st => (.success, st)

end

end Liano.Smbios
