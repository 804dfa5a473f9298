import Mathlib.Algebra.Ring.Nat
import Liano.Lib.Patch

/-! The disk cache of a FAT volume (EnhancedFatDxe/DiskCache.c) and the disk access that goes through it
(Misc.c). The disk, a page and a buffer are functions from positions to bytes. -/
namespace Liano.Fat

open Function (update)

open Lib

inductive CacheDataType
  | cacheFat | cacheData
deriving DecidableEq, Repr

/-- Where the regions of a volume lie, and the parameters of its caches. The FAT copies lie in front of the
root directory and the clusters. -/
structure Geometry where
  fatPos : Nat
  fatSize : Nat
  numFats : Nat
  rootPos : Nat
  volumeSize : Nat
  pageAlignment : CacheDataType → Nat
  groupCount : CacheDataType → Nat
  numFats_pos : 0 < numFats
  groupCount_pos : ∀ t, 0 < groupCount t
  fats_before_root : fatPos + numFats*fatSize ≤ rootPos
  root_le : rootPos ≤ volumeSize

namespace Geometry

section
variable (g : Geometry) (t : CacheDataType)

def pageSize : Nat := 2 ^ g.pageAlignment t

def baseAddress (g : Geometry) : CacheDataType → Nat
  | .cacheFat => g.fatPos
  | .cacheData => g.rootPos

def limitAddress (g : Geometry) : CacheDataType → Nat
  | .cacheFat => g.fatPos+g.fatSize
  | .cacheData => g.volumeSize

/-- The group of a page: PageNo & GroupMask. -/
def groupNo (pageNo : Nat) : Nat := pageNo % g.groupCount t

def entryPos (pageNo : Nat) : Nat :=
  g.baseAddress t + pageNo * g.pageSize t

def realSize (pageNo : Nat) : Nat :=
  min (g.pageSize t) (g.limitAddress t - g.entryPos t pageNo)

end

def writeCount (g : Geometry) : CacheDataType → Nat
  | .cacheFat => g.numFats
  | .cacheData => 1

end Geometry

structure CacheTag where
  pageNo : Nat
  realSize : Nat
  dirty : Bool
deriving DecidableEq, Repr

/-- DISK_CACHE, with its pages by their groups. -/
structure DiskCache where
  dirty : Bool
  cacheTag : Nat → CacheTag
  page : Nat → Nat → UInt8

/-- FAT_SUBTASK -/
structure Subtask where
  write : Bool
  offset : Nat
  bufferSize : Nat
  buffer : Nat → UInt8

/-- A volume. The outcomes are what the coming transfers and allocations do; where the list ends they
succeed. -/
structure Volume where
  disk : Nat → UInt8
  diskCache : CacheDataType → DiskCache
  subtasks : List Subtask
  outcomes : List Bool

structure Result where
  ok : Bool
  buffer : Nat → UInt8
  volume : Volume

def Volume.outcome (v : Volume) : Bool := v.outcomes.headD true

def Volume.consume (v : Volume) : Volume := { v with outcomes := v.outcomes.tail }

def transfer (v : Volume) (write : Bool) (offset size : Nat) (buffer : Nat → UInt8) : Result :=
  if !v.outcome then ⟨false, buffer, v.consume⟩
  else if write then ⟨true, buffer, { v.consume with disk := patch v.disk offset size buffer }⟩
  else ⟨true, fun i => v.disk (offset+i), v.consume⟩

/-- The part of a raw `FatDiskIo` with a task behind the check of the range: a subtask is added. -/
def queueSubtask (v : Volume) (write : Bool) (offset size : Nat) (buffer : Nat → UInt8) : Result :=
  if !v.outcome then ⟨false, buffer, v.consume⟩
  else ⟨true, buffer, { v.consume with subtasks := v.subtasks ++ [⟨write, offset, size, buffer⟩] }⟩

section
variable (g : Geometry) (v : Volume)

/-- `FatDiskIo` of the disk itself, with or without a task. -/
def diskIo (write task : Bool) (offset size : Nat) (buffer : Nat → UInt8) :
    Result := if g.volumeSize < offset+size then ⟨false, buffer, v⟩
  else if task then queueSubtask v write offset size buffer
  else transfer v write offset size buffer

section
variable (t : CacheDataType)

def Volume.tag (group : Nat) : CacheTag := (v.diskCache t).cacheTag group

def Volume.setTag (group : Nat) (tag : CacheTag) : Volume := { v with
    diskCache := update v.diskCache t
      { v.diskCache t with cacheTag := update (v.diskCache t).cacheTag group tag } }

def Volume.setPage (group : Nat) (page : Nat → UInt8) : Volume := { v with
    diskCache := update v.diskCache t { v.diskCache t with page := update (v.diskCache t).page group page } }

def Volume.setDirty (dirty : Bool) : Volume :=
  { v with diskCache := update v.diskCache t { v.diskCache t with dirty := dirty } }

end

def Volume.holds (v : Volume) (g : Geometry) (t : CacheDataType) (pageNo : Nat) : Bool :=
  decide (0 < (v.tag t (g.groupNo t pageNo)).realSize) && (v.tag t (g.groupNo t pageNo)).pageNo == pageNo

def Volume.dirtyAt (v : Volume) (g : Geometry) (t : CacheDataType) (pageNo : Nat) : Bool :=
  v.holds g t pageNo && (v.tag t (g.groupNo t pageNo)).dirty

/-- The loop over the copies of the FAT. -/
def writeCopies (g : Geometry) (task : Bool) (size : Nat) (buffer : Nat → UInt8) :
    Nat → Nat → Volume → Bool × Volume
  | 0, _, v => (true,v)
  | count+1, pos, v =>
    if (diskIo g v true task pos size buffer).ok then
      writeCopies g task size buffer count (pos+g.fatSize) (diskIo g v true task pos size buffer).volume
    else (false, (diskIo g v true task pos size buffer).volume)

def copiesOf (g : Geometry) (task : Bool) (v : Volume) (t : CacheDataType) (group : Nat) : Bool × Volume :=
  writeCopies g task (v.tag t group).realSize ((v.diskCache t).page group) (g.writeCount t)
    (g.entryPos t (v.tag t group).pageNo) v

/-- `FatExchangeCachePage` with WriteDisk. -/
def storePage (g : Geometry) (task : Bool) (v : Volume) (t : CacheDataType) (group : Nat) : Bool × Volume :=
  if (copiesOf g task v t group).1 then
    (true, (copiesOf g task v t group).2.setTag t group { v.tag t group with dirty := false })
  else copiesOf g task v t group

section
variable (t : CacheDataType)

def fetchPage (pageNo : Nat) : Result :=
  diskIo g v false false (g.entryPos t pageNo) (g.realSize t pageNo) fun _ => 0

/-- The tag is set to the page, and `FatExchangeCachePage` with ReadDisk; where that fails the real size and
the dirty flag stay those of the page before. -/
def loadPage (pageNo : Nat) : Bool × Volume :=
  if (fetchPage g v t pageNo).ok then
    (true, ((fetchPage g v t pageNo).volume.setPage t (g.groupNo t pageNo)
        (patch ((v.diskCache t).page (g.groupNo t pageNo)) 0 (g.realSize t pageNo)
          (fetchPage g v t pageNo).buffer)).setTag t (g.groupNo t pageNo) ⟨pageNo, g.realSize t pageNo, false⟩)
  else
    (false, (fetchPage g v t pageNo).volume.setTag t (g.groupNo t pageNo)
      { v.tag t (g.groupNo t pageNo) with pageNo := pageNo })

/-- The part of `FatGetCachePage` in front of the load: a dirty page in the group is written back. -/
def writeBack (pageNo : Nat) : Bool × Volume :=
  if 0 < (v.tag t (g.groupNo t pageNo)).realSize ∧ (v.tag t (g.groupNo t pageNo)).dirty = true then
    storePage g false v t (g.groupNo t pageNo)
  else (true,v)

def getCachePage (pageNo : Nat) : Bool × Volume :=
  if v.holds g t pageNo then (true,v)
  else if (writeBack g v t pageNo).1 then loadPage g (writeBack g v t pageNo).2 t pageNo
  else writeBack g v t pageNo

def dirtyPage (pageNo offset length : Nat)
    (buffer : Nat → UInt8) : Volume := ((v.setPage t (g.groupNo t pageNo)
    (patch ((v.diskCache t).page (g.groupNo t pageNo)) offset length buffer)).setTag t (g.groupNo t pageNo)
      { v.tag t (g.groupNo t pageNo) with dirty := true }).setDirty t true

/-- `FatAccessUnalignedCachePage` -/
def accessPage (write : Bool) (pageNo offset length : Nat)
    (buffer : Nat → UInt8) : Result := if (getCachePage g v t pageNo).1 then
    if write then ⟨true, buffer, dirtyPage g (getCachePage g v t pageNo).2 t pageNo offset length buffer⟩
    else
      ⟨true, patch buffer 0 length fun i =>
        (((getCachePage g v t pageNo).2.diskCache t).page (g.groupNo t pageNo)) (offset+i),
        (getCachePage g v t pageNo).2⟩
  else ⟨false, buffer, (getCachePage g v t pageNo).2⟩

/-- `FatFlushDataCacheRange` for a write: the pages of the range are no longer valid. -/
def invalidateRange (start stop : Nat) : Volume := { v with
    diskCache := update v.diskCache .cacheData { v.diskCache .cacheData with
        cacheTag := fun group =>
          if 0 < (v.tag .cacheData group).realSize ∧ start ≤ (v.tag .cacheData group).pageNo ∧
              (v.tag .cacheData group).pageNo < stop ∧
              g.groupNo .cacheData (v.tag .cacheData group).pageNo = group then
            { v.tag .cacheData group with realSize := 0 }
          else v.tag .cacheData group } }

/-- `FatFlushDataCacheRange` for a read: the dirty pages of the range are copied over the buffer. -/
def overlayRange (start stop : Nat) (buffer : Nat → UInt8) : Nat → UInt8 :=
  fun i =>
    if start + i / g.pageSize .cacheData < stop ∧
        v.dirtyAt g .cacheData (start + i / g.pageSize .cacheData) = true then
      (v.diskCache .cacheData).page (g.groupNo .cacheData (start + i / g.pageSize .cacheData))
        (i % g.pageSize .cacheData)
    else buffer i

def alignedIo (write task : Bool) (pageNo count : Nat)
    (buffer : Nat → UInt8) : Result :=
  diskIo g v write task (g.rootPos + pageNo * g.pageSize .cacheData) (count * g.pageSize .cacheData) buffer

def accessAligned (write task : Bool) (pageNo count : Nat)
    (buffer : Nat → UInt8) : Result := if (alignedIo g v write task pageNo count buffer).ok then
    if write then
      ⟨true, buffer, invalidateRange g (alignedIo g v write task pageNo count buffer).volume pageNo
        (pageNo+count)⟩
    else
      ⟨true, overlayRange g (alignedIo g v write task pageNo count buffer).volume pageNo (pageNo+count)
        (alignedIo g v write task pageNo count buffer).buffer,
        (alignedIo g v write task pageNo count buffer).volume⟩
  else alignedIo g v write task pageNo count buffer

/-- The parts of an access: the underrun and the overrun in one page each, and the aligned pages. -/
inductive Part
  | page (pageNo offset length : Nat)
  | pages (pageNo count : Nat)
deriving DecidableEq

def Part.position : Part → Nat
  | .page pageNo offset _ => g.entryPos t pageNo + offset
  | .pages pageNo _ => g.rootPos + pageNo * g.pageSize .cacheData

def Part.size (g : Geometry) : Part → Nat
  | .page _ _ length => length
  | .pages _ count => count * g.pageSize .cacheData

def overRunPart (pageNo size : Nat) : List Part := if 0 < size then [.page pageNo 0 size] else []

def alignedParts (pageNo size : Nat) : List Part :=
  if 0 < size / g.pageSize t then
    .pages pageNo (size / g.pageSize t) :: overRunPart (pageNo + size / g.pageSize t) (size % g.pageSize t)
  else overRunPart pageNo size

def underRunLength (entryPos size : Nat) : Nat :=
  min (g.pageSize t - entryPos % g.pageSize t) size

def parts (entryPos size : Nat) : List Part :=
  if 0 < entryPos % g.pageSize t then
    .page (entryPos / g.pageSize t) (entryPos % g.pageSize t) (underRunLength g t entryPos size) ::
      alignedParts g t (entryPos / g.pageSize t + 1) (size - underRunLength g t entryPos size)
  else alignedParts g t (entryPos / g.pageSize t) size

def accessPart (write task : Bool) (buffer : Nat → UInt8) :
    Part → Result
  | .page pageNo offset length => accessPage g v t write pageNo offset length buffer
  | .pages pageNo count => accessAligned g v write task pageNo count buffer

/-- `FatAccessCache`, over the parts that are left and the position in the buffer. -/
def accessParts (g : Geometry) (t : CacheDataType) (write task : Bool) :
    List Part → Nat → (Nat → UInt8) → Volume → Result
  | [], _, buffer, v => ⟨true, buffer, v⟩
  | p :: rest, done, buffer, v =>
    if (accessPart g v t write task (fun i => buffer (done+i)) p).ok then
      accessParts g t write task rest (done + p.size g)
        (if write then buffer
          else patch buffer done (p.size g) (accessPart g v t write task (fun i => buffer (done+i)) p).buffer)
        (accessPart g v t write task (fun i => buffer (done+i)) p).volume
    else ⟨false, buffer, (accessPart g v t write task (fun i => buffer (done+i)) p).volume⟩

def fatDiskIo (write task : Bool) (offset size : Nat)
    (buffer : Nat → UInt8) : Result := if g.volumeSize < offset+size then ⟨false, buffer, v⟩
  else accessParts g t write task (parts g t (offset - g.baseAddress t) size) 0 buffer v

end

/-- The loop of `FatQueueTask`: the buffers of the subtasks that are done, up to the first that fails. -/
def runSubtasks : List Subtask → Volume → List (Nat → UInt8) × Volume
  | [], v => ([], v)
  | s :: rest, v =>
    if (transfer v s.write s.offset s.bufferSize s.buffer).ok then
      ((transfer v s.write s.offset s.bufferSize s.buffer).buffer ::
          (runSubtasks rest (transfer v s.write s.offset s.bufferSize s.buffer).volume).1,
        (runSubtasks rest (transfer v s.write s.offset s.bufferSize s.buffer).volume).2)
    else ([], (transfer v s.write s.offset s.bufferSize s.buffer).volume)

def fatQueueTask (v : Volume) : List (Nat → UInt8) × Volume :=
  runSubtasks v.subtasks { v with subtasks := [] }

/-- The loop of `FatVolumeFlushCache` over the groups. -/
def flushGroups (g : Geometry) (task : Bool) (t : CacheDataType) : List Nat → Volume → Bool × Volume
  | [], v => (true,v)
  | group :: rest, v =>
    if 0 < (v.tag t group).realSize ∧ (v.tag t group).dirty = true then
      if (storePage g task v t group).1 then flushGroups g task t rest (storePage g task v t group).2
      else storePage g task v t group
    else flushGroups g task t rest v

def flushType (g : Geometry) (task : Bool) (t : CacheDataType) (v : Volume) : Bool × Volume :=
  if (v.diskCache t).dirty then
    if (flushGroups g task t (List.range (g.groupCount t)) v).1 then
      (true, (flushGroups g task t (List.range (g.groupCount t)) v).2.setDirty t false)
    else flushGroups g task t (List.range (g.groupCount t)) v
  else (true,v)

def fatVolumeFlushCache (task : Bool) : Bool × Volume :=
  if (flushType g task .cacheFat v).1 then
    if (flushType g task .cacheData (flushType g task .cacheFat v).2).1 then
      ((flushType g task .cacheData (flushType g task .cacheFat v).2).2.outcome,
        (flushType g task .cacheData (flushType g task .cacheFat v).2).2.consume)
    else flushType g task .cacheData (flushType g task .cacheFat v).2
  else flushType g task .cacheFat v

end

end Liano.Fat
