import Mathlib.Algebra.Ring.Nat
import Liano.Lib.Patch

/-! The bytes of a disk access (DiskIoDxe/DiskIo.c): the subtasks a request is split into, and the transfers
of whole blocks they are. -/
namespace Liano.DiskIo.Data

open Lib

/-- What the block device and the platform give: the block size, the alignment, and the number of blocks of
the shared working buffer (PcdDiskIoDataBufferBlockNum). -/
structure Media where
  blockSize : Nat
  ioAlign : Nat
  dataBufferBlockNum : Nat
  blockSize_pos : 0 < blockSize
  dataBufferBlockNum_pos : 0 < dataBufferBlockNum

namespace Media

def align (m : Media) : Nat := if m.ioAlign = 0 then 1 else m.ioAlign

/-- PcdGet32 (PcdDiskIoDataBufferBlockNum) * BlockSize, a product of 32 bits. -/
def dataBufferSize (m : Media) : Nat := m.dataBufferBlockNum*m.blockSize % 2^32

/-- The size of SharedWorkingBuffer: DiskIoDriverBindingStart allocates EFI_SIZE_TO_PAGES of that product. -/
def sharedSize (m : Media) : Nat :=
  (m.dataBufferSize / 4096 + if m.dataBufferSize % 4096 = 0 then 0 else 1) * 4096

end Media

/-- The buffers: the one of the caller, the shared working buffer, and the ones allocated for a request. -/
inductive Area
  | user | shared | underRun | overRun | middle
deriving DecidableEq, Repr

/-- DISK_IO_SUBTASK. A buffer is an area and a position in it; a working buffer is an area from its start. -/
structure Subtask where
  write : Bool
  lba : Nat
  offset : Nat
  length : Nat
  workingBuffer : Option Area
  buffer : Area
  position : Nat
  blocking : Bool
deriving DecidableEq, Repr

structure Request where
  write : Bool
  offset : Nat
  bufferSize : Nat
  address : Nat
  blocking : Bool

/-- Which allocations succeed: the one of each subtask, and those of the working buffers. -/
structure Allocations where
  subtask : Nat → Bool
  underRun : Bool
  overRun : Bool
  middle : Bool

section
variable (m : Media) (r : Request)

def halfSubtasks (area : Area) (lba offset length position : Nat) : List Subtask :=
  if r.write then
    [⟨false, lba, 0, m.blockSize, none, area, 0, true⟩,
      ⟨true, lba, offset, length, some area, .user, position, r.blocking⟩]
  else [⟨false, lba, offset, length, some area, .user, position, r.blocking⟩]

def underRun : Nat := r.offset % m.blockSize

def underRunLength : Nat :=
  if underRun m r = 0 then 0 else min (m.blockSize - underRun m r) r.bufferSize

def middleLba : Nat :=
  if underRun m r = 0 then r.offset / m.blockSize else r.offset / m.blockSize + 1

def restSize : Nat := r.bufferSize - underRunLength m r

def overRun : Nat := restSize m r % m.blockSize

def overRunLba : Nat := middleLba m r + restSize m r / m.blockSize

def middleSize : Nat := restSize m r / m.blockSize * m.blockSize

def underRunSubtasks : List Subtask := if underRun m r = 0 then []
  else halfSubtasks m r (if r.blocking then .shared else .underRun) (r.offset / m.blockSize) (underRun m r)
    (underRunLength m r) 0

def overRunSubtasks : List Subtask := if overRun m r = 0 then []
  else halfSubtasks m r (if r.blocking then .shared else .overRun) (overRunLba m r) 0 (overRun m r)
    (underRunLength m r + middleSize m r)

end

def slices (m : Media) (write : Bool) (overRunLba : Nat) : Nat → Nat → Nat → Nat → List Subtask
  | 0, _, _, _ => []
  | fuel+1, lba, position, size =>
    if lba < overRunLba then
      ⟨write, lba, 0, min size m.dataBufferSize, some .shared, .user, position, true⟩ ::
        slices m write overRunLba fuel (lba+m.dataBufferBlockNum) (position + min size m.dataBufferSize)
          (size - min size m.dataBufferSize)
    else []

section
variable (m : Media) (r : Request)

def aligned : Bool := (r.address + underRunLength m r) % m.align == 0

/-- The middle blocks. Without memory for a working buffer a request that does not block is made of the
slices of one that does. -/
def middleSubtasks (a : Allocations) : List Subtask :=
  if overRunLba m r ≤ middleLba m r then []
  else if aligned m r then
    [⟨r.write, middleLba m r, 0, middleSize m r, none, .user, underRunLength m r, r.blocking⟩]
  else if !r.blocking && a.middle then
    [⟨r.write, middleLba m r, 0, middleSize m r, some .middle, .user, underRunLength m r, false⟩]
  else
    slices m r.write (overRunLba m r) (overRunLba m r - middleLba m r) (middleLba m r) (underRunLength m r)
      (middleSize m r)

def subtasksOf (a : Allocations) : List Subtask := if r.bufferSize = 0 then
    [⟨r.write, r.offset / m.blockSize, underRun m r, 0, none, .user, 0, r.blocking⟩]
  else underRunSubtasks m r ++ overRunSubtasks m r ++ middleSubtasks m r a

def noWorkingBuffer (a : Allocations) : Bool :=
  !r.blocking && decide (r.bufferSize ≠ 0) &&
    ((decide (underRun m r ≠ 0) && !a.underRun) || (decide (overRun m r ≠ 0) && !a.overRun))

/-- `DiskIoCreateSubtaskList` -/
def createSubtaskList (a : Allocations) : Option (List Subtask) :=
  if noWorkingBuffer m r a then none
  else if (List.range (subtasksOf m r a).length).all a.subtask then some (subtasksOf m r a)
  else none

end

/-- The disk, the buffers, the subtasks that wait and those the block layer has, whether a transfer failed,
and whether one has gone past the end of the shared working buffer, into memory that is not the driver's. -/
structure State where
  disk : Nat → UInt8
  memory : Area → Nat → UInt8
  waiting : List Subtask
  pending : List Subtask
  failed : Bool
  overrun : Bool

section
variable (m : Media) (s : Subtask)

def Subtask.transferSize : Nat :=
  if s.length % m.blockSize = 0 then s.length else m.blockSize

def Subtask.dataArea (s : Subtask) : Area := s.workingBuffer.getD s.buffer

def Subtask.dataPosition (s : Subtask) : Nat := if s.workingBuffer.isSome then 0 else s.position

def copyIn (s : Subtask) (memory : Area → Nat → UInt8) : Area → Nat → UInt8 :=
  if s.write && s.workingBuffer.isSome then
    Function.update memory s.dataArea
      (patch (memory s.dataArea) s.offset s.length fun i => memory s.buffer (s.position+i))
  else memory

def writeBlocks (disk : Nat → UInt8) (memory : Area → Nat → UInt8) : Nat → UInt8 :=
  if s.write then
    patch disk (s.lba*m.blockSize) (s.transferSize m) fun i => memory s.dataArea (s.dataPosition+i)
  else disk

def readBlocks (disk : Nat → UInt8) (memory : Area → Nat → UInt8) :
    Area → Nat → UInt8 := if s.write then memory
  else
    Function.update memory s.dataArea
      (patch (memory s.dataArea) s.dataPosition (s.transferSize m) fun i => disk (s.lba*m.blockSize+i))

def copyOut (s : Subtask) (memory : Area → Nat → UInt8) : Area → Nat → UInt8 :=
  if !s.write && s.workingBuffer.isSome then
    Function.update memory s.buffer
      (patch (memory s.buffer) s.position s.length fun i => memory s.dataArea (s.offset+i))
  else memory

/-- The transfer or the copy that goes with it ends behind the shared working buffer. -/
def Subtask.overruns : Bool :=
  s.dataArea == .shared && decide (m.sharedSize < max (s.offset+s.length) (s.transferSize m))

def transfer (st : State) : State := { st with
    disk := writeBlocks m s st.disk st.memory
    memory := copyOut s (readBlocks m s st.disk st.memory)
    overrun := st.overrun || s.overruns m }

inductive Event
  | submit (ok : Bool)
  | complete (s : Subtask) (ok : Bool)

def submitSubtask (rest : List Subtask) (st : State) (ok : Bool) : State :=
  if !ok then { st with failed := true }
  else if s.blocking then
    transfer m s { st with memory := copyIn s st.memory, waiting := rest }
  else { st with memory := copyIn s st.memory, waiting := rest, pending := st.pending ++ [s] }

def submitNext (m : Media) (st : State) (ok : Bool) : State := match st.waiting with
  | [] => st
  | s :: rest => submitSubtask m s rest st ok

def completeSubtask (st : State) (ok : Bool) : State := if s ∈ st.pending then
    if ok then transfer m s { st with pending := st.pending.erase s } else { st with failed := true }
  else st

end

def step (m : Media) : Event → State → State
  | .submit ok, st => submitNext m st ok
  | .complete s ok, st => completeSubtask m s st ok

def run (m : Media) : List Event → State → State
  | [], st => st
  | e :: es, st => run m es (step m e st)

def start (disk : Nat → UInt8) (memory : Area → Nat → UInt8) (subtasks : List Subtask) : State :=
  ⟨disk, memory, subtasks, [], false, false⟩

end Liano.DiskIo.Data
