import Liano.Efi
import Liano.Lib.Segments

/-! The array of memory ranges of `MtrrLib.c` and its edit, `MtrrLibSetMemoryType`. -/
namespace Liano.Mtrr

open Liano.Lib

/-- `MTRR_MEMORY_CACHE_TYPE`: the code casts register bits to it, so it has values without a
name. -/
abbrev MtrrMemoryCacheType := Nat

def cacheUncacheable : MtrrMemoryCacheType := 0
def cacheWriteCombining : MtrrMemoryCacheType := 1
def cacheWriteThrough : MtrrMemoryCacheType := 4
def cacheWriteBack : MtrrMemoryCacheType := 6
def cacheInvalid : MtrrMemoryCacheType := 7

structure MtrrMemoryRange where
  baseAddress : Nat
  length : Nat
  type : MtrrMemoryCacheType
deriving DecidableEq, Repr

/-- `sizeof (MTRR_MEMORY_RANGE)`: two `UINT64` and an enumeration, padded. -/
def sizeOfMtrrMemoryRange : Nat := 24

def MtrrMemoryRange.limit (r : MtrrMemoryRange) : Nat := r.baseAddress+r.length

structure Ends where
  startIndex : Nat
  lengthLeft : Nat
  endIndex : Nat
  lengthRight : Nat

/-- The `for` loop, which leaves where it sets `EndIndex`. -/
def findEnds (count baseAddress limit : Nat) : Nat → List MtrrMemoryRange → Ends → Ends
  | _, [], s => s
  | index, r :: rest, s =>
    let s := if s.startIndex = count ∧ r.baseAddress ≤ baseAddress ∧ baseAddress < toUint64 r.limit
      then { s with startIndex := index, lengthLeft := baseAddress - r.baseAddress }
      else s
    if s.endIndex = count ∧ r.baseAddress < limit ∧ limit ≤ toUint64 r.limit
    then { s with endIndex := index, lengthRight := toUint64 r.limit - limit }
    else findEnds count baseAddress limit (index+1) rest s

structure Edit where
  startIndex : Nat
  endIndex : Nat
  baseAddress : Nat
  length : Nat

section
variable (ranges : List MtrrMemoryRange)

def mergePrevious (type : MtrrMemoryCacheType)
    (lengthLeft : Nat) (e : Edit) : Option Edit := if e.startIndex ≠ 0 ∧ lengthLeft = 0 then
    ranges[e.startIndex-1]?.map fun r =>
      if r.type = type then
        { e with
          startIndex := e.startIndex-1
          length := toUint64 (e.length+r.length)
          baseAddress := toUint64 (e.baseAddress + (2^64-r.length)) }
      else e
  else some e

def mergeNext (type : MtrrMemoryCacheType)
    (count lengthRight : Nat) (e : Edit) : Option Edit :=
  if e.endIndex ≠ count-1 ∧ lengthRight = 0 then
    ranges[e.endIndex+1]?.map fun r =>
      if r.type = type then
        { e with endIndex := e.endIndex+1, length := toUint64 (e.length+r.length) }
      else e
  else some e

/-- `DeltaCount`, an unsigned number that may stand for a negative one. -/
def deltaCount (lengthLeft lengthRight : Nat) (e : Edit) : Nat :=
  toUint64 (e.endIndex + (2^64-e.startIndex) + (2^64-2) +
    (if lengthLeft = 0 then 1 else 0) + (if lengthRight = 0 then 1 else 0))

/-- `CopyMem` from one place of the array to another. -/
def copyRanges (destination source number : Nat) :
    Option (List MtrrMemoryRange) :=
  if destination+number ≤ ranges.length ∧ source+number ≤ ranges.length then
    some (ranges.take destination ++ (ranges.drop source).take number ++
      ranges.drop (destination+number))
  else none

def writeRange (index : Nat)
    (fields : MtrrMemoryRange → MtrrMemoryRange) : Option (List MtrrMemoryRange) :=
  if index < ranges.length then some (ranges.modify index fields) else none

def writeLeft (lengthLeft : Nat) (e : Edit) (ranges : List MtrrMemoryRange) :
    Option (List MtrrMemoryRange × Nat) := if lengthLeft ≠ 0 then
    (writeRange ranges e.startIndex fun r => { r with length := lengthLeft }).map
      fun ranges => (ranges, e.startIndex+1)
  else some (ranges,e.startIndex)

def writeRight (lengthRight delta : Nat) (e : Edit) (ranges : List MtrrMemoryRange) :
    Option (List MtrrMemoryRange) := if lengthRight ≠ 0 then
    ranges[e.endIndex]?.bind fun last =>
      writeRange ranges (toUint64 (e.endIndex + (2^64-delta))) fun _ =>
        ⟨toUint64 (e.baseAddress+e.length), lengthRight, last.type⟩
  else some ranges

def replaceRanges (capacity count : Nat)
    (type : MtrrMemoryCacheType) (lengthLeft lengthRight : Nat) (e : Edit) :
    Option (EfiStatus × List MtrrMemoryRange × Nat) := let delta := deltaCount lengthLeft lengthRight e
  let newCount := toUint64 (count + (2^64-delta))
  if newCount > capacity then some (.outOfResources, ranges, count)
  else do
    let ranges ← copyRanges ranges (toUint64 (e.endIndex+1 + (2^64-delta)))
      (e.endIndex+1) (count-e.endIndex-1)
    let (ranges,startIndex) ← writeLeft lengthLeft e ranges
    let ranges ← writeRight lengthRight delta e ranges
    let ranges ← writeRange ranges startIndex fun _ => ⟨e.baseAddress, e.length, type⟩
    some (.success, ranges, newCount)

/-- `MtrrLibSetMemoryType` on the array `Ranges`, of which `Count` elements are in use. `none`
stands for the `ASSERT` and for an access outside the array. -/
def mtrrLibSetMemoryType (capacity count baseAddress length : Nat)
    (type : MtrrMemoryCacheType) : Option (EfiStatus × List MtrrMemoryRange × Nat) :=
  let s := findEnds count baseAddress (toUint64 (baseAddress+length)) 0 (ranges.take count)
    ⟨count, 0, count, 0⟩
  if s.startIndex = count ∨ s.endIndex = count then none
  else
    ranges[s.startIndex]?.bind fun first =>
      if s.startIndex = s.endIndex ∧ first.type = type then
        some (.alreadyStarted, ranges, count)
      else
        (mergePrevious ranges type s.lengthLeft
          ⟨s.startIndex, s.endIndex, baseAddress, length⟩).bind fun e =>
        (mergeNext ranges type count s.lengthRight e).bind fun e =>
        replaceRanges ranges capacity count type s.lengthLeft s.lengthRight e

def MtrrMemoryRange.segment (r : MtrrMemoryRange) : Segment MtrrMemoryCacheType :=
  ⟨r.baseAddress, r.limit-1, r.type⟩

/-- Non-empty ranges that follow each other from `a` up to `b`, exclusively. -/
def Tiling (a : Nat) : List MtrrMemoryRange → Nat → Prop
  | [], b => a = b
  | r :: rs, b => r.baseAddress = a ∧ 0 < r.length ∧ Tiling r.limit rs b

def typeAt (x : Nat) : Option MtrrMemoryCacheType :=
  lookup (ranges.map MtrrMemoryRange.segment) x

def Joined : Prop := ranges.IsChain fun r s => r.type ≠ s.type

end

instance (ranges : List MtrrMemoryRange) : Decidable (Joined ranges) :=
  inferInstanceAs (Decidable (ranges.IsChain _))

end Liano.Mtrr
