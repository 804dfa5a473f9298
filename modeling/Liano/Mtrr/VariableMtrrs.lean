import Liano.Lib.Masks
import Liano.Mtrr.SetMemoryType

/-! The variable MTRRs and their two readers: `MtrrLibApplyVariableMtrrs`, which builds an array of
ranges, and `MtrrGetMemoryAttributeByAddressWorker`, which answers for one address. -/
namespace Liano.Mtrr

open Liano.Lib

structure MtrrVariableSetting where
  base : Nat
  mask : Nat

/-- `MTRR_SETTINGS`, with as many variable settings as `GetVariableMtrrCountWorker` counts: a buffer
of the caller's, or what the registers hold. -/
structure MtrrSettings where
  fixed : List Nat
  variableMtrr : List MtrrVariableSetting
  mtrrDefType : Nat

/-- `MSR_IA32_MTRR_DEF_TYPE_REGISTER.Bits`. -/
def defTypeType (mtrrDefType : Nat) : MtrrMemoryCacheType := mtrrDefType % 8
def defTypeFE (mtrrDefType : Nat) : Bool := mtrrDefType.testBit 10
def defTypeE (mtrrDefType : Nat) : Bool := mtrrDefType.testBit 11

section
variable (physicalAddressBits : Nat)

/-- `MtrrValidBitsMask`, from the number of physical address bits. -/
def mtrrValidBitsMask : Nat := 2^physicalAddressBits-1

def mtrrValidAddressMask : Nat :=
  mtrrValidBitsMask physicalAddressBits &&& 0xfffffffffffff000

/-- One element of `MtrrLibGetRawVariableRanges`: zeros unless the valid bit is set. -/
def rawVariableRange (s : MtrrVariableSetting) : MtrrMemoryRange :=
  if s.mask.testBit 11 then
    ⟨s.base &&& mtrrValidAddressMask physicalAddressBits,
      toUint64 ((complement 64 (s.mask &&& mtrrValidAddressMask physicalAddressBits) &&&
        mtrrValidBitsMask physicalAddressBits) + 1), s.base &&& 0x0ff⟩
  else ⟨0, 0, cacheUncacheable⟩

def mtrrLibGetRawVariableRanges (variableSettings : List MtrrVariableSetting) : List MtrrMemoryRange :=
  variableSettings.map (rawVariableRange physicalAddressBits)

def mtrrLibTypeLeftPrecedeRight (left right : MtrrMemoryCacheType) : Bool :=
  left = cacheUncacheable ∨ left = cacheWriteThrough ∧ right = cacheWriteBack

/-- `none` stands for the `ASSERT`. -/
def mtrrLibPrecedence (mtrrType1 mtrrType2 : MtrrMemoryCacheType) : Option MtrrMemoryCacheType :=
  if mtrrType1 = mtrrType2 then some mtrrType1
  else if ¬ (mtrrLibTypeLeftPrecedeRight mtrrType1 mtrrType2 ∨
      mtrrLibTypeLeftPrecedeRight mtrrType2 mtrrType1) then none
  else if mtrrLibTypeLeftPrecedeRight mtrrType1 mtrrType2 then some mtrrType1
  else some mtrrType2

/-- `mMtrrLibFixedMtrrTable`: the base address and the length of an eighth. -/
def mMtrrLibFixedMtrrTable : List (Nat × Nat) :=
  [(0x00000,0x10000), (0x80000,0x4000), (0xA0000,0x4000), (0xC0000,0x1000), (0xC8000,0x1000),
    (0xD0000,0x1000), (0xD8000,0x1000), (0xE0000,0x1000), (0xE8000,0x1000), (0xF0000,0x1000),
    (0xF8000,0x1000)]

/-- The loop over the fixed MTRRs, with the register of each. -/
def fixedType (address : Nat) : List ((Nat × Nat) × Nat) → Option MtrrMemoryCacheType
  | [] => none
  | ((baseAddress,length), fixedMtrr) :: rest =>
    if address ≥ baseAddress ∧ address < baseAddress + length*8 then
      some (fixedMtrr >>> ((address-baseAddress) / length * 8) &&& 0xFF)
    else fixedType address rest

/-- `Address` is in the range of a variable MTRR. -/
def MtrrMemoryRange.Covers (r : MtrrMemoryRange) (address : Nat) : Prop :=
  r.length ≠ 0 ∧ address ≥ r.baseAddress ∧ address < toUint64 r.limit

instance (r : MtrrMemoryRange) (address : Nat) : Decidable (r.Covers address) :=
  inferInstanceAs (Decidable (_ ∧ _))

/-- The loop over the variable MTRRs, from `MtrrType` on. -/
def variableType (address : Nat) :
    List MtrrMemoryRange → MtrrMemoryCacheType → Option MtrrMemoryCacheType
  | [], mtrrType => some mtrrType
  | r :: rest, mtrrType =>
    if r.Covers address then
      if mtrrType = cacheInvalid then variableType address rest r.type
      else (mtrrLibPrecedence mtrrType r.type).bind (variableType address rest)
    else variableType address rest mtrrType

def mtrrGetMemoryAttributeByAddressWorker (mtrrSetting : MtrrSettings)
    (address : Nat) : Option MtrrMemoryCacheType :=
  if defTypeE mtrrSetting.mtrrDefType = false then some cacheUncacheable
  else
    let fixed := if address < 0x100000 ∧ defTypeFE mtrrSetting.mtrrDefType then
        fixedType address (mMtrrLibFixedMtrrTable.zip mtrrSetting.fixed)
      else none
    match fixed with
    | some type => some type
    | none =>
      (variableType address (mtrrLibGetRawVariableRanges physicalAddressBits mtrrSetting.variableMtrr)
        cacheInvalid).map fun mtrrType =>
          if mtrrType = cacheInvalid then defTypeType mtrrSetting.mtrrDefType else mtrrType

end

/-- One of the loops of `MtrrLibApplyVariableMtrrs`, over the MTRRs of the types `selected`. -/
def applyPass (selected : MtrrMemoryCacheType → Bool) (rangeCapacity : Nat) :
    List MtrrMemoryRange → List MtrrMemoryRange → Nat → Option (EfiStatus × List MtrrMemoryRange × Nat)
  | [], ranges, rangeCount => some (.success, ranges, rangeCount)
  | r :: rest, ranges, rangeCount =>
    if r.length ≠ 0 ∧ selected r.type then
      (mtrrLibSetMemoryType ranges rangeCapacity rangeCount r.baseAddress r.length r.type).bind
        fun (status,ranges,rangeCount) =>
          if status = .outOfResources then some (status,ranges,rangeCount)
          else applyPass selected rangeCapacity rest ranges rangeCount
    else applyPass selected rangeCapacity rest ranges rangeCount

def passes : List (MtrrMemoryCacheType → Bool) :=
  [fun type => type = cacheWriteBack, fun type => type ≠ cacheWriteBack ∧ type ≠ cacheUncacheable,
    fun type => type = cacheUncacheable]

def applyPasses (variableMtrr : List MtrrMemoryRange) (rangeCapacity : Nat) :
    List (MtrrMemoryCacheType → Bool) → List MtrrMemoryRange → Nat →
      Option (EfiStatus × List MtrrMemoryRange × Nat)
  | [], ranges, rangeCount => some (.success, ranges, rangeCount)
  | selected :: rest, ranges, rangeCount =>
    (applyPass selected rangeCapacity variableMtrr ranges rangeCount).bind
      fun (status,ranges,rangeCount) =>
        if status = .outOfResources then some (status,ranges,rangeCount)
        else applyPasses variableMtrr rangeCapacity rest ranges rangeCount

def mtrrLibApplyVariableMtrrs (variableMtrr ranges : List MtrrMemoryRange)
    (rangeCapacity rangeCount : Nat) : Option (EfiStatus × List MtrrMemoryRange × Nat) :=
  applyPasses variableMtrr rangeCapacity passes ranges rangeCount

end Liano.Mtrr
