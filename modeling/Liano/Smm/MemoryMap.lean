import Liano.Smm.FreePages

/-! The memory map of the SMM core, `gMemoryMap`: a list of entries that is edited apart from the free page
list. New entries are on a stack first. -/
namespace Liano.Smm

open List hiding after max

open Liano.Lib

/-- `EFI_MEMORY_TYPE`, as far as the SMM core tells its values apart. -/
inductive EfiMemoryType
  | runtimeServicesCode
  | runtimeServicesData
  | conventionalMemory
  | other (value : Nat)
deriving DecidableEq, Repr

/-- `MEMORY_MAP`. An entry with `FromStack` is in `mMapStack`, at the index that is given. -/
structure MemoryMapEntry where
  fromStack : Option Nat
  type : EfiMemoryType
  start : Nat
  endAddress : Nat
deriving DecidableEq, Repr

/-- `gMemoryMap`, `mMapDepth` and the length of `mFreeMemoryMapEntryList`. -/
structure MapState where
  memoryMap : List MemoryMapEntry
  mapDepth : Nat
  freeEntries : Nat
deriving DecidableEq, Repr

def maxMapDepth : Nat := 6

/-- `RemoveOldEntry`: how many entries `mFreeMemoryMapEntryList` gains. -/
def removeOldEntry (entry : MemoryMapEntry) : Nat := if entry.fromStack.isNone then 1 else 0

def isAdjacent (entry next : MemoryMapEntry) : Bool :=
  decide (entry.type = next.type) && decide (toUint64 (entry.endAddress+1) = next.start)

def checkNext (entry : MemoryMapEntry) : List MemoryMapEntry → MemoryMapEntry × List MemoryMapEntry × Nat
  | [] => (entry, [], 0)
  | next :: after =>
    if isAdjacent entry next then ({ entry with endAddress := next.endAddress }, after, removeOldEntry next)
    else (entry, next :: after, 0)

def checkPrevious (before : List MemoryMapEntry) (entry : MemoryMapEntry) : List MemoryMapEntry × Nat :=
  match before.getLast? with
  | none => ([entry], 0)
  | some previous =>
    if isAdjacent previous entry then
      (before.dropLast ++ [{ previous with endAddress := entry.endAddress }], removeOldEntry entry)
    else (before ++ [entry], 0)

def isPassed (start endAddress : Nat) (entry : MemoryMapEntry) : Bool :=
  !(decide (entry.start > endAddress) || decide (entry.start ≤ start) && decide (entry.endAddress ≥ endAddress))

/-- An entry that the range is in is cut to it and given the type. What it has below and above the range are
new entries. -/
def splitEntry (m : MapState) (before after : List MemoryMapEntry) (entry : MemoryMapEntry)
    (type : EfiMemoryType) (start endAddress : Nat) : MapState := let lower : List MemoryMapEntry :=
    if entry.start < start then [⟨some m.mapDepth, entry.type, entry.start, subUint64 start 1⟩] else []
  let upper : List MemoryMapEntry := if entry.endAddress > endAddress then
      [⟨some (m.mapDepth+lower.length), entry.type, toUint64 (endAddress+1), entry.endAddress⟩]
    else []
  let (entry,after,freed) := checkNext { entry with start, endAddress, type } (upper ++ after)
  let (upTo,freed') := checkPrevious (before ++ lower) entry
  { memoryMap := upTo ++ after
    mapDepth := m.mapDepth+lower.length+upper.length
    freeEntries := m.freeEntries+freed + freed' }

/-- `ConvertSmmMemoryMapEntry`, but for the bound of the stack. -/
def convertEntries (type : EfiMemoryType) (memory numberOfPages : Nat) (m : MapState) : MapState :=
  let start := memory
  let endAddress := subUint64 (toUint64 (memory + efiPagesToSize numberOfPages)) 1
  let before := m.memoryMap.takeWhile (isPassed start endAddress)
  let newEntry : MemoryMapEntry := ⟨some m.mapDepth, type, start, endAddress⟩
  match m.memoryMap.dropWhile (isPassed start endAddress) with
  | entry :: after =>
    if entry.start > endAddress then
      if entry.start = toUint64 (endAddress+1) ∧ entry.type = type then
        { m with memoryMap := before ++ { entry with start } :: after }
      else
        { m with memoryMap := before ++ newEntry :: entry :: after, mapDepth := m.mapDepth + 1 }
    else if entry.type ≠ type then splitEntry m before after entry type start endAddress
    else m
  | [] =>
    match m.memoryMap.getLast? with
    | none => { m with memoryMap := [newEntry], mapDepth := m.mapDepth + 1 }
    | some last =>
      if toUint64 (last.endAddress+1) = start ∧ last.type = type then
        { m with memoryMap := m.memoryMap.dropLast ++ [{ last with endAddress }] }
      else { m with memoryMap := m.memoryMap ++ [newEntry], mapDepth := m.mapDepth + 1 }

/-- `ConvertSmmMemoryMapEntry`; `none` where `InsertNewEntry` leaves its stack. -/
def convertSmmMemoryMapEntry (type : EfiMemoryType) (memory numberOfPages : Nat) (m : MapState) :
    Option MapState := let m' := convertEntries type memory numberOfPages m
  if m'.mapDepth < maxMapDepth then some m' else none

def inMemMap (memoryMap : List MemoryMapEntry) (memory numberOfPages : Nat) : Bool :=
  let last := subUint64 (toUint64 (memory + efiPagesToSize numberOfPages)) 1
  memoryMap.any fun entry => decide (entry.start ≤ memory) && decide (entry.endAddress ≥ last)

def MemoryMapEntry.Holds (entry : MemoryMapEntry) (a : Nat) : Prop := entry.start ≤ a ∧ a ≤ entry.endAddress

structure EntryOk (entry : MemoryMapEntry) : Prop where
  nonempty : entry.start ≤ entry.endAddress
  aligned : entry.start % efiPageSize = 0
  alignedEnd : (entry.endAddress+1) % efiPageSize = 0
  stop : entry.endAddress+1 < 2^64

structure Before (entry next : MemoryMapEntry) : Prop where
  order : entry.endAddress < next.start
  gap : entry.type = .conventionalMemory → next.type = .conventionalMemory → entry.endAddress+1 < next.start

/-- The entries of a map are in order, and their places on the stack are below its depth. -/
structure MapOk (m : MapState) : Prop where
  entries : ∀ entry ∈ m.memoryMap, EntryOk entry
  sorted : m.memoryMap.Pairwise Before
  onStack : ∀ entry ∈ m.memoryMap, ∀ i, entry.fromStack = some i → i < m.mapDepth

def OfType (memoryMap : List MemoryMapEntry) (type : EfiMemoryType) (a : Nat) : Prop :=
  ∃ entry ∈ memoryMap, entry.type = type ∧ entry.Holds a

def InMap (memoryMap : List MemoryMapEntry) (a : Nat) : Prop := ∃ entry ∈ memoryMap, entry.Holds a

section
variable {xs ys before after after' upTo : List MemoryMapEntry} {entry entry' next prev : MemoryMapEntry}
  {type t : EfiMemoryType} {m : MapState} {memory n a k : Nat}

theorem ofType_cons : OfType (entry :: xs) t a ↔ (entry.type = t ∧ entry.Holds a) ∨ OfType xs t a := by
  unfold OfType
  simp only [mem_cons, or_and_right, exists_or, exists_eq_left]

theorem ofType_append : OfType (xs ++ ys) t a ↔ OfType xs t a ∨ OfType ys t a := by
  unfold OfType
  simp only [mem_append, or_and_right, exists_or]

theorem inMap_iff : InMap xs a ↔ ∃ t, OfType xs t a := by
  constructor
  · rintro ⟨entry,hent,hhold⟩
    exact ⟨entry.type, entry, hent, rfl, hhold⟩
  · rintro ⟨t,entry,hent,-,hhold⟩
    exact ⟨entry, hent, hhold⟩

theorem isAdjacent_iff (h : EntryOk entry) :
    isAdjacent entry next = true ↔ entry.type = next.type ∧ entry.endAddress+1 = next.start := by
  unfold isAdjacent
  rw [Bool.and_eq_true, decide_eq_true_iff, decide_eq_true_iff, toUint64_of_lt h.stop]

theorem Before.trans_gap (h : Before entry next) (hbelow : k < entry.start)
    (hent : EntryOk entry) : k+1 < next.start := by
  have hord := h.order
  have hlen := hent.nonempty
  omega

theorem before_of_not_adjacent (hent : EntryOk entry) (hnot : isAdjacent entry next = false)
    (hord : entry.endAddress < next.start) : Before entry next := by
  refine ⟨hord, fun htype hnext => ?_⟩
  refine Nat.lt_of_le_of_ne hord fun htouch => ?_
  rw [(isAdjacent_iff hent).mpr ⟨htype.trans hnext.symm, htouch⟩] at hnot
  cases hnot

structure Merged (entry : MemoryMapEntry) (after : List MemoryMapEntry) (entry' : MemoryMapEntry)
    (after' : List MemoryMapEntry) : Prop where
  ok : EntryOk entry'
  start : entry'.start = entry.start
  type : entry'.type = entry.type
  fromStack : entry'.fromStack = entry.fromStack
  sorted : (entry' :: after').Pairwise Before
  subset : ∀ x ∈ after', x ∈ after
  ofType : ∀ t a, OfType (entry' :: after') t a ↔ OfType (entry :: after) t a

theorem checkNext_spec (hent : EntryOk entry) (hafter : ∀ x ∈ after, EntryOk x)
    (hsort : after.Pairwise Before) (hbeh : ∀ x ∈ after, entry.endAddress < x.start) :
    ∃ entry' after' k, checkNext entry after = (entry',after',k) ∧ Merged entry after entry' after' := by
  cases after with
  | nil =>
    refine ⟨entry, [], 0, rfl, hent, rfl, rfl, rfl, pairwise_singleton _ _, fun x hx => hx,
      fun t a => Iff.rfl⟩
  | cons next after =>
    obtain ⟨hnext,hrest⟩ := pairwise_cons.mp hsort
    have hok := hafter next mem_cons_self
    have hord := hbeh next mem_cons_self
    rw [checkNext]
    by_cases hadj : isAdjacent entry next = true
    · obtain ⟨htype,htouch⟩ := (isAdjacent_iff hent).mp hadj
      rw [if_pos hadj]
      refine ⟨_, _, _, rfl, ⟨?_, hent.aligned, hok.alignedEnd, hok.stop⟩, rfl, rfl, rfl, ?_,
        fun x hx => mem_cons_of_mem _ hx, fun t a => ?_⟩
      · have hlen := hok.nonempty
        have hlen' := hent.nonempty
        show entry.start ≤ next.endAddress
        omega
      · rw [pairwise_cons]
        exact ⟨fun x hx => ⟨(hnext x hx).order, fun h1 => (hnext x hx).gap (htype ▸ h1)⟩, hrest⟩
      · rw [ofType_cons, ofType_cons, ofType_cons, ← or_assoc, ← htype, ← and_or_left]
        have hhold : MemoryMapEntry.Holds { entry with endAddress := next.endAddress } a ↔
            entry.Holds a ∨ next.Holds a := by
          have hlen := hok.nonempty
          have hlen' := hent.nonempty
          unfold MemoryMapEntry.Holds
          dsimp only
          omega
        rw [hhold]
    · rw [if_neg hadj]
      refine ⟨_, _, _, rfl, hent, rfl, rfl, rfl, ?_, fun x hx => hx, fun t a => Iff.rfl⟩
      rw [pairwise_cons]
      refine ⟨fun x hx => ?_, hsort⟩
      have hfst := before_of_not_adjacent hent (Bool.eq_false_iff.mpr hadj) hord
      rcases mem_cons.mp hx with rfl | hx
      · exact hfst
      · have hgap := (hnext x hx).trans_gap hord hok
        exact ⟨by omega, fun _ _ => hgap⟩

/-- What becomes of the entries before an entry, and the entry, when the last of them takes it in. -/
structure MergedUpTo (before : List MemoryMapEntry) (entry : MemoryMapEntry) (after upTo : List MemoryMapEntry) :
    Prop where
  ok : ∀ x ∈ upTo, EntryOk x
  sorted : (upTo ++ after).Pairwise Before
  fromStack : ∀ x ∈ upTo, x.fromStack = entry.fromStack ∨ ∃ y ∈ before, x.fromStack = y.fromStack
  ofType : ∀ t a, OfType upTo t a ↔ OfType (before ++ [entry]) t a

theorem checkPrevious_spec (hbef : ∀ x ∈ before, EntryOk x) (hsortBef : before.Pairwise Before)
    (hent : EntryOk entry) (hsort : (entry :: after).Pairwise Before)
    (hbelow : ∀ x ∈ before, x.endAddress < entry.start) (hcross : ∀ x ∈ before, ∀ y ∈ after, Before x y) :
    ∃ upTo k, checkPrevious before entry = (upTo,k) ∧ MergedUpTo before entry after upTo := by
  obtain ⟨hnext,hafter⟩ := pairwise_cons.mp hsort
  unfold checkPrevious
  rcases eq_nil_or_concat' before with rfl | ⟨first,prev,rfl⟩
  · refine ⟨[entry], 0, rfl, fun x hx => ?_, hsort, fun x hx => ?_, fun t a => Iff.rfl⟩
    · rw [mem_singleton.mp hx]
      exact hent
    · rw [mem_singleton.mp hx]
      exact .inl rfl
  rw [getLast?_concat, dropLast_concat]
  dsimp only
  have hmem : prev ∈ first ++ [prev] := mem_append_right _ mem_cons_self
  have hok := hbef prev hmem
  have hord := hbelow prev hmem
  have hparts := pairwise_append.mp hsortBef
  by_cases hadj : isAdjacent prev entry = true
  · obtain ⟨htype,htouch⟩ := (isAdjacent_iff hok).mp hadj
    rw [if_pos hadj]
    refine ⟨_, _, rfl, fun x hx => ?_, ?_, fun x hx => ?_, fun t a => ?_⟩
    · rcases mem_append.mp hx with hx | hx
      · exact hbef x (mem_append_left _ hx)
      rw [mem_singleton.mp hx]
      refine ⟨?_, hok.aligned, hent.alignedEnd, hent.stop⟩
      have hlen := hent.nonempty
      have hlen' := hok.nonempty
      show prev.start ≤ entry.endAddress
      omega
    · rw [append_assoc, pairwise_append, singleton_append, pairwise_cons]
      refine ⟨hparts.1, ⟨fun y hy => ?_, hafter⟩, fun x hx y hy => ?_⟩
      · exact ⟨(hnext y hy).order, fun h1 => (hnext y hy).gap (htype ▸ h1)⟩
      · rcases mem_cons.mp hy with rfl | hy
        · have hlast := hparts.2.2 x hx prev mem_cons_self
          exact ⟨hlast.order, hlast.gap⟩
        · exact hcross x (mem_append_left _ hx) y hy
    · rcases mem_append.mp hx with hx | hx
      · exact .inr ⟨x, mem_append_left _ hx, rfl⟩
      · rw [mem_singleton.mp hx]
        exact .inr ⟨prev, hmem, rfl⟩
    · rw [append_assoc, ofType_append, ofType_append, singleton_append, ofType_cons, ofType_cons,
        ofType_cons, ← or_assoc (a := prev.type = t ∧ prev.Holds a), ← htype, ← and_or_left]
      have hhold : MemoryMapEntry.Holds { prev with endAddress := entry.endAddress } a ↔
          prev.Holds a ∨ entry.Holds a := by
        have hlen := hent.nonempty
        have hlen' := hok.nonempty
        unfold MemoryMapEntry.Holds
        dsimp only
        omega
      rw [hhold]
  · rw [if_neg hadj]
    refine ⟨_, _, rfl, fun x hx => ?_, ?_, fun x hx => ?_, fun t a => Iff.rfl⟩
    · rcases mem_append.mp hx with hx | hx
      · exact hbef x hx
      · rw [mem_singleton.mp hx]
        exact hent
    · rw [append_assoc, pairwise_append, singleton_append]
      refine ⟨hsortBef, hsort, fun x hx y hy => ?_⟩
      rcases mem_cons.mp hy with rfl | hy
      · rcases mem_append.mp hx with hx | hx
        · have hlast := hparts.2.2 x hx prev mem_cons_self
          have hlen := hok.nonempty
          have hlt := hlast.order
          exact ⟨by omega, fun _ _ => by omega⟩
        · rw [mem_singleton.mp hx]
          exact before_of_not_adjacent hok (Bool.eq_false_iff.mpr hadj) hord
      · exact hcross x hx y hy
    · rcases mem_append.mp hx with hx | hx
      · exact .inr ⟨x, hx, rfl⟩
      · rw [mem_singleton.mp hx]
        exact .inl rfl

/-- The entry for the addresses from `low` on, below `high`, if there are any. -/
def entryBetween (fromStack : Option Nat) (type : EfiMemoryType) (low high : Nat) : List MemoryMapEntry :=
  if low < high then [⟨fromStack, type, low, high-1⟩] else []

section
variable {place : Option Nat} {low high : Nat}

theorem mem_entryBetween (h : entry ∈ entryBetween place type low high) :
    low < high ∧ entry = ⟨place, type, low, high-1⟩ := by
  unfold entryBetween at h
  by_cases hlt : low < high
  · rw [if_pos hlt] at h
    exact ⟨hlt, mem_singleton.mp h⟩
  · rw [if_neg hlt] at h
    cases h

theorem pairwise_entryBetween : (entryBetween place type low high).Pairwise Before := by
  unfold entryBetween
  split
  · exact pairwise_singleton _ _
  · exact List.Pairwise.nil

theorem length_entryBetween : (entryBetween place type low high).length ≤ 1 := by
  unfold entryBetween
  split <;> simp

theorem ofType_entryBetween :
    OfType (entryBetween place type low high) t a ↔ type = t ∧ low ≤ a ∧ a < high := by
  constructor
  · rintro ⟨x,hx,htype,hlow,hhigh⟩
    obtain ⟨hlt,rfl⟩ := mem_entryBetween hx
    have hhigh : a ≤ high-1 := hhigh
    exact ⟨htype, hlow, by omega⟩
  · rintro ⟨htype,hlow,hhigh⟩
    unfold entryBetween
    rw [if_pos (by omega)]
    refine ⟨_, mem_singleton_self _, htype, hlow, ?_⟩
    show a ≤ high-1
    omega

theorem entryBetween_ok (hlow : low % efiPageSize = 0) (hhigh : high % efiPageSize = 0) (hstop : high < 2^64)
    (h : entry ∈ entryBetween place type low high) : EntryOk entry := by
  obtain ⟨hlt,rfl⟩ := mem_entryBetween h
  have hsucc : high-1 + 1 = high := by omega
  refine ⟨?_, hlow, ?_, ?_⟩
  · show low ≤ high-1
    omega
  · rw [hsucc]
    exact hhigh
  · show high-1 + 1 < 2^64
    omega

end

/-- The map `m'` is `m` with the pages converted to the type. -/
structure Converts (m : MapState) (type : EfiMemoryType) (memory n : Nat) (m' : MapState) : Prop where
  ok : MapOk m'
  ofType : ∀ t a, OfType m'.memoryMap t a ↔
    InPages memory n a ∧ type = t ∨ ¬ InPages memory n a ∧ OfType m.memoryMap t a
  depth : m.mapDepth ≤ m'.mapDepth ∧ m'.mapDepth ≤ m.mapDepth+2
  freeEntries : m.freeEntries ≤ m'.freeEntries

section
variable {stop : Nat}

/-- What an entry has below the pages up to `stop`, and above them. -/
def lowerPart (m : MapState) (entry : MemoryMapEntry) (memory : Nat) : List MemoryMapEntry :=
  entryBetween (some m.mapDepth) entry.type entry.start memory

def upperPart (m : MapState) (entry : MemoryMapEntry) (memory stop : Nat) : List MemoryMapEntry :=
  entryBetween (some (m.mapDepth + (lowerPart m entry memory).length)) entry.type stop (entry.endAddress+1)

variable (hm : MapOk m) (hmap : m.memoryMap = before ++ entry :: after) (hstart : entry.start ≤ memory)
  (hlt : memory < stop) (hend : stop ≤ entry.endAddress+1)

theorem ofType_lowerPart : OfType (lowerPart m entry memory) t a ↔ entry.type = t ∧ entry.start ≤ a ∧ a < memory :=
  ofType_entryBetween

theorem ofType_upperPart :
    OfType (upperPart m entry memory stop) t a ↔ entry.type = t ∧ stop ≤ a ∧ a < entry.endAddress+1 :=
  ofType_entryBetween

section
include hm hmap

theorem mapOk_parts : EntryOk entry ∧ (∀ x ∈ before, EntryOk x) ∧ (∀ x ∈ after, EntryOk x) ∧
    before.Pairwise Before ∧ after.Pairwise Before ∧ (∀ x ∈ before, Before x entry) ∧
    (∀ x ∈ after, Before entry x) ∧ ∀ x ∈ before, ∀ y ∈ after, Before x y := by
  have hents := hm.entries
  have hsort := hm.sorted
  rw [hmap] at hents hsort
  rw [pairwise_append, pairwise_cons] at hsort
  obtain ⟨hsortBef,⟨hnext,hsortAfter⟩,hcross⟩ := hsort
  exact ⟨hents entry (mem_append_right _ mem_cons_self), fun x hx => hents x (mem_append_left _ hx),
    fun x hx => hents x (mem_append_right _ (mem_cons_of_mem _ hx)), hsortBef, hsortAfter,
    fun x hx => hcross x hx entry mem_cons_self, hnext, fun x hx y hy => hcross x hx y (mem_cons_of_mem _ hy)⟩

include hend in
theorem mem_lowerPart (hal : memory % efiPageSize = 0) (hlt : memory < stop)
    (hx : entry' ∈ lowerPart m entry memory) : EntryOk entry' ∧ entry'.start = entry.start ∧
      entry'.endAddress+1 = memory ∧ entry'.type = entry.type ∧ entry'.fromStack = some m.mapDepth := by
  have hok := (mapOk_parts hm hmap).1
  have hstop := hok.stop
  obtain ⟨hless,heq⟩ := mem_entryBetween hx
  refine ⟨entryBetween_ok hok.aligned hal (by omega) hx, ?_⟩
  rw [heq]
  exact ⟨rfl, Nat.sub_add_cancel (by omega), rfl, rfl⟩

theorem mem_upperPart (hal : stop % efiPageSize = 0) (hx : entry' ∈ upperPart m entry memory stop) :
    EntryOk entry' ∧ entry'.start = stop ∧ entry'.endAddress = entry.endAddress ∧ entry'.type = entry.type ∧
      entry'.fromStack = some (m.mapDepth + (lowerPart m entry memory).length) := by
  have hok := (mapOk_parts hm hmap).1
  obtain ⟨-,heq⟩ := mem_entryBetween hx
  refine ⟨entryBetween_ok hal hok.alignedEnd hok.stop hx, ?_⟩
  rw [heq]
  exact ⟨rfl, rfl, rfl, rfl⟩

include hstart hlt hend

/-- The entries before the pages and those behind them, with the parts of the entry. -/
theorem pairwise_parts (hal : memory % efiPageSize = 0) (hstop : stop % efiPageSize = 0) :
    (before ++ lowerPart m entry memory).Pairwise Before ∧ (upperPart m entry memory stop ++ after).Pairwise Before ∧
      (∀ x ∈ before ++ lowerPart m entry memory, x.endAddress < memory) ∧
      (∀ x ∈ upperPart m entry memory stop ++ after, stop ≤ x.start) ∧
      ∀ x ∈ before ++ lowerPart m entry memory, ∀ y ∈ upperPart m entry memory stop ++ after, Before x y := by
  obtain ⟨hok,-,-,hsortBef,hsortAfter,hprev,hnext,hcross⟩ := mapOk_parts hm hmap
  have hlen := hok.nonempty
  have hlower : ∀ x ∈ lowerPart m entry memory, _ := fun x hx => mem_lowerPart hm hmap hend hal hlt hx
  have hupper : ∀ x ∈ upperPart m entry memory stop, _ := fun x hx => mem_upperPart hm hmap hstop hx
  refine ⟨?_, ?_, fun x hx => ?_, fun x hx => ?_, fun x hx y hy => ?_⟩
  · refine pairwise_append.mpr ⟨hsortBef, pairwise_entryBetween, fun x hx y hy => ?_⟩
    obtain ⟨-,hystart,-,hytype,-⟩ := hlower y hy
    exact ⟨hystart ▸ (hprev x hx).order, fun h1 h2 => hystart ▸ (hprev x hx).gap h1 (hytype ▸ h2)⟩
  · refine pairwise_append.mpr ⟨pairwise_entryBetween, hsortAfter, fun x hx y hy => ?_⟩
    obtain ⟨-,-,hxend,hxtype,-⟩ := hupper x hx
    exact ⟨hxend ▸ (hnext y hy).order, fun h1 => hxend ▸ (hnext y hy).gap (hxtype ▸ h1)⟩
  · rcases mem_append.mp hx with hx | hx
    · have hord := (hprev x hx).order
      omega
    · have hxend := (hlower x hx).2.2.1
      omega
  · rcases mem_append.mp hx with hx | hx
    · exact le_of_eq (hupper x hx).2.1.symm
    · have hord := (hnext x hx).order
      omega
  · rcases mem_append.mp hx with hx | hx <;> rcases mem_append.mp hy with hy | hy
    · obtain ⟨-,hystart,-⟩ := hupper y hy
      have hord := (hprev x hx).order
      exact ⟨by omega, fun _ _ => by omega⟩
    · exact hcross x hx y hy
    · obtain ⟨-,-,hxend,-⟩ := hlower x hx
      obtain ⟨-,hystart,-⟩ := hupper y hy
      exact ⟨by omega, fun _ _ => by omega⟩
    · obtain ⟨-,-,hxend,-⟩ := hlower x hx
      have hord := (hnext y hy).order
      exact ⟨by omega, fun _ _ => by omega⟩

theorem splitEntry_eq {freed freed' : Nat}
    (hnext : checkNext { entry with start := memory, endAddress := stop-1, type := type }
      (upperPart m entry memory stop ++ after) = (entry',after',freed))
    (hprev : checkPrevious (before ++ lowerPart m entry memory) entry' = (upTo,freed')) :
    splitEntry m before after entry type memory (stop-1) =
      ⟨upTo ++ after', m.mapDepth + (lowerPart m entry memory).length + (upperPart m entry memory stop).length,
        m.freeEntries+freed + freed'⟩ := by
  have hstop := (mapOk_parts hm hmap).1.stop
  have hlower : (if entry.start < memory then
      [(⟨some m.mapDepth, entry.type, entry.start, subUint64 memory 1⟩ : MemoryMapEntry)] else []) =
        lowerPart m entry memory := by
    rw [lowerPart, entryBetween]
    by_cases hbelow : entry.start < memory
    · rw [if_pos hbelow, if_pos hbelow, subUint64_of_le (by omega) (by omega)]
    · rw [if_neg hbelow, if_neg hbelow]
  have hupper : (if entry.endAddress > stop-1 then
      [(⟨some (m.mapDepth + (lowerPart m entry memory).length), entry.type, toUint64 (stop-1 + 1),
        entry.endAddress⟩ : MemoryMapEntry)] else []) = upperPart m entry memory stop := by
    rw [upperPart, entryBetween, Nat.sub_add_cancel (by omega), toUint64_of_lt (by omega)]
    by_cases habove : entry.endAddress > stop-1
    · rw [if_pos habove, if_pos (by omega)]
      rfl
    · rw [if_neg habove, if_neg (by omega)]
  unfold splitEntry
  rw [hlower]
  dsimp only
  rw [hupper, hnext]
  rw [hprev]

theorem ofType_parts (hin : ∀ a, InPages memory n a ↔ memory ≤ a ∧ a < stop) :
    OfType (before ++ lowerPart m entry memory) t a ∨ (type = t ∧ memory ≤ a ∧ a < stop) ∨
        OfType (upperPart m entry memory stop ++ after) t a ↔
      InPages memory n a ∧ type = t ∨ ¬ InPages memory n a ∧ OfType m.memoryMap t a := by
  obtain ⟨hok,-,-,-,-,hprev,hnext,-⟩ := mapOk_parts hm hmap
  have houtBef : OfType before t a → a < entry.start := by
    rintro ⟨x,hx,-,hxa⟩
    exact lt_of_le_of_lt hxa.2 (hprev x hx).order
  have houtAfter : OfType after t a → entry.endAddress < a := by
    rintro ⟨x,hx,-,hxa⟩
    exact lt_of_lt_of_le (hnext x hx).order hxa.1
  rw [hin, hmap, ofType_append, ofType_append, ofType_append, ofType_cons, ofType_lowerPart, ofType_upperPart]
  by_cases hins : memory ≤ a ∧ a < stop
  · constructor
    · rintro ((hb | ⟨-,hl⟩) | ⟨htype,-⟩ | ⟨-,hu⟩ | ha)
      · have hless := houtBef hb
        omega
      · omega
      · exact .inl ⟨hins, htype⟩
      · omega
      · have hless := houtAfter ha
        omega
    · rintro (⟨-,htype⟩ | ⟨hnot,-⟩)
      · exact .inr (.inl ⟨htype, hins⟩)
      · exact absurd hins hnot
  · constructor
    · rintro ((hb | ⟨htype,hl⟩) | ⟨-,hm⟩ | ⟨htype,hu⟩ | ha)
      · exact .inr ⟨hins, .inl hb⟩
      · exact .inr ⟨hins, .inr (.inl ⟨htype, hl.1, by omega⟩)⟩
      · exact absurd hm hins
      · exact .inr ⟨hins, .inr (.inl ⟨htype, by omega, by omega⟩)⟩
      · exact .inr ⟨hins, .inr (.inr ha)⟩
    · rintro (⟨hyes,-⟩ | ⟨-,hb | ⟨htype,hhold⟩ | ha⟩)
      · exact absurd hyes hins
      · exact .inl (.inl hb)
      · by_cases hside : a < memory
        · exact .inl (.inr ⟨htype, hhold.1, hside⟩)
        · have hle := hhold.2
          exact .inr (.inr (.inl ⟨htype, by omega, by omega⟩))
      · exact .inr (.inr (.inr ha))

theorem onStack_parts (hal : memory % efiPageSize = 0) (hstop : stop % efiPageSize = 0) {i : Nat}
    (hx : entry' ∈ before ++ lowerPart m entry memory ∨ entry' = entry ∨
      entry' ∈ upperPart m entry memory stop ++ after) (hi : entry'.fromStack = some i) :
    i < m.mapDepth + (lowerPart m entry memory).length + (upperPart m entry memory stop).length := by
  have hold : ∀ y ∈ before ++ entry :: after, y.fromStack = some i → i < m.mapDepth :=
    fun y hy => hm.onStack y (hmap ▸ hy) i
  have hlast := @hold entry'
  rw [mem_append, mem_cons] at hlast
  rcases hx with hx | rfl | hx
  · rcases mem_append.mp hx with hx | hx
    · have := hlast (.inl hx) hi
      omega
    · have hpos := length_pos_of_mem hx
      have hplace := (mem_lowerPart hm hmap hend hal hlt hx).2.2.2.2
      have := Option.some.inj (hplace.symm.trans hi)
      omega
  · have := hlast (.inr (.inl rfl)) hi
    omega
  · rcases mem_append.mp hx with hx | hx
    · have hpos := length_pos_of_mem hx
      have hplace := (mem_upperPart hm hmap hstop hx).2.2.2.2
      have := Option.some.inj (hplace.symm.trans hi)
      omega
    · have := hlast (.inr (.inr hx)) hi
      omega

end

end

/-- The pages are in an entry of another type. New entries are put on the stack only where the entry has more
than the pages. -/
theorem splitEntry_spec (hm : MapOk m) (hmap : m.memoryMap = before ++ entry :: after) (hn : 0 < n)
    (hal : memory % efiPageSize = 0) (hstart : entry.start ≤ memory)
    (hend : memory + n*efiPageSize ≤ entry.endAddress+1) :
    Converts m type memory n (splitEntry m before after entry type memory (memory + n*efiPageSize - 1)) ∧
      ((splitEntry m before after entry type memory (memory + n*efiPageSize - 1)).mapDepth = m.mapDepth ∨
        ∃ a, OfType m.memoryMap entry.type a ∧ ¬ InPages memory n a) := by
  obtain ⟨hent,hbef,hafter,-⟩ := mapOk_parts hm hmap
  have hentStop := hent.stop
  obtain ⟨stop,hstopEq⟩ : ∃ stop, memory + n*efiPageSize = stop := ⟨_, rfl⟩
  have hstopAl : stop % efiPageSize = 0 := by
    rw [← hstopEq, Nat.add_mul_mod_self_right]
    exact hal
  have hlt : memory < stop := by
    rw [← hstopEq]
    unfold efiPageSize
    omega
  have hin : ∀ a, InPages memory n a ↔ memory ≤ a ∧ a < stop := fun a => by rw [InPages, hstopEq]
  rw [hstopEq] at hend ⊢
  have hmiddle : EntryOk { entry with start := memory, endAddress := stop-1, type := type } := by
    refine ⟨?_, hal, ?_, ?_⟩
    · show memory ≤ stop-1
      omega
    · show (stop-1 + 1) % efiPageSize = 0
      rw [Nat.sub_add_cancel (by omega)]
      exact hstopAl
    · show stop-1 + 1 < 2^64
      omega
  obtain ⟨hsortLow,hsortHigh,hbelow,habove,hcross⟩ := pairwise_parts hm hmap hstart hlt hend hal hstopAl
  have hhighOk : ∀ x ∈ upperPart m entry memory stop ++ after, EntryOk x := by
    intro x hx
    rcases mem_append.mp hx with hx | hx
    · exact (mem_upperPart hm hmap hstopAl hx).1
    · exact hafter x hx
  -- the next entry is taken in, and then the entry by the one before it
  obtain ⟨entry₁,after₁,freed,hchkNext,hmerged⟩ := checkNext_spec hmiddle hhighOk hsortHigh fun x hx => by
    have hle := habove x hx
    show stop-1 < x.start
    omega
  obtain ⟨upTo,freed',hchkPrev,hup⟩ := checkPrevious_spec (fun x hx => by
    rcases mem_append.mp hx with hx | hx
    · exact hbef x hx
    · exact (mem_lowerPart hm hmap hend hal hlt hx).1) hsortLow hmerged.ok hmerged.sorted
    (fun x hx => hmerged.start ▸ hbelow x hx) fun x hx y hy => hcross x hx y (hmerged.subset y hy)
  have hlowerLen : (lowerPart m entry memory).length ≤ 1 := length_entryBetween
  have hupperLen : (upperPart m entry memory stop).length ≤ 1 := length_entryBetween
  rw [splitEntry_eq hm hmap hstart hlt hend hchkNext hchkPrev]
  refine ⟨⟨⟨fun x hx => ?_, hup.sorted, fun x hx i hi => ?_⟩, fun t a => ?_, ⟨?_, ?_⟩, ?_⟩, ?_⟩
  · rcases mem_append.mp hx with hx | hx
    · exact hup.ok x hx
    · exact hhighOk x (hmerged.subset x hx)
  · have hplace := fun y => @onStack_parts _ _ _ y _ _ _ hm hmap hstart hlt hend hal hstopAl i
    rcases mem_append.mp hx with hx | hx
    · rcases hup.fromStack x hx with hsame | ⟨y,hy,hsame⟩
      · rw [hsame, hmerged.fromStack] at hi
        exact hplace entry (.inr (.inl rfl)) hi
      · exact hplace y (.inl hy) (hsame ▸ hi)
    · exact hplace x (.inr (.inr (hmerged.subset x hx))) hi
  · have hsingle : OfType [entry₁] t a ∨ OfType after₁ t a ↔ OfType (entry₁ :: after₁) t a :=
      ofType_append.symm
    have hhold : MemoryMapEntry.Holds { entry with start := memory, endAddress := stop-1, type := type } a ↔
        memory ≤ a ∧ a < stop := by
      unfold MemoryMapEntry.Holds
      dsimp only
      omega
    rw [ofType_append, hup.ofType, ofType_append, or_assoc, hsingle, hmerged.ofType, ofType_cons, hhold]
    exact ofType_parts hm hmap hstart hlt hend hin
  · exact Nat.le_add_right_of_le (Nat.le_add_right _ _)
  · dsimp only
    omega
  · dsimp only
    omega
  · -- where the depth changes, the entry has an address outside the pages
    have hentType : ∀ a, entry.Holds a → OfType m.memoryMap entry.type a :=
      fun a ha => ⟨entry, by rw [hmap]; exact mem_append_right _ mem_cons_self, rfl, ha⟩
    by_cases hbelowPgs : entry.start < memory
    · refine .inr ⟨entry.start, hentType _ ⟨le_rfl, hent.nonempty⟩, fun hmem => ?_⟩
      have hle := hmem.1
      omega
    by_cases habovePgs : stop < entry.endAddress+1
    · refine .inr ⟨entry.endAddress, hentType _ ⟨hent.nonempty, le_rfl⟩, fun hmem => ?_⟩
      have hlast := ((hin _).mp hmem).2
      omega
    have hnoLower : lowerPart m entry memory = [] := if_neg hbelowPgs
    have hnoUpper : upperPart m entry memory stop = [] := if_neg habovePgs
    rw [hnoLower, hnoUpper]
    exact .inl rfl

theorem lastAddress (hn : 0 < n) (hend : memory + n*efiPageSize < 2^64) :
    subUint64 (toUint64 (memory + efiPagesToSize n)) 1 = memory + n*efiPageSize - 1 := by
  have hpos : 0 < n*efiPageSize := Nat.mul_pos hn (by decide)
  rw [efiPagesToSize_of_lt (by omega), toUint64_of_lt hend, subUint64_of_le (by omega) hend]

theorem isPassed_eq_false_iff {start last : Nat} : isPassed start last entry = false ↔
    last < entry.start ∨ entry.start ≤ start ∧ last ≤ entry.endAddress := by
  unfold isPassed
  rw [Bool.not_eq_false', Bool.or_eq_true, Bool.and_eq_true, decide_eq_true_iff, decide_eq_true_iff,
    decide_eq_true_iff]

theorem convertEntries_inside (hm : MapOk m) (hent : entry ∈ m.memoryMap) (hn : 0 < n)
    (hstart : entry.start ≤ memory) (hend : memory + n*efiPageSize ≤ entry.endAddress+1) :
    ∃ before after, m.memoryMap = before ++ entry :: after ∧ convertEntries type memory n m =
      if entry.type ≠ type then
        splitEntry m before after entry type memory (memory + n*efiPageSize - 1)
      else m := by
  have hok := hm.entries entry hent
  have hpos : 0 < n*efiPageSize := Nat.mul_pos hn (by decide)
  have hstop := hok.stop
  obtain ⟨before,after,hmap⟩ := append_of_mem hent
  have hsort := hm.sorted
  rw [hmap, pairwise_append] at hsort
  have hpassed : ∀ x ∈ before, isPassed memory (memory + n*efiPageSize - 1) x = true := by
    intro x hx
    have hord := (hsort.2.2 x hx entry mem_cons_self).order
    have hlen := (hm.entries x (by rw [hmap]; exact mem_append_left _ hx)).nonempty
    rw [← Bool.not_eq_false, isPassed_eq_false_iff]
    omega
  have hnot : ¬ isPassed memory (memory + n*efiPageSize - 1) entry = true := by
    rw [Bool.not_eq_true, isPassed_eq_false_iff]
    omega
  refine ⟨before, after, hmap, ?_⟩
  unfold convertEntries
  rw [lastAddress hn (by omega), hmap]
  dsimp only
  rw [takeWhile_append_of_pos hpassed, dropWhile_append_of_pos hpassed,
    takeWhile_cons_of_neg hnot, dropWhile_cons_of_neg hnot, append_nil]
  dsimp only
  rw [if_neg (by omega)]

theorem convertEntries_split (hm : MapOk m) (hent : entry ∈ m.memoryMap) (hn : 0 < n)
    (hal : memory % efiPageSize = 0) (hstart : entry.start ≤ memory)
    (hend : memory + n*efiPageSize ≤ entry.endAddress+1) (htype : entry.type ≠ type) :
    Converts m type memory n (convertEntries type memory n m) ∧
      ((convertEntries type memory n m).mapDepth = m.mapDepth ∨
        ∃ a, OfType m.memoryMap entry.type a ∧ ¬ InPages memory n a) := by
  obtain ⟨before,after,hmap,hconv⟩ := @convertEntries_inside _ type _ _ _ hm hent hn hstart hend
  rw [hconv, if_pos htype]
  exact splitEntry_spec hm hmap hn hal hstart hend

theorem convertSmmMemoryMapEntry_eq (hdepth : m.mapDepth ≤ 3)
    (hconv : Converts m type memory n (convertEntries type memory n m)) :
    convertSmmMemoryMapEntry type memory n m = some (convertEntries type memory n m) := by
  have hle := hconv.depth.2
  unfold convertSmmMemoryMapEntry maxMapDepth
  exact if_pos (by omega)

/-- The walk passes the entries below pages that no entry has, and stops at the first one above them. -/
theorem walk_outside (hm : MapOk m) (hn : 0 < n) (hnew : ∀ a, InPages memory n a → ¬ InMap m.memoryMap a) :
    ∃ before after, m.memoryMap.takeWhile (isPassed memory (memory + n*efiPageSize - 1)) = before ∧
      m.memoryMap.dropWhile (isPassed memory (memory + n*efiPageSize - 1)) = after ∧
      before ++ after = m.memoryMap ∧ (∀ x ∈ before, x.endAddress < memory) ∧
      ∀ x ∈ after, memory + n*efiPageSize - 1 < x.start := by
  have hpos : 0 < n*efiPageSize := Nat.mul_pos hn (by decide)
  have hside : ∀ x ∈ m.memoryMap, x.endAddress < memory ∨ memory + n*efiPageSize - 1 < x.start := by
    intro x hx
    by_contra hoverlap
    have hlen := (hm.entries x hx).nonempty
    have hx : InMap m.memoryMap (max x.start memory) :=
      ⟨x, hx, le_max_left _ _, Nat.max_le.mpr ⟨hlen, by omega⟩⟩
    exact hnew _ ⟨le_max_right _ _, Nat.max_lt.mpr ⟨by omega, by omega⟩⟩ hx
  have hsplit := takeWhile_append_dropWhile (p := isPassed memory (memory + n*efiPageSize - 1))
    (l := m.memoryMap)
  refine ⟨_, _, rfl, rfl, hsplit, fun x hx => ?_, ?_⟩
  · have hpass := mem_takeWhile_imp hx
    rw [← Bool.not_eq_false, isPassed_eq_false_iff] at hpass
    have hlow := hside x (takeWhile_subset _ hx)
    omega
  · have hhead := head?_dropWhile_not (isPassed memory (memory + n*efiPageSize - 1)) m.memoryMap
    have hsort := hm.sorted
    rw [← hsplit, pairwise_append] at hsort
    have hmem : ∀ x ∈ m.memoryMap.dropWhile (isPassed memory (memory + n*efiPageSize - 1)), x ∈ m.memoryMap :=
      fun x hx => (dropWhile_suffix _).subset hx
    generalize m.memoryMap.dropWhile (isPassed memory (memory + n*efiPageSize - 1)) = after at *
    cases after with
    | nil =>
      intro x hx
      cases hx
    | cons entry after =>
      have hnot := isPassed_eq_false_iff.mp (Bool.eq_false_iff.mpr (by simpa using hhead))
      have hhigh := hside entry (hmem entry mem_cons_self)
      have hlen := (hm.entries entry (hmem entry mem_cons_self)).nonempty
      intro x hx
      rcases mem_cons.mp hx with rfl | hx
      · omega
      · have hord := ((pairwise_cons.mp hsort.2.1).1 x hx).order
        omega

theorem converts_of_replace {old : List MemoryMapEntry} {depth : Nat} (hm : MapOk m)
    (hmap : m.memoryMap = before ++ (old ++ after))
    (hnew : ∀ a, InPages memory n a → ¬ InMap m.memoryMap a) (hok : EntryOk entry)
    (hplace : ∀ i, entry.fromStack = some i → i < depth) (hdepth : m.mapDepth ≤ depth ∧ depth ≤ m.mapDepth+2)
    (hbef : ∀ x ∈ before, Before x entry) (hafter : ∀ x ∈ after, Before entry x)
    (hofType : ∀ t a, OfType [entry] t a ↔ InPages memory n a ∧ type = t ∨ OfType old t a) :
    Converts m type memory n ⟨before ++ entry :: after, depth, m.freeEntries⟩ := by
  have hents := hm.entries
  have hsort := hm.sorted
  have hstack := hm.onStack
  rw [hmap] at hents hsort hstack
  rw [pairwise_append, pairwise_append] at hsort
  refine ⟨⟨fun x hx => ?_, ?_, fun x hx i hi => ?_⟩, fun t a => ?_, hdepth, le_rfl⟩
  · rcases mem_append.mp hx with hx | hx
    · exact hents x (mem_append_left _ hx)
    · rcases mem_cons.mp hx with rfl | hx
      · exact hok
      · exact hents x (mem_append_right _ (mem_append_right _ hx))
  · rw [pairwise_append, pairwise_cons]
    refine ⟨hsort.1, ⟨hafter, hsort.2.1.2.1⟩, fun x hx y hy => ?_⟩
    rcases mem_cons.mp hy with rfl | hy
    · exact hbef x hx
    · exact hsort.2.2 x hx y (mem_append_right _ hy)
  · rcases mem_append.mp hx with hx | hx
    · exact lt_of_lt_of_le (hstack x (mem_append_left _ hx) i hi) hdepth.1
    · rcases mem_cons.mp hx with rfl | hx
      · exact hplace i hi
      · exact lt_of_lt_of_le (hstack x (mem_append_right _ (mem_append_right _ hx)) i hi) hdepth.1
  · have hsplit : OfType (before ++ entry :: after) t a ↔
        (InPages memory n a ∧ type = t) ∨ OfType m.memoryMap t a := by
      have hcons : OfType (entry :: after) t a ↔ OfType [entry] t a ∨ OfType after t a := by
        rw [← singleton_append, ofType_append]
      rw [hmap, ofType_append, hcons, hofType, ofType_append, ofType_append]
      simp only [or_comm, or_left_comm]
    rw [hsplit]
    constructor
    · rintro (hin | hold)
      · exact .inl hin
      · exact .inr ⟨fun hin => hnew a hin (inMap_iff.mpr ⟨t, hold⟩), hold⟩
    · rintro (hin | ⟨-,hold⟩)
      · exact .inl hin
      · exact .inr hold

theorem ofType_singleton : OfType [entry] t a ↔ entry.type = t ∧ entry.Holds a := by
  rw [ofType_cons]
  constructor
  · rintro (h | ⟨x,hx,-⟩)
    · exact h
    · cases hx
  · exact .inl

section
variable (hm : MapOk m) (hn : 0 < n) (hal : memory % efiPageSize = 0) (hend : memory + n*efiPageSize < 2^64)
  (hnew : ∀ a, InPages memory n a → ¬ InMap m.memoryMap a)
include hn hal hend

theorem entryOk_pages : EntryOk ⟨some k, type, memory, memory + n*efiPageSize - 1⟩ := by
  have hpos : 0 < n*efiPageSize := Nat.mul_pos hn (by decide)
  refine ⟨?_, hal, ?_, ?_⟩
  · show memory ≤ memory + n*efiPageSize - 1
    omega
  · show (memory + n*efiPageSize - 1 + 1) % efiPageSize = 0
    rw [Nat.sub_add_cancel (by omega), Nat.add_mul_mod_self_right]
    exact hal
  · show memory + n*efiPageSize - 1 + 1 < 2^64
    omega

include hm hnew

/-- A new entry for the pages. -/
theorem converts_of_insert (hmap : m.memoryMap = before ++ after)
    (hbef : ∀ x ∈ before, Before x ⟨some m.mapDepth, type, memory, memory + n*efiPageSize - 1⟩)
    (hafter : ∀ x ∈ after, Before ⟨some m.mapDepth, type, memory, memory + n*efiPageSize - 1⟩ x) :
    Converts m type memory n
      ⟨before ++ ⟨some m.mapDepth, type, memory, memory + n*efiPageSize - 1⟩ :: after, m.mapDepth+1, m.freeEntries⟩ := by
  have hpos : 0 < n*efiPageSize := Nat.mul_pos hn (by decide)
  refine @converts_of_replace _ _ _ _ _ _ _ [] _ hm hmap hnew (entryOk_pages hn hal hend) (fun i hi => ?_)
    ⟨Nat.le_succ _, by omega⟩ hbef hafter fun t a => ?_
  · cases hi
    exact Nat.lt_succ_self _
  · have hnil : ¬ OfType [] t a := by
      rintro ⟨x,hx,-⟩
      cases hx
    have hhold : MemoryMapEntry.Holds ⟨some m.mapDepth, type, memory, memory + n*efiPageSize - 1⟩ a ↔
        InPages memory n a := by
      unfold MemoryMapEntry.Holds InPages
      dsimp only
      omega
    rw [ofType_singleton, hhold, and_comm]
    simp only [hnil, or_false]

theorem converts_below (hmap : m.memoryMap = before ++ entry :: after)
    (hbelow : ∀ x ∈ before, ∀ y : MemoryMapEntry, y.start = memory → y.type = type → Before x y)
    (habove : memory + n*efiPageSize - 1 < entry.start) : Converts m type memory n
      (if entry.start = memory + n*efiPageSize ∧ entry.type = type then
        { m with memoryMap := before ++ { entry with start := memory } :: after }
      else { m with
        memoryMap := before ++ ⟨some m.mapDepth, type, memory, memory + n*efiPageSize - 1⟩ :: entry :: after
        mapDepth := m.mapDepth+1 }) := by
  have hpos : 0 < n*efiPageSize := Nat.mul_pos hn (by decide)
  obtain ⟨hok,-,-,-,-,-,hnext,-⟩ := mapOk_parts hm hmap
  by_cases hjoin : entry.start = memory + n*efiPageSize ∧ entry.type = type
  · rw [if_pos hjoin]
    have hlen := hok.nonempty
    refine @converts_of_replace _ _ _ _ _ _ _ [entry] _ hm hmap hnew ⟨?_, hal, hok.alignedEnd, hok.stop⟩
      (fun i hi => hm.onStack entry (hmap ▸ mem_append_right _ mem_cons_self) i hi)
      ⟨le_rfl, Nat.le_add_right _ _⟩ (fun x hx => hbelow x hx _ rfl hjoin.2)
      (fun x hx => ⟨(hnext x hx).order, (hnext x hx).gap⟩) (fun t a => ?_)
    · show memory ≤ entry.endAddress
      omega
    · have hhold : MemoryMapEntry.Holds { entry with start := memory } a ↔
          InPages memory n a ∨ entry.Holds a := by
        unfold MemoryMapEntry.Holds InPages
        dsimp only
        omega
      rw [ofType_singleton, ofType_singleton, hhold, and_or_left, ← hjoin.2, and_comm]
  rw [if_neg hjoin]
  refine converts_of_insert hm hn hal hend hnew hmap (fun x hx => hbelow x hx _ rfl rfl) fun x hx => ?_
  rcases mem_cons.mp hx with rfl | hx
  · refine ⟨habove, fun h1 h2 => ?_⟩
    have hne : x.start ≠ memory + n*efiPageSize := fun heq => hjoin ⟨heq, h2.trans h1.symm⟩
    show memory + n*efiPageSize - 1 + 1 < x.start
    omega
  · have hbeyond := (hnext x hx).trans_gap habove hok
    exact ⟨Nat.lt_of_succ_lt hbeyond, fun _ _ => hbeyond⟩

theorem converts_behind (hmap : m.memoryMap = before ++ [prev])
    (hpassed : ∀ x ∈ m.memoryMap, x.endAddress < memory) : Converts m type memory n
      (if prev.endAddress+1 = memory ∧ prev.type = type then
        { m with memoryMap := before ++ [{ prev with endAddress := memory + n*efiPageSize - 1 }] }
      else { m with
        memoryMap := before ++ [prev] ++ [⟨some m.mapDepth, type, memory, memory + n*efiPageSize - 1⟩]
        mapDepth := m.mapDepth+1 }) := by
  have hpos : 0 < n*efiPageSize := Nat.mul_pos hn (by decide)
  obtain ⟨hok,-,-,-,-,hprev,-⟩ := mapOk_parts hm hmap
  have hlen := hok.nonempty
  have hmem : prev ∈ m.memoryMap := hmap ▸ mem_append_right _ mem_cons_self
  have hlast := hpassed prev hmem
  by_cases hjoin : prev.endAddress+1 = memory ∧ prev.type = type
  · rw [if_pos hjoin]
    have hnewOk := @entryOk_pages type _ _ 0 hn hal hend
    refine @converts_of_replace _ [] _ _ _ _ _ [prev] _ hm hmap hnew
      ⟨?_, hok.aligned, hnewOk.alignedEnd, hnewOk.stop⟩
      (fun i hi => hm.onStack prev hmem i hi) ⟨le_rfl, Nat.le_add_right _ _⟩
      (fun x hx => ⟨(hprev x hx).order, (hprev x hx).gap⟩) (fun x hx => ?_) (fun t a => ?_)
    · show prev.start ≤ memory + n*efiPageSize - 1
      omega
    · cases hx
    · have hhold : MemoryMapEntry.Holds { prev with endAddress := memory + n*efiPageSize - 1 } a ↔
          InPages memory n a ∨ prev.Holds a := by
        unfold MemoryMapEntry.Holds InPages
        dsimp only
        omega
      rw [ofType_singleton, ofType_singleton, hhold, and_or_left, ← hjoin.2, and_comm]
  rw [if_neg hjoin]
  refine converts_of_insert hm hn hal hend hnew (hmap.trans (append_nil _).symm) (fun x hx => ?_) fun x hx => ?_
  · have hbelow := hpassed x (hmap ▸ hx)
    refine ⟨hbelow, fun h1 h2 => ?_⟩
    show x.endAddress+1 < memory
    rcases mem_append.mp hx with hx | hx
    · have hord := (hprev x hx).order
      omega
    · rw [mem_singleton.mp hx] at h1 hbelow ⊢
      have hne : prev.endAddress+1 ≠ memory := fun heq => hjoin ⟨heq, h1.trans h2.symm⟩
      omega
  · cases hx

/-- Pages that no entry has. They are joined to the entry above, or to the last one where there is none
above; so free pages right behind free memory need that there is none above. -/
theorem convertEntries_outside (hgap : type = .conventionalMemory → (∃ x ∈ m.memoryMap, memory < x.start) →
      ∀ x ∈ m.memoryMap, x.type = .conventionalMemory → x.endAddress+1 ≠ memory) :
    Converts m type memory n (convertEntries type memory n m) := by
  have hpos : 0 < n*efiPageSize := Nat.mul_pos hn (by decide)
  unfold convertEntries
  rw [lastAddress hn hend]
  dsimp only
  obtain ⟨before,after,hbefEq,hafterEq,hsplit,hpassed,habove⟩ := walk_outside hm hn hnew
  rw [hbefEq, hafterEq]
  cases after with
  | cons entry after =>
    have habove := habove entry mem_cons_self
    -- an entry before the pages is apart from them where both are free memory
    have hbelow : ∀ x ∈ before, ∀ y : MemoryMapEntry, y.start = memory → y.type = type → Before x y := by
      intro x hx y hstart htype
      refine ⟨hstart ▸ hpassed x hx, fun h1 h2 => ?_⟩
      have hne := hgap (htype ▸ h2) ⟨entry, hsplit ▸ mem_append_right _ mem_cons_self, by omega⟩ x
        (hsplit ▸ mem_append_left _ hx) h1
      have hlt := hpassed x hx
      omega
    dsimp only
    rw [if_pos habove, Nat.sub_add_cancel (by omega), toUint64_of_lt hend]
    exact converts_below hm hn hal hend hnew hsplit.symm hbelow habove
  | nil =>
    rw [append_nil] at hsplit
    subst hsplit
    rcases eq_nil_or_concat' m.memoryMap with hnil | ⟨first,prev,hconcat⟩
    · rw [hnil]
      exact @converts_of_insert [] [] _ _ _ _ hm hn hal hend hnew hnil (fun x hx => nomatch hx)
        fun x hx => nomatch hx
    · have hok := (mapOk_parts hm hconcat).1
      rw [hconcat, getLast?_concat, dropLast_concat]
      dsimp only
      rw [toUint64_of_lt hok.stop]
      exact converts_behind hm hn hal hend hnew hconcat hpassed

end

theorem mapDepth_outside (hm : MapOk m) (hn : 0 < n) (hend : memory + n*efiPageSize < 2^64)
    (hnew : ∀ a, InPages memory n a → ¬ InMap m.memoryMap a) :
    (convertEntries type memory n m).mapDepth ≤ m.mapDepth+1 := by
  obtain ⟨before,after,hbefEq,hafterEq,-,-,habove⟩ := walk_outside hm hn hnew
  unfold convertEntries
  rw [lastAddress hn hend]
  dsimp only
  rw [hafterEq]
  cases after with
  | cons entry after =>
    dsimp only
    rw [if_pos (habove entry mem_cons_self)]
    split
    · exact Nat.le_succ _
    · exact le_rfl
  | nil =>
    cases m.memoryMap.getLast? with
    | none => exact le_rfl
    | some last =>
      dsimp only
      split
      · exact Nat.le_succ _
      · exact le_rfl

def TouchesEntry (memoryMap : List MemoryMapEntry) (type : EfiMemoryType) (memory n : Nat) : Prop :=
  ∃ x ∈ memoryMap, x.type = type ∧ (x.start = memory + n*efiPageSize ∨
    x.endAddress+1 = memory ∧ ∀ y ∈ memoryMap, y.start ≤ memory)

theorem mapDepth_of_touches (hm : MapOk m) (hn : 0 < n) (hend : memory + n*efiPageSize < 2^64)
    (hnew : ∀ a, InPages memory n a → ¬ InMap m.memoryMap a)
    (htouches : TouchesEntry m.memoryMap type memory n) :
    (convertEntries type memory n m).mapDepth = m.mapDepth := by
  have hpos : 0 < n*efiPageSize := Nat.mul_pos hn (by decide)
  obtain ⟨x,hx,htype,htouch⟩ := htouches
  obtain ⟨before,after,hbefEq,hafterEq,hsplit,hpassed,habove⟩ := walk_outside hm hn hnew
  have hlen := (hm.entries x hx).nonempty
  have hsort := hm.sorted
  unfold convertEntries
  rw [lastAddress hn hend]
  dsimp only
  rw [hbefEq, hafterEq]
  cases after with
  | cons entry after =>
    -- only the entry above touches the pages
    have habove' := habove entry mem_cons_self
    have hmem : entry ∈ m.memoryMap := hsplit ▸ mem_append_right _ mem_cons_self
    have hbeh : x = entry := by
      rw [← hsplit] at hx hsort
      rw [pairwise_append] at hsort
      have hstart : x.start = memory + n*efiPageSize := by
        rcases htouch with hstart | ⟨-,hnone⟩
        · exact hstart
        · have hle := hnone entry hmem
          omega
      rcases mem_append.mp hx with hx | hx
      · have hlow := hpassed x hx
        omega
      rcases mem_cons.mp hx with rfl | hx
      · rfl
      · have hord := ((pairwise_cons.mp hsort.2.1).1 x hx).order
        have hlenEnt := (hm.entries entry hmem).nonempty
        omega
    subst hbeh
    have hstart : x.start = memory + n*efiPageSize := by
      rcases htouch with hstart | ⟨hbelow,-⟩
      · exact hstart
      · omega
    dsimp only
    rw [if_pos habove', if_pos ⟨by rw [Nat.sub_add_cancel (by omega), toUint64_of_lt hend]; exact hstart, htype⟩]
  | nil =>
    rw [append_nil] at hsplit
    subst hsplit
    rcases eq_nil_or_concat' m.memoryMap with hnil | ⟨first,prev,hconcat⟩
    · rw [hnil] at hx
      cases hx
    rw [hconcat, pairwise_append] at hsort
    rw [hconcat] at hx
    have hmem : prev ∈ m.memoryMap := by
      rw [hconcat]
      exact mem_append_right _ mem_cons_self
    have hok := hm.entries prev hmem
    have hlast := hpassed prev hmem
    have hlast : x = prev := by
      rcases mem_append.mp hx with hx | hx
      · have hord := (hsort.2.2 x hx prev mem_cons_self).order
        have hlenPrev := hok.nonempty
        omega
      · exact mem_singleton.mp hx
    subst hlast
    rw [hconcat, getLast?_concat]
    dsimp only
    rw [toUint64_of_lt hok.stop, if_pos ⟨by omega, htype⟩]

def MemoryMapEntry.isConventional (entry : MemoryMapEntry) : Bool := decide (entry.type = .conventionalMemory)

def conventionalSpans (memoryMap : List MemoryMapEntry) : List Span :=
  (memoryMap.filter MemoryMapEntry.isConventional).map fun entry => ⟨entry.start, entry.endAddress+1⟩

theorem mem_conventionalSpans {x : Span} : x ∈ conventionalSpans xs ↔
    ∃ entry ∈ xs, entry.type = .conventionalMemory ∧ x = ⟨entry.start, entry.endAddress+1⟩ := by
  unfold conventionalSpans MemoryMapEntry.isConventional
  simp only [mem_map, mem_filter, decide_eq_true_iff, and_assoc, @eq_comm _ x]

theorem MapOk.separated (h : MapOk m) : Separated (conventionalSpans m.memoryMap) := by
  refine ⟨fun x hx => ?_, ?_⟩
  · obtain ⟨entry,hent,-,rfl⟩ := mem_conventionalSpans.mp hx
    exact Nat.lt_succ_of_le (h.entries entry hent).nonempty
  · unfold conventionalSpans
    rw [pairwise_map, pairwise_filter]
    refine h.sorted.imp fun hbef htype hnext => ?_
    exact hbef.gap (of_decide_eq_true htype) (of_decide_eq_true hnext)

theorem covers_conventionalSpans : Covers (conventionalSpans xs) a ↔ OfType xs .conventionalMemory a := by
  constructor
  · rintro ⟨x,hx,hlow,hhigh⟩
    obtain ⟨entry,hent,htype,rfl⟩ := mem_conventionalSpans.mp hx
    exact ⟨entry, hent, htype, hlow, Nat.le_of_lt_succ hhigh⟩
  · rintro ⟨entry,hent,htype,hlow,hhigh⟩
    exact ⟨_, mem_conventionalSpans.mpr ⟨entry, hent, htype, rfl⟩, hlow, Nat.lt_succ_of_le hhigh⟩

theorem MapOk.one_entry (h : MapOk m) (hn : 0 < n)
    (hpgs : ∀ a, InPages memory n a → OfType m.memoryMap .conventionalMemory a) :
    ∃ entry ∈ m.memoryMap, entry.type = .conventionalMemory ∧ entry.start ≤ memory ∧
      memory + n*efiPageSize ≤ entry.endAddress+1 := by
  have hpos : 0 < n*efiPageSize := Nat.mul_pos hn (by decide)
  obtain ⟨x,hx,hstart,hstop⟩ := h.separated.one_span (Nat.lt_add_of_pos_right hpos)
    fun a hlow hhigh => covers_conventionalSpans.mpr (hpgs a ⟨hlow, hhigh⟩)
  obtain ⟨entry,hent,htype,rfl⟩ := mem_conventionalSpans.mp hx
  exact ⟨entry, hent, htype, hstart, hstop⟩

theorem inMemMap_iff (hn : 0 < n) (hend : memory + n*efiPageSize ≤ 2^64) : inMemMap xs memory n = true ↔
      ∃ entry ∈ xs, entry.start ≤ memory ∧ memory + n*efiPageSize ≤ entry.endAddress+1 := by
  have hpos : 0 < n*efiPageSize := Nat.mul_pos hn (by decide)
  have hlast : subUint64 (toUint64 (memory + efiPagesToSize n)) 1 = memory + n*efiPageSize - 1 := by
    unfold subUint64 efiPagesToSize toUint64
    omega
  unfold inMemMap
  simp only [any_eq_true, Bool.and_eq_true, decide_eq_true_iff]
  constructor
  · rintro ⟨entry,hent,hstart,hlast⟩
    exact ⟨entry, hent, hstart, by omega⟩
  · rintro ⟨entry,hent,hstart,hstop⟩
    exact ⟨entry, hent, hstart, by omega⟩

end

end Liano.Smm
