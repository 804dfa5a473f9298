import Liano.Smm.Services

/-! The free page list and the memory map agree, and each operation keeps that. -/
namespace Liano.Smm

open Option (bind_some)
open List hiding after max

open Liano.Lib

/-- Both structures are well formed, the free pages are those of free memory, and no page with descriptors is
free. -/
structure AllocatorOk (st : SmmMemory) : Prop where
  list : FreeListOk st.smmMemoryMap
  map : MapOk st.map
  agree : ∀ a, IsFree st.smmMemoryMap a ↔ OfType st.map.memoryMap .conventionalMemory a
  descriptors : ∀ page ∈ st.descriptorPages, ∀ a, InPages page 1 a →
    InMap st.map.memoryMap a ∧ ¬ IsFree st.smmMemoryMap a

/-- What of the stack is used and what descriptors there are: entries are added to the stack only where
a page is left that a descriptor can be made of. -/
structure StackGrows (st st' : SmmMemory) : Prop where
  depth : st'.map.mapDepth ≤ st.map.mapDepth+2
  freeEntries : st.map.freeEntries ≤ st'.map.freeEntries
  refill : st'.map.mapDepth = st.map.mapDepth ∨ ∃ a, IsFree st'.smmMemoryMap a

structure Allocated (st : SmmMemory) (memory n : Nat) (st' : SmmMemory) : Prop where
  ok : AllocatorOk st'
  aligned : memory % efiPageSize = 0
  wereFree : ∀ a, InPages memory n a → IsFree st.smmMemoryMap a
  free : ∀ a, IsFree st'.smmMemoryMap a ↔ IsFree st.smmMemoryMap a ∧ ¬ InPages memory n a
  inMap : ∀ a, InMap st'.map.memoryMap a ↔ InMap st.map.memoryMap a
  descriptorPages : st'.descriptorPages = st.descriptorPages
  grows : StackGrows st st'

variable {st st' : SmmMemory} {list : List FreePageList} {memory n requested : Nat} {memoryType : EfiMemoryType}
  {type : EfiAllocateType} {a : Nat}

theorem AllocatorOk.inMap_of_free (h : AllocatorOk st) (ha : IsFree st.smmMemoryMap a) :
    InMap st.map.memoryMap a := inMap_iff.mpr ⟨_, (h.agree a).mp ha⟩

theorem isRuntimeType_ne (h : isRuntimeType memoryType = true) : memoryType ≠ .conventionalMemory := by
  rintro rfl
  cases h

variable {m : MapState} {entry : MemoryMapEntry}

theorem Converts.inMap {m' : MapState} {t : EfiMemoryType} (h : Converts m t memory n m') (a : Nat) :
    InMap m'.memoryMap a ↔ InPages memory n a ∨ InMap m.memoryMap a := by
  rw [inMap_iff, inMap_iff]
  simp only [h.ofType]
  constructor
  · rintro ⟨t',⟨hin,-⟩ | ⟨-,hold⟩⟩
    · exact .inl hin
    · exact .inr ⟨t', hold⟩
  · rintro (hin | ⟨t',hold⟩)
    · exact ⟨t, .inl ⟨hin, rfl⟩⟩
    · by_cases hin : InPages memory n a
      · exact ⟨t, .inl ⟨hin, rfl⟩⟩
      · exact ⟨t', .inr ⟨hin, hold⟩⟩

theorem convertAllocated_spec (h : AllocatorOk st) (hdepth : st.map.mapDepth ≤ 3)
    (hmemType : isRuntimeType memoryType = true) (hn : 0 < n)
    (htakes : Takes st.smmMemoryMap memory n list) :
    ∃ st', convertAllocated st memoryType n list memory = some (.success, memory, st') ∧
      Allocated st memory n st' := by
  obtain ⟨entry,hent,htype,hstart,hend⟩ :=
    h.map.one_entry hn fun a ha => (h.agree a).mp (htakes.wereFree a ha)
  obtain ⟨hconv,hpushes⟩ := @convertEntries_split _ memoryType _ _ _ h.map hent hn htakes.aligned hstart
    hend (htype ▸ (isRuntimeType_ne hmemType).symm)
  have hstays : ∀ a, IsFree list a → IsFree st.smmMemoryMap a := fun a ha => ((htakes.free a).mp ha).1
  have hinMap : ∀ a, InMap (convertEntries memoryType memory n st.map).memoryMap a ↔
      InMap st.map.memoryMap a := by
    intro a
    rw [hconv.inMap]
    exact or_iff_right_of_imp fun ha => h.inMap_of_free (htakes.wereFree a ha)
  refine ⟨{ st with smmMemoryMap := list, map := convertEntries memoryType memory n st.map }, ?_, ?_⟩
  · unfold convertAllocated
    rw [convertSmmMemoryMapEntry_eq hdepth hconv]
    rfl
  · refine ⟨⟨htakes.ok, hconv.ok, fun a => ?_, fun page hpage a ha => ?_⟩, htakes.aligned, htakes.wereFree,
      htakes.free, hinMap, rfl, hconv.depth.2, hconv.freeEntries, ?_⟩
    · have hnot : memoryType ≠ .conventionalMemory := isRuntimeType_ne hmemType
      rw [htakes.free, h.agree, hconv.ofType, and_comm]
      simp only [hnot, and_false, false_or]
    · obtain ⟨hin,hnot⟩ := h.descriptors page hpage a ha
      exact ⟨(hinMap a).mpr hin, fun hfree => hnot (hstays a hfree)⟩
    · rcases hpushes with hsame | ⟨a,ha,hout⟩
      · exact .inl hsame
      · refine .inr ⟨a, (htakes.free a).mpr ⟨(h.agree a).mpr ?_, hout⟩⟩
        rw [← htype]
        exact ha

def Respects (requested n : Nat) : EfiAllocateType → Nat → Prop
  | .anyPages, _ => True
  | .maxAddress, memory => memory + n*efiPageSize ≤ requested+1
  | .address, memory => memory = requested
  | .other _, _ => False

def Satisfiable (st : SmmMemory) (type : EfiAllocateType) (n requested : Nat) : Prop :=
  ∃ memory, memory % efiPageSize = 0 ∧ Respects requested n type memory ∧
    ∀ a, InPages memory n a → IsFree st.smmMemoryMap a

theorem FreeListOk.pages_lt (h : FreeListOk list) (hn : 0 < n) (hfree : ∀ a, InPages memory n a → IsFree list a) :
    memory + n*efiPageSize < 2^64 := by
  obtain ⟨pages,hpgs,-,hend⟩ := h.one_node hn hfree
  have hstop := (h.nodes pages hpgs).stop
  omega

theorem allocateBelow_spec (h : AllocatorOk st) (hdepth : st.map.mapDepth ≤ 3)
    (hmemType : isRuntimeType memoryType = true) (hn : 0 < n) {max : Nat} (hmax : max < 2^64) :
    (∃ memory st', allocateBelow st memoryType n max = some (.success, memory, st') ∧ Allocated st memory n st' ∧
        memory + n*efiPageSize ≤ max+1) ∨
      (allocateBelow st memoryType n max = some (.outOfResources, maxUint64, st) ∧
        ∀ memory, memory + n*efiPageSize ≤ max+1 → ¬ ∀ a, InPages memory n a → IsFree st.smmMemoryMap a) := by
  unfold allocateBelow
  rcases internalAllocMaxAddress_spec h.list hn hmax with ⟨list,memory,halloc,htakes,hbelow⟩ | ⟨halloc,hnone⟩
  · obtain ⟨st',hconv,hallocated⟩ := convertAllocated_spec h hdepth hmemType hn htakes
    have hne : memory ≠ maxUint64 := by
      have hal := htakes.aligned
      unfold efiPageSize at hal
      unfold maxUint64
      omega
    rw [halloc, bind_some]
    dsimp only
    rw [if_neg hne]
    exact .inl ⟨memory, st', hconv, hallocated, hbelow⟩
  · rw [halloc, bind_some]
    exact .inr ⟨if_pos rfl, hnone⟩

def RegularAddress (list : List FreePageList) (n address : Nat) : Prop :=
  address % efiPageSize = 0 → (∃ pages ∈ list, pages.start ≤ address) → address + n*efiPageSize < 2^64

theorem complement_ne {address : Nat} (h : address < 2^64) : complement address ≠ address := by
  unfold complement maxUint64
  omega

theorem allocateAt_spec (h : AllocatorOk st) (hdepth : st.map.mapDepth ≤ 3)
    (hmemType : isRuntimeType memoryType = true) (hn : 0 < n) (hrequested : requested < 2^64)
    (hreg : RegularAddress st.smmMemoryMap n requested) :
    (∃ st', allocateAt st memoryType n requested = some (.success, requested, st') ∧
        Allocated st requested n st') ∨
      (allocateAt st memoryType n requested = some (.notFound, complement requested, st) ∧
        (requested % efiPageSize = 0 → ¬ ∀ a, InPages requested n a → IsFree st.smmMemoryMap a)) := by
  have hne := complement_ne hrequested
  unfold allocateAt
  by_cases hnowrap : requested + n*efiPageSize < 2^64
  · rcases internalAllocAddress_spec h.list hn hnowrap with ⟨list,halloc,htakes⟩ | ⟨halloc,hnone⟩
    · obtain ⟨st',hconv,hallocated⟩ := convertAllocated_spec h hdepth hmemType hn htakes
      rw [halloc, bind_some]
      dsimp only
      rw [if_neg (fun hnot => hnot rfl)]
      exact .inl ⟨st', hconv, hallocated⟩
    · rw [halloc, bind_some]
      exact .inr ⟨if_pos hne, hnone⟩
  · have halloc : internalAllocAddress st.smmMemoryMap n requested =
        some (st.smmMemoryMap, complement requested) := by
      unfold internalAllocAddress isPageAligned
      by_cases hal : requested % efiPageSize = 0
      · rw [if_neg (by simpa using hal)]
        have hnone : findBack (fun pages => pages.start ≤ requested) st.smmMemoryMap = none := by
          cases hfind : findBack (fun pages => pages.start ≤ requested) st.smmMemoryMap with
          | none => rfl
          | some found =>
            obtain ⟨before,pages,after⟩ := found
            obtain ⟨hsplit,hstart,-⟩ := findBack_some hfind
            refine absurd (hreg hal ⟨pages, ?_, of_decide_eq_true hstart⟩) hnowrap
            rw [hsplit]
            exact mem_append_right _ mem_cons_self
        rw [hnone]
      · exact if_pos (by simpa using hal)
    rw [halloc, bind_some]
    exact .inr ⟨if_pos hne, fun _ hfree => hnowrap (h.list.pages_lt hn hfree)⟩

structure RegularRequest (st : SmmMemory) (type : EfiAllocateType) (n requested : Nat) : Prop where
  positive : 0 < n
  address : type = .address → n ≤ truncateToPages maxUint64 + 1 → RegularAddress st.smmMemoryMap n requested

/-- Pages are allocated where the request can be satisfied, and nothing is changed otherwise. -/
theorem smmInternalAllocatePagesEx_spec (h : AllocatorOk st) (hdepth : st.map.mapDepth ≤ 3)
    (hrequested : requested < 2^64)
    (hregular : isRuntimeType memoryType = true → (∀ v, type ≠ .other v) → RegularRequest st type n requested) :
    (∃ memory st', smmInternalAllocatePagesEx st type memoryType n requested = some (.success, memory, st') ∧
        Allocated st memory n st' ∧ Respects requested n type memory ∧ 0 < n) ∨
      ∃ status memory, smmInternalAllocatePagesEx st type memoryType n requested = some (status,memory,st) ∧
        status.isError = true ∧ (isRuntimeType memoryType = true → ¬ Satisfiable st type n requested) := by
  unfold smmInternalAllocatePagesEx
  by_cases hmemType : isRuntimeType memoryType = true
  · rw [if_neg (by rw [hmemType]; decide)]
    by_cases hmany : n > truncateToPages maxUint64 + 1
    · rw [if_pos hmany]
      refine .inr ⟨_, _, rfl, rfl, fun _ ⟨memory, _, _, hfree⟩ => ?_⟩
      have hlt := h.list.pages_lt (by omega) hfree
      unfold truncateToPages maxUint64 efiPageSize at hmany
      unfold efiPageSize at hlt
      omega
    rw [if_neg hmany]
    cases type with
    | anyPages =>
      have hreg := hregular hmemType (fun v => nofun)
      rcases allocateBelow_spec h hdepth hmemType hreg.positive (by decide : maxUint64 < 2^64) with
        ⟨memory, st', halloc, hallocated, -⟩ | ⟨halloc, hnone⟩
      · exact .inl ⟨memory, st', halloc, hallocated, trivial, hreg.positive⟩
      refine .inr ⟨_, _, halloc, rfl, fun _ ⟨memory, _, _, hfree⟩ => ?_⟩
      have hlt := h.list.pages_lt hreg.positive hfree
      refine hnone memory ?_ hfree
      unfold maxUint64
      omega
    | maxAddress =>
      have hreg := hregular hmemType (fun v => nofun)
      rcases allocateBelow_spec h hdepth hmemType hreg.positive hrequested with
        ⟨memory, st', halloc, hallocated, hbelow⟩ | ⟨halloc, hnone⟩
      · exact .inl ⟨memory, st', halloc, hallocated, hbelow, hreg.positive⟩
      · exact .inr ⟨_, _, halloc, rfl, fun _ ⟨memory, _, hbelow, hfree⟩ => hnone memory hbelow hfree⟩
    | address =>
      have hreg := hregular hmemType (fun v => nofun)
      rcases allocateAt_spec h hdepth hmemType hreg.positive hrequested
          (hreg.address rfl (Nat.le_of_not_lt hmany)) with ⟨st',halloc,hallocated⟩ | ⟨halloc,hnone⟩
      · exact .inl ⟨requested, st', halloc, hallocated, rfl, hreg.positive⟩
      · refine .inr ⟨_, _, halloc, rfl, fun _ ⟨memory, hal, hat, hfree⟩ => ?_⟩
        subst hat
        exact hnone hal hfree
    | other v => exact .inr ⟨_, _, rfl, rfl, fun _ ⟨memory, _, hrespects, _⟩ => hrespects⟩
  · rw [if_pos (by simpa using hmemType)]
    exact .inr ⟨_, _, rfl, rfl, fun hrt => absurd hrt hmemType⟩

structure Refills (st st' : SmmMemory) : Prop where
  ok : AllocatorOk st'
  free : ∀ a, IsFree st'.smmMemoryMap a → IsFree st.smmMemoryMap a
  inMap : ∀ a, InMap st'.map.memoryMap a ↔ InMap st.map.memoryMap a
  descriptors : ∀ page ∈ st'.descriptorPages, page ∈ st.descriptorPages ∨
    ∀ a, InPages page 1 a → IsFree st.smmMemoryMap a

theorem Refills.refl (h : AllocatorOk st) : Refills st st :=
  ⟨h, fun _ ha => ha, fun _ => Iff.rfl, fun _ hpage => .inl hpage⟩

theorem Refills.trans {st'' : SmmMemory} (h : Refills st st') (h' : Refills st' st'') : Refills st st'' := by
  refine ⟨h'.ok, fun a ha => h.free a (h'.free a ha), fun a => (h'.inMap a).trans (h.inMap a), fun page hpage => ?_⟩
  rcases h'.descriptors page hpage with hold | hnew
  · exact h.descriptors page hold
  · exact .inr fun a ha => h.free a (hnew a ha)

section
variable (place : Nat) (entry : MemoryMapEntry)

theorem leaveStack_type : (leaveStack place entry).type = entry.type := by
  unfold leaveStack
  split <;> rfl

theorem leaveStack_start : (leaveStack place entry).start = entry.start := by
  unfold leaveStack
  split <;> rfl

theorem leaveStack_endAddress : (leaveStack place entry).endAddress = entry.endAddress := by
  unfold leaveStack
  split <;> rfl

end

theorem leaveStack_fromStack {place i : Nat}
    (h : (leaveStack place entry).fromStack = some i) : entry.fromStack = some i ∧ i ≠ place := by
  unfold leaveStack at h
  split at h
  · cases h
  · rename_i hnot
    exact ⟨h, fun heq => hnot (heq ▸ h)⟩

theorem ofType_popStack (m : MapState) (t : EfiMemoryType) (a : Nat) :
    OfType m.popStack.memoryMap t a ↔ OfType m.memoryMap t a := by
  unfold OfType MapState.popStack MemoryMapEntry.Holds
  simp only [mem_map, exists_exists_and_eq_and, leaveStack_type, leaveStack_start, leaveStack_endAddress]

theorem MapOk.popStack (h : MapOk m) : MapOk m.popStack := by
  refine ⟨fun x hx => ?_, ?_, fun x hx i hi => ?_⟩
  · obtain ⟨entry,hent,rfl⟩ := mem_map.mp hx
    have hok := h.entries entry hent
    refine ⟨?_, ?_, ?_, ?_⟩
    · rw [leaveStack_start, leaveStack_endAddress]
      exact hok.nonempty
    · rw [leaveStack_start]
      exact hok.aligned
    · rw [leaveStack_endAddress]
      exact hok.alignedEnd
    · rw [leaveStack_endAddress]
      exact hok.stop
  · refine pairwise_map.mpr (h.sorted.imp fun hbef => ⟨?_, ?_⟩)
    · rw [leaveStack_start, leaveStack_endAddress]
      exact hbef.order
    · rw [leaveStack_start, leaveStack_endAddress, leaveStack_type, leaveStack_type]
      exact hbef.gap
  · obtain ⟨entry,hent,rfl⟩ := mem_map.mp hx
    obtain ⟨hplace,hne⟩ := leaveStack_fromStack hi
    have hlt := h.onStack entry hent i hplace
    show i < m.mapDepth-1
    omega

theorem refills_map (h : AllocatorOk st) (hm : MapOk m)
    (hofType : ∀ t a, OfType m.memoryMap t a ↔ OfType st.map.memoryMap t a) : Refills st { st with map := m } := by
  have hinMap : ∀ a, InMap m.memoryMap a ↔ InMap st.map.memoryMap a := by
    intro a
    rw [inMap_iff, inMap_iff]
    exact exists_congr fun t => hofType t a
  refine ⟨⟨h.list, hm, fun a => (h.agree a).trans (hofType _ a).symm, fun page hpage a ha => ?_⟩, fun _ ha => ha,
    hinMap, fun _ hpage => .inl hpage⟩
  obtain ⟨hin,hnot⟩ := h.descriptors page hpage a ha
  exact ⟨(hinMap a).mpr hin, hnot⟩

theorem allocateMemoryMapEntry_spec (h : AllocatorOk st) (hdepth : st.map.mapDepth ≤ 3)
    (henough : 0 < st.map.freeEntries ∨ ∃ a, IsFree st.smmMemoryMap a) :
    ∃ st', allocateMemoryMapEntry st = some st' ∧ Refills st st' ∧
      (st'.map.freeEntries+1 = st.map.freeEntries ∧ st'.map.mapDepth = st.map.mapDepth ∧
          st'.smmMemoryMap = st.smmMemoryMap ∨
        descriptorsPerPage ≤ st'.map.freeEntries+1 ∧ st'.map.mapDepth ≤ st.map.mapDepth+2) := by
  unfold allocateMemoryMapEntry
  by_cases hempty : st.map.freeEntries = 0
  · rw [if_pos hempty]
    obtain ⟨a,x,hx,-⟩ : ∃ a, IsFree st.smmMemoryMap a := by
      rcases henough with hpos | hfree
      · omega
      · exact hfree
    obtain ⟨pages,hpgs,rfl⟩ := mem_map.mp hx
    have hne := h.list.separated.nonempty pages.span hx
    have hal := (h.list.nodes pages hpgs).aligned
    -- a run has a page, so the request for one is satisfied
    have hsatisfiable : Satisfiable st .anyPages 1 0 := by
      refine ⟨pages.start, hal, trivial, fun a ha => ⟨pages.span, hx, ha.1, ?_⟩⟩
      have hlt : pages.start < pages.start + pages.numberOfPages*efiPageSize := hne
      have hpage : 1 ≤ pages.numberOfPages := by
        by_contra hnone
        rw [show pages.numberOfPages = 0 by omega, zero_mul] at hlt
        exact lt_irrefl _ hlt
      exact lt_of_lt_of_le ha.2 (Nat.add_le_add_left (Nat.mul_le_mul_right _ hpage) _)
    rcases @smmInternalAllocatePagesEx_spec st 1 0 .runtimeServicesData .anyPages h hdepth (by decide)
        (fun _ _ => ⟨Nat.one_pos, nofun⟩) with ⟨memory,st',halloc,hallocated,-,-⟩ | ⟨-,-,-,-,hnone⟩
    · rw [halloc]
      have hgrows := hallocated.grows
      refine ⟨_, rfl, ⟨⟨hallocated.ok.list, ⟨hallocated.ok.map.entries, hallocated.ok.map.sorted,
        hallocated.ok.map.onStack⟩, hallocated.ok.agree, fun page hpage a ha => ?_⟩,
        fun a ha => ((hallocated.free a).mp ha).1, hallocated.inMap, fun page hpage => ?_⟩, .inr ⟨?_, ?_⟩⟩
      · rcases mem_cons.mp hpage with rfl | hpage
        · exact ⟨(hallocated.inMap a).mpr (h.inMap_of_free (hallocated.wereFree a ha)),
            fun hfree => ((hallocated.free a).mp hfree).2 ha⟩
        · exact hallocated.ok.descriptors page hpage a ha
      · rcases mem_cons.mp hpage with rfl | hpage
        · exact .inr hallocated.wereFree
        · exact .inl (hallocated.descriptorPages ▸ hpage)
      · show descriptorsPerPage ≤ st'.map.freeEntries+descriptorsPerPage-1 + 1
        omega
      · exact hgrows.depth
    · exact absurd hsatisfiable (hnone rfl)
  · rw [if_neg hempty]
    refine ⟨_, rfl, refills_map h ⟨h.map.entries, h.map.sorted, h.map.onStack⟩ (fun _ _ => Iff.rfl),
      .inl ⟨Nat.sub_add_cancel (Nat.pos_of_ne_zero hempty), rfl, rfl⟩⟩

theorem refills_popStack (h : AllocatorOk st) : Refills st { st with map := st.map.popStack } :=
  refills_map h h.map.popStack (ofType_popStack st.map)

theorem coreFreeMemoryMapStack_enough {fuel : Nat} (h : AllocatorOk st) (hdepth : st.map.mapDepth ≤ fuel)
    (henough : st.map.mapDepth ≤ st.map.freeEntries) :
    ∃ st', coreFreeMemoryMapStack fuel st = some st' ∧ Refills st st' ∧ st'.map.mapDepth = 0 := by
  induction fuel generalizing st with
  | zero => exact ⟨st, if_pos (by omega), .refl h, by omega⟩
  | succ fuel ih =>
    rw [coreFreeMemoryMapStack]
    by_cases hempty : st.map.mapDepth = 0
    · rw [if_pos hempty]
      exact ⟨st, rfl, .refl h, hempty⟩
    rw [if_neg hempty]
    have halloc : allocateMemoryMapEntry st =
        some { st with map := { st.map with freeEntries := st.map.freeEntries - 1 } } := by
      exact if_neg (by omega)
    rw [halloc, bind_some]
    have hrefill : Refills st { st with map := { st.map with freeEntries := st.map.freeEntries - 1 } } :=
      refills_map h ⟨h.map.entries, h.map.sorted, h.map.onStack⟩ (fun _ _ => Iff.rfl)
    have hpopped := refills_popStack hrefill.ok
    obtain ⟨st',hrest,hrefills',hdone⟩ := ih hpopped.ok
      (show st.map.mapDepth-1 ≤ fuel by omega)
      (show st.map.mapDepth-1 ≤ st.map.freeEntries-1 by omega)
    exact ⟨st', hrest, (hrefill.trans hpopped).trans hrefills', hdone⟩

/-- With enough descriptors or a free page, the stack is emptied: a page has descriptors for all that is on the
stack then. -/
theorem coreFreeMemoryMapStack_spec {fuel : Nat} (h : AllocatorOk st) (hfuel : st.map.mapDepth+3 ≤ fuel)
    (hdepth : st.map.mapDepth ≤ 3)
    (henough : st.map.mapDepth ≤ st.map.freeEntries ∨ ∃ a, IsFree st.smmMemoryMap a) :
    ∃ st', coreFreeMemoryMapStack fuel st = some st' ∧ Refills st st' ∧ st'.map.mapDepth = 0 := by
  induction fuel generalizing st with
  | zero => omega
  | succ fuel ih =>
    rw [coreFreeMemoryMapStack]
    by_cases hempty : st.map.mapDepth = 0
    · rw [if_pos hempty]
      exact ⟨st, rfl, .refl h, hempty⟩
    rw [if_neg hempty]
    obtain ⟨st₁,halloc,hrefill,hcases⟩ := allocateMemoryMapEntry_spec h hdepth
      (henough.imp_left fun hle => by omega)
    rw [halloc, bind_some]
    have hpopped := refills_popStack hrefill.ok
    have hdepth₁ : ({ st₁ with map := st₁.map.popStack } : SmmMemory).map.mapDepth = st₁.map.mapDepth-1 := rfl
    have hents₁ : ({ st₁ with map := st₁.map.popStack } : SmmMemory).map.freeEntries =
        st₁.map.freeEntries := rfl
    rcases hcases with ⟨hents,hsame,hlist⟩ | ⟨hents,hgrown⟩
    · obtain ⟨st',hrest,hrefills',hdone⟩ := ih hpopped.ok (by omega) (by omega) (by
        rcases henough with hle | ⟨a,ha⟩
        · exact .inl (by omega)
        · refine .inr ⟨a, ?_⟩
          rw [hlist]
          exact ha)
      exact ⟨st', hrest, (hrefill.trans hpopped).trans hrefills', hdone⟩
    · unfold descriptorsPerPage at hents
      obtain ⟨st',hrest,hrefills',hdone⟩ := coreFreeMemoryMapStack_enough hpopped.ok
        (show _ ≤ fuel by omega) (by omega)
      exact ⟨st', hrest, (hrefill.trans hpopped).trans hrefills', hdone⟩

theorem freeStack_spec (h : AllocatorOk st) (hdepth : st.map.mapDepth ≤ 2)
    (henough : st.map.mapDepth ≤ st.map.freeEntries ∨ ∃ a, IsFree st.smmMemoryMap a) :
    ∃ st', coreFreeMemoryMapStack stackFuel st = some st' ∧ Refills st st' ∧ st'.map.mapDepth = 0 := by
  refine coreFreeMemoryMapStack_spec h ?_ (by omega) henough
  unfold stackFuel maxMapDepth
  omega

structure Freed (st : SmmMemory) (memory n : Nat) (st' : SmmMemory) : Prop where
  ok : AllocatorOk st'
  free : ∀ a, IsFree st'.smmMemoryMap a ↔ IsFree st.smmMemoryMap a ∨ InPages memory n a
  inMap : ∀ a, InMap st.map.memoryMap a → InMap st'.map.memoryMap a
  descriptorPages : st'.descriptorPages = st.descriptorPages
  depth : st'.map.mapDepth ≤ st.map.mapDepth+2

section
variable (h : AllocatorOk st) (hdepth : st.map.mapDepth ≤ 3)
include h hdepth

theorem freed_of_converts (hgives : Gives st.smmMemoryMap memory n list)
    (hconv : Converts st.map .conventionalMemory memory n (convertEntries .conventionalMemory memory n st.map))
    (hdescriptors : ∀ page ∈ st.descriptorPages, ∀ a, InPages page 1 a → ¬ InPages memory n a) :
    ∃ st', (convertSmmMemoryMapEntry .conventionalMemory memory n st.map).map
        (fun map => (EfiStatus.success, { st with smmMemoryMap := list, map })) = some (.success, st') ∧
      Freed st memory n st' := by
  rw [convertSmmMemoryMapEntry_eq hdepth hconv]
  have hmap : ∀ a, InMap st.map.memoryMap a →
      InMap (convertEntries .conventionalMemory memory n st.map).memoryMap a :=
    fun a ha => (hconv.inMap a).mpr (.inr ha)
  refine ⟨_, rfl, ⟨hgives.ok, hconv.ok, fun a => ?_, fun page hpage a ha => ?_⟩, hgives.free, hmap, rfl,
    hconv.depth.2⟩
  · rw [hgives.free, h.agree, hconv.ofType]
    by_cases hin : InPages memory n a
    · simp [hin]
    · simp [hin]
  · obtain ⟨hin,hnot⟩ := h.descriptors page hpage a ha
    refine ⟨hmap a hin, fun hfree => ?_⟩
    rcases (hgives.free a).mp hfree with hold | hnew
    · exact hnot hold
    · exact hdescriptors page hpage a ha hnew

theorem smmInternalFreePagesEx_inside (hent : entry ∈ st.map.memoryMap) (hstart : entry.start ≤ memory)
    (hend : memory + n*efiPageSize ≤ entry.endAddress+1)
    (hdescriptors : ∀ page ∈ st.descriptorPages, ∀ a, InPages page 1 a → ¬ InPages memory n a) :
    smmInternalFreePagesEx st memory n = some (.invalidParameter, st) ∨
      ∃ st', smmInternalFreePagesEx st memory n = some (.success, st') ∧ Freed st memory n st' ∧ 0 < n := by
  unfold smmInternalFreePagesEx isPageAligned
  by_cases href : (!decide (memory % efiPageSize = 0) || decide (memory = 0) || decide (n = 0)) = true
  · rw [if_pos href]
    exact .inl rfl
  rw [if_neg href]
  simp only [Bool.or_eq_true, Bool.not_eq_true', decide_eq_true_eq, decide_eq_false_iff_not, not_or,
    not_not] at href
  obtain ⟨⟨hal,hpos⟩,hn⟩ := href
  have hn := Nat.pos_of_ne_zero hn
  have hpgs : 0 < n*efiPageSize := Nat.mul_pos hn (by decide)
  have hstop := (h.map.entries entry hent).stop
  have hlast : memory + n*efiPageSize < 2^64 := by omega
  have hhold : ∀ a, InPages memory n a → entry.Holds a := by
    intro a ha
    refine ⟨le_trans hstart ha.1, ?_⟩
    have hhigh := ha.2
    omega
  rcases insertFreePages_spec h.list hn (Nat.pos_of_ne_zero hpos) hal hlast with
    ⟨list, hins, hgives⟩ | ⟨hins, -⟩
  · rw [hins]
    -- none of the pages is free, so the entry is of another type
    have htype : entry.type ≠ .conventionalMemory := by
      intro htype
      have hin : InPages memory n memory := ⟨le_rfl, by omega⟩
      exact hgives.wereNot memory hin ((h.agree memory).mpr ⟨entry, hent, htype, hhold memory hin⟩)
    have hconv := (convertEntries_split h.map hent hn hal hstart hend htype).1
    obtain ⟨st',hconvert,hfreed⟩ := freed_of_converts h hdepth hgives hconv hdescriptors
    exact .inr ⟨st', hconvert, hfreed, hn⟩
  · rw [hins]
    exact .inl rfl

theorem smmInternalFreePagesEx_outside (hn : 0 < n)
    (hpos : 0 < memory) (hal : memory % efiPageSize = 0) (hend : memory + n*efiPageSize < 2^64)
    (hnew : ∀ a, InPages memory n a → ¬ InMap st.map.memoryMap a)
    (hgap : (∃ x ∈ st.map.memoryMap, memory < x.start) →
      ∀ x ∈ st.map.memoryMap, x.type = .conventionalMemory → x.endAddress+1 ≠ memory) :
    ∃ st', smmInternalFreePagesEx st memory n = some (.success, st') ∧ Freed st memory n st' := by
  unfold smmInternalFreePagesEx isPageAligned
  rw [if_neg (by simp [hal, hn.ne', hpos.ne'])]
  have hdescriptors : ∀ page ∈ st.descriptorPages, ∀ a, InPages page 1 a → ¬ InPages memory n a :=
    fun page hpage a ha hin => hnew a hin (h.descriptors page hpage a ha).1
  rcases insertFreePages_spec h.list hn hpos hal hend with ⟨list,hins,hgives⟩ | ⟨-,a,hin,hfree⟩
  · rw [hins]
    exact freed_of_converts h hdepth hgives
      (convertEntries_outside h.map hn hal hend hnew fun _ => hgap) hdescriptors
  · exact absurd (h.inMap_of_free hfree) (hnew a hin)

end

end Liano.Smm
