import Mathlib
import Liano.Lib.Run
import Liano.Smm.Agreement

/-! Runs of the SMRAM page services. -/
namespace Liano.Smm

open List hiding Disjoint

open Liano.Lib

/-- The calls of the page services, with `UINT64` arguments. -/
inductive Call
  | addMemoryRegion (memBase memLength attributes : Fin (2^64))
  | allocatePages (type : EfiAllocateType) (memoryType : EfiMemoryType) (numberOfPages memory : Fin (2^64))
  | freePages (memory numberOfPages : Fin (2^64))
deriving DecidableEq

/-- The status of a call, `*Memory`, and the state. -/
def serve (st : SmmMemory) : Call → Option (EfiStatus × Nat × SmmMemory)
  | .addMemoryRegion memBase memLength attributes =>
    (smmAddMemoryRegion st memBase memLength attributes).map fun st => (.success, 0, st)
  | .allocatePages type memoryType numberOfPages memory =>
    smmAllocatePages st type memoryType numberOfPages memory
  | .freePages memory numberOfPages =>
    (smmFreePages st memory numberOfPages).map fun (status,st) => (status,memory,st)

/-- The state, and the allocations that are live: the addresses of each that have not been freed since. -/
structure World where
  st : SmmMemory
  live : List (Set Nat)

def pagesOf (memory n : Nat) : Set Nat := {a | InPages memory n a}

def liveAfter (live : List (Set Nat)) (status : EfiStatus) (result : Nat) : Call → List (Set Nat)
  | .addMemoryRegion _ _ _ => live
  | .allocatePages _ _ numberOfPages _ =>
    if status.isError then live else pagesOf result numberOfPages :: live
  | .freePages memory numberOfPages =>
    if status.isError then live else live.map fun pages => pages \ pagesOf memory numberOfPages

def step (w : World) (call : Call) : Option World :=
  (serve w.st call).map fun (status,result,st) => ⟨st, liveAfter w.live status result call⟩

def initialWorld : World := ⟨initialState, []⟩

/-- Both structures are well formed and say the same, and live allocations are apart and not free. -/
structure WellFormed (w : World) : Prop where
  freeList : Separated (spans w.st.smmMemoryMap)
  entries : ∀ entry ∈ w.st.map.memoryMap, entry.start ≤ entry.endAddress
  sorted : w.st.map.memoryMap.Pairwise fun entry next => entry.endAddress < next.start
  agree : ∀ a, IsFree w.st.smmMemoryMap a ↔ OfType w.st.map.memoryMap .conventionalMemory a
  apart : w.live.Pairwise Disjoint
  live : ∀ pages ∈ w.live, ∀ a ∈ pages, ¬ IsFree w.st.smmMemoryMap a

structure CallOk (w : World) (call : Call) (status : EfiStatus) (result : Nat) (st : SmmMemory) : Prop where
  unchanged : status.isError = true →
    st.smmMemoryMap = w.st.smmMemoryMap ∧ st.map.memoryMap = w.st.map.memoryMap
  allocated : ∀ type memoryType numberOfPages memory,
    call = .allocatePages type memoryType numberOfPages memory → status.isError = false →
      0 < numberOfPages.val ∧ result % efiPageSize = 0 ∧ Respects memory numberOfPages type result ∧
      ∀ a, InPages result numberOfPages a → IsFree w.st.smmMemoryMap a ∧ ∀ pages ∈ w.live, a ∉ pages
  refused : ∀ type memoryType numberOfPages memory,
    call = .allocatePages type memoryType numberOfPages memory → status.isError = true →
      isRuntimeType memoryType = true → ¬ Satisfiable w.st type numberOfPages memory

def RegularFree (st : SmmMemory) (memory n : Nat) : Prop :=
  inMemMap st.map.memoryMap memory n = true → memory % efiPageSize = 0 → memory ≠ 0 → n ≠ 0 →
    memory + n*efiPageSize ≤ 2^64 ∧
      ∀ page ∈ st.descriptorPages, page+efiPageSize ≤ memory ∨ memory + n*efiPageSize ≤ page

/-- Whole pages apart from the map, below 2^64. Free memory has no free memory right below it where there is an
entry above. For other memory there is a descriptor, a page for descriptors, or an entry that it is joined to. -/
structure RegularRegion (st : SmmMemory) (memBase memLength attributes : Nat) : Prop where
  aligned : memBase % efiPageSize = 0 ∧ memLength % efiPageSize = 0
  nonempty : 0 < memLength
  stop : memBase+memLength < 2^64
  disjoint : ∀ a, memBase ≤ a → a < memBase+memLength → ¬ InMap st.map.memoryMap a
  conventional : regionType attributes = .conventionalMemory → memBase ≠ 0 →
    (∃ x ∈ st.map.memoryMap, memBase < x.start) →
    ∀ x ∈ st.map.memoryMap, x.type = .conventionalMemory → x.endAddress+1 ≠ memBase
  used : regionType attributes ≠ .conventionalMemory → 0 < st.map.freeEntries ∨ st.smmMemoryMap ≠ [] ∨
      TouchesEntry st.map.memoryMap (regionType attributes) memBase (memLength / efiPageSize)

def Regular (w : World) : Call → Prop
  | .addMemoryRegion memBase memLength attributes => RegularRegion w.st memBase memLength attributes
  | .allocatePages type memoryType numberOfPages memory =>
    isRuntimeType memoryType = true → (∀ v, type ≠ .other v) → RegularRequest w.st type numberOfPages memory
  | .freePages memory numberOfPages => RegularFree w.st memory numberOfPages

structure LiveOk (st : SmmMemory) (live : List (Set Nat)) : Prop where
  inMap : ∀ pages ∈ live, ∀ a ∈ pages, InMap st.map.memoryMap a
  notFree : ∀ pages ∈ live, ∀ a ∈ pages, ¬ IsFree st.smmMemoryMap a
  apart : live.Pairwise Disjoint
  descriptors : ∀ pages ∈ live, ∀ page ∈ st.descriptorPages, ∀ a, InPages page 1 a → a ∉ pages

structure Reached (w : World) : Prop where
  ok : AllocatorOk w.st
  live : LiveOk w.st w.live
  stack : w.st.map.mapDepth = 0

section
variable {st st' : SmmMemory} {live : List (Set Nat)} {w : World} {memory n requested : Nat}
  {type : EfiAllocateType} {memoryType : EfiMemoryType}

theorem Reached.wellFormed (h : Reached w) : WellFormed w :=
  ⟨h.ok.list.separated, fun entry hentry => (h.ok.map.entries entry hentry).nonempty,
    h.ok.map.sorted.imp fun hbef => hbef.order, h.ok.agree, h.live.apart, h.live.notFree⟩

theorem LiveOk.refills (h : LiveOk st live) (hrefill : Refills st st') : LiveOk st' live := by
  refine ⟨fun pages hpages a ha => (hrefill.inMap a).mpr (h.inMap pages hpages a ha),
    fun pages hpages a ha hfree => h.notFree pages hpages a ha (hrefill.free a hfree), h.apart,
    fun pages hpages page hpage a ha hlive => ?_⟩
  rcases hrefill.descriptors page hpage with hold | hnew
  · exact h.descriptors pages hpages page hold a ha hlive
  · exact h.notFree pages hpages a hlive (hnew a ha)

theorem LiveOk.allocated (h : LiveOk st live) (hok : AllocatorOk st) (halloc : Allocated st memory n st') :
    LiveOk st' (pagesOf memory n :: live) := by
  refine ⟨fun pages hpgs a ha => (halloc.inMap a).mpr ?_, fun pages hpgs a ha hfree => ?_, ?_,
    fun pages hpgs page hpage a ha hlive => ?_⟩
  · rcases mem_cons.mp hpgs with rfl | hpgs
    · exact hok.inMap_of_free (halloc.wereFree a ha)
    · exact h.inMap pages hpgs a ha
  · obtain ⟨hwas,hout⟩ := (halloc.free a).mp hfree
    rcases mem_cons.mp hpgs with rfl | hpgs
    · exact hout ha
    · exact h.notFree pages hpgs a ha hwas
  · refine pairwise_cons.mpr ⟨fun pages hpgs => ?_, h.apart⟩
    exact Set.disjoint_left.mpr fun a ha hlive => h.notFree pages hpgs a hlive (halloc.wereFree a ha)
  · rw [halloc.descriptorPages] at hpage
    rcases mem_cons.mp hpgs with rfl | hpgs
    · exact (hok.descriptors page hpage a ha).2 (halloc.wereFree a hlive)
    · exact h.descriptors pages hpgs page hpage a ha hlive

theorem LiveOk.freed (h : LiveOk st live) (hfreed : Freed st memory n st') :
    LiveOk st' (live.map fun pages => pages \ pagesOf memory n) := by
  refine ⟨fun pages hpages a ha => ?_, fun pages hpages a ha hfree => ?_, ?_,
    fun pages hpages page hpage a ha hlive => ?_⟩
  · obtain ⟨old,hold,rfl⟩ := mem_map.mp hpages
    exact hfreed.inMap a (h.inMap old hold a ha.1)
  · obtain ⟨old,hold,rfl⟩ := mem_map.mp hpages
    rcases (hfreed.free a).mp hfree with hwas | hin
    · exact h.notFree old hold a ha.1 hwas
    · exact ha.2 hin
  · refine pairwise_map.mpr (h.apart.imp fun hdisj => ?_)
    exact Set.disjoint_left.mpr fun a ha hb => Set.disjoint_left.mp hdisj ha.1 hb.1
  · obtain ⟨old,hold,rfl⟩ := mem_map.mp hpages
    exact h.descriptors old hold page (hfreed.descriptorPages ▸ hpage) a ha hlive.1

theorem LiveOk.added (h : LiveOk st live) (hfreed : Freed st memory n st')
    (hnew : ∀ a, InPages memory n a → ¬ InMap st.map.memoryMap a) : LiveOk st' live := by
  refine ⟨fun pages hpages a ha => hfreed.inMap a (h.inMap pages hpages a ha), fun pages hpages a ha hfree => ?_,
    h.apart, fun pages hpages page hpage => h.descriptors pages hpages page (hfreed.descriptorPages ▸ hpage)⟩
  rcases (hfreed.free a).mp hfree with hwas | hin
  · exact h.notFree pages hpages a ha hwas
  · exact hnew a hin (h.inMap pages hpages a ha)

theorem Reached.allocatePages (h : Reached w) (hrequested : requested < 2^64)
    (hreg : isRuntimeType memoryType = true → (∀ v, type ≠ .other v) → RegularRequest w.st type n requested) :
    (∃ memory st, smmAllocatePages w.st type memoryType n requested = some (.success, memory, st) ∧
        Reached ⟨st, pagesOf memory n :: w.live⟩ ∧ 0 < n ∧ memory % efiPageSize = 0 ∧
        Respects requested n type memory ∧ ∀ a, InPages memory n a → IsFree w.st.smmMemoryMap a) ∨
      ∃ status memory, smmAllocatePages w.st type memoryType n requested = some (status,memory,w.st) ∧
        status.isError = true ∧ (isRuntimeType memoryType = true → ¬ Satisfiable w.st type n requested) := by
  have hempty := h.stack
  unfold smmAllocatePages
  rcases smmInternalAllocatePagesEx_spec h.ok (by omega) hrequested hreg with
    ⟨memory, st, halloc, hallocated, hrespects, hn⟩ | ⟨status, memory, halloc, herr, hnone⟩
  · rw [halloc, Option.bind_some]
    have hgrows := hallocated.grows
    obtain ⟨st',hfree,hrefill,hdone⟩ := freeStack_spec hallocated.ok
      (le_trans hgrows.depth (by omega)) (hgrows.refill.imp_left fun hsame => by omega)
    dsimp only
    rw [if_neg (by decide), hfree]
    exact .inl ⟨memory, st', rfl,
      ⟨hrefill.ok, (h.live.allocated h.ok hallocated).refills hrefill, hdone⟩, hn, hallocated.aligned, hrespects,
      hallocated.wereFree⟩
  · rw [halloc, Option.bind_some]
    exact .inr ⟨status, memory, if_pos herr, herr, hnone⟩

theorem Freed.freeStack (h : Freed st memory n st') (hn : 0 < n) (hempty : st.map.mapDepth = 0) :
    ∃ st'', coreFreeMemoryMapStack stackFuel st' = some st'' ∧ Refills st' st'' ∧ st''.map.mapDepth = 0 := by
  have hdepth := h.depth
  have hpgs : 0 < n*efiPageSize := mul_pos hn (by decide)
  refine freeStack_spec h.ok (by omega) (.inr ⟨memory, (h.free memory).mpr (.inr ⟨le_rfl, ?_⟩)⟩)
  omega

theorem Reached.freePages (h : Reached w) (hreg : RegularFree w.st memory n) :
    (∃ st, smmFreePages w.st memory n = some (.success, st) ∧
        Reached ⟨st, w.live.map fun pages => pages \ pagesOf memory n⟩) ∨
      ∃ status, smmFreePages w.st memory n = some (status,w.st) ∧ status.isError = true := by
  have hempty := h.stack
  unfold smmFreePages
  by_cases hmap : inMemMap w.st.map.memoryMap memory n = true
  · rw [if_neg (by rw [hmap]; decide)]
    by_cases href : memory % efiPageSize = 0 ∧ memory ≠ 0 ∧ n ≠ 0
    · obtain ⟨hal,hpos,hn⟩ := href
      obtain ⟨hend,hdescriptors⟩ := hreg hmap hal hpos hn
      obtain ⟨entry,hent,hstart,hstop⟩ := (inMemMap_iff (Nat.pos_of_ne_zero hn) hend).mp hmap
      have hapart : ∀ page ∈ w.st.descriptorPages, ∀ a, InPages page 1 a → ¬ InPages memory n a := by
        rintro page hpage a ⟨hlow,hhigh⟩ ⟨hlow',hhigh'⟩
        rcases hdescriptors page hpage with hle | hle <;> omega
      rcases smmInternalFreePagesEx_inside h.ok (by omega) hent hstart hstop hapart with
        hinvalid | ⟨st, hfree, hfreed, hn⟩
      · rw [hinvalid, Option.bind_some]
        exact .inr ⟨_, if_pos rfl, rfl⟩
      obtain ⟨st',hstack,hrefill,hdone⟩ := hfreed.freeStack hn hempty
      rw [hfree, Option.bind_some]
      dsimp only
      rw [if_neg (by decide), hstack]
      exact .inl ⟨st', rfl, hrefill.ok, (h.live.freed hfreed).refills hrefill, hdone⟩
    · have hinvalid : smmInternalFreePagesEx w.st memory n = some (.invalidParameter, w.st) := by
        unfold smmInternalFreePagesEx isPageAligned
        refine if_pos ?_
        simp only [Bool.or_eq_true, Bool.not_eq_true', decide_eq_true_eq, decide_eq_false_iff_not]
        by_contra hnone
        simp only [not_or, not_not] at hnone
        exact href ⟨hnone.1.1, hnone.1.2, hnone.2⟩
      rw [hinvalid, Option.bind_some]
      exact .inr ⟨_, if_pos rfl, rfl⟩
  · rw [if_pos (by simpa using hmap)]
    exact .inr ⟨_, rfl, rfl⟩

theorem regionType_cases (attrs : Nat) :
    regionType attrs = .conventionalMemory ∨ regionType attrs = .runtimeServicesData := by
  unfold regionType
  split
  · exact .inr rfl
  · exact .inl rfl

theorem smmAddMemoryRegion_eq {memBase memLength attrs : Nat} (hal : memBase % efiPageSize = 0)
    (hpos : 0 < memLength) (hstop : memBase+memLength < 2^64) :
    smmAddMemoryRegion st memBase memLength attrs = (match regionType attrs with
        | .conventionalMemory =>
          (smmInternalFreePagesEx st memBase (memLength / efiPageSize)).map Prod.snd
        | type =>
          (convertSmmMemoryMapEntry type memBase (memLength / efiPageSize) st.map).map fun map =>
            { st with map }).bind fun st => coreFreeMemoryMapStack stackFuel st := by
  have hbase : toUint64 (memBase + (efiPageSize-1)) / efiPageSize * efiPageSize = memBase := by
    rw [toUint64]
    unfold efiPageSize at *
    omega
  have hlen : subUint64 memLength (subUint64 memBase memBase) = memLength := by
    rw [subUint64_of_le le_rfl (by omega), Nat.sub_self,
      subUint64_of_le (Nat.zero_le _) (by omega), Nat.sub_zero]
  unfold smmAddMemoryRegion
  rw [hbase]
  dsimp only
  rw [hlen]
  rfl

theorem Reached.addMemoryRegion (h : Reached w) {memBase memLength attrs : Nat}
    (hreg : RegularRegion w.st memBase memLength attrs) :
    ∃ st, smmAddMemoryRegion w.st memBase memLength attrs = some st ∧ Reached ⟨st, w.live⟩ := by
  obtain ⟨⟨hal,hwhole⟩,hpos,hstop,hdisj,hconventional,hused⟩ := hreg
  have hempty := h.stack
  have hlen : memLength / efiPageSize * efiPageSize = memLength := by
    unfold efiPageSize at *
    omega
  have hn : 0 < memLength / efiPageSize := by
    by_contra hzero
    rw [Nat.eq_zero_of_not_pos hzero, zero_mul] at hlen
    omega
  have hnew : ∀ a, InPages memBase (memLength / efiPageSize) a → ¬ InMap w.st.map.memoryMap a := by
    rintro a ⟨hlow,hhigh⟩
    rw [hlen] at hhigh
    exact hdisj a hlow hhigh
  have hend : memBase + memLength / efiPageSize * efiPageSize < 2^64 := by
    rw [hlen]
    exact hstop
  rw [smmAddMemoryRegion_eq hal hpos hstop]
  rcases regionType_cases attrs with htype | htype
  · rw [htype]
    by_cases hzero : memBase = 0
    · -- address 0 is refused, and the status is not looked at
      have hinvalid : smmInternalFreePagesEx w.st memBase (memLength / efiPageSize) =
          some (.invalidParameter, w.st) := by exact if_pos (by simp [hzero])
      rw [hinvalid]
      refine ⟨w.st, ?_, h⟩
      exact if_pos hempty
    obtain ⟨st,hadd,hfreed⟩ := smmInternalFreePagesEx_outside h.ok (by omega) hn (Nat.pos_of_ne_zero hzero)
      hal hend hnew (hconventional htype hzero)
    obtain ⟨st',hstack,hrefill,hdone⟩ := hfreed.freeStack hn hempty
    rw [hadd]
    exact ⟨st', hstack, hrefill.ok, (h.live.added hfreed hnew).refills hrefill, hdone⟩
  · have hne : regionType attrs ≠ .conventionalMemory := by
      rw [htype]
      decide
    have hconverts := convertEntries_outside h.ok.map hn hal hend hnew fun hconv => absurd hconv hne
    have hofType : ∀ a, OfType (convertEntries (regionType attrs) memBase (memLength / efiPageSize)
        w.st.map).memoryMap .conventionalMemory a ↔ OfType w.st.map.memoryMap .conventionalMemory a := by
      intro a
      rw [hconverts.ofType]
      constructor
      · rintro (⟨-,hconv⟩ | ⟨-,hold⟩)
        · exact absurd hconv hne
        · exact hold
      · intro hold
        exact .inr ⟨fun hin => hnew a hin (inMap_iff.mpr ⟨_, hold⟩), hold⟩
    have hinMap : ∀ a, InMap w.st.map.memoryMap a →
        InMap (convertEntries (regionType attrs) memBase (memLength / efiPageSize) w.st.map).memoryMap a :=
      fun a ha => (hconverts.inMap a).mpr (.inr ha)
    -- the list is as it was, and the map has the region
    obtain ⟨st,hst⟩ : ∃ st : SmmMemory, { w.st with
        map := convertEntries (regionType attrs) memBase (memLength / efiPageSize) w.st.map } = st := ⟨_, rfl⟩
    have hok : AllocatorOk st := by
      subst hst
      refine ⟨h.ok.list, hconverts.ok, fun a => (h.ok.agree a).trans (hofType a).symm, fun page hpage a ha => ?_⟩
      obtain ⟨hin,hnot⟩ := h.ok.descriptors page hpage a ha
      exact ⟨hinMap a hin, hnot⟩
    have hlive : LiveOk st w.live := by
      subst hst
      exact ⟨fun pages hpgs a ha => hinMap a (h.live.inMap pages hpgs a ha), h.live.notFree, h.live.apart,
        h.live.descriptors⟩
    have hdepth : st.map.mapDepth ≤ 2 := by
      have hle := hconverts.depth.2
      subst hst
      show (convertEntries _ _ _ _).mapDepth ≤ 2
      omega
    have henough : st.map.mapDepth ≤ st.map.freeEntries ∨ ∃ a, IsFree st.smmMemoryMap a := by
      have hone := @mapDepth_outside (regionType attrs) _ _ _ h.ok.map hn hend hnew
      have hmore := hconverts.freeEntries
      have hdepthEq : st.map.mapDepth = (convertEntries (regionType attrs) memBase (memLength / efiPageSize)
          w.st.map).mapDepth := by rw [← hst]
      have hentsEq : st.map.freeEntries = (convertEntries (regionType attrs) memBase
          (memLength / efiPageSize) w.st.map).freeEntries := by rw [← hst]
      have hlistEq : st.smmMemoryMap = w.st.smmMemoryMap := by rw [← hst]
      rcases hused hne with hents | hlist | htouches
      · exact .inl (by omega)
      · obtain ⟨pages,hpgs⟩ := exists_mem_of_ne_nil _ hlist
        refine .inr ⟨pages.start, pages.span, ?_, le_rfl, ?_⟩
        · rw [hlistEq]
          exact mem_map_of_mem hpgs
        · exact h.ok.list.separated.nonempty pages.span (mem_map_of_mem hpgs)
      · have hsame := mapDepth_of_touches h.ok.map hn hend hnew htouches
        exact .inl (by omega)
    obtain ⟨st',hstack,hrefill,hdone⟩ := freeStack_spec hok hdepth henough
    refine ⟨st', ?_, hrefill.ok, hlive.refills hrefill, hdone⟩
    have hconvert := convertSmmMemoryMapEntry_eq (by omega : w.st.map.mapDepth ≤ 3) hconverts
    rw [htype] at hconvert hst ⊢
    dsimp only
    rw [hconvert, Option.map_some, hst]
    exact hstack

/-- A call that meets the condition returns, has done what it is to do, and keeps what holds between calls. -/
theorem Reached.serve (h : Reached w) {call : Call} (hreg : Regular w call) :
    ∃ status result st, Smm.serve w.st call = some (status,result,st) ∧ CallOk w call status result st ∧
      Reached ⟨st, liveAfter w.live status result call⟩ := by
  cases call with
  | addMemoryRegion memBase memLength attributes =>
    obtain ⟨st,hadd,hreached⟩ := h.addMemoryRegion hreg
    exact ⟨.success, 0, st, Option.map_eq_some_iff.mpr ⟨st, hadd, rfl⟩, ⟨nofun, nofun, nofun⟩, hreached⟩
  | allocatePages type memoryType numberOfPages memory =>
    rcases h.allocatePages memory.isLt hreg with
      ⟨result, st, halloc, hreached, hn, hal, hrespects, hfree⟩ | ⟨status, result, halloc, herr, hnone⟩
    · refine ⟨.success, result, st, halloc, ⟨nofun, ?_, nofun⟩, hreached⟩
      intro type' memoryType' numberOfPages' memory' heq _
      cases heq
      exact ⟨hn, hal, hrespects, fun a ha =>
        ⟨hfree a ha, fun pages hpages hlive => h.live.notFree pages hpages a hlive (hfree a ha)⟩⟩
    refine ⟨status, result, w.st, halloc, ⟨fun _ => ⟨rfl, rfl⟩, ?_, ?_⟩, ?_⟩
    · intro type' memoryType' numberOfPages' memory' _ hok
      rw [herr] at hok
      cases hok
    · intro type' memoryType' numberOfPages' memory' heq _
      cases heq
      exact hnone
    · unfold liveAfter
      dsimp only
      rw [if_pos herr]
      exact h
  | freePages memory numberOfPages =>
    rcases h.freePages hreg with ⟨st,hfree,hreached⟩ | ⟨status,hfree,herr⟩
    · exact ⟨.success, memory, st, Option.map_eq_some_iff.mpr ⟨_, hfree, rfl⟩, ⟨nofun, nofun, nofun⟩, hreached⟩
    refine ⟨status, memory, w.st, Option.map_eq_some_iff.mpr ⟨_, hfree, rfl⟩,
      ⟨fun _ => ⟨rfl, rfl⟩, nofun, nofun⟩, ?_⟩
    unfold liveAfter
    dsimp only
    rw [if_pos herr]
    exact h

theorem reached_initial : Reached initialWorld := by
  refine ⟨⟨⟨fun pages hpgs => ?_, separated_nil⟩, ⟨fun x hx => ?_, List.Pairwise.nil, fun x hx => ?_⟩,
    fun a => ⟨?_, ?_⟩, fun page hpage => ?_⟩, ⟨fun pages hpgs => ?_, fun pages hpgs => ?_, List.Pairwise.nil,
    fun pages hpgs => ?_⟩, rfl⟩
  · cases hpgs
  · cases hx
  · cases hx
  · rintro ⟨x,hx,-⟩
    cases hx
  · rintro ⟨x,hx,-⟩
    cases hx
  · cases hpage
  · cases hpgs
  · cases hpgs
  · cases hpgs

end

/-- In a run whose calls meet the condition, both structures are well formed and say the same in every state
reached, live allocations are apart, and each further call that meets it returns and has done what it is to do. -/
theorem smramPages_agree {w : World} (h : Run.Reaches step Regular initialWorld w) :
    WellFormed w ∧ ∀ call, Regular w call →
      ∃ status result st, serve w.st call = some (status,result,st) ∧ CallOk w call status result st := by
  have hreached : Reached w := by
    refine h.invariant reached_initial fun w call w' hw hregular hstep => ?_
    obtain ⟨status,result,st,hserve,-,hnext⟩ := hw.serve hregular
    unfold step at hstep
    rw [hserve] at hstep
    cases hstep
    exact hnext
  refine ⟨hreached.wellFormed, fun call hregular => ?_⟩
  obtain ⟨status,result,st,hserve,hok,-⟩ := hreached.serve hregular
  exact ⟨status, result, st, hserve, hok⟩

/-- A region of nine pages is added and two pages are allocated: the top page has descriptors. -/
theorem smramPages_agree_two : ∃ w, WellFormed w ∧
    w.st.smmMemoryMap = [⟨0x1000, 6⟩] ∧ w.st.descriptorPages = [0x9000] := by
  have hrun : (Run.run step initialWorld [.addMemoryRegion 0x1000 0x9000 0,
      .allocatePages .anyPages .runtimeServicesCode 2 0]).map (fun w => (w.st.smmMemoryMap,w.st.descriptorPages)) =
      some ([⟨0x1000, 6⟩], [0x9000]) := by decide +kernel
  obtain ⟨w,hw,hres⟩ := Option.map_eq_some_iff.mp hrun
  have hregion : RegularRegion initialState 0x1000 0x9000 0 := by
    refine ⟨by decide, by decide, by decide, fun a _ _ => ?_, fun _ _ ⟨x, hx, _⟩ => ?_, fun hused => ?_⟩
    · rintro ⟨x,hx,-⟩
      cases hx
    · cases hx
    · exact absurd rfl hused
  have halong : Run.Along step Regular initialWorld [.addMemoryRegion 0x1000 0x9000 0,
      .allocatePages .anyPages .runtimeServicesCode 2 0] := by
    refine ⟨hregion, ?_⟩
    cases step initialWorld (.addMemoryRegion 0x1000 0x9000 0) with
    | none => trivial
    | some w' =>
      refine ⟨fun _ _ => ⟨by decide, nofun⟩, ?_⟩
      cases step w' (.allocatePages .anyPages .runtimeServicesCode 2 0) <;> trivial
  have hparts := Prod.mk.inj hres
  exact ⟨w, (smramPages_agree (Run.reaches_of_run_along hw halong)).1, hparts.1, hparts.2⟩

/-- No pages are allocated with success, and the map has an entry that ends before it starts. -/
theorem allocateNoPages_emptyEntry : ∃ w, Run.run step initialWorld [.addMemoryRegion 0x1000 0x3000 0,
    .allocatePages .anyPages .runtimeServicesCode 0 0] = some w ∧ ¬ WellFormed w := by
  have hrun : (Run.run step initialWorld [.addMemoryRegion 0x1000 0x3000 0,
      .allocatePages .anyPages .runtimeServicesCode 0 0]).map (fun w => w.st.map.memoryMap) =
      some [⟨none, .conventionalMemory, 0x1000, 0x2FFF⟩, ⟨none, .runtimeServicesCode, 0x3000, 0x2FFF⟩,
        ⟨none, .runtimeServicesData, 0x3000, 0x3FFF⟩] := by decide +kernel
  obtain ⟨w,hw,hmap⟩ := Option.map_eq_some_iff.mp hrun
  refine ⟨w, hw, fun hok => ?_⟩
  have hempty := hok.entries ⟨none, .runtimeServicesCode, 0x3000, 0x2FFF⟩ (by rw [hmap]; decide)
  exact absurd hempty (by decide)

end Liano.Smm
