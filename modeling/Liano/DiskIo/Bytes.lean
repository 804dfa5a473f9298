import Liano.DiskIo.Transfers

/-! A request that succeeds transfers exactly its bytes. -/
namespace Liano.DiskIo.Data

open Function (update update_of_ne update_self)

open Lib List

variable {m : Media} {r : Request} {a : Allocations} {s : Subtask} {st st' : State} {rest : List Subtask}

/-- A subtask of the request's own kind: its place on the disk is that of its place in the buffer, whole
blocks start at a block, and of a block that is not whole it has all bytes of the request. -/
structure MainOk (m : Media) (r : Request) (s : Subtask) : Prop where
  write : s.write = r.write
  buffer : s.buffer = .user
  working : s.workingBuffer ≠ some .user
  place : s.lba*m.blockSize+s.offset = r.offset+s.position
  inside : s.position+s.length ≤ r.bufferSize
  whole : s.length % m.blockSize = 0 → s.offset = 0 ∨ s.length = 0
  half : s.length % m.blockSize ≠ 0 → s.workingBuffer.isSome = true ∧ s.offset+s.length ≤ m.blockSize ∧
    ∀ j < m.blockSize, r.offset ≤ s.lba*m.blockSize+j →
      s.lba*m.blockSize+j < r.offset+r.bufferSize → s.offset ≤ j ∧ j < s.offset+s.length

def PreRead (m : Media) (p s : Subtask) : Prop := ∃ area, area ≠ .user ∧ s.workingBuffer = some area ∧
    p = ⟨false, s.lba, 0, m.blockSize, none, area, 0, true⟩

/-- The subtasks are those of the request, each part of a block that is written behind the read of the
block. -/
inductive Chain (m : Media) (r : Request) : List Subtask → Prop
  | nil : Chain m r []
  | single {s : Subtask} {rest : List Subtask} (h : MainOk m r s)
      (hs : r.write = true → s.length % m.blockSize = 0) (hr : Chain m r rest) : Chain m r (s :: rest)
  | pair {p s : Subtask} {rest : List Subtask} (hp : PreRead m p s) (h : MainOk m r s) (hw : r.write = true)
      (hs : s.length % m.blockSize ≠ 0) (hr : Chain m r rest) : Chain m r (p :: s :: rest)

def Uses (s : Subtask) (area : Area) : Prop := s.workingBuffer = some area ∨ s.buffer = area

def Apart (s s' : Subtask) : Prop := s.blocking = false → ∀ area, s.workingBuffer = some area → ¬Uses s' area

def Has (r : Request) (s : Subtask) (i : Nat) : Prop :=
  s.write = r.write ∧ s.position ≤ i ∧ i < s.position+s.length

theorem MainOk.fits (h : MainOk m r s) : s.offset+s.length ≤ s.transferSize m ∨ s.length = 0 := by
  unfold Subtask.transferSize
  split
  · next hw => obtain hz | hz := h.whole hw <;> omega
  · next hw => exact .inl (h.half hw).2.1

def written (r : Request) (disk user : Nat → UInt8) : Nat → UInt8 := patch disk r.offset r.bufferSize user

def Loaded (m : Media) (target : Nat → UInt8) (memory : Area → Nat → UInt8) (s : Subtask) : Prop :=
  ∀ j < s.transferSize m, memory s.dataArea (s.dataPosition+j) = target (s.lba*m.blockSize+j)

def Ready (m : Media) (r : Request) (target : Nat → UInt8) (memory : Area → Nat → UInt8)
    (l : List Subtask) : Prop :=
  Chain m r l ∨ ∃ s rest, l = s :: rest ∧ MainOk m r s ∧ Chain m r rest ∧ s.length % m.blockSize ≠ 0 ∧
    ∀ j < m.blockSize, ¬(s.offset ≤ j ∧ j < s.offset+s.length) →
      memory s.dataArea j = target (s.lba*m.blockSize+j)

structure WriteKept (m : Media) (r : Request) (disk user : Nat → UInt8) (st : State) : Prop where
  callerBuffer : st.memory .user = user
  onDisk : ∀ q, st.disk q = disk q ∨ st.disk q = written r disk user q
  pending : ∀ s ∈ st.pending, MainOk m r s ∧ Loaded m (written r disk user) st.memory s
  waiting : Ready m r (written r disk user) st.memory st.waiting
  apart : st.waiting.Pairwise Apart
  cross : ∀ s ∈ st.pending, ∀ area, s.workingBuffer = some area → ∀ s' ∈ st.waiting, ¬Uses s' area

def WriteDone (r : Request) (user : Nat → UInt8) (st : State) : Prop :=
  ∀ i < r.bufferSize, (∀ s ∈ st.waiting, ¬Has r s i) → (∀ s ∈ st.pending, ¬Has r s i) →
    st.disk (r.offset+i) = user i

theorem written_inside {disk user : Nat → UInt8} {i : Nat} (hi : i < r.bufferSize) :
    written r disk user (r.offset+i) = user i := by
  unfold written
  rw [patch_inside (by omega) (by omega), Nat.add_sub_cancel_left]

theorem MainOk.written_at (hs : MainOk m r s) {disk user : Nat → UInt8} {j : Nat} (hle : s.offset ≤ j)
    (hlt : j < s.offset+s.length) :
    written r disk user (s.lba*m.blockSize+j) = user (s.position + (j-s.offset)) := by
  have hplace := hs.place
  have hins := hs.inside
  have hq : s.lba*m.blockSize+j = r.offset + (s.position + (j-s.offset)) := by omega
  rw [hq]
  exact written_inside (by omega)

theorem copyIn_other (s : Subtask) (memory : Area → Nat → UInt8) {area : Area}
    (h : s.workingBuffer ≠ some area) : copyIn s memory area = memory area := by
  unfold copyIn
  split
  · next hc =>
    rw [Bool.and_eq_true] at hc
    obtain ⟨b,hb⟩ := Option.isSome_iff_exists.mp hc.2
    have hne : area ≠ s.dataArea := by
      rintro rfl
      unfold Subtask.dataArea at h
      rw [hb] at h
      exact h rfl
    rw [update_of_ne hne]
  · rfl

section Write

variable {disk user : Nat → UInt8} (hw : r.write = true)
variable {memory : Area → Nat → UInt8}

theorem Loaded.congr {target : Nat → UInt8} {memory' : Area → Nat → UInt8}
    (h : Loaded m target memory s) (he : memory' s.dataArea = memory s.dataArea) :
    Loaded m target memory' s := by
  intro j hj
  rw [he]
  exact h j hj

theorem WriteKept.pending_area (h : WriteKept m r disk user st) {s' : Subtask} {area : Area}
    (hs : s ∈ st.pending) (hs' : s' ∈ st.waiting) (hu : Uses s' area) (hne : area ≠ .user) :
    s.dataArea ≠ area := by
  unfold Subtask.dataArea
  cases hb : s.workingBuffer with
  | none =>
    rw [(h.pending s hs).1.buffer]
    exact hne.symm
  | some b =>
    rintro rfl
    exact h.cross s hs b hb s' hs' hu

include hw

theorem WriteKept.transfer (h : WriteKept m r disk user st) (hs : MainOk m r s)
    (hl : Loaded m (written r disk user) st.memory s)
    (hin : ∀ i < r.bufferSize, (∀ s' ∈ st.waiting, ¬Has r s' i) → (∀ s' ∈ st.pending, ¬Has r s' i) →
      ¬Has r s i → st.disk (r.offset+i) = user i) :
    WriteKept m r disk user (transfer m s st) ∧ WriteDone r user (Data.transfer m s st) := by
  have hsw : s.write = true := hs.write.trans hw
  have hmem : copyOut s (readBlocks m s st.disk st.memory) = st.memory := by
    unfold copyOut readBlocks
    rw [hsw]
    rfl
  have hnew (q : Nat) (hq : s.lba*m.blockSize ≤ q ∧ q < s.lba*m.blockSize + s.transferSize m) :
      writeBlocks m s st.disk st.memory q = written r disk user q := by
    unfold writeBlocks
    rw [hsw, if_pos rfl, patch_inside hq.1 hq.2, hl _ (by omega)]
    congr 1
    omega
  have hold (q : Nat) (hq : ¬(s.lba*m.blockSize ≤ q ∧ q < s.lba*m.blockSize + s.transferSize m)) :
      writeBlocks m s st.disk st.memory q = st.disk q := by
    unfold writeBlocks
    rw [hsw, if_pos rfl, patch_outside hq]
  unfold Data.transfer
  rw [hmem]
  refine ⟨⟨h.callerBuffer, fun q => ?_, h.pending, h.waiting, h.apart, h.cross⟩, fun i hi hwait hpend => ?_⟩
  · dsimp only
    by_cases hq : s.lba*m.blockSize ≤ q ∧ q < s.lba*m.blockSize + s.transferSize m
    · exact .inr (hnew q hq)
    · rw [hold q hq]
      exact h.onDisk q
  · dsimp only
    by_cases hq : s.lba*m.blockSize ≤ r.offset+i ∧ r.offset+i < s.lba*m.blockSize + s.transferSize m
    · rw [hnew _ hq, written_inside hi]
    rw [hold _ hq]
    refine hin i hi hwait hpend fun hhas => hq ?_
    have hplace := hs.place
    obtain ⟨-,hle,hlt⟩ := hhas
    obtain hfit | hzero := hs.fits <;> omega

theorem loaded_whole (hs : MainOk m r s) (hwhole : s.length % m.blockSize = 0) (hu : memory .user = user) :
    Loaded m (written r disk user) (copyIn s memory) s := by
  intro j hj
  unfold Subtask.transferSize at hj
  rw [if_pos hwhole] at hj
  have hzero : s.offset = 0 := by obtain hz | hz := hs.whole hwhole <;> omega
  rw [hs.written_at (by omega) (by omega)]
  unfold copyIn Subtask.dataArea Subtask.dataPosition
  cases hb : s.workingBuffer with
  | none =>
    simp only [Option.isSome_none, Bool.and_false, Bool.false_eq_true, if_false, Option.getD_none]
    rw [hs.buffer, hu, hzero, Nat.sub_zero]
  | some b =>
    simp only [Option.isSome_some, Bool.and_true, hs.write.trans hw, if_true, Option.getD_some]
    rw [update_self, patch_inside (by omega) (by omega), hs.buffer, hu]
    congr 1
    omega

theorem loaded_half (hs : MainOk m r s) (hhalf : s.length % m.blockSize ≠ 0) (hu : memory .user = user)
    (hread : ∀ j < m.blockSize, ¬(s.offset ≤ j ∧ j < s.offset+s.length) →
      memory s.dataArea j = written r disk user (s.lba*m.blockSize+j)) :
    Loaded m (written r disk user) (copyIn s memory) s := by
  intro j hj
  unfold Subtask.transferSize at hj
  rw [if_neg hhalf] at hj
  have hsome := (hs.half hhalf).1
  unfold copyIn Subtask.dataPosition
  rw [hsome, hs.write.trans hw, Bool.and_self, if_pos rfl, if_pos rfl, update_self, zero_add]
  by_cases hin : s.offset ≤ j ∧ j < s.offset+s.length
  · rw [patch_inside hin.1 hin.2, hs.written_at hin.1 hin.2, hs.buffer, hu]
  · rw [patch_outside hin]
    exact hread j hj hin

section
variable (h : WriteKept m r disk user st)
include h

theorem WriteKept.submitMain (hdone : WriteDone r user st)
    (hwait : st.waiting = s :: rest) (hs : MainOk m r s) (hr : Chain m r rest)
    (hl : Loaded m (written r disk user) (copyIn s st.memory) s) :
    WriteKept m r disk user (submitSubtask m s rest st true) ∧
      WriteDone r user (submitSubtask m s rest st true) := by
  have hmem : s ∈ st.waiting := by
    rw [hwait]
    exact mem_cons_self
  have happart := h.apart
  rw [hwait, pairwise_cons] at happart
  have hpending (s' : Subtask) (hs' : s' ∈ st.pending) :
      MainOk m r s' ∧ Loaded m (written r disk user) (copyIn s st.memory) s' := by
    refine ⟨(h.pending s' hs').1, (h.pending s' hs').2.congr (copyIn_other s st.memory fun hb => ?_)⟩
    refine h.pending_area hs' hmem (.inl hb) ?_ rfl
    intro hu
    rw [hu] at hb
    exact hs.working hb
  have huser : copyIn s st.memory .user = user := (copyIn_other s st.memory hs.working).trans h.callerBuffer
  have hcross (s' : Subtask) (hs' : s' ∈ st.pending) (area : Area) (ha : s'.workingBuffer = some area)
      (u : Subtask) (hu : u ∈ rest) : ¬Uses u area := by
    refine h.cross s' hs' area ha u ?_
    rw [hwait]
    exact mem_cons_of_mem _ hu
  have hleft : ∀ i < r.bufferSize, (∀ s' ∈ rest, ¬Has r s' i) → (∀ s' ∈ st.pending, ¬Has r s' i) →
      ¬Has r s i → st.disk (r.offset+i) = user i := by
    intro i hi hrest hpend hnot
    refine hdone i hi (fun s' hs' => ?_) hpend
    rw [hwait] at hs'
    obtain rfl | hs' := mem_cons.mp hs'
    · exact hnot
    · exact hrest s' hs'
  unfold submitSubtask
  simp only [Bool.not_true, Bool.false_eq_true, if_false]
  split
  · have hkept : WriteKept m r disk user { st with memory := copyIn s st.memory, waiting := rest } :=
      ⟨huser, h.onDisk, hpending, .inl hr, happart.2, hcross⟩
    exact hkept.transfer hw hs hl hleft
  next hb =>
  refine ⟨⟨huser, h.onDisk, ?_, .inl hr, happart.2, ?_⟩, fun i hi hrest hpend => ?_⟩
  · intro s' hs'
    obtain hs' | hs' := mem_append.mp hs'
    · exact hpending s' hs'
    · obtain rfl := mem_singleton.mp hs'
      exact ⟨hs, hl⟩
  · intro s' hs' area ha u hu
    obtain hs' | hs' := mem_append.mp hs'
    · exact hcross s' hs' area ha u hu
    · obtain rfl := mem_singleton.mp hs'
      exact happart.1 u hu (Bool.eq_false_iff.mpr hb) area ha
  · refine hleft i hi hrest (fun s' hs' => hpend s' (mem_append.mpr (.inl hs'))) ?_
    exact hpend s (mem_append.mpr (.inr (mem_singleton.mpr rfl)))

theorem WriteKept.submitRead {p : Subtask} (hdone : WriteDone r user st)
    (hwait : st.waiting = p :: s :: rest) (hp : PreRead m p s) (hs : MainOk m r s)
    (hhalf : s.length % m.blockSize ≠ 0) (hr : Chain m r rest) :
    WriteKept m r disk user (submitSubtask m p (s :: rest) st true) ∧
      WriteDone r user (submitSubtask m p (s :: rest) st true) := by
  obtain ⟨area,hne,hb,rfl⟩ := hp
  have hmem : (⟨false, s.lba, 0, m.blockSize, none, area, 0, true⟩ : Subtask) ∈ st.waiting := by
    rw [hwait]
    exact mem_cons_self
  have happart := h.apart
  rw [hwait, pairwise_cons] at happart
  have hsize : Subtask.transferSize m ⟨false, s.lba, 0, m.blockSize, none, area, 0, true⟩ = m.blockSize := by
    exact if_pos (Nat.mod_self _)
  have hread : ∃ overrun, submitSubtask m ⟨false, s.lba, 0, m.blockSize, none, area, 0, true⟩ (s :: rest) st true =
      { st with
        memory := update st.memory area
          (patch (st.memory area) 0 m.blockSize fun i => st.disk (s.lba*m.blockSize+i))
        waiting := s :: rest
        overrun := overrun } := by
    refine ⟨st.overrun || Subtask.overruns m ⟨false, s.lba, 0, m.blockSize, none, area, 0, true⟩, ?_⟩
    unfold submitSubtask Data.transfer
    unfold readBlocks
    rw [hsize]
    rfl
  obtain ⟨overrun,hread⟩ := hread
  have hother {b : Area} (hba : b ≠ area) : update st.memory area
      (patch (st.memory area) 0 m.blockSize fun i => st.disk (s.lba*m.blockSize+i)) b = st.memory b :=
    update_of_ne hba _ _
  have harea : s.dataArea = area := by
    unfold Subtask.dataArea
    rw [hb]
    rfl
  rw [hread]
  refine ⟨⟨?_, h.onDisk, ?_, .inr ⟨s, rest, rfl, hs, hr, hhalf, ?_⟩, happart.2, ?_⟩, ?_⟩
  · exact (hother hne.symm).trans h.callerBuffer
  · intro s' hs'
    refine ⟨(h.pending s' hs').1, (h.pending s' hs').2.congr (hother ?_)⟩
    exact h.pending_area hs' hmem (.inr rfl) hne
  · intro j hj hout
    dsimp only
    rw [harea, update_self, patch_inside (Nat.zero_le j) (by omega), Nat.sub_zero]
    obtain hd | hd := h.onDisk (s.lba*m.blockSize+j)
    · rw [hd]
      refine (patch_outside fun hin => hout ?_).symm
      exact (hs.half hhalf).2.2 j hj hin.1 hin.2
    · exact hd
  · intro s' hs' b hb' u hu
    refine h.cross s' hs' b hb' u ?_
    rw [hwait]
    exact mem_cons_of_mem _ hu
  · intro i hi hrest hpend
    refine hdone i hi (fun s' hs' => ?_) hpend
    rw [hwait] at hs'
    obtain rfl | hs' := mem_cons.mp hs'
    · intro hhas
      have := hhas.1
      rw [hw] at this
      cases this
    · exact hrest s' hs'

theorem WriteKept.submitNext (hdone : WriteDone r user st) :
    WriteKept m r disk user (submitNext m st true) ∧ WriteDone r user (Data.submitNext m st true) := by
  unfold Data.submitNext
  cases hwait : st.waiting with
  | nil => exact ⟨h, hdone⟩
  | cons p l =>
    have hready := h.waiting
    rw [hwait] at hready
    obtain hch | ⟨s,rest,heq,hs,hr,hhalf,hread⟩ := hready
    · cases hch with
      | single hs hwhole hr =>
        exact h.submitMain hw hdone hwait hs hr (loaded_whole hw hs (hwhole hw) h.callerBuffer)
      | pair hp hs _ hhalf hr => exact h.submitRead hw hdone hwait hp hs hhalf hr
    · obtain ⟨rfl,rfl⟩ := cons.inj heq
      exact h.submitMain hw hdone hwait hs hr (loaded_half hw hs hhalf h.callerBuffer hread)

theorem WriteKept.completeSubtask (hdone : WriteDone r user st) (hs : s ∈ st.pending) :
    WriteKept m r disk user (Data.transfer m s { st with pending := st.pending.erase s }) ∧
      WriteDone r user (Data.transfer m s { st with pending := st.pending.erase s }) := by
  have hkept : WriteKept m r disk user { st with pending := st.pending.erase s } :=
    ⟨h.callerBuffer, h.onDisk, fun s' hs' => h.pending s' (mem_of_mem_erase hs'), h.waiting, h.apart,
      fun s' hs' => h.cross s' (mem_of_mem_erase hs')⟩
  refine hkept.transfer hw (h.pending s hs).1 (h.pending s hs).2 ?_
  intro i hi hwait hpend hnot
  refine hdone i hi hwait fun s' hs' => ?_
  by_cases he : s' = s
  · rw [he]
    exact hnot
  · exact hpend s' ((mem_erase_of_ne he).mpr hs')

end

end Write

structure ReadKept (m : Media) (r : Request) (disk user : Nat → UInt8) (st : State) : Prop where
  onDisk : st.disk = disk
  waiting : ∀ s ∈ st.waiting, MainOk m r s
  pending : ∀ s ∈ st.pending, MainOk m r s
  behind : ∀ i, r.bufferSize ≤ i → st.memory .user i = user i

def ReadDone (r : Request) (disk : Nat → UInt8) (st : State) : Prop :=
  ∀ i < r.bufferSize, (∀ s ∈ st.waiting, ¬Has r s i) → (∀ s ∈ st.pending, ¬Has r s i) →
    st.memory .user i = disk (r.offset+i)

section Read

variable {disk user : Nat → UInt8} (hr : r.write = false)
include hr

theorem MainOk.read_user (hs : MainOk m r s) (memory : Area → Nat → UInt8) (i : Nat) :
    copyOut s (readBlocks m s disk memory) .user i =
      if s.position ≤ i ∧ i < s.position+s.length then disk (r.offset+i) else memory .user i := by
  have hsw : s.write = false := hs.write.trans hr
  have hplace := hs.place
  unfold copyOut readBlocks Subtask.dataArea Subtask.dataPosition
  rw [hsw]
  cases hb : s.workingBuffer with
  | none =>
    have hwhole : s.length % m.blockSize = 0 := by
      by_contra hhalf
      have := (hs.half hhalf).1
      rw [hb] at this
      cases this
    simp only [Option.isSome_none, Bool.and_false, Bool.false_eq_true, if_false, Option.getD_none]
    rw [hs.buffer, update_self]
    unfold Subtask.transferSize
    rw [if_pos hwhole]
    split
    · next hin =>
      rw [patch_inside hin.1 hin.2]
      congr 1
      obtain hz | hz := hs.whole hwhole <;> omega
    · next hin => exact patch_outside hin
  | some b =>
    have hne : Area.user ≠ b := by
      rintro rfl
      exact hs.working hb
    simp only [Option.isSome_some, Bool.not_false, Bool.and_self, if_true, Bool.false_eq_true, if_false,
      Option.getD_some]
    rw [hs.buffer, update_self, update_self, update_of_ne hne]
    split
    · next hin =>
      rw [patch_inside hin.1 hin.2, patch_inside (Nat.zero_le _) ?_]
      · congr 1
        omega
      · obtain hfit | hz := hs.fits <;> omega
    · next hin => exact patch_outside hin

theorem ReadKept.transfer (h : ReadKept m r disk user st) (hs : MainOk m r s)
    (hin : ∀ i < r.bufferSize, (∀ s' ∈ st.waiting, ¬Has r s' i) → (∀ s' ∈ st.pending, ¬Has r s' i) →
      ¬Has r s i → st.memory .user i = disk (r.offset+i)) :
    ReadKept m r disk user (transfer m s st) ∧ ReadDone r disk (Data.transfer m s st) := by
  have huser := @MainOk.read_user m r s st.disk hr hs st.memory
  have hins := hs.inside
  have hdisk : writeBlocks m s st.disk st.memory = st.disk := by
    unfold writeBlocks
    rw [hs.write.trans hr]
    rfl
  unfold Data.transfer
  rw [hdisk]
  refine ⟨⟨h.onDisk, h.waiting, h.pending, fun i hi => ?_⟩, fun i hi hwait hpend => ?_⟩
  · dsimp only
    rw [huser i, if_neg (by omega)]
    exact h.behind i hi
  · dsimp only
    rw [huser i]
    split
    · rw [h.onDisk]
    · next hout => exact hin i hi hwait hpend fun hhas => hout ⟨hhas.2.1, hhas.2.2⟩

theorem ReadKept.submitNext (h : ReadKept m r disk user st) (hdone : ReadDone r disk st) :
    ReadKept m r disk user (submitNext m st true) ∧ ReadDone r disk (Data.submitNext m st true) := by
  unfold Data.submitNext
  cases hwait : st.waiting with
  | nil => exact ⟨h, hdone⟩
  | cons s rest =>
    have hs : MainOk m r s := h.waiting s (by rw [hwait]; exact mem_cons_self)
    have hrest (s' : Subtask) (hs' : s' ∈ rest) : MainOk m r s' :=
      h.waiting s' (by rw [hwait]; exact mem_cons_of_mem _ hs')
    have hcopy : copyIn s st.memory = st.memory := by
      unfold copyIn
      rw [hs.write.trans hr]
      rfl
    have hleft : ∀ i < r.bufferSize, (∀ s' ∈ rest, ¬Has r s' i) → (∀ s' ∈ st.pending, ¬Has r s' i) →
        ¬Has r s i → st.memory .user i = disk (r.offset+i) := by
      intro i hi hwaiting hpend hnot
      refine hdone i hi (fun s' hs' => ?_) hpend
      rw [hwait] at hs'
      obtain rfl | hs' := mem_cons.mp hs'
      · exact hnot
      · exact hwaiting s' hs'
    dsimp only
    unfold submitSubtask
    rw [hcopy]
    simp only [Bool.not_true, Bool.false_eq_true, if_false]
    split
    · have hkept : ReadKept m r disk user { st with waiting := rest } :=
        ⟨h.onDisk, hrest, h.pending, h.behind⟩
      exact hkept.transfer hr hs hleft
    refine ⟨⟨h.onDisk, hrest, ?_, h.behind⟩, fun i hi hwaiting hpend => ?_⟩
    · intro s' hs'
      obtain hs' | hs' := mem_append.mp hs'
      · exact h.pending s' hs'
      · obtain rfl := mem_singleton.mp hs'
        exact hs
    · refine hleft i hi hwaiting (fun s' hs' => hpend s' (mem_append.mpr (.inl hs'))) ?_
      exact hpend s (mem_append.mpr (.inr (mem_singleton.mpr rfl)))

theorem ReadKept.completeSubtask (h : ReadKept m r disk user st) (hdone : ReadDone r disk st)
    (hs : s ∈ st.pending) :
    ReadKept m r disk user (Data.transfer m s { st with pending := st.pending.erase s }) ∧
      ReadDone r disk (Data.transfer m s { st with pending := st.pending.erase s }) := by
  have hkept : ReadKept m r disk user { st with pending := st.pending.erase s } :=
    ⟨h.onDisk, h.waiting, fun s' hs' => h.pending s' (mem_of_mem_erase hs'), h.behind⟩
  refine hkept.transfer hr (h.pending s hs) ?_
  intro i hi hwait hpend hnot
  refine hdone i hi hwait fun s' hs' => ?_
  by_cases he : s' = s
  · rw [he]
    exact hnot
  · exact hpend s' ((mem_erase_of_ne he).mpr hs')

end Read

end Liano.DiskIo.Data
