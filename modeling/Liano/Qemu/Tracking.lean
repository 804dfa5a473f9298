import Mathlib.Data.List.Pairwise
import Liano.Qemu.TableLoader

/-! What the first pass over a script keeps account of: the pages of the blobs, and the pointers
written to fw_cfg. -/
namespace Liano.Qemu

open List hiding range

def Blob.Contains (b : Blob) (address : Nat) : Prop := b.base ≤ address ∧ address < b.base+b.size

def Blob.Apart (b c : Blob) : Prop := b.base+b.size ≤ c.base ∨ c.base+c.size ≤ b.base

def AllocatesApart (services : Services) : Prop :=
  ∀ live maxAddress pages, (services.allocatePages live maxAddress pages).1.isError = false →
    ∀ r ∈ live, r.1 + r.2*efiPageSize ≤ (services.allocatePages live maxAddress pages).2 ∨
      (services.allocatePages live maxAddress pages).2 + pages*efiPageSize ≤ r.1

section
variable {b c : Blob} {tracker : List Blob} {file : FileName} {address : Nat}

theorem Blob.Apart.symm (h : b.Apart c) : c.Apart b := Or.symm h

instance : Std.Symm Blob.Apart := ⟨fun _ _ => Blob.Apart.symm⟩

theorem Blob.Apart.not_contains (h : b.Apart c) (hb : b.Contains address) : ¬ c.Contains address := by
  intro hc
  rw [Blob.Apart] at h
  rw [Blob.Contains] at hb hc
  omega

theorem le_efiSizeToPages (size : Nat) : size ≤ efiSizeToPages size * efiPageSize := by
  rw [efiSizeToPages, efiPageSize]
  split <;> omega

theorem eq_of_contains (h : tracker.Pairwise Blob.Apart) (hb : b ∈ tracker) (hc : c ∈ tracker)
    (hbx : b.Contains address) (hcx : c.Contains address) : b = c := by
  by_contra hne
  exact (h.forall hb hc hne).not_contains hbx hcx

theorem findBlob_mem (h : findBlob tracker file = some b) :
    b ∈ tracker ∧ asciiStr file = asciiStr b.file := by
  refine ⟨mem_of_find?_eq_some h, ?_⟩
  have := find?_some h
  rwa [beq_iff_eq] at this

def Blob.SameBlob (b c : Blob) : Prop := c.file = b.file ∧ c.base = b.base ∧ c.size = b.size ∧
    (b.hostsOnlyTableData = false → c.hostsOnlyTableData = false)

theorem Blob.SameBlob.contains (h : b.SameBlob c) (hb : b.Contains address) : c.Contains address := by
  rw [Blob.Contains] at *
  rwa [h.2.1, h.2.2.1]

theorem markOpaque_mem (hb : b ∈ tracker) : ∃ c ∈ markOpaque tracker file, b.SameBlob c ∧
    (asciiStr file = asciiStr b.file → c.hostsOnlyTableData = false) := by
  refine ⟨_, mem_map_of_mem hb, ?_⟩
  by_cases h : asciiStr file = asciiStr b.file
  · rw [if_pos h]
    exact ⟨⟨rfl, rfl, rfl, fun _ => rfl⟩, fun _ => rfl⟩
  · rw [if_neg h]
    exact ⟨⟨rfl, rfl, rfl, id⟩, fun h' => absurd h' h⟩

theorem markOpaque_range : (markOpaque tracker file).map Blob.range = tracker.map Blob.range := by
  rw [markOpaque, map_map]
  refine map_congr_left fun b _ => ?_
  show Blob.range (if _ then _ else _) = _
  split <;> rfl

theorem markOpaque_apart (h : tracker.Pairwise Blob.Apart) :
    (markOpaque tracker file).Pairwise Blob.Apart := by
  rw [markOpaque, pairwise_map]
  refine h.imp fun {b c} hbc => ?_
  split <;> split <;> exact hbc

end

def zeroWrite (services : Services) : QemuLoaderEntry → Option FwCfgWrite
  | .writePointer command =>
    some ⟨(services.findFile (asciiStr command.pointerFile)).2.1, command.pointerOffset,
      command.pointerSize, 0⟩
  | _ => none

def FwCfgWrite.zeroed (w : FwCfgWrite) : FwCfgWrite := { w with value := 0 }

/-- The account after the entries `done`. -/
structure Tracked (services : Services) (st : LoaderState) (done : List QemuLoaderEntry) : Prop where
  pages : st.allocated.Perm (st.freed ++ st.tracker.map Blob.range)
  apart : st.tracker.Pairwise Blob.Apart
  handed : ∀ w ∈ st.writes, ∃ b ∈ st.tracker, b.Contains w.value ∧ b.hostsOnlyTableData = false
  writes : st.writes.map FwCfgWrite.zeroed = done.filterMap (zeroWrite services)
  found : ∀ command, QemuLoaderEntry.writePointer command ∈ done →
    (services.findFile (asciiStr command.pointerFile)).1.isError = false
  installed : st.installed = []
  uninstalled : st.uninstalled = []
  seen : st.seenPointers = []

section
variable {services : Services} {st st' : LoaderState} {done : List QemuLoaderEntry}
  {restricted : List (List UInt8)} {status : EfiStatus}

theorem Tracked.takePool (h : Tracked services st done) : Tracked services st.takePool.2 done :=
  ⟨h.pages, h.apart, h.handed, h.writes, h.found, h.installed, h.uninstalled, h.seen⟩

variable {entry : QemuLoaderEntry} {blob : Blob} {command : QemuLoaderWritePointer}
  {subset : List QemuLoaderEntry}

theorem Tracked.append (h : Tracked services st done)
    (hent : entry.isWritePointer = false) : Tracked services st (done ++ [entry]) := by
  refine ⟨h.pages, h.apart, h.handed, ?_, ?_, h.installed, h.uninstalled, h.seen⟩
  · rw [filterMap_append, ← h.writes]
    cases entry with
    | writePointer command => cases hent
    | _ => exact (append_nil _).symm
  · intro command hmem
    rcases mem_append.mp hmem with hmem | hmem
    · exact h.found command hmem
    · rw [← mem_singleton.mp hmem] at hent
      cases hent

theorem Tracked.setMemory (h : Tracked services st done) (memory : Nat → UInt8) :
    Tracked services { st with memory := memory } done :=
  ⟨h.pages, h.apart, h.handed, h.writes, h.found, h.installed, h.uninstalled, h.seen⟩

theorem append_diff_left (xs ys : List PageRange) : (xs ++ ys).diff xs = ys := by
  induction xs with
  | nil => rfl
  | cons x xs ih => rw [cons_append, diff_cons, erase_cons_head, ih]

section
variable (h : Tracked services st done)
include h

theorem Tracked.mem_live {b : Blob} (hb : b ∈ st.tracker) : b.range ∈ st.live := by
  rw [LoaderState.live, (h.pages.diff_right st.freed).mem_iff, append_diff_left]
  exact mem_map_of_mem hb

theorem Tracked.allocateAndFree (range : PageRange) (pool : List Bool) : Tracked services { st with
      allocated := st.allocated ++ [range], freed := st.freed ++ [range], pool := pool } done := by
  refine ⟨?_, h.apart, h.handed, h.writes, h.found, h.installed, h.uninstalled, h.seen⟩
  refine (h.pages.append_right [range]).trans ?_
  rw [append_assoc, append_assoc]
  exact List.Perm.append_left _ perm_append_comm

theorem Tracked.track {memory : Nat → UInt8} {pool : List Bool} (hapart : ∀ b ∈ st.tracker, blob.Apart b) :
    Tracked services { st with
      allocated := st.allocated ++ [blob.range]
      tracker := st.tracker.orderedInsert
        (fun a b => asciiStrCmp (asciiStr a.file) (asciiStr b.file) ≤ 0) blob
      memory := memory, pool := pool } done := by
  have hperm := perm_orderedInsert
    (fun a b : Blob => asciiStrCmp (asciiStr a.file) (asciiStr b.file) ≤ 0) blob st.tracker
  refine ⟨?_, ?_, ?_, h.writes, h.found, h.installed, h.uninstalled, h.seen⟩
  · refine (h.pages.append_right [blob.range]).trans ?_
    rw [append_assoc]
    refine List.Perm.append_left _ (perm_append_comm.trans ?_)
    exact (hperm.map Blob.range).symm
  · refine (hperm.pairwise_iff fun {b c} => Blob.Apart.symm).mpr ?_
    exact pairwise_cons.mpr ⟨hapart, h.apart⟩
  · intro w hw
    obtain ⟨b,hb,hhas⟩ := h.handed w hw
    exact ⟨b, hperm.mem_iff.mpr (mem_cons_of_mem _ hb), hhas⟩

theorem trackBlob_tracked {item : Nat} (hapart : ∀ b ∈ st.tracker, blob.Apart b) :
    Tracked services (trackBlob services { st with allocated := st.allocated ++ [blob.range] } item
      blob).1 done := by
  rw [trackBlob]
  by_cases hblob : (!st.pool.headD true) = true
  · rw [if_pos (by exact hblob)]
    exact h.allocateAndFree _ _
  rw [if_neg (by exact hblob)]
  by_cases hfnd : (findBlob st.tracker blob.file).isSome = true
  · rw [if_pos (by exact hfnd)]
    exact h.allocateAndFree _ _
  rw [if_neg (by exact hfnd)]
  by_cases hent : (!st.pool.tail.headD true) = true
  · rw [if_pos (by exact hent)]
    exact h.allocateAndFree _ _
  rw [if_neg (by exact hent)]
  exact h.track hapart

end

theorem processCmdAllocate_tracked (hsvc : AllocatesApart services)
    (h : Tracked services st done) (command : QemuLoaderAllocate) :
    Tracked services (processCmdAllocate services restricted command st).1 done := by
  rw [processCmdAllocate]
  by_cases hname : malformed command.file = true
  · rw [if_pos hname]
    exact h
  rw [if_neg hname]
  by_cases hal : command.alignment > efiPageSize
  · rw [if_pos hal]
    exact h
  rw [if_neg hal]
  simp only
  by_cases hfile : (services.findFile (asciiStr command.file)).1.isError = true
  · rw [if_pos hfile]
    exact h
  rw [if_neg hfile]
  generalize (if asciiStr command.file ∈ restricted then 2^32-1 else 2^64-1) = maxAddress
  cases hpgs : (services.allocatePages st.live maxAddress
      (efiSizeToPages (services.findFile (asciiStr command.file)).2.2)).1.isError with
  | true => exact h
  | false =>
    refine trackBlob_tracked h fun b hb => ?_
    have hlive := hsvc _ _ _ hpgs _ (h.mem_live hb)
    have hb' := le_efiSizeToPages b.size
    have hnew := le_efiSizeToPages (services.findFile (asciiStr command.file)).2.2
    rcases hlive with hlive | hlive
    · exact .inr (le_trans (Nat.add_le_add_left hb' _) hlive)
    · exact .inl (le_trans (Nat.add_le_add_left hnew _) hlive)

section
variable (h : Tracked services st done)
include h

theorem processCmdAddPointer_tracked {command : QemuLoaderAddPointer}
    (hrun : processCmdAddPointer command st = some (st',status)) : Tracked services st' done := by
  rw [processCmdAddPointer] at hrun
  split at hrun
  · cases hrun
    exact h
  split at hrun
  · simp only at hrun
    split at hrun
    · cases hrun
      exact h
    split at hrun
    · cases hrun
      exact h
    split at hrun
    · cases hrun
    split at hrun
    · cases hrun
      exact h
    · cases hrun
      exact h.setMemory _
  · cases hrun
    exact h

theorem processCmdAddChecksum_tracked (command : QemuLoaderAddChecksum) :
    Tracked services (processCmdAddChecksum command st).1 done := by
  rw [processCmdAddChecksum]
  split
  · exact h
  split
  · exact h
  simp only
  split
  · exact h
  · exact h.setMemory _

theorem Tracked.writePointer {context : Option S3Context}
    (hfile : (services.findFile (asciiStr command.pointerFile)).1.isError = false)
    (hblob : findBlob st.tracker command.pointeeFile = some blob)
    (hoff : command.pointeeOffset < blob.size) : Tracked services { st with
      s3Context := context
      writes := st.writes ++ [⟨(services.findFile (asciiStr command.pointerFile)).2.1,
        command.pointerOffset, command.pointerSize, command.pointeeOffset+blob.base⟩]
      tracker := markOpaque st.tracker command.pointeeFile }
      (done ++ [.writePointer command]) := by
  refine ⟨?_, markOpaque_apart h.apart, ?_, ?_, ?_, h.installed, h.uninstalled, h.seen⟩
  · rw [markOpaque_range]
    exact h.pages
  · intro w hw
    rcases mem_append.mp hw with hw | hw
    · obtain ⟨b,hb,hhas,hmark⟩ := h.handed w hw
      obtain ⟨c,hc,hsame,-⟩ := @markOpaque_mem b st.tracker command.pointeeFile hb
      exact ⟨c, hc, hsame.contains hhas, hsame.2.2.2 hmark⟩
    rw [mem_singleton.mp hw]
    obtain ⟨hb,hname⟩ := findBlob_mem hblob
    obtain ⟨c,hc,hsame,hmark⟩ := @markOpaque_mem blob st.tracker command.pointeeFile hb
    refine ⟨c, hc, hsame.contains ⟨?_, ?_⟩, hmark hname⟩
    · exact Nat.le_add_left _ _
    · show command.pointeeOffset+blob.base < _
      omega
  · rw [map_append, h.writes, filterMap_append]
    rfl
  · intro command' hmem
    rcases mem_append.mp hmem with hmem | hmem
    · exact h.found command' hmem
    · cases mem_singleton.mp hmem
      exact hfile

theorem processCmdWritePointer_tracked
    (hrun : processCmdWritePointer services command st = some (st',status)) :
    (status.isError = true → Tracked services st' done) ∧
      (status.isError = false → Tracked services st' (done ++ [.writePointer command])) := by
  have href : ∀ {error : EfiStatus}, error.isError = true → some (st,error) = some (st',status) →
      (status.isError = true → Tracked services st' done) ∧
        (status.isError = false → Tracked services st' (done ++ [.writePointer command])) := by
    intro error herr heq
    cases heq
    exact ⟨fun _ => h, fun hok => absurd herr (by rw [hok]; exact Bool.false_ne_true)⟩
  rw [processCmdWritePointer] at hrun
  split at hrun
  · exact href rfl hrun
  simp only at hrun
  split at hrun
  · exact href rfl hrun
  rename_i blob hblob
  split at hrun
  · exact href rfl hrun
  rename_i hfile
  split at hrun
  · exact href rfl hrun
  split at hrun
  · exact href rfl hrun
  rename_i hoff
  split at hrun
  · cases hrun
  split at hrun
  · exact href rfl hrun
  split at hrun
  · rename_i hsaved
    exact href hsaved hrun
  · cases hrun
    refine ⟨fun herr => absurd herr Bool.false_ne_true, fun _ => ?_⟩
    exact h.writePointer (Bool.not_eq_true _ ▸ hfile) hblob (Nat.lt_of_not_le hoff)

end

theorem processEntry_tracked (hsvc : AllocatesApart services) (h : Tracked services st done)
    (hrun : processEntry services restricted entry st = some (st',status)) :
    (status.isError = true → Tracked services st' done) ∧
      (status.isError = false → Tracked services st' (done ++ [entry])) := by
  cases entry with
  | allocate command =>
    have hst : st' = (processCmdAllocate services restricted command st).1 := by
      rw [processEntry, Option.some.injEq] at hrun
      rw [hrun]
    rw [hst]
    have htrack := @processCmdAllocate_tracked services st done restricted hsvc h command
    exact ⟨fun _ => htrack, fun _ => htrack.append rfl⟩
  | addPointer command =>
    have htrack := processCmdAddPointer_tracked h hrun
    exact ⟨fun _ => htrack, fun _ => htrack.append rfl⟩
  | addChecksum command =>
    have hst : st' = (processCmdAddChecksum command st).1 := by
      rw [processEntry, Option.some.injEq] at hrun
      rw [hrun]
    rw [hst]
    have htrack := processCmdAddChecksum_tracked h command
    exact ⟨fun _ => htrack, fun _ => htrack.append rfl⟩
  | writePointer command => exact processCmdWritePointer_tracked h hrun
  | unknown type =>
    cases hrun
    exact ⟨fun _ => h, fun _ => h.append rfl⟩

/-- The entries before `WritePointerSubsetEnd` are a beginning of those done, with all their
pointers. -/
def IsSubset (services : Services) (done subset : List QemuLoaderEntry) : Prop :=
  subset <+: done ∧ done.filterMap (zeroWrite services) = subset.filterMap (zeroWrite services)

theorem IsSubset.append (h : IsSubset services done subset)
    (entry : QemuLoaderEntry) : IsSubset services (done ++ [entry])
      (if entry.isWritePointer then done ++ [entry] else subset) := by
  cases entry with
  | writePointer command => exact ⟨prefix_refl _, rfl⟩
  | _ =>
    refine ⟨h.1.trans (prefix_append _ _), ?_⟩
    rw [filterMap_append, h.2]
    exact append_nil _

theorem firstPass_tracked (hsvc : AllocatesApart services)
    {subset' entries : List QemuLoaderEntry} (h : Tracked services st done)
    (hsubset : IsSubset services done subset)
    (hrun : firstPass services restricted done subset entries st = some (st',status,subset')) :
    ∃ done', Tracked services st' done' ∧ IsSubset services done' subset' ∧
      (status.isError = false → done' = done ++ entries) := by
  induction entries generalizing done subset st with
  | nil =>
    cases hrun
    exact ⟨done, h, hsubset, fun _ => (append_nil _).symm⟩
  | cons entry entries ih =>
    rw [firstPass, Option.bind_eq_some_iff] at hrun
    obtain ⟨⟨st₁,status₁⟩,hent,hrest⟩ := hrun
    have hstep := processEntry_tracked hsvc h hent
    cases hst : status₁.isError with
    | true =>
      simp only [hst, if_true, Option.some.injEq, Prod.mk.injEq] at hrest
      obtain ⟨rfl,rfl,rfl⟩ := hrest
      refine ⟨done, hstep.1 hst, hsubset, fun hok => ?_⟩
      rw [hst] at hok
      cases hok
    | false =>
      simp only [hst, Bool.false_eq_true, if_false] at hrest
      obtain ⟨done',htrack,hsub,hdone⟩ := ih (hstep.2 hst) (hsubset.append entry) hrest
      refine ⟨done', htrack, hsub, fun hok => ?_⟩
      rw [hdone hok, append_assoc, singleton_append]

end

end Liano.Qemu
