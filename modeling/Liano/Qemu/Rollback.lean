import Liano.Qemu.Tracking

/-! `InstallQemuFwCfgTables` undoes everything if it fails, and keeps what is referred to if it
succeeds. -/
namespace Liano.Qemu

open List hiding max

/-- The address in the blob is that of an installed table, or of an RSDT or XSDT. -/
def Settled (st : LoaderState) (b : Blob) (address : Nat) : Prop :=
  (∃ t ∈ st.installed, t.address = address) ∨ identify st.memory address (b.base+b.size-address) = .rootTable

def Kept (st : LoaderState) (address : Nat) : Prop :=
  ∃ b ∈ st.tracker, b.Contains address ∧ (b.hostsOnlyTableData = false ∨ Settled st b address)

/-- The blobs that an ADD_POINTER command names, its pointer leading into the second. -/
def PointsInto (st : LoaderState) (command : QemuLoaderAddPointer) (blob b : Blob) : Prop :=
  blob ∈ st.tracker ∧ asciiStr command.pointerFile = asciiStr blob.file ∧
  b ∈ st.tracker ∧ asciiStr command.pointeeFile = asciiStr b.file ∧
  b.Contains (pointerValue st.memory blob command)

/-- The account of the second pass, after the entries `done`. -/
structure Identified (services : Services) (script : List QemuLoaderEntry) (st : LoaderState)
    (done : List QemuLoaderEntry) : Prop where
  pages : st.allocated.Perm (st.freed ++ st.tracker.map Blob.range)
  apart : st.tracker.Pairwise Blob.Apart
  handed : ∀ w ∈ st.writes, ∃ b ∈ st.tracker, b.Contains w.value ∧ b.hostsOnlyTableData = false
  writes : st.writes.map FwCfgWrite.zeroed = script.filterMap (zeroWrite services)
  uninstalled : st.uninstalled = []
  seen : ∀ v ∈ st.seenPointers, Kept st v
  pointed : ∀ command, QemuLoaderEntry.addPointer command ∈ done → ∃ blob b,
    PointsInto st command blob b ∧ pointerValue st.memory blob command ∈ st.seenPointers

section
variable {services : Services} {st st' : LoaderState} {script done : List QemuLoaderEntry}
  {status : EfiStatus}

variable {b : Blob} {command : QemuLoaderAddPointer}

theorem Settled.mono {address : Nat} {c : Blob} (h : Settled st b address) (hsame : b.SameBlob c)
    (hmem : st'.memory = st.memory) (hinst : st.installed ⊆ st'.installed) : Settled st' c address := by
  rcases h with ⟨t,ht,haddr⟩ | hroot
  · exact .inl ⟨t, hinst ht, haddr⟩
  · rw [Settled, hmem, hsame.2.1, hsame.2.2.1]
    exact .inr hroot

structure Grows (st st' : LoaderState) : Prop where
  memory : st'.memory = st.memory
  tracker : st'.tracker = st.tracker ∨ ∃ file, st'.tracker = markOpaque st.tracker file
  allocated : st'.allocated = st.allocated
  freed : st'.freed = st.freed
  writes : st'.writes = st.writes
  uninstalled : st'.uninstalled = st.uninstalled
  installed : st.installed ⊆ st'.installed

theorem Grows.mem (h : Grows st st') (hb : b ∈ st.tracker) : ∃ c ∈ st'.tracker, b.SameBlob c := by
  rcases h.tracker with heq | ⟨file,heq⟩
  · rw [heq]
    exact ⟨b, hb, rfl, rfl, rfl, id⟩
  · rw [heq]
    obtain ⟨c,hc,hsame,-⟩ := @markOpaque_mem b st.tracker file hb
    exact ⟨c, hc, hsame⟩

theorem Grows.range (h : Grows st st') : st'.tracker.map Blob.range = st.tracker.map Blob.range := by
  rcases h.tracker with heq | ⟨file,heq⟩
  · rw [heq]
  · rw [heq, markOpaque_range]

theorem Grows.apart (h : Grows st st') (hapart : st.tracker.Pairwise Blob.Apart) :
    st'.tracker.Pairwise Blob.Apart := by
  rcases h.tracker with heq | ⟨file,heq⟩
  · rw [heq]
    exact hapart
  · rw [heq]
    exact markOpaque_apart hapart

theorem Grows.kept {address : Nat} (h : Grows st st') (hk : Kept st address) : Kept st' address := by
  obtain ⟨b,hb,hhas,hkept⟩ := hk
  obtain ⟨c,hc,hsame⟩ := h.mem hb
  refine ⟨c, hc, hsame.contains hhas, ?_⟩
  rcases hkept with hmark | hsettl
  · exact .inl (hsame.2.2.2 hmark)
  · exact .inr (hsettl.mono hsame h.memory h.installed)

theorem Grows.pointsInto {blob : Blob} (h : Grows st st')
    (hp : PointsInto st command blob b) : ∃ blob' b', PointsInto st' command blob' b' ∧
      pointerValue st'.memory blob' command = pointerValue st.memory blob command := by
  obtain ⟨hblob,hname,hb,hname',hhas⟩ := hp
  obtain ⟨blob',hblob',hsame⟩ := h.mem hblob
  obtain ⟨b',hb',hsame'⟩ := h.mem hb
  have hval : pointerValue st'.memory blob' command = pointerValue st.memory blob command := by
    rw [pointerValue, pointerValue, h.memory, hsame.2.1]
  refine ⟨blob', b', ⟨hblob', by rw [hname, hsame.1], hb', by rw [hname', hsame'.1], ?_⟩, hval⟩
  rw [hval]
  exact hsame'.contains hhas

theorem Identified.step {blob : Blob} (h : Identified services script st done) (hgrows : Grows st st')
    (hseen : st'.seenPointers = pointerValue st.memory blob command :: st.seenPointers ∨
      st'.seenPointers = st.seenPointers ∧ pointerValue st.memory blob command ∈ st.seenPointers)
    (hpoints : PointsInto st command blob b) (hkept : Kept st' (pointerValue st.memory blob command)) :
    Identified services script st' (done ++ [.addPointer command]) := by
  have hsub : st.seenPointers ⊆ st'.seenPointers := by
    rcases hseen with heq | ⟨heq,-⟩
    · rw [heq]
      exact subset_cons_self _ _
    · rw [heq]
      exact List.Subset.refl _
  have hmem : pointerValue st.memory blob command ∈ st'.seenPointers := by
    rcases hseen with heq | ⟨heq,hmem⟩
    · rw [heq]
      exact mem_cons_self
    · rw [heq]
      exact hmem
  refine ⟨?_, hgrows.apart h.apart, ?_, ?_, ?_, ?_, ?_⟩
  · rw [hgrows.allocated, hgrows.freed, hgrows.range]
    exact h.pages
  · intro w hw
    rw [hgrows.writes] at hw
    obtain ⟨c,hc,hhas,hmark⟩ := h.handed w hw
    obtain ⟨c',hc',hsame⟩ := hgrows.mem hc
    exact ⟨c', hc', hsame.contains hhas, hsame.2.2.2 hmark⟩
  · rw [hgrows.writes]
    exact h.writes
  · rw [hgrows.uninstalled]
    exact h.uninstalled
  · intro v hv
    rcases hseen with heq | ⟨heq,-⟩
    · rw [heq] at hv
      rcases mem_cons.mp hv with rfl | hv
      · exact hkept
      · exact hgrows.kept (h.seen v hv)
    · rw [heq] at hv
      exact hgrows.kept (h.seen v hv)
  · intro command' hmem'
    rcases mem_append.mp hmem' with hmem' | hmem'
    · obtain ⟨blob',b',hpoints',hseen'⟩ := h.pointed command' hmem'
      obtain ⟨blob'',b'',hpoints'',hval⟩ := hgrows.pointsInto hpoints'
      exact ⟨blob'', b'', hpoints'', by rw [hval]; exact hsub hseen'⟩
    · cases mem_singleton.mp hmem'
      obtain ⟨blob'',b'',hpoints'',hval⟩ := hgrows.pointsInto hpoints
      exact ⟨blob'', b'', hpoints'', by rw [hval]; exact hmem⟩

def Unfinished (services : Services) (script : List QemuLoaderEntry) (st : LoaderState) : Prop :=
  st.allocated.Perm (st.freed ++ st.tracker.map Blob.range) ∧
  st.writes.map FwCfgWrite.zeroed = script.filterMap (zeroWrite services) ∧ st.uninstalled = []

theorem process2ndPass_identified (h : Identified services script st done)
    (hrun : process2ndPassCmdAddPointer services command st = some (st',status)) :
    Unfinished services script st' ∧
      (status.isError = false → Identified services script st' (done ++ [.addPointer command])) := by
  have hfailed : ∀ {st₁ : LoaderState} {error : EfiStatus},
      some (st₁,error) = some (st',status) → error.isError = true →
      st₁.allocated = st.allocated → st₁.freed = st.freed → st₁.tracker = st.tracker →
      st₁.writes = st.writes → st₁.uninstalled = st.uninstalled →
      Unfinished services script st' ∧ (status.isError = false →
        Identified services script st' (done ++ [.addPointer command])) := by
    intro st₁ error heq herror hallocated hfreed htracker hwrites huninstalled
    cases heq
    refine ⟨⟨?_, ?_, ?_⟩, fun hok => absurd herror (by rw [hok]; exact Bool.false_ne_true)⟩
    · rw [hallocated, hfreed, htracker]
      exact h.pages
    · rw [hwrites]
      exact h.writes
    · rw [huninstalled]
      exact h.uninstalled
  have hdone : ∀ {st₁ : LoaderState}, some (st₁,EfiStatus.success) = some (st',status) →
      Identified services script st₁ (done ++ [.addPointer command]) →
      Unfinished services script st' ∧ (status.isError = false →
        Identified services script st' (done ++ [.addPointer command])) := by
    intro st₁ heq hidentified
    cases heq
    exact ⟨⟨hidentified.pages, hidentified.writes, hidentified.uninstalled⟩, fun _ => hidentified⟩
  rw [process2ndPassCmdAddPointer] at hrun
  split at hrun
  · rename_i blob blob2 hblob hblob2
    obtain ⟨hmem,hname⟩ := findBlob_mem hblob
    obtain ⟨hmem2,hname2⟩ := findBlob_mem hblob2
    simp only at hrun
    by_cases hout : pointerValue st.memory blob command < blob2.base ∨
        blob2.base+blob2.size ≤ pointerValue st.memory blob command
    · rw [if_pos hout] at hrun
      cases hrun
    rw [if_neg hout] at hrun
    have hhas : blob2.Contains (pointerValue st.memory blob command) := by
      rw [Blob.Contains]
      omega
    have hpoints : PointsInto st command blob blob2 := ⟨hmem, hname, hmem2, hname2, hhas⟩
    by_cases hseen : pointerValue st.memory blob command ∈ st.seenPointers
    · rw [if_pos hseen] at hrun
      have hgrows : Grows st st := ⟨rfl, .inl rfl, rfl, rfl, rfl, rfl, List.Subset.refl _⟩
      exact hdone hrun (h.step hgrows (.inr ⟨rfl, hseen⟩) hpoints (h.seen _ hseen))
    rw [if_neg hseen] at hrun
    by_cases hpool : (!st.takePool.1) = true
    · rw [if_pos hpool] at hrun
      exact hfailed hrun rfl rfl rfl rfl rfl rfl
    rw [if_neg hpool] at hrun
    have hidentify : identify st.takePool.2.memory (pointerValue st.memory blob command)
        (blob2.base+blob2.size - pointerValue st.memory blob command) =
      identify st.memory (pointerValue st.memory blob command)
        (blob2.base+blob2.size - pointerValue st.memory blob command) := rfl
    rw [hidentify] at hrun
    cases hkind : identify st.memory (pointerValue st.memory blob command)
        (blob2.base+blob2.size - pointerValue st.memory blob command) with
    | rootTable =>
      simp only [hkind] at hrun
      exact hdone hrun (h.step ⟨rfl, .inl rfl, rfl, rfl, rfl, rfl, List.Subset.refl _⟩
        (.inl rfl) hpoints ⟨blob2, hmem2, hhas, .inr (.inr hkind)⟩)
    | other =>
      simp only [hkind] at hrun
      obtain ⟨c,hc,hsame,hmark⟩ := @markOpaque_mem blob2 st.tracker command.pointeeFile hmem2
      exact hdone hrun (h.step ⟨rfl, .inr ⟨_, rfl⟩, rfl, rfl, rfl, rfl, List.Subset.refl _⟩
        (.inl rfl) hpoints ⟨c, hc, hsame.contains hhas, .inl (hmark hname2)⟩)
    | table size =>
      simp only [hkind] at hrun
      by_cases hfull : st.installed.length = installedTablesMax
      · rw [if_pos (by exact hfull)] at hrun
        exact hfailed hrun rfl rfl rfl rfl rfl rfl
      rw [if_neg (by exact hfull)] at hrun
      by_cases hinstall : (services.installAcpiTable st.installed
          (pointerValue st.memory blob command) size).1.isError = true
      · rw [if_pos (by exact hinstall)] at hrun
        exact hfailed hrun hinstall rfl rfl rfl rfl rfl
      rw [if_neg (by exact hinstall)] at hrun
      exact hdone hrun (h.step ⟨rfl, .inl rfl, rfl, rfl, rfl, rfl, subset_append_left _ _⟩
        (.inl rfl) hpoints ⟨blob2, hmem2, hhas, .inr (.inl ⟨_, mem_append_right _ mem_cons_self, rfl⟩)⟩)
  · cases hrun

theorem Identified.append (h : Identified services script st done) {entry : QemuLoaderEntry}
    (hent : ∀ command, entry ≠ .addPointer command) : Identified services script st (done ++ [entry]) := by
  refine ⟨h.pages, h.apart, h.handed, h.writes, h.uninstalled, h.seen, fun command hmem => ?_⟩
  rcases mem_append.mp hmem with hmem | hmem
  · exact h.pointed command hmem
  · exact absurd (mem_singleton.mp hmem).symm (hent command)

theorem secondPass_identified {entries : List QemuLoaderEntry} (h : Identified services script st done)
    (hrun : secondPass services entries st = some (st',status)) : Unfinished services script st' ∧
      (status.isError = false → Identified services script st' (done ++ entries)) := by
  induction entries generalizing done st with
  | nil =>
    cases hrun
    refine ⟨⟨h.pages, h.writes, h.uninstalled⟩, fun _ => ?_⟩
    rw [append_nil]
    exact h
  | cons entry entries ih =>
    have hskip : (∀ command, entry ≠ .addPointer command) →
        secondPass services entries st = some (st',status) →
        Unfinished services script st' ∧ (status.isError = false →
          Identified services script st' (done ++ entry :: entries)) := by
      intro hent hrest
      have hih := ih (h.append hent) hrest
      rwa [append_assoc, singleton_append] at hih
    cases entry with
    | addPointer command =>
      rw [secondPass] at hrun
      by_cases hfull : st.installed.length > installedTablesMax
      · rw [if_pos hfull] at hrun
        cases hrun
        exact ⟨⟨h.pages, h.writes, h.uninstalled⟩, fun hok => (nomatch hok)⟩
      rw [if_neg hfull, Option.bind_eq_some_iff] at hrun
      obtain ⟨⟨st₁,status₁⟩,hent,hrest⟩ := hrun
      obtain ⟨hunfinished,hidentified⟩ := process2ndPass_identified h hent
      cases hst : status₁.isError with
      | true =>
        simp only [hst, if_true, Option.some.injEq, Prod.mk.injEq] at hrest
        obtain ⟨rfl,rfl⟩ := hrest
        refine ⟨hunfinished, fun hok => ?_⟩
        rw [hst] at hok
        cases hok
      | false =>
        simp only [hst, Bool.false_eq_true, if_false] at hrest
        have hih := ih (hidentified hst) hrest
        rwa [append_assoc, singleton_append] at hih
    | allocate command => exact hskip (fun _ => by rintro ⟨⟩) hrun
    | addChecksum command => exact hskip (fun _ => by rintro ⟨⟩) hrun
    | writePointer command => exact hskip (fun _ => by rintro ⟨⟩) hrun
    | unknown type => exact hskip (fun _ => by rintro ⟨⟩) hrun

end

/-- Everything is undone: each installed table is uninstalled, each write to fw_cfg is followed by
one of zeros to the same place, and each page range is freed once. -/
structure RolledBack (st : LoaderState) : Prop where
  uninstalled : st.uninstalled.Perm (st.installed.map InstalledTable.key)
  writes : ∃ processed, st.writes = processed ++ (processed.map FwCfgWrite.zeroed).reverse
  freed : st.freed.Perm st.allocated

/-- The blobs whose address was handed to QEMU, or into which a pointer of the script leads that is
not to a table, are not freed; no table is uninstalled. -/
structure Retained (script : List QemuLoaderEntry) (st : LoaderState) : Prop where
  uninstalled : st.uninstalled = []
  pages : st.allocated.Perm (st.freed ++ (keptBlobs st.tracker .success).map Blob.range)
  apart : st.tracker.Pairwise Blob.Apart
  handed : ∀ w ∈ st.writes, ∃ b ∈ keptBlobs st.tracker .success, b.Contains w.value
  pointed : ∀ command, QemuLoaderEntry.addPointer command ∈ script → ∃ blob b, PointsInto st command blob b ∧
      (b ∈ keptBlobs st.tracker .success ∨ Settled st b (pointerValue st.memory blob command))

section
variable {services : Services} {st st' : LoaderState} {script subset : List QemuLoaderEntry}
  {status : EfiStatus}

variable {entries : List QemuLoaderEntry}

theorem rollbackWritePointers_eq (hfnd : ∀ command, QemuLoaderEntry.writePointer command ∈ entries →
      (services.findFile (asciiStr command.pointerFile)).1.isError = false) :
    rollbackWritePointers services entries st =
      some { st with writes := st.writes ++ entries.filterMap (zeroWrite services) } := by
  induction entries generalizing st with
  | nil =>
    rw [filterMap_nil, append_nil]
    rfl
  | cons entry entries ih =>
    have hrest := fun command hmem => hfnd command (mem_cons_of_mem _ hmem)
    cases entry with
    | writePointer command =>
      rw [rollbackWritePointers, undoCmdWritePointer]
      simp only [hfnd command mem_cons_self, Bool.false_eq_true, if_false,
        Option.bind_some, ih hrest, filterMap_cons, zeroWrite, append_assoc, singleton_append]
    | _ => exact ih hrest

theorem freeTracker_eq (status : EfiStatus) : freeTracker st status = { st with
    freed := st.freed ++ (st.tracker.filter fun b => status.isError || b.hostsOnlyTableData).map
      Blob.range } := by
  have hfold : ∀ (blobs : List Blob) (st : LoaderState), blobs.foldl (fun st b => st.freePages b.range) st =
        { st with freed := st.freed ++ blobs.map Blob.range } := by
    intro blobs
    induction blobs with
    | nil => intro st; rw [map_nil, append_nil]; rfl
    | cons b blobs ih =>
      intro st
      rw [foldl_cons, ih, LoaderState.freePages, map_cons]
      simp only [append_assoc, singleton_append]
  exact hfold _ st

theorem rolledBack_of_error (herr : status.isError = true)
    (hpgs : st.allocated.Perm (st.freed ++ st.tracker.map Blob.range))
    (hwrites : st.writes.map FwCfgWrite.zeroed = subset.filterMap (zeroWrite services))
    (hfnd : ∀ command, QemuLoaderEntry.writePointer command ∈ subset →
      (services.findFile (asciiStr command.pointerFile)).1.isError = false)
    (huninst : st.uninstalled.Perm (st.installed.map InstalledTable.key)) :
    ∃ st', rollbackAndFreeTracker services subset st status = some (st',status) ∧ RolledBack st' := by
  rw [rollbackAndFreeTracker, if_pos herr, rollbackWritePointers_eq fun command hmem =>
    hfnd command (mem_reverse.mp hmem), Option.map_some]
  refine ⟨_, rfl, ?_⟩
  rw [freeTracker_eq, herr]
  refine ⟨huninst, ⟨st.writes, ?_⟩, ?_⟩
  · rw [hwrites, filterMap_reverse]
  · have hall : (st.tracker.filter fun b => true || b.hostsOnlyTableData) = st.tracker :=
      filter_eq_self.mpr fun b _ => rfl
    simp only [hall]
    exact hpgs.symm

theorem identifyTables_spec (h : Tracked services st script) (hsubset : IsSubset services script subset)
    (hrun : identifyTables services script subset st = some (st',status)) :
    (status.isError = true → RolledBack st') ∧ (status.isError = false → Retained script st') := by
  have hfnd : ∀ command, QemuLoaderEntry.writePointer command ∈ subset →
      (services.findFile (asciiStr command.pointerFile)).1.isError = false := fun command hmem =>
    h.found command (hsubset.1.subset hmem)
  -- the errors, with the tables that are installed by then
  have herror : ∀ {st₁ : LoaderState} {error : EfiStatus},
      rollbackAndFreeTracker services subset st₁ error = some (st',status) →
      error.isError = true → st₁.allocated.Perm (st₁.freed ++ st₁.tracker.map Blob.range) →
      st₁.writes.map FwCfgWrite.zeroed = script.filterMap (zeroWrite services) →
      st₁.uninstalled.Perm (st₁.installed.map InstalledTable.key) →
      (status.isError = true → RolledBack st') ∧ (status.isError = false → Retained script st') := by
    intro st₁ error heq hstatus hpgs hwrites huninst
    obtain ⟨st₂,hst₂,hrolled⟩ := rolledBack_of_error hstatus hpgs
      (hwrites.trans hsubset.2) hfnd huninst
    rw [hst₂, Option.some.injEq, Prod.mk.injEq] at heq
    obtain ⟨rfl,rfl⟩ := heq
    exact ⟨fun _ => hrolled, fun hok => absurd hstatus (by rw [hok]; exact Bool.false_ne_true)⟩
  have huninst : st.uninstalled.Perm (st.installed.map InstalledTable.key) := by
    rw [h.installed, h.uninstalled]
    exact List.Perm.refl _
  rw [identifyTables] at hrun
  simp only at hrun
  by_cases hkeys : (!st.takePool.1) = true
  · rw [if_pos hkeys] at hrun
    exact herror hrun rfl h.pages h.writes huninst
  rw [if_neg hkeys] at hrun
  by_cases hseen : (!st.takePool.2.takePool.1) = true
  · rw [if_pos hseen] at hrun
    exact herror hrun rfl h.pages h.writes huninst
  rw [if_neg hseen, Option.bind_eq_some_iff] at hrun
  obtain ⟨⟨st₁,status₁⟩,hpass,hrest⟩ := hrun
  have hstart : Identified services script st.takePool.2.takePool.2 [] := by
    refine ⟨h.pages, h.apart, h.handed, h.writes, h.uninstalled, fun v hv => ?_, fun _ hmem => ?_⟩
    · have hnil : st.takePool.2.takePool.2.seenPointers = [] := h.seen
      rw [hnil] at hv
      cases hv
    · cases hmem
  obtain ⟨⟨hpgs,hwrites,hnone⟩,hidentified⟩ := secondPass_identified hstart hpass
  generalize hstatus₂ : (if status₁.isError then status₁ else transferS3Context services st₁) =
    status₂ at hrest
  cases hfinal : status₂.isError with
  | true =>
    refine herror hrest hfinal ?_ ?_ ?_
    · rw [uninstallAcpiTables, if_pos hfinal]
      exact hpgs
    · rw [uninstallAcpiTables, if_pos hfinal]
      exact hwrites
    · rw [uninstallAcpiTables, if_pos hfinal]
      rw [hnone, nil_append]
      exact reverse_perm _
  | false =>
    have hok : status₁.isError = false := by
      cases hst₁ : status₁.isError with
      | false => rfl
      | true =>
        rw [hst₁, if_pos rfl] at hstatus₂
        rw [← hstatus₂, hst₁] at hfinal
        cases hfinal
    have hid := hidentified hok
    rw [uninstallAcpiTables, rollbackAndFreeTracker, hfinal] at hrest
    obtain ⟨rfl,rfl⟩ := hrest
    refine ⟨fun herr => ?_, fun _ => ?_⟩
    · rw [hfinal] at herr
      cases herr
    · have hkept : ∀ b ∈ st₁.tracker, b.hostsOnlyTableData = false → b ∈ keptBlobs st₁.tracker .success := by
        intro b hb hmark
        rw [keptBlobs, mem_filter]
        refine ⟨hb, ?_⟩
        rw [hmark]
        rfl
      rw [freeTracker_eq, hfinal]
      refine ⟨hid.uninstalled, ?_, hid.apart, ?_, ?_⟩
      · refine hid.pages.trans ?_
        simp only [Bool.false_or, append_assoc]
        refine List.Perm.append_left _ ?_
        rw [← map_append]
        refine List.Perm.map _ ?_
        have hsplit := filter_append_perm (fun b : Blob => b.hostsOnlyTableData) st₁.tracker
        refine hsplit.symm.trans (List.Perm.append_left _ (List.Perm.of_eq ?_))
        refine filter_congr fun b _ => ?_
        cases b.hostsOnlyTableData <;> rfl
      · intro w hw
        obtain ⟨b,hb,hhas,hmark⟩ := hid.handed w hw
        exact ⟨b, hkept b hb hmark, hhas⟩
      · intro command hmem
        obtain ⟨blob,b,hpoints,hseen'⟩ := hid.pointed command hmem
        refine ⟨blob, b, hpoints, ?_⟩
        obtain ⟨c,hc,hhas,hcase⟩ := hid.seen _ hseen'
        have heq := eq_of_contains hid.apart hpoints.2.2.1 hc hpoints.2.2.2.2 hhas
        subst heq
        rcases hcase with hmark | hsettl
        · exact .inl (hkept b hpoints.2.2.1 hmark)
        · exact .inr hsettl

structure Fresh (st : LoaderState) : Prop where
  tracker : st.tracker = []
  allocated : st.allocated = []
  freed : st.freed = []
  writes : st.writes = []
  installed : st.installed = []
  uninstalled : st.uninstalled = []
  seen : st.seenPointers = []

theorem Fresh.tracked (h : Fresh st) : Tracked services st [] := by
  refine ⟨?_, ?_, ?_, ?_, fun _ hmem => (nomatch hmem), h.installed, h.uninstalled, h.seen⟩
  · rw [h.allocated, h.freed, h.tracker]
    exact List.Perm.refl _
  · rw [h.tracker]
    exact List.Pairwise.nil
  · rw [h.writes]
    exact fun _ hmem => (nomatch hmem)
  · rw [h.writes]
    rfl

theorem Fresh.rolledBack (h : Fresh st) : RolledBack st := by
  refine ⟨?_, ⟨[], h.writes⟩, ?_⟩
  · rw [h.uninstalled, h.installed]
    exact List.Perm.refl _
  · rw [h.freed, h.allocated]

theorem Fresh.takePool (h : Fresh st) : Fresh st.takePool.2 :=
  ⟨h.tracker, h.allocated, h.freed, h.writes, h.installed, h.uninstalled, h.seen⟩

theorem collect_fresh {collection : List (List UInt8)}
    (h : Fresh st) : Fresh (collectAllocationsRestrictedTo32Bit entries collection st).1 := by
  induction entries generalizing collection st with
  | nil => exact h
  | cons entry entries ih =>
    cases entry with
    | addPointer command =>
      rw [collectAllocationsRestrictedTo32Bit]
      split
      · exact ih h
      split
      · exact h
      split
      · exact ih h
      simp only
      split
      · exact h.takePool
      · exact ih h.takePool
    | _ => exact ih h

theorem allocateS3Context_fresh {n : Nat} (h : Fresh st) : Fresh (allocateS3Context st n).1 := by
  rw [allocateS3Context]
  split
  · exact h
  simp only
  split
  · exact h.takePool
  · split
    · exact h.takePool.takePool
    · exact ⟨h.tracker, h.allocated, h.freed, h.writes, h.installed, h.uninstalled, h.seen⟩

theorem processScript_spec {restricted : List (List UInt8)} (hsvc : AllocatesApart services)
    (h : Fresh st) (hrun : processScript services restricted script st = some (st',status)) :
    (status.isError = true → RolledBack st') ∧ (status.isError = false → Retained script st') := by
  rw [processScript] at hrun
  by_cases hpool : (!st.takePool.1) = true
  · rw [if_pos hpool] at hrun
    cases hrun
    exact ⟨fun _ => h.takePool.rolledBack, fun hok => (nomatch hok)⟩
  rw [if_neg hpool, Option.bind_eq_some_iff] at hrun
  obtain ⟨⟨st₁,status₁,subset⟩,hpass,hrest⟩ := hrun
  obtain ⟨done,htrack,hsubset,hdone⟩ := firstPass_tracked hsvc h.tracked.takePool
    ⟨prefix_refl _, rfl⟩ hpass
  cases hst : status₁.isError with
  | true =>
    simp only [hst, if_true] at hrest
    have huninst : st₁.uninstalled.Perm (st₁.installed.map InstalledTable.key) := by
      rw [htrack.installed, htrack.uninstalled]
      exact List.Perm.refl _
    obtain ⟨st₂,hst₂,hrolled⟩ := rolledBack_of_error hst htrack.pages
      (htrack.writes.trans hsubset.2)
      (fun command hmem => htrack.found command (hsubset.1.subset hmem)) huninst
    rw [hst₂, Option.some.injEq, Prod.mk.injEq] at hrest
    obtain ⟨rfl,rfl⟩ := hrest
    refine ⟨fun _ => hrolled, fun hok => ?_⟩
    rw [hst] at hok
    cases hok
  | false =>
    simp only [hst, Bool.false_eq_true, if_false] at hrest
    have hall := hdone hst
    subst hall
    exact identifyTables_spec htrack hsubset hrest

end

/-- For every script, and whichever command, allocation or table fails: an error leaves nothing
behind, and success leaves in place what is referred to. -/
theorem installQemuFwCfgTables_spec {services : Services} {loader : EfiStatus × Nat}
    {script : List QemuLoaderEntry} {memory : Nat → UInt8} {pool : List Bool} {st : LoaderState}
    {status : EfiStatus} (hservices : AllocatesApart services)
    (hrun : installQemuFwCfgTables services loader script memory pool = some (st,status)) :
    (status.isError = true → RolledBack st) ∧ (status.isError = false → Retained script st) := by
  have hfresh : Fresh (initialState memory pool) := ⟨rfl, rfl, rfl, rfl, rfl, rfl, rfl⟩
  have herr : ∀ {st₁ : LoaderState} {error : EfiStatus}, some (st₁,error) = some (st,status) →
      error.isError = true → Fresh st₁ →
      (status.isError = true → RolledBack st) ∧ (status.isError = false → Retained script st) := by
    intro st₁ error heq hstatus hst₁
    cases heq
    exact ⟨fun _ => hst₁.rolledBack, fun hok => absurd hstatus (by rw [hok]; exact Bool.false_ne_true)⟩
  rw [installQemuFwCfgTables] at hrun
  by_cases hloader : loader.1.isError = true
  · rw [if_pos hloader] at hrun
    exact herr hrun hloader hfresh
  rw [if_neg hloader] at hrun
  by_cases hsize : loader.2 % sizeOfLoaderEntry ≠ 0
  · rw [if_pos hsize] at hrun
    exact herr hrun rfl hfresh
  rw [if_neg hsize] at hrun
  by_cases hpool : (!(initialState memory pool).takePool.1) = true
  · rw [if_pos hpool] at hrun
    exact herr hrun rfl hfresh.takePool
  rw [if_neg hpool] at hrun
  by_cases hcollection : (!(initialState memory pool).takePool.2.takePool.1) = true
  · rw [if_pos hcollection] at hrun
    exact herr hrun rfl hfresh.takePool.takePool
  rw [if_neg hcollection] at hrun
  have hcollect := @collect_fresh _ script [] hfresh.takePool.takePool
  by_cases hcollected : (collectAllocationsRestrictedTo32Bit script []
      (initialState memory pool).takePool.2.takePool.2).2.1.isError = true
  · rw [if_pos hcollected] at hrun
    exact herr hrun hcollected hcollect
  rw [if_neg hcollected] at hrun
  by_cases hs3 : services.s3Enabled = true
  · rw [if_pos hs3] at hrun
    have hcontext := @allocateS3Context_fresh _ script.length hcollect
    by_cases hs3Err : (allocateS3Context (collectAllocationsRestrictedTo32Bit script []
        (initialState memory pool).takePool.2.takePool.2).1 script.length).2.isError = true
    · rw [if_pos hs3Err] at hrun
      exact herr hrun hs3Err hcontext
    · rw [if_neg hs3Err] at hrun
      exact processScript_spec hservices hcontext hrun
  · rw [if_neg hs3] at hrun
    exact processScript_spec hservices hcollect hrun

def pagesBehind (live : List PageRange) (maxAddress pages : Nat) : EfiStatus × Nat :=
  let base := live.foldr (fun r n => max (r.1 + r.2*efiPageSize) n) 0x100000
  if base + pages*efiPageSize ≤ maxAddress then (.success, base) else (.outOfResources, 0)

theorem pagesBehind_apart (live : List PageRange) (maxAddress pages : Nat)
    (h : (pagesBehind live maxAddress pages).1.isError = false) :
    ∀ r ∈ live, r.1 + r.2*efiPageSize ≤ (pagesBehind live maxAddress pages).2 := by
  have hle : ∀ l : List PageRange, ∀ r ∈ l, r.1 + r.2*efiPageSize ≤
      l.foldr (fun r n => max (r.1 + r.2*efiPageSize) n) 0x100000 := by
    intro l
    induction l with
    | nil => exact fun _ hr => (nomatch hr)
    | cons q l ih =>
      intro r hr
      rcases mem_cons.mp hr with rfl | hr
      · exact le_max_left _ _
      · exact le_trans (ih r hr) (le_max_right _ _)
  intro r hr
  rw [pagesBehind] at h ⊢
  split at h
  · rename_i hfits
    rw [if_pos hfits]
    exact hle live r hr
  · cases h

def fileName (c : UInt8) : FileName := c :: replicate 55 0

/-- A file `a` of 16 zeros and a file `b` for pointers. -/
def twoFiles : Services where
  findFile name := if name = [97] then (.success, 1, 16) else if name = [98] then (.success, 2, 8)
    else (.notFound, 0, 0)
  contents _ := replicate 16 0
  s3Enabled := false
  allocatePages := pagesBehind
  installAcpiTable tables _ _ := (.success, tables.length)
  callWhenBootScriptReady := .success

def pointToA : List QemuLoaderEntry :=
  [.allocate ⟨fileName 97, 16⟩, .writePointer ⟨fileName 98, fileName 97, 0, 4, 8⟩]

theorem installQemuFwCfgTables_spec_twoFiles :
    (∃ st, installQemuFwCfgTables twoFiles (.success, 256) pointToA (fun _ => 0) [] =
      some (st, .success) ∧ Retained pointToA st) ∧
    ∃ st, installQemuFwCfgTables twoFiles (.success, 384) (pointToA ++ [.allocate ⟨fileName 99, 1⟩])
      (fun _ => 0) [] = some (st, .notFound) ∧ RolledBack st :=
  have hapart : AllocatesApart twoFiles := fun live maxAddress pages h r hr =>
    .inl (pagesBehind_apart live maxAddress pages h r hr)
  ⟨⟨_, rfl, (@installQemuFwCfgTables_spec twoFiles (.success, 256) pointToA (fun _ => 0) [] _
      .success hapart rfl).2 rfl⟩, ⟨_, rfl, (@installQemuFwCfgTables_spec twoFiles (.success, 384)
      (pointToA ++ [.allocate ⟨fileName 99, 1⟩]) (fun _ => 0) [] _ .notFound hapart rfl).1 rfl⟩⟩

end Liano.Qemu
