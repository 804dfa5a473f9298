import Liano.Fat.Access

/-! The disk cache over a run: reads, writes, tasks and flushes against the flat array. -/
namespace Liano.Fat

open Lib List

variable {g : Geometry} {v v' : Volume} {f : Nat → UInt8} {t t' : CacheDataType} {p i : Nat}

def Subtask.onArray (s : Subtask) (f : Nat → UInt8) : Nat → UInt8 :=
  if s.write then patch f s.offset s.bufferSize s.buffer else f

def flatSubtasks : List Subtask → List (Nat → UInt8) → (Nat → UInt8) → Nat → UInt8
  | s :: rest, _ :: buffers, f => flatSubtasks rest buffers (s.onArray f)
  | _, _, f => f

def ReadsArray : List Subtask → List (Nat → UInt8) → (Nat → UInt8) → Prop
  | s :: rest, buffer :: buffers, f =>
    (s.write = false → ∀ i < s.bufferSize, buffer i = f (s.offset+i)) ∧ ReadsArray rest buffers (s.onArray f)
  | _, _, _ => True

def SoundSubtask (g : Geometry) (v : Volume) (s : Subtask) : Prop :=
  ∀ t p i, i < g.realSize t p → s.offset ≤ g.entryPos t p + i → g.entryPos t p + i < s.offset+s.bufferSize →
    (if s.write then v.holds g t p else v.dirtyAt g t p) = false

variable {s : Subtask} {write : Bool} {offset size : Nat}

theorem SoundSubtask.congr (h : SoundSubtask g v s) (hc : v'.diskCache = v.diskCache) :
    SoundSubtask g v' s := by
  intro t p i hi hle hlt
  rw [holds_congr hc, dirtyAt_congr hc]
  exact h t p i hi hle hlt

theorem Refines.subtask (h : Refines g v f) (hsound : SoundSubtask g v s)
    (hok : (transfer v s.write s.offset s.bufferSize s.buffer).ok = true) :
    Refines g (transfer v s.write s.offset s.bufferSize s.buffer).volume (s.onArray f) := by
  have hc := transfer_diskCache v s.write s.offset s.bufferSize s.buffer
  have hs := transfer_subtasks v s.write s.offset s.bufferSize s.buffer
  unfold Subtask.onArray
  cases hw : s.write with
  | false =>
    rw [hw] at hc hs
    exact h.of_disk hc hs fun _ _ _ _ _ => congrFun transfer_read _
  | true =>
    rw [hw] at hc hs hok
    have hd := transfer_write hok
    unfold SoundSubtask at hsound
    rw [hw] at hsound
    constructor
    · intro t group
      rw [tag_congr hc]
      exact h.valid t group
    · intro t p i hp hi
      rw [holds_congr hc] at hp
      rw [hc, if_pos rfl, patch_outside]
      · exact h.page t p i hp hi
      · rintro ⟨hle,hlt⟩
        have := hsound t p i hi hle hlt
        rw [if_pos rfl, hp] at this
        cases this
    · intro t p i hn hi
      rw [dirtyAt_congr hc] at hn
      rw [hd, if_pos rfl]
      by_cases hin : s.offset ≤ g.entryPos t p + i ∧ g.entryPos t p + i < s.offset+s.bufferSize
      · rw [patch_inside hin.1 hin.2, patch_inside hin.1 hin.2]
      · rw [patch_outside hin, patch_outside hin]
        exact h.disk t p i hn hi
    · intro t p hdirty
      rw [dirtyAt_congr hc] at hdirty
      rw [hc]
      exact h.dirty t p hdirty
    · rw [hs]
      exact h.queued

theorem Refines.subtask_buffer (h : Refines g v f) (hsound : SoundSubtask g v s)
    (hb : g.rootPos ≤ s.offset ∧ s.offset+s.bufferSize ≤ g.volumeSize) (hw : s.write = false)
    (hok : (transfer v s.write s.offset s.bufferSize s.buffer).ok = true) (hi : i < s.bufferSize) :
    (transfer v s.write s.offset s.bufferSize s.buffer).buffer i = f (s.offset+i) := by
  obtain ⟨p,j,hj,hpos⟩ := @Geometry.exists_page g .cacheData (s.offset+i)
    (le_trans hb.1 (Nat.le_add_right _ _)) (lt_of_lt_of_le (Nat.add_lt_add_left hi _) hb.2)
  have hclean := hsound .cacheData p j hj (by omega) (by omega)
  rw [hw] at hok hclean ⊢
  rw [transfer_read_buffer hok]
  dsimp only
  rw [← hpos]
  exact h.disk _ p j hclean hj

theorem Refines.runSubtasks : ∀ (ss : List Subtask) (v : Volume) (f : Nat → UInt8), Refines g v f →
    (∀ s ∈ ss, g.rootPos ≤ s.offset ∧ s.offset+s.bufferSize ≤ g.volumeSize) → (∀ s ∈ ss, SoundSubtask g v s) →
    Refines g (runSubtasks ss v).2 (flatSubtasks ss (runSubtasks ss v).1 f) ∧
      ReadsArray ss (runSubtasks ss v).1 f := by
  intro ss
  induction ss with
  | nil =>
    intro v f h _ _
    exact ⟨h, trivial⟩
  | cons s rest ih =>
    intro v f h hbds hsound
    have hc := transfer_diskCache v s.write s.offset s.bufferSize s.buffer
    unfold Fat.runSubtasks
    split
    · next hok =>
      have hstep := h.subtask (hsound s mem_cons_self) hok
      obtain ⟨hkept,hreads⟩ := ih _ _ hstep (fun r hr => hbds r (mem_cons_of_mem _ hr))
        fun r hr => (hsound r (mem_cons_of_mem _ hr)).congr hc
      refine ⟨hkept, fun hw i hi => ?_, hreads⟩
      exact h.subtask_buffer (hsound s mem_cons_self) (hbds s mem_cons_self) hw hok hi
    · next hok =>
      refine ⟨h.of_disk hc (transfer_subtasks _ _ _ _ _) fun _ _ _ _ _ => ?_, trivial⟩
      rw [transfer_fails (Bool.eq_false_iff.mpr hok)]

theorem Refines.fatQueueTask (h : Refines g v f) (hsound : ∀ s ∈ v.subtasks, SoundSubtask g v s) :
    Refines g (fatQueueTask v).2 (flatSubtasks v.subtasks (fatQueueTask v).1 f) ∧
      ReadsArray v.subtasks (fatQueueTask v).1 f := by
  have hempty : Refines g { v with subtasks := [] } f := h.of_queue rfl rfl fun s hs => absurd hs not_mem_nil
  exact Refines.runSubtasks v.subtasks _ f hempty h.queued fun s hs => (hsound s hs).congr rfl

def NoDirtier (v v' : Volume) : Prop := ∀ t group, (v'.tag t group).pageNo = (v.tag t group).pageNo ∧
    (v'.tag t group).realSize = (v.tag t group).realSize ∧
    ((v'.tag t group).dirty = true → (v.tag t group).dirty = true)

theorem NoDirtier.trans {v'' : Volume} (h : NoDirtier v v') (h' : NoDirtier v' v'') : NoDirtier v v'' := by
  intro t group
  obtain ⟨hp,hr,hd⟩ := h t group
  obtain ⟨hp',hr',hd'⟩ := h' t group
  exact ⟨hp'.trans hp, hr'.trans hr, fun hdirty => hd (hd' hdirty)⟩

theorem NoDirtier.dirtyAt (h : NoDirtier v v') (hd : v'.dirtyAt g t p = true) : v.dirtyAt g t p = true := by
  obtain ⟨hp,hr,hdirty⟩ := h t (g.groupNo t p)
  rw [dirtyAt_iff, holds_iff] at hd ⊢
  rw [hp, hr] at hd
  exact ⟨hd.1, hdirty hd.2⟩

theorem NoDirtier.clean (h : NoDirtier v v') (hn : v.dirtyAt g t p = false) : v'.dirtyAt g t p = false := by
  refine Bool.eq_false_iff.mpr fun hd => ?_
  rw [h.dirtyAt hd] at hn
  cases hn

theorem noDirtier_storePage (g : Geometry) (v : Volume) (t : CacheDataType) (group : Nat) :
    NoDirtier v (storePage g false v t group).2 := by
  intro t' group'
  have htag := tag_congr (copiesOf_diskCache g false v t group)
  refine ⟨(storePage_tag g v t t' group group').1, (storePage_tag g v t t' group group').2, ?_⟩
  unfold storePage
  split
  · rw [tag_setTag]
    split
    · intro hd
      cases hd
    · rw [htag]
      exact id
  · rw [htag]
    exact id

theorem Refines.flushGroups : ∀ (groups : List Nat) (v : Volume), Refines g v f →
    Refines g (flushGroups g false t groups v).2 f ∧ NoDirtier v (flushGroups g false t groups v).2 ∧
      ((flushGroups g false t groups v).1 = true → ∀ group ∈ groups,
        0 < (v.tag t group).realSize → ((flushGroups g false t groups v).2.tag t group).dirty = false) := by
  intro groups
  induction groups with
  | nil =>
    intro v h
    exact ⟨h, fun _ _ => ⟨rfl, rfl, id⟩, fun _ group hg => absurd hg not_mem_nil⟩
  | cons group rest ih =>
    intro v h
    unfold Fat.flushGroups
    split
    · next hd =>
      have hstore := h.storePage hd.1 hd.2
      have hless := noDirtier_storePage g v t group
      split
      · next hok =>
        obtain ⟨hkept,hmore,hclean⟩ := ih _ hstore
        refine ⟨hkept, hless.trans hmore, fun hdone group' hg' hv => ?_⟩
        obtain rfl | hg' := mem_cons.mp hg'
        · refine Bool.eq_false_iff.mpr fun hdirty => ?_
          have := (hmore t group').2.2 hdirty
          rw [storePage_dirty hok] at this
          cases this
        · exact hclean hdone group' hg' (by rw [(hless t group').2.1]; exact hv)
      · next hok => exact ⟨hstore, hless, fun hdone => absurd hdone hok⟩
    · next hd =>
      obtain ⟨hkept,hmore,hclean⟩ := ih v h
      refine ⟨hkept, hmore, fun hdone group' hg' hv => ?_⟩
      obtain rfl | hg' := mem_cons.mp hg'
      · exact Bool.eq_false_iff.mpr fun hdirty => hd ⟨hv, (hmore t group').2.2 hdirty⟩
      · exact hclean hdone group' hg' hv

variable {task : Bool}

theorem flushGroups_clean
    (hn : ∀ group, ¬(0 < (v.tag t group).realSize ∧ (v.tag t group).dirty = true)) :
    ∀ groups, flushGroups g task t groups v = (true,v) := by
  intro groups
  induction groups with
  | nil => rfl
  | cons group rest ih =>
    unfold flushGroups
    rw [if_neg (hn group)]
    exact ih

theorem Refines.not_dirty (h : Refines g v f) (hn : ∀ p, v.dirtyAt g t p = false) (group : Nat) :
    ¬(0 < (v.tag t group).realSize ∧ (v.tag t group).dirty = true) := by
  rintro ⟨hv,hd⟩
  have hgroup := (h.valid t group hv).1
  have := hn (v.tag t group).pageNo
  unfold Volume.dirtyAt Volume.holds at this
  rw [hgroup] at this
  simp [hv, hd] at this

theorem Refines.setDirty (h : Refines g v f) (hn : ∀ p, v.dirtyAt g t p = false) :
    Refines g (v.setDirty t false) f := by
  have hhold (t' : CacheDataType) (p : Nat) : (v.setDirty t false).holds g t' p = v.holds g t' p := by
    simp only [Volume.holds, tag_setDirty]
  have hdirtyAt (t' : CacheDataType) (p : Nat) : (v.setDirty t false).dirtyAt g t' p = v.dirtyAt g t' p := by
    simp only [Volume.dirtyAt, hhold, tag_setDirty]
  constructor
  · intro t' group
    rw [tag_setDirty]
    exact h.valid t' group
  · intro t' p i hp hi
    rw [hhold] at hp
    rw [page_setDirty]
    exact h.page t' p i hp hi
  · intro t' p i hd hi
    rw [hdirtyAt] at hd
    exact h.disk t' p i hd hi
  · intro t' p hd
    rw [hdirtyAt] at hd
    rw [dirty_setDirty, if_neg]
    · exact h.dirty t' p hd
    · rintro rfl
      rw [hn p] at hd
      cases hd
  · exact h.queued

theorem noDirtier_setDirty (v : Volume) (t : CacheDataType) : NoDirtier v (v.setDirty t false) := by
  intro t' group
  rw [tag_setDirty]
  exact ⟨rfl, rfl, id⟩

theorem Refines.flushType (h : Refines g v f) (hsound : task = true → ∀ p, v.dirtyAt g t p = false) :
    Refines g (flushType g task t v).2 f ∧ NoDirtier v (flushType g task t v).2 ∧
      ((flushType g task t v).1 = true → ∀ p, (flushType g task t v).2.dirtyAt g t p = false) := by
  unfold Fat.flushType
  split
  · cases task with
    | true =>
      have hn := hsound rfl
      rw [flushGroups_clean (h.not_dirty hn), if_pos rfl]
      exact ⟨h.setDirty hn, noDirtier_setDirty v t, fun _ p => (noDirtier_setDirty v t).clean (hn p)⟩
    | false =>
      obtain ⟨hkept,hless,hclean⟩ := @Refines.flushGroups g f t (range (g.groupCount t)) v h
      split
      · next hok =>
        have hn (p : Nat) :
            (Fat.flushGroups g false t (range (g.groupCount t)) v).2.dirtyAt g t p = false := by
          refine Bool.eq_false_iff.mpr fun hd => ?_
          rw [dirtyAt_iff, holds_iff, (hless t _).2.1] at hd
          have := hclean hok (g.groupNo t p)
            (mem_range.mpr (Nat.mod_lt p (g.groupCount_pos t))) hd.1.1
          rw [hd.2] at this
          cases this
        refine ⟨hkept.setDirty hn, hless.trans (noDirtier_setDirty _ t), fun _ p => ?_⟩
        exact (noDirtier_setDirty _ t).clean (hn p)
      · next hok => exact ⟨hkept, hless, fun hdone => absurd hdone hok⟩
  · next hflag =>
    refine ⟨h, fun _ _ => ⟨rfl, rfl, id⟩, fun _ p => Bool.eq_false_iff.mpr fun hd => ?_⟩
    exact hflag (h.dirty t p hd)

theorem Refines.consume (h : Refines g v f) : Refines g v.consume f := h.of_disk rfl rfl fun _ _ _ _ _ => rfl

theorem Refines.fatVolumeFlushCache (h : Refines g v f)
    (hsound : task = true → ∀ t p, v.dirtyAt g t p = false) :
    Refines g (fatVolumeFlushCache g v task).2 f ∧ ((fatVolumeFlushCache g v task).1 = true →
        ∀ t p, (fatVolumeFlushCache g v task).2.dirtyAt g t p = false) := by
  obtain ⟨hfat,hless,hcleanFat⟩ := @Refines.flushType g v f .cacheFat task h fun ht => hsound ht .cacheFat
  obtain ⟨hdata,hless',hcleanData⟩ := @Refines.flushType g _ f .cacheData task hfat fun ht p =>
    hless.clean (hsound ht .cacheData p)
  unfold Fat.fatVolumeFlushCache
  split
  · next hokFat =>
    split
    · next hokData =>
      refine ⟨hdata.consume, fun _ t p => ?_⟩
      cases t with
      | cacheFat => exact hless'.clean (hcleanFat hokFat p)
      | cacheData => exact hcleanData hokData p
    · next hokData => exact ⟨hdata, fun hdone => absurd hdone hokData⟩
  · next hokFat => exact ⟨hfat, fun hdone => absurd hdone hokFat⟩

inductive Op
  | access (t : CacheDataType) (write task : Bool) (offset size : Nat) (buffer : Nat → UInt8)
  | queueTask
  | flush (task : Bool)

structure State where
  volume : Volume
  array : Nat → UInt8

def flatAccess (g : Geometry) (t : CacheDataType) (write task : Bool) (offset size : Nat)
    (buffer f : Nat → UInt8) : Nat → UInt8 := if write then
    if task then flatParts g t true true buffer (parts g t (offset - g.baseAddress t) size) 0 f
    else patch f offset size buffer
  else f

def Op.run (g : Geometry) : Op → State → State
  | .access t write task offset size buffer, s =>
    ⟨(fatDiskIo g s.volume t write task offset size buffer).volume,
      if (fatDiskIo g s.volume t write task offset size buffer).ok then
        flatAccess g t write task offset size buffer s.array
      else s.array⟩
  | .queueTask, s =>
    ⟨(fatQueueTask s.volume).2, flatSubtasks s.volume.subtasks (fatQueueTask s.volume).1 s.array⟩
  | .flush task, s => ⟨(fatVolumeFlushCache g s.volume task).2, s.array⟩

/-- What the callers promise: the access is one of the region of its cache, and of the FAT no whole page is
asked for. -/
def Op.Called (g : Geometry) : Op → Prop
  | .access t _ _ offset size _ =>
    g.baseAddress t ≤ offset ∧ (t = .cacheFat → offset+size ≤ g.limitAddress t ∧
        ∀ pageNo count, Part.pages pageNo count ∉ parts g t (offset - g.baseAddress t) size)
  | .queueTask => True
  | .flush _ => True

def Op.Sound (g : Geometry) (v : Volume) : Op → Prop
  | .access t write task offset size buffer =>
    SoundParts g t write task true (parts g t (offset - g.baseAddress t) size) 0 buffer v
  | .queueTask => ∀ s ∈ v.subtasks, SoundSubtask g v s
  | .flush task => task = true → ∀ t p, v.dirtyAt g t p = false

variable {buffer : Nat → UInt8}

theorem sound_access {ps : List Part} (hparts : parts g t (offset - g.baseAddress t) size = ps)
    (h : SoundParts g t write task true ps 0 buffer v) :
    (Op.access t write task offset size buffer).Sound g v := by
  subst hparts
  exact h

def runOps (g : Geometry) : List Op → State → State
  | [], s => s
  | op :: ops, s => runOps g ops (op.run g s)

def SoundRun (g : Geometry) : List Op → State → Prop
  | [], _ => True
  | op :: ops, s => op.Called g ∧ op.Sound g s.volume ∧ SoundRun g ops (op.run g s)

theorem chain_called
    (hcalled : (Op.access t write task offset size buffer).Called g) (hle : offset+size ≤ g.volumeSize) :
    Chain g t offset size (parts g t (offset - g.baseAddress t) size) := by
  refine chain_parts hcalled.1 ?_ fun pageNo count ht => (hcalled.2 ht).2 pageNo count
  cases t with
  | cacheFat => exact (hcalled.2 rfl).1
  | cacheData => exact hle

theorem Refines.fatDiskIo
    (h : Refines g v f) (hcalled : (Op.access t write task offset size buffer).Called g)
    (hsound : (Op.access t write task offset size buffer).Sound g v) :
    Refines g (fatDiskIo g v t write task offset size buffer).volume
      (if (fatDiskIo g v t write task offset size buffer).ok then
        flatAccess g t write task offset size buffer f else f) := by
  unfold Fat.fatDiskIo
  split
  · exact h
  next hle =>
  have hch := chain_called hcalled (Nat.le_of_not_lt hle)
  have hparts := (Refines.accessParts _ true 0 buffer v f h hch.fits hsound).1
  have hflat : flatParts g t write task buffer (parts g t (offset - g.baseAddress t) size) 0 f =
      flatAccess g t write task offset size buffer f := by
    cases write with
    | false => exact flatParts_read g t task buffer _ 0 f
    | true =>
      cases task with
      | false =>
        have hwhole := flatParts_blocking _ offset size 0 buffer f hch
        simp only [zero_add] at hwhole
        exact hwhole
      | true => rfl
  rw [hflat] at hparts
  exact hparts

theorem Refines.fatDiskIo_buffer
    (h : Refines g v f) (hcalled : (Op.access t false task offset size buffer).Called g)
    (hsound : (Op.access t false task offset size buffer).Sound g v)
    (hok : (Fat.fatDiskIo g v t false task offset size buffer).ok = true) (hi : i < size)
    (himm : Immediate g t task (parts g t (offset - g.baseAddress t) size) (offset+i)) :
    (Fat.fatDiskIo g v t false task offset size buffer).buffer i = f (offset+i) := by
  unfold Fat.fatDiskIo at hok ⊢
  split
  · next hlt =>
    rw [if_pos hlt] at hok
    cases hok
  next hle =>
  rw [if_neg hle] at hok
  have hch := chain_called hcalled (Nat.le_of_not_lt hle)
  have hread := (Refines.accessParts_buffer _ true offset size 0 buffer v h hch hsound hok).1 i hi himm
  rw [zero_add] at hread
  exact hread

theorem Refines.run (op : Op) {s : State} (h : Refines g s.volume s.array) (hcalled : op.Called g)
    (hsound : op.Sound g s.volume) : Refines g (op.run g s).volume (op.run g s).array := by
  cases op with
  | access t write task offset size buffer => exact h.fatDiskIo hcalled hsound
  | queueTask => exact (h.fatQueueTask hsound).1
  | flush task => exact (h.fatVolumeFlushCache hsound).1

theorem Refines.runOps : ∀ (ops : List Op) (s : State), Refines g s.volume s.array → SoundRun g ops s →
    Refines g (runOps g ops s).volume (runOps g ops s).array := by
  intro ops
  induction ops with
  | nil =>
    intro s h _
    exact h
  | cons op rest ih =>
    intro s h hsound
    exact ih (op.run g s) (h.run op hsound.1 hsound.2.1) hsound.2.2

/-- The volume after FatInitializeDiskCache. -/
def mounted (disk : Nat → UInt8) (outcomes : List Bool) : State :=
  ⟨⟨disk, fun _ => ⟨false, fun _ => ⟨0, 0, false⟩, fun _ _ => 0⟩, [], outcomes⟩, disk⟩

theorem refines_mounted (g : Geometry) (disk : Nat → UInt8) (outcomes : List Bool) :
    Refines g (mounted disk outcomes).volume (mounted disk outcomes).array := by
  constructor
  · intro t group hv
    exact absurd hv (lt_irrefl 0)
  · intro t p i hp _
    exact absurd (holds_iff.mp hp).1 (lt_irrefl 0)
  · intro t p i _ _
    rfl
  · intro t p hd
    exact absurd (holds_iff.mp (dirtyAt_iff.mp hd).1).1 (lt_irrefl 0)
  · intro s hs
    exact absurd hs not_mem_nil

/-- After any run whose operations meet their conditions a read that succeeds returns the bytes of the
array, and so do the reads of a task; after a flush that succeeds the disk is the array; and a valid page
holds the bytes of the array. -/
theorem disk_cache_coherent (g : Geometry) (disk : Nat → UInt8) (outcomes : List Bool) (ops : List Op)
    (hrun : SoundRun g ops (mounted disk outcomes)) :
    (∀ t task offset size buffer i, (Op.access t false task offset size buffer).Called g →
      (Op.access t false task offset size buffer).Sound g (runOps g ops (mounted disk outcomes)).volume →
      (fatDiskIo g (runOps g ops (mounted disk outcomes)).volume t false task offset size buffer).ok = true →
      i < size → (task = false ∨ Immediate g t task (parts g t (offset - g.baseAddress t) size) (offset+i)) →
      (fatDiskIo g (runOps g ops (mounted disk outcomes)).volume t false task offset size buffer).buffer i =
        (runOps g ops (mounted disk outcomes)).array (offset+i)) ∧
    (Op.queueTask.Sound g (runOps g ops (mounted disk outcomes)).volume →
      ReadsArray (runOps g ops (mounted disk outcomes)).volume.subtasks
        (fatQueueTask (runOps g ops (mounted disk outcomes)).volume).1
        (runOps g ops (mounted disk outcomes)).array) ∧
    (∀ task t pos, (Op.flush task).Sound g (runOps g ops (mounted disk outcomes)).volume →
      (fatVolumeFlushCache g (runOps g ops (mounted disk outcomes)).volume task).1 = true →
      g.baseAddress t ≤ pos → pos < g.limitAddress t →
      (fatVolumeFlushCache g (runOps g ops (mounted disk outcomes)).volume task).2.disk pos =
        (runOps g ops (mounted disk outcomes)).array pos) ∧
    ∀ t pageNo i, (runOps g ops (mounted disk outcomes)).volume.holds g t pageNo = true →
      i < g.realSize t pageNo →
      ((runOps g ops (mounted disk outcomes)).volume.diskCache t).page (g.groupNo t pageNo) i =
        (runOps g ops (mounted disk outcomes)).array (g.entryPos t pageNo + i) := by
  have h := Refines.runOps ops _ (refines_mounted g disk outcomes) hrun
  refine ⟨?_, fun hsound => (h.fatQueueTask hsound).2, ?_, h.page⟩
  · intro t task offset size buffer i hcalled hsound hok hi himm
    refine h.fatDiskIo_buffer hcalled hsound hok hi ?_
    obtain rfl | himm := himm
    · intro p _ hd
      cases p <;> cases hd
    · exact himm
  · intro task t pos hsound hok hb hl
    obtain ⟨hkept,hclean⟩ := h.fatVolumeFlushCache hsound
    obtain ⟨p,i,hi,rfl⟩ := Geometry.exists_page hb hl
    exact hkept.disk t p i (hclean hok t p) hi

/-- A FAT12 volume of a floppy disk. -/
def floppy : Geometry where
  fatPos := 512
  fatSize := 4608
  numFats := 2
  rootPos := 9728
  volumeSize := 1474560
  pageAlignment := fun _ => 13
  groupCount := fun
    | .cacheFat => 1
    | .cacheData => 64
  numFats_pos := by decide
  groupCount_pos := by
    intro t
    cases t <;> decide
  fats_before_root := by decide
  root_le := by decide

def oneByte : Nat → UInt8 := fun i => if i = 9728 then 7 else 0

def readByte (offset : Nat) : Op := .access .cacheData false false offset 1 fun _ => 0

/-- A byte of the root directory is written in the cache, and another page of the group read: the page is written
before the other one is loaded over it, and the byte is read again. -/
theorem disk_cache_coherent_floppy :
    (runOps floppy [.access .cacheData true false 9728 1 fun _ => 9, readByte 534016]
      (mounted oneByte [])).volume.disk 9728 = 9 ∧
    (fatDiskIo floppy (runOps floppy [.access .cacheData true false 9728 1 fun _ => 9, readByte 534016]
      (mounted oneByte [])).volume .cacheData false false 9728 1 fun _ => 0).buffer 0 = 9 := by
  have hfirst : parts floppy .cacheData (9728 - floppy.baseAddress .cacheData) 1 = [.page 0 0 1] := by decide
  have hother : parts floppy .cacheData (534016 - floppy.baseAddress .cacheData) 1 = [.page 64 0 1] := by decide
  have hsound : SoundRun floppy [.access .cacheData true false 9728 1 fun _ => 9, readByte 534016]
      (mounted oneByte []) := by
    refine ⟨⟨le_rfl, fun ht => absurd ht (by decide)⟩, sound_access hfirst ?_,
      ⟨by decide, fun ht => absurd ht (by decide)⟩, sound_access hother ?_, trivial⟩
    · exact ⟨fun _ hv => absurd hv (lt_irrefl 0), fun _ hf => absurd hf (by decide), fun _ => trivial⟩
    · exact ⟨fun _ _ _ => by decide, fun hw => absurd hw (by decide), fun _ => trivial⟩
  refine ⟨by decide, ?_⟩
  have hread := (disk_cache_coherent floppy oneByte [] _ hsound).1 .cacheData false 9728 1 (fun _ => 0) 0
    ⟨le_rfl, fun ht => absurd ht (by decide)⟩
    (sound_access hfirst ⟨fun _ _ _ => by decide, fun hw => absurd hw (by decide), fun _ => trivial⟩)
    (by decide) (by decide) (.inl rfl)
  exact hread.trans (by decide)

/-- A page of the data is loaded, then the load of another page of the group fails, and the next read of that
one is a hit on the bytes of the first. -/
theorem failed_load_hits :
    (fatDiskIo floppy (runOps floppy [readByte 9728, readByte 534016] (mounted oneByte [true, false])).volume
        .cacheData false false 534016 1 fun _ => 0).ok = true ∧
      (fatDiskIo floppy (runOps floppy [readByte 9728, readByte 534016] (mounted oneByte [true, false])).volume
        .cacheData false false 534016 1 fun _ => 0).buffer 0 ≠
      (runOps floppy [readByte 9728, readByte 534016] (mounted oneByte [true, false])).array 534016 := by
  decide

end Liano.Fat
