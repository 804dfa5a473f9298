import Liano.Fat.Pages

/-! An access of the cache against the flat array: the aligned pages, and the parts one after the other. -/
namespace Liano.Fat

open Lib List

variable {g : Geometry} {v v' : Volume} {f f' : Nat → UInt8} {t t' : CacheDataType} {p i : Nat}

section
variable (g : Geometry) (v : Volume) (start stop : Nat) (t : CacheDataType)

theorem tag_invalidateRange (group : Nat) : (invalidateRange g v start stop).tag t group =
      if t = .cacheData ∧ 0 < (v.tag t group).realSize ∧ start ≤ (v.tag t group).pageNo ∧
          (v.tag t group).pageNo < stop ∧ g.groupNo t (v.tag t group).pageNo = group then
        { v.tag t group with realSize := 0 }
      else v.tag t group := by
  cases t with
  | cacheFat => rfl
  | cacheData =>
    simp only [true_and]
    rfl

theorem page_invalidateRange :
    ((invalidateRange g v start stop).diskCache t).page = (v.diskCache t).page := by cases t <;> rfl

theorem flag_invalidateRange :
    ((invalidateRange g v start stop).diskCache t).dirty = (v.diskCache t).dirty := by cases t <;> rfl

end

def InRange (start stop : Nat) (t : CacheDataType) (p : Nat) : Prop := t = .cacheData ∧ start ≤ p ∧ p < stop

variable {start stop pageNo count size : Nat} {task : Bool}

theorem holds_invalidateRange : (invalidateRange g v start stop).holds g t p = true ↔
      v.holds g t p = true ∧ ¬InRange start stop t p := by
  rw [holds_iff, holds_iff, tag_invalidateRange]
  split
  · next he =>
    constructor
    · intro hp
      exact absurd hp.1 (lt_irrefl 0)
    · rintro ⟨hp,hn⟩
      rw [hp.2] at he
      exact absurd ⟨he.1, he.2.2.1, he.2.2.2.1⟩ hn
  · next he =>
    constructor
    · intro hp
      refine ⟨hp, fun hr => he ?_⟩
      rw [hp.2]
      exact ⟨hr.1, hp.1, hr.2.1, hr.2.2, rfl⟩
    · exact fun hp => hp.1

theorem dirtyAt_invalidateRange : (invalidateRange g v start stop).dirtyAt g t p = true ↔
      v.dirtyAt g t p = true ∧ ¬InRange start stop t p := by
  rw [dirtyAt_iff, dirtyAt_iff, holds_invalidateRange, tag_invalidateRange]
  split <;> exact and_right_comm

theorem Refines.invalidateRange (h : Refines g v f) (hc : v'.diskCache = v.diskCache)
    (hq : ∀ s ∈ v'.subtasks, g.rootPos ≤ s.offset ∧ s.offset+s.bufferSize ≤ g.volumeSize)
    (hin : ∀ t p i, InRange start stop t p → i < g.realSize t p →
      v'.disk (g.entryPos t p + i) = f' (g.entryPos t p + i))
    (hout : ∀ t p i, ¬InRange start stop t p → i < g.realSize t p →
      v'.disk (g.entryPos t p + i) = v.disk (g.entryPos t p + i) ∧
        f' (g.entryPos t p + i) = f (g.entryPos t p + i)) :
    Refines g (invalidateRange g v' start stop) f' := by
  constructor
  · intro t group hv
    rw [tag_invalidateRange] at hv ⊢
    split at hv
    · cases hv
    next he =>
    rw [if_neg he]
    rw [tag_congr hc] at hv ⊢
    exact h.valid t group hv
  · intro t p i hp hi
    obtain ⟨hp,hr⟩ := holds_invalidateRange.mp hp
    rw [holds_congr hc] at hp
    rw [page_invalidateRange, hc, (hout t p i hr hi).2]
    exact h.page t p i hp hi
  · intro t p i hn hi
    by_cases hr : InRange start stop t p
    · exact hin t p i hr hi
    refine (hout t p i hr hi).1.trans ((h.disk t p i ?_ hi).trans (hout t p i hr hi).2.symm)
    refine Bool.eq_false_iff.mpr fun hd => ?_
    rw [← dirtyAt_congr hc] at hd
    rw [dirtyAt_invalidateRange.mpr ⟨hd, hr⟩] at hn
    cases hn
  · intro t p hd
    have hdirty := (dirtyAt_invalidateRange.mp hd).1
    rw [dirtyAt_congr hc] at hdirty
    rw [flag_invalidateRange, hc]
    exact h.dirty t p hdirty
  · exact hq

theorem Geometry.inRange_iff (hi : i < g.realSize t p) : InRange pageNo (pageNo+count) t p ↔
      g.rootPos + pageNo * g.pageSize .cacheData ≤ g.entryPos t p + i ∧ g.entryPos t p + i <
          g.rootPos + pageNo * g.pageSize .cacheData + count * g.pageSize .cacheData := by
  have hsum : (pageNo+count) * g.pageSize .cacheData =
      pageNo * g.pageSize .cacheData + count * g.pageSize .cacheData := add_mul _ _ _
  have hlt := lt_of_lt_of_le hi (g.realSize_le t p)
  constructor
  · rintro ⟨rfl,hle,hstop⟩
    have hstart : pageNo * g.pageSize .cacheData ≤ p * g.pageSize .cacheData := Nat.mul_le_mul_right _ hle
    have hend : (p+1) * g.pageSize .cacheData ≤ (pageNo+count) * g.pageSize .cacheData :=
      Nat.mul_le_mul_right _ hstop
    rw [Nat.succ_mul] at hend
    simp only [Geometry.entryPos, Geometry.baseAddress]
    omega
  · rintro ⟨hle,hstop⟩
    cases t with
    | cacheFat =>
      have hroot := g.fats_before_root
      have hfat := g.fatSize_le
      have hlim := Geometry.entryPos_lt hi
      simp only [Geometry.limitAddress] at hlim
      omega
    | cacheData =>
      refine ⟨rfl, Nat.le_of_not_lt fun hlow => ?_, Nat.lt_of_not_le fun hhigh => ?_⟩
      · have : (p+1) * g.pageSize .cacheData ≤ pageNo * g.pageSize .cacheData := Nat.mul_le_mul_right _ hlow
        rw [Nat.succ_mul] at this
        simp only [Geometry.entryPos, Geometry.baseAddress] at hle
        omega
      · have : (pageNo+count) * g.pageSize .cacheData ≤ p * g.pageSize .cacheData :=
          Nat.mul_le_mul_right _ hhigh
        simp only [Geometry.entryPos, Geometry.baseAddress] at hstop
        omega

theorem alignedIo_task (g : Geometry) (v : Volume) (write : Bool) (pageNo count : Nat)
    (buffer : Nat → UInt8) : (alignedIo g v write true pageNo count buffer).volume.disk = v.disk ∧
      ∀ s ∈ (alignedIo g v write true pageNo count buffer).volume.subtasks,
        s ∈ v.subtasks ∨ s = ⟨write, g.rootPos + pageNo * g.pageSize .cacheData,
          count * g.pageSize .cacheData, buffer⟩ := by
  unfold alignedIo diskIo
  split
  · exact ⟨rfl, fun s hs => .inl hs⟩
  rw [if_pos rfl]
  unfold queueSubtask
  split
  · exact ⟨rfl, fun s hs => .inl hs⟩
  refine ⟨rfl, fun s hs => ?_⟩
  obtain hs | hs := mem_append.mp hs
  · exact .inl hs
  · exact .inr (mem_singleton.mp hs)

theorem Refines.aligned_write (h : Refines g v f) (buffer : Nat → UInt8)
    (hok : (alignedIo g v true false pageNo count buffer).ok = true) :
    Refines g (Fat.invalidateRange g (alignedIo g v true false pageNo count buffer).volume pageNo
        (pageNo+count))
      (patch f (g.rootPos + pageNo * g.pageSize .cacheData) (count * g.pageSize .cacheData) buffer) := by
  refine h.invalidateRange (diskIo_diskCache _ _ _ _ _ _ _) ?_ ?_ ?_
  · unfold alignedIo
    rw [diskIo_subtasks]
    exact h.queued
  · intro t p i hr hi
    have hpos := (Geometry.inRange_iff hi).mp hr
    unfold alignedIo at hok ⊢
    rw [diskIo_write hok, patch_inside hpos.1 hpos.2, patch_inside hpos.1 hpos.2]
  · intro t p i hr hi
    have hpos := fun hin => hr ((Geometry.inRange_iff hi).mpr hin)
    unfold alignedIo at hok ⊢
    rw [diskIo_write hok]
    exact ⟨patch_outside hpos, patch_outside hpos⟩

theorem Refines.alignedIo_blocking (h : Refines g v f) (write : Bool) (buffer : Nat → UInt8)
    (hd : (alignedIo g v write false pageNo count buffer).volume.disk = v.disk) :
    Refines g (alignedIo g v write false pageNo count buffer).volume f :=
  h.of_disk (diskIo_diskCache _ _ _ _ _ _ _) (diskIo_subtasks _ _ _ _ _ _) fun _ _ _ _ _ => congrFun hd _

section Aligned

variable {pageNo count : Nat} (hfits : g.rootPos + (pageNo+count) * g.pageSize .cacheData ≤ g.volumeSize)
include hfits

theorem Geometry.realSize_aligned {q : Nat} (hq : q < pageNo+count) :
    g.realSize .cacheData q = g.pageSize .cacheData := by
  have hle : (q+1) * g.pageSize .cacheData ≤ (pageNo+count) * g.pageSize .cacheData :=
    Nat.mul_le_mul_right _ hq
  rw [Nat.succ_mul] at hle
  simp only [Geometry.realSize, Geometry.limitAddress, Geometry.entryPos, Geometry.baseAddress]
  omega

theorem Refines.alignedIo_queued (h : Refines g v f) (write : Bool) (buffer : Nat → UInt8) :
    ∀ s ∈ (alignedIo g v write true pageNo count buffer).volume.subtasks,
      g.rootPos ≤ s.offset ∧ s.offset+s.bufferSize ≤ g.volumeSize := by
  intro s hs
  obtain hs | rfl := (alignedIo_task g v write pageNo count buffer).2 s hs
  · exact h.queued s hs
  · rw [add_mul] at hfits
    exact ⟨Nat.le_add_right _ _, by dsimp only; omega⟩

theorem Refines.alignedIo_task (h : Refines g v f) (write : Bool) (buffer : Nat → UInt8) :
    Refines g (alignedIo g v write true pageNo count buffer).volume f :=
  h.of_queue (diskIo_diskCache _ _ _ _ _ _ _) (Fat.alignedIo_task g v write pageNo count buffer).1
    (h.alignedIo_queued hfits write buffer)

theorem Refines.aligned_write_task (h : Refines g v f) (buffer : Nat → UInt8)
    (hclean : ∀ q, pageNo ≤ q → q < pageNo+count → v.dirtyAt g .cacheData q = false) :
    Refines g (Fat.invalidateRange g (alignedIo g v true true pageNo count buffer).volume pageNo
      (pageNo+count)) f := by
  have hd := (Fat.alignedIo_task g v true pageNo count buffer).1
  refine h.invalidateRange (diskIo_diskCache _ _ _ _ _ _ _) (h.alignedIo_queued hfits true buffer) ?_ ?_
  · rintro t p i ⟨rfl,hle,hlt⟩ hi
    rw [hd]
    exact h.disk _ p i (hclean p hle hlt) hi
  · intro t p i _ _
    rw [hd]
    exact ⟨rfl, rfl⟩

theorem Refines.aligned_buffer (h : Refines g v f) (buffer : Nat → UInt8)
    (hok : (accessAligned g v false false pageNo count buffer).ok = true)
    (hi : i < count * g.pageSize .cacheData) : (accessAligned g v false false pageNo count buffer).buffer i =
      f (g.rootPos + pageNo * g.pageSize .cacheData + i) := by
  have hc := diskIo_diskCache g v false false (g.rootPos + pageNo * g.pageSize .cacheData)
    (count * g.pageSize .cacheData) buffer
  have hpage : i / g.pageSize .cacheData < count := Nat.div_lt_of_lt_mul (by rwa [mul_comm] at hi)
  have hreal := Geometry.realSize_aligned hfits (Nat.add_lt_add_left hpage pageNo)
  have hmod := Nat.mod_lt i (g.pageSize_pos .cacheData)
  have hpos : g.entryPos .cacheData (pageNo + i / g.pageSize .cacheData) + i % g.pageSize .cacheData =
      g.rootPos + pageNo * g.pageSize .cacheData + i := by
    have hdm := Nat.div_add_mod' i (g.pageSize .cacheData)
    simp only [Geometry.entryPos, Geometry.baseAddress, add_mul]
    omega
  unfold accessAligned at hok ⊢
  split
  · next hio =>
    rw [if_neg Bool.false_ne_true]
    dsimp only [overlayRange]
    rw [← hpos]
    split
    · next hd =>
      unfold alignedIo at hd ⊢
      rw [dirtyAt_congr hc] at hd
      rw [hc]
      exact h.page _ _ _ (dirtyAt_iff.mp hd.2).1 (by omega)
    next hd =>
    unfold alignedIo at hd ⊢
    rw [dirtyAt_congr hc] at hd
    rw [diskIo_read_buffer hio]
    dsimp only
    rw [← hpos]
    refine h.disk _ _ _ (Bool.eq_false_iff.mpr fun hdirty => hd ⟨?_, hdirty⟩) (by omega)
    exact Nat.add_lt_add_left hpage pageNo
  · next hio =>
    rw [if_neg hio] at hok
    exact absurd hok hio

end Aligned

def Part.Fits (g : Geometry) (t : CacheDataType) : Part → Prop
  | .page pageNo offset length => 0 < offset+length ∧ offset+length ≤ g.realSize t pageNo
  | .pages pageNo count =>
    t = .cacheData ∧ g.rootPos + (pageNo+count) * g.pageSize .cacheData ≤ g.volumeSize

def Part.deferred (task : Bool) : Part → Bool
  | .page _ _ _ => false
  | .pages _ _ => task

/-- What a part needs: a page load that cannot fail over another page, and no dirty page that is dropped for
a write of later. -/
def SoundPart (g : Geometry) (v : Volume) (t : CacheDataType) (write task : Bool) : Part → Prop
  | .page pageNo _ _ => LoadSafe g v t pageNo
  | .pages pageNo count => write = true → task = true →
      ∀ q, pageNo ≤ q → q < pageNo+count → v.dirtyAt g .cacheData q = false

def flatPart (g : Geometry) (t : CacheDataType) (write task : Bool) (buffer : Nat → UInt8) (p : Part)
    (f : Nat → UInt8) : Nat → UInt8 :=
  if write && !p.deferred task then patch f (p.position g t) (p.size g) buffer else f

theorem Refines.accessPart {write : Bool} {part : Part} (h : Refines g v f) (buffer : Nat → UInt8)
    (hfits : part.Fits g t) (hsound : SoundPart g v t write task part) :
    Refines g (accessPart g v t write task buffer part).volume
      (if (accessPart g v t write task buffer part).ok then flatPart g t write task buffer part f else f) := by
  cases part with
  | page pageNo offset length =>
    have hpos : 0 < g.realSize t pageNo := lt_of_lt_of_le hfits.1 hfits.2
    cases write with
    | false =>
      have hread := @Refines.accessPage_read g v f t pageNo offset buffer length h hpos hsound
      unfold Fat.accessPart flatPart
      simpa using hread
    | true => exact h.accessPage_write hpos hfits.2 hsound
  | pages pageNo count =>
    obtain ⟨rfl,hfits⟩ := hfits
    change Refines g (accessAligned g v write task pageNo count buffer).volume
      (if (accessAligned g v write task pageNo count buffer).ok then
        flatPart g .cacheData write task buffer (.pages pageNo count) f else f)
    unfold flatPart accessAligned
    cases write with
    | false =>
      have hread : Refines g (alignedIo g v false task pageNo count buffer).volume f := by
        cases task with
        | false => exact h.alignedIo_blocking false buffer (diskIo_read _ _ _ _ _)
        | true => exact h.alignedIo_task hfits false buffer
      split <;> simpa using hread
    | true =>
      split
      · next hok =>
        cases task with
        | false => exact h.aligned_write buffer hok
        | true => exact h.aligned_write_task hfits buffer (hsound rfl rfl)
      next hok =>
      cases task with
      | false => exact h.alignedIo_blocking true buffer (diskIo_fails (Bool.eq_false_iff.mpr hok))
      | true => exact h.alignedIo_task hfits true buffer

theorem Refines.accessPart_buffer {part : Part} (h : Refines g v f) (buffer : Nat → UInt8)
    (hfits : part.Fits g t) (hsound : SoundPart g v t false task part) (hdef : part.deferred task = false)
    (hok : (Fat.accessPart g v t false task buffer part).ok = true) (hi : i < part.size g) :
    (Fat.accessPart g v t false task buffer part).buffer i = f (part.position g t + i) := by
  cases part with
  | page pageNo offset length =>
    exact h.accessPage_buffer (lt_of_lt_of_le hfits.1 hfits.2) hfits.2 hsound hok hi
  | pages pageNo count =>
    obtain ⟨rfl,hfits⟩ := hfits
    obtain rfl : task = false := hdef
    exact h.aligned_buffer hfits buffer hok hi

def Chain (g : Geometry) (t : CacheDataType) : Nat → Nat → List Part → Prop
  | _, size, [] => size = 0
  | pos, size, p :: rest =>
    p.position g t = pos ∧ p.size g ≤ size ∧ p.Fits g t ∧ Chain g t (pos + p.size g) (size - p.size g) rest

theorem chain_overRunPart (hs : size ≤ g.realSize t pageNo) :
    Chain g t (g.entryPos t pageNo) size (overRunPart pageNo size) := by
  unfold overRunPart
  split
  · next hpos => exact ⟨rfl, le_rfl, ⟨by omega, by omega⟩, Nat.sub_self _⟩
  · next hz => exact Nat.eq_zero_of_not_pos hz

theorem Geometry.entryPos_add (g : Geometry) (t : CacheDataType) (p n : Nat) :
    g.entryPos t (p+n) = g.entryPos t p + n * g.pageSize t := by
  unfold Geometry.entryPos
  rw [add_mul, add_assoc]

theorem chain_alignedParts (hlim : g.entryPos t pageNo + size ≤ g.limitAddress t)
    (hfat : ∀ count, t = .cacheFat → Part.pages pageNo count ∉ alignedParts g t pageNo size) :
    Chain g t (g.entryPos t pageNo) size (alignedParts g t pageNo size) := by
  have hdm := Nat.div_add_mod' size (g.pageSize t)
  have hmod := Nat.mod_lt size (g.pageSize_pos t)
  unfold alignedParts at hfat ⊢
  split
  · next hpos =>
    rw [if_pos hpos] at hfat
    have ht : t = .cacheData := by
      cases t with
      | cacheFat => exact absurd mem_cons_self (hfat _ rfl)
      | cacheData => rfl
    subst ht
    have hend : g.rootPos + (pageNo + size / g.pageSize .cacheData) * g.pageSize .cacheData ≤
        g.volumeSize := by
      simp only [Geometry.entryPos, Geometry.limitAddress, Geometry.baseAddress] at hlim
      rw [add_mul]
      omega
    refine ⟨rfl, ?_, ⟨rfl, hend⟩, ?_⟩
    · simp only [Part.size]
      omega
    · have hrest : size - (Part.pages pageNo (size / g.pageSize .cacheData)).size g =
          size % g.pageSize .cacheData := by
        simp only [Part.size]
        omega
      rw [hrest]
      simp only [Part.size]
      rw [← Geometry.entryPos_add]
      refine chain_overRunPart (Nat.le_min.mpr ⟨le_of_lt hmod, ?_⟩)
      rw [Geometry.entryPos_add]
      omega
  · next hz =>
    rw [Nat.eq_zero_of_not_pos hz, zero_mul] at hdm
    exact chain_overRunPart (Nat.le_min.mpr ⟨by omega, by omega⟩)

theorem chain_parts {offset : Nat} (hb : g.baseAddress t ≤ offset)
    (hlim : offset+size ≤ g.limitAddress t) (hfat : ∀ pageNo count, t = .cacheFat →
      Part.pages pageNo count ∉ parts g t (offset - g.baseAddress t) size) :
    Chain g t offset size (parts g t (offset - g.baseAddress t) size) := by
  have hdm := Nat.div_add_mod' (offset - g.baseAddress t) (g.pageSize t)
  have hmod := Nat.mod_lt (offset - g.baseAddress t) (g.pageSize_pos t)
  have hpos : g.entryPos t ((offset - g.baseAddress t) / g.pageSize t) +
      (offset - g.baseAddress t) % g.pageSize t = offset := by
    unfold Geometry.entryPos
    omega
  unfold parts at hfat ⊢
  split
  · next hunder =>
    rw [if_pos hunder] at hfat
    have hlen : underRunLength g t (offset - g.baseAddress t) size ≤ size := min_le_right _ _
    have hlen' : underRunLength g t (offset - g.baseAddress t) size ≤
        g.pageSize t - (offset - g.baseAddress t) % g.pageSize t := min_le_left _ _
    refine ⟨hpos, hlen, ⟨by omega, Nat.le_min.mpr ⟨by omega, by omega⟩⟩, ?_⟩
    simp only [Part.size]
    -- the underrun ends at the next page, or with the access
    by_cases hall : size ≤ g.pageSize t - (offset - g.baseAddress t) % g.pageSize t
    · have hsize : underRunLength g t (offset - g.baseAddress t) size = size := min_eq_right hall
      rw [hsize, Nat.sub_self]
      simp [alignedParts, overRunPart, Chain]
    have hsize : underRunLength g t (offset - g.baseAddress t) size =
        g.pageSize t - (offset - g.baseAddress t) % g.pageSize t := min_eq_left (by omega)
    have hnext : offset + underRunLength g t (offset - g.baseAddress t) size =
        g.entryPos t ((offset - g.baseAddress t) / g.pageSize t + 1) := by
      rw [Geometry.entryPos_add, hsize]
      omega
    rw [hnext]
    refine chain_alignedParts (by omega) fun count hf hmem => ?_
    exact hfat _ count hf (mem_cons_of_mem _ hmem)
  · next hunder =>
    rw [if_neg hunder] at hfat
    have hstart : g.entryPos t ((offset - g.baseAddress t) / g.pageSize t) = offset := by omega
    have hch := @chain_alignedParts g t ((offset - g.baseAddress t) / g.pageSize t) size (by omega)
      fun count hf => hfat _ count hf
    rw [hstart] at hch
    exact hch

theorem Chain.fits : ∀ {ps : List Part} {pos size : Nat}, Chain g t pos size ps → ∀ p ∈ ps, p.Fits g t := by
  intro ps
  induction ps with
  | nil =>
    intro pos size _ p hp
    exact absurd hp not_mem_nil
  | cons q rest ih =>
    intro pos size hch p hp
    obtain rfl | hp := mem_cons.mp hp
    · exact hch.2.2.1
    · exact ih hch.2.2.2 p hp

/-- What the parts need, each in the volume it meets. A part of a write that is not the first does not
fail. -/
def SoundParts (g : Geometry) (t : CacheDataType) (write task : Bool) :
    Bool → List Part → Nat → (Nat → UInt8) → Volume → Prop
  | _, [], _, _, _ => True
  | first, p :: rest, done, buffer, v =>
    SoundPart g v t write task p ∧ (write = true → first = false →
        (accessPart g v t write task (fun i => buffer (done+i)) p).ok = true) ∧
      ((accessPart g v t write task (fun i => buffer (done+i)) p).ok = true →
        SoundParts g t write task false rest (done + p.size g) (if write then buffer
            else patch buffer done (p.size g)
              (accessPart g v t write task (fun i => buffer (done+i)) p).buffer)
          (accessPart g v t write task (fun i => buffer (done+i)) p).volume)

def flatParts (g : Geometry) (t : CacheDataType) (write task : Bool) (buffer : Nat → UInt8) :
    List Part → Nat → (Nat → UInt8) → Nat → UInt8
  | [], _, f => f
  | p :: rest, done, f =>
    flatParts g t write task buffer rest (done + p.size g)
      (flatPart g t write task (fun i => buffer (done+i)) p f)

theorem flatParts_read (g : Geometry) (t : CacheDataType) (task : Bool) (buffer : Nat → UInt8) :
    ∀ (ps : List Part) (done : Nat) (f : Nat → UInt8), flatParts g t false task buffer ps done f = f := by
  intro ps
  induction ps with
  | nil =>
    intro done f
    rfl
  | cons p rest ih =>
    intro done f
    exact ih _ _

theorem flatParts_blocking : ∀ (ps : List Part) (pos size done : Nat) (buffer f : Nat → UInt8),
    Chain g t pos size ps →
      flatParts g t true false buffer ps done f = patch f pos size fun i => buffer (done+i) := by
  intro ps
  induction ps with
  | nil =>
    intro pos size done buffer f hchain
    obtain rfl : size = 0 := hchain
    funext q
    exact (patch_outside (by omega)).symm
  | cons p rest ih =>
    intro pos size done buffer f hchain
    obtain ⟨hpos,hle,-,hrest⟩ := hchain
    have hflat : flatPart g t true false (fun i => buffer (done+i)) p f =
        patch f pos (p.size g) fun i => buffer (done+i) := by
      rw [← hpos]
      cases p <;> rfl
    have hpatch := patch_patch f (fun i => buffer (done+i)) pos (p.size g) (size - p.size g)
    rw [Nat.add_sub_cancel' hle] at hpatch
    unfold flatParts
    rw [hflat, ih _ _ _ _ _ hrest]
    refine Eq.trans ?_ hpatch
    simp only [add_assoc]

theorem Refines.accessParts {write : Bool} :
    ∀ (ps : List Part) (first : Bool) (done : Nat) (buffer : Nat → UInt8) (v : Volume) (f : Nat → UInt8),
      Refines g v f → (∀ p ∈ ps, p.Fits g t) → SoundParts g t write task first ps done buffer v →
      Refines g (accessParts g t write task ps done buffer v).volume
          (if (accessParts g t write task ps done buffer v).ok then
            flatParts g t write task buffer ps done f else f) ∧
        (write = true → first = false → (accessParts g t write task ps done buffer v).ok = true) := by
  intro ps
  induction ps with
  | nil =>
    intro first done buffer v f h _ _
    exact ⟨h, fun _ _ => rfl⟩
  | cons p rest ih =>
    intro first done buffer v f h hfits hsound
    obtain ⟨hpart,hok,hrest⟩ := hsound
    have hstep := h.accessPart (fun i => buffer (done+i)) (hfits p mem_cons_self) hpart
    unfold Fat.accessParts flatParts
    split
    · next hp =>
      rw [if_pos hp] at hstep
      obtain ⟨hkept,hall⟩ := ih false _ _ _ _ hstep
        (fun q hq => hfits q (mem_cons_of_mem _ hq)) (hrest hp)
      cases write with
      | false =>
        rw [flatParts_read] at hkept ⊢
        exact ⟨hkept, fun hw => absurd hw Bool.false_ne_true⟩
      | true =>
        have hdone := hall rfl rfl
        rw [if_pos hdone] at hkept
        rw [if_pos hdone]
        exact ⟨hkept, fun _ _ => hdone⟩
    · next hp =>
      rw [if_neg hp] at hstep
      exact ⟨hstep, fun hw hf => absurd (hok hw hf) hp⟩

def Immediate (g : Geometry) (t : CacheDataType) (task : Bool) (ps : List Part) (pos : Nat) : Prop :=
  ∀ p ∈ ps, p.deferred task = true → ¬(p.position g t ≤ pos ∧ pos < p.position g t + p.size g)

theorem Refines.accessParts_buffer :
    ∀ (ps : List Part) (first : Bool) (pos size done : Nat) (buffer : Nat → UInt8) (v : Volume),
      Refines g v f → Chain g t pos size ps → SoundParts g t false task first ps done buffer v →
      (Fat.accessParts g t false task ps done buffer v).ok = true →
      (∀ j < size, Immediate g t task ps (pos+j) →
          (Fat.accessParts g t false task ps done buffer v).buffer (done+j) = f (pos+j)) ∧
        ∀ j < done, (Fat.accessParts g t false task ps done buffer v).buffer j = buffer j := by
  intro ps
  induction ps with
  | nil =>
    intro first pos size done buffer v h hch _ _
    obtain rfl : size = 0 := hch
    exact ⟨fun j hj => absurd hj (Nat.not_lt_zero j), fun _ _ => rfl⟩
  | cons p rest ih =>
    intro first pos size done buffer v h hch hsound hok
    obtain ⟨hpart,-,hrest⟩ := hsound
    obtain ⟨hpos,hle,hfits,hch⟩ := hch
    unfold Fat.accessParts at hok ⊢
    split
    · next hp =>
      rw [if_pos hp] at hok
      have hstep := h.accessPart (fun i => buffer (done+i)) hfits hpart
      rw [if_pos hp] at hstep
      obtain ⟨hread,hkept⟩ := ih false _ _ _ _ _ hstep hch (hrest hp) hok
      constructor
      · intro j hj himm
        by_cases hin : j < p.size g
        · rw [hkept (done+j) (by omega), if_neg Bool.false_ne_true,
            patch_inside (by omega) (by omega), Nat.add_sub_cancel_left, ← hpos]
          refine h.accessPart_buffer _ hfits hpart (Bool.eq_false_iff.mpr fun hd => ?_) hp hin
          exact himm p mem_cons_self hd ⟨by omega, by omega⟩
        have htail := hread (j - p.size g) (by omega) ?_
        · have hd : done + p.size g + (j - p.size g) = done+j := by omega
          have he : pos + p.size g + (j - p.size g) = pos+j := by omega
          rw [hd, he] at htail
          exact htail
        · intro q hq
          have he : pos + p.size g + (j - p.size g) = pos+j := by omega
          rw [he]
          exact himm q (mem_cons_of_mem _ hq)
      · intro j hj
        rw [hkept j (by omega), if_neg Bool.false_ne_true, patch_outside (by omega)]
    · next hp =>
      rw [if_neg hp] at hok
      cases hok

end Liano.Fat
