import Liano.Fat.DiskCache

/-! The pages of a volume against a flat array of bytes: what a page access keeps. -/
namespace Liano.Fat

open Lib

variable {g : Geometry} {v v' : Volume} {f : Nat → UInt8} {t t' : CacheDataType} {p p' i i' : Nat}

theorem Geometry.pageSize_pos (g : Geometry) (t : CacheDataType) : 0 < g.pageSize t := Nat.two_pow_pos _

theorem Geometry.realSize_le (g : Geometry) (t : CacheDataType) (p : Nat) : g.realSize t p ≤ g.pageSize t :=
  min_le_left _ _

theorem Geometry.entryPos_lt (h : i < g.realSize t p) : g.entryPos t p + i < g.limitAddress t := by
  have := lt_of_lt_of_le h (min_le_right _ _)
  omega

theorem Geometry.baseAddress_le : g.baseAddress t ≤ g.entryPos t p + i := by
  unfold Geometry.entryPos
  omega

theorem Geometry.fatSize_le (g : Geometry) : g.fatSize ≤ g.numFats*g.fatSize :=
  Nat.le_mul_of_pos_left _ g.numFats_pos

theorem Geometry.limitAddress_le (g : Geometry) (t : CacheDataType) : g.limitAddress t ≤ g.volumeSize := by
  have hf := g.fatSize_le
  have hr := g.fats_before_root
  have hv := g.root_le
  cases t <;> simp only [Geometry.limitAddress] <;> omega

theorem Geometry.page_inj (h : i < g.realSize t p) (h' : i' < g.realSize t p')
    (he : g.entryPos t p + i = g.entryPos t p' + i') : p = p' ∧ i = i' := by
  have hpage (q j : Nat) (hj : j < g.realSize t q) : (j + q * g.pageSize t) / g.pageSize t = q := by
    rw [Nat.add_mul_div_right _ _ (g.pageSize_pos t), Nat.div_eq_of_lt
      (lt_of_lt_of_le hj (g.realSize_le t q)), zero_add]
  have hsum : i + p * g.pageSize t = i' + p' * g.pageSize t := by
    unfold Geometry.entryPos at he
    omega
  have hp : p = p' := by rw [← hpage p i h, ← hpage p' i' h', hsum]
  subst hp
  exact ⟨rfl, by omega⟩

theorem Geometry.copy_inj {k : Nat} (h : i < g.realSize t p) (h' : i' < g.realSize t' p')
    (hk : k < g.writeCount t) (he : g.entryPos t p + k*g.fatSize + i = g.entryPos t' p' + i') :
    t = t' ∧ p = p' ∧ i = i' := by
  have hroot := g.fats_before_root
  have hl := Geometry.entryPos_lt h
  have hb := @Geometry.baseAddress_le g t p i
  have hl' := Geometry.entryPos_lt h'
  have hb' := @Geometry.baseAddress_le g t' p' i'
  have hcopies : (k+1) * g.fatSize = k*g.fatSize+g.fatSize := Nat.succ_mul k _
  cases t with
  | cacheFat =>
    have hle : (k+1) * g.fatSize ≤ g.numFats*g.fatSize := Nat.mul_le_mul_right _ hk
    cases t' with
    | cacheFat =>
      obtain rfl | hpos := Nat.eq_zero_or_pos k
      · exact ⟨rfl, Geometry.page_inj h h' (by omega)⟩
      · have : g.fatSize ≤ k*g.fatSize := Nat.le_mul_of_pos_left _ hpos
        simp only [Geometry.limitAddress, Geometry.baseAddress] at hl hb hl' hb'
        omega
    | cacheData =>
      simp only [Geometry.limitAddress, Geometry.baseAddress] at hl hb hl' hb'
      omega
  | cacheData =>
    obtain rfl : k = 0 := by
      simp only [Geometry.writeCount] at hk
      omega
    cases t' with
    | cacheFat =>
      have hfat := g.fatSize_le
      simp only [Geometry.limitAddress, Geometry.baseAddress] at hl hb hl' hb'
      omega
    | cacheData => exact ⟨rfl, Geometry.page_inj h h' (by omega)⟩

theorem Geometry.position_inj (h : i < g.realSize t p) (h' : i' < g.realSize t' p')
    (he : g.entryPos t p + i = g.entryPos t' p' + i') : t = t' ∧ p = p' ∧ i = i' :=
  @Geometry.copy_inj g t t' p p' i i' 0 h h'
    (by cases t <;> simp [Geometry.writeCount, g.numFats_pos]) (by omega)

theorem Geometry.exists_page {q : Nat} (hb : g.baseAddress t ≤ q) (hl : q < g.limitAddress t) :
    ∃ p i, i < g.realSize t p ∧ g.entryPos t p + i = q := by
  have hsum : g.entryPos t ((q - g.baseAddress t) / g.pageSize t) + (q - g.baseAddress t) % g.pageSize t =
      q := by
    have := Nat.div_add_mod' (q - g.baseAddress t) (g.pageSize t)
    unfold Geometry.entryPos
    omega
  refine ⟨(q - g.baseAddress t) / g.pageSize t, (q - g.baseAddress t) % g.pageSize t, ?_, hsum⟩
  exact Nat.lt_min.mpr ⟨Nat.mod_lt _ (g.pageSize_pos t), by omega⟩

/-- The pages and the disk are those of an array: a valid page holds its bytes, and outside the dirty pages
the disk does. -/
structure Refines (g : Geometry) (v : Volume) (f : Nat → UInt8) : Prop where
  valid : ∀ t group, 0 < (v.tag t group).realSize → g.groupNo t (v.tag t group).pageNo = group ∧
      (v.tag t group).realSize = g.realSize t (v.tag t group).pageNo
  page : ∀ t p i, v.holds g t p = true → i < g.realSize t p →
    (v.diskCache t).page (g.groupNo t p) i = f (g.entryPos t p + i)
  disk : ∀ t p i, v.dirtyAt g t p = false → i < g.realSize t p →
    v.disk (g.entryPos t p + i) = f (g.entryPos t p + i)
  dirty : ∀ t p, v.dirtyAt g t p = true → (v.diskCache t).dirty = true
  queued : ∀ s ∈ v.subtasks, g.rootPos ≤ s.offset ∧ s.offset+s.bufferSize ≤ g.volumeSize

section
variable (h : v'.diskCache = v.diskCache)
include h

theorem tag_congr (t : CacheDataType) (group : Nat) : v'.tag t group = v.tag t group := by
  simp only [Volume.tag, h]

theorem holds_congr : v'.holds g t p = v.holds g t p := by simp only [Volume.holds, tag_congr h]

theorem dirtyAt_congr : v'.dirtyAt g t p = v.dirtyAt g t p := by
  simp only [Volume.dirtyAt, holds_congr h, tag_congr h]

end

theorem holds_iff : v.holds g t p = true ↔
    0 < (v.tag t (g.groupNo t p)).realSize ∧ (v.tag t (g.groupNo t p)).pageNo = p := by
  simp [Volume.holds]

theorem dirtyAt_iff : v.dirtyAt g t p = true ↔
    v.holds g t p = true ∧ (v.tag t (g.groupNo t p)).dirty = true := by simp [Volume.dirtyAt]

theorem not_dirtyAt (h : v.holds g t p = false) : v.dirtyAt g t p = false := by simp [Volume.dirtyAt, h]

theorem Refines.of_disk (h : Refines g v f) (hc : v'.diskCache = v.diskCache) (hs : v'.subtasks = v.subtasks)
    (hd : ∀ t p i, v.dirtyAt g t p = false → i < g.realSize t p →
      v'.disk (g.entryPos t p + i) = v.disk (g.entryPos t p + i)) : Refines g v' f where
  valid := by
    intro t group
    rw [tag_congr hc]
    exact h.valid t group
  page := by
    intro t p i
    rw [holds_congr hc, hc]
    exact h.page t p i
  disk := by
    intro t p i hn hi
    rw [dirtyAt_congr hc] at hn
    exact (hd t p i hn hi).trans (h.disk t p i hn hi)
  dirty := by
    intro t p
    rw [dirtyAt_congr hc, hc]
    exact h.dirty t p
  queued := by
    rw [hs]
    exact h.queued

theorem Refines.of_queue (h : Refines g v f) (hc : v'.diskCache = v.diskCache) (hd : v'.disk = v.disk)
    (hq : ∀ s ∈ v'.subtasks, g.rootPos ≤ s.offset ∧ s.offset+s.bufferSize ≤ g.volumeSize) :
    Refines g v' f := by
  have hkept : Refines g { v' with subtasks := v.subtasks } f := h.of_disk hc rfl fun t p i _ _ =>
    congrFun hd _
  exact ⟨hkept.valid, hkept.page, hkept.disk, hkept.dirty, hq⟩

theorem transfer_diskCache (v : Volume) (write : Bool) (offset size : Nat) (buffer : Nat → UInt8) :
    (transfer v write offset size buffer).volume.diskCache = v.diskCache := by
  unfold transfer
  split
  · rfl
  · split <;> rfl

theorem transfer_subtasks (v : Volume) (write : Bool) (offset size : Nat) (buffer : Nat → UInt8) :
    (transfer v write offset size buffer).volume.subtasks = v.subtasks := by
  unfold transfer
  split
  · rfl
  · split <;> rfl

variable {offset size : Nat} {buffer : Nat → UInt8}

theorem transfer_fails {write : Bool} (h : (transfer v write offset size buffer).ok = false) :
    (transfer v write offset size buffer).volume.disk = v.disk := by
  unfold transfer at h ⊢
  split
  · rfl
  · next ho =>
    rw [if_neg ho] at h
    split at h <;> cases h

theorem transfer_read : (transfer v false offset size buffer).volume.disk = v.disk := by
  unfold transfer
  split <;> rfl

theorem transfer_read_buffer (h : (transfer v false offset size buffer).ok = true) :
    (transfer v false offset size buffer).buffer = fun i => v.disk (offset+i) := by
  unfold transfer at h ⊢
  split
  · next ho =>
    rw [if_pos ho] at h
    cases h
  · rfl

theorem transfer_write (h : (transfer v true offset size buffer).ok = true) :
    (transfer v true offset size buffer).volume.disk = patch v.disk offset size buffer := by
  unfold transfer at h ⊢
  split
  · next ho =>
    rw [if_pos ho] at h
    cases h
  · rfl

section
variable (g : Geometry) (v : Volume)

theorem diskIo_blocking (write : Bool) (offset size : Nat) (buffer : Nat → UInt8) :
    diskIo g v write false offset size buffer = ⟨false, buffer, v⟩ ∨ offset+size ≤ g.volumeSize ∧
        diskIo g v write false offset size buffer = transfer v write offset size buffer := by
  unfold diskIo
  split
  · exact .inl rfl
  · next h => exact .inr ⟨by omega, rfl⟩

theorem diskIo_diskCache (write task : Bool) (offset size : Nat) (buffer : Nat → UInt8) :
    (diskIo g v write task offset size buffer).volume.diskCache = v.diskCache := by
  unfold diskIo
  split
  · rfl
  split
  · unfold queueSubtask
    split <;> rfl
  · exact transfer_diskCache v write offset size buffer

theorem diskIo_subtasks (write : Bool) (offset size : Nat) (buffer : Nat → UInt8) :
    (diskIo g v write false offset size buffer).volume.subtasks = v.subtasks := by
  obtain h | ⟨-,h⟩ := diskIo_blocking g v write offset size buffer
  · rw [h]
  · rw [h]
    exact transfer_subtasks v write offset size buffer

theorem diskIo_read (offset size : Nat) (buffer : Nat → UInt8) :
    (diskIo g v false false offset size buffer).volume.disk = v.disk := by
  obtain h | ⟨-,h⟩ := diskIo_blocking g v false offset size buffer
  · rw [h]
  · rw [h]
    exact transfer_read

end

theorem diskIo_read_buffer (hok : (diskIo g v false false offset size buffer).ok = true) :
    (diskIo g v false false offset size buffer).buffer = fun i => v.disk (offset+i) := by
  obtain h | ⟨-,h⟩ := diskIo_blocking g v false offset size buffer
  · rw [h] at hok
    cases hok
  · rw [h] at hok ⊢
    exact transfer_read_buffer hok

theorem diskIo_write (hok : (diskIo g v true false offset size buffer).ok = true) :
    (diskIo g v true false offset size buffer).volume.disk = patch v.disk offset size buffer := by
  obtain h | ⟨-,h⟩ := diskIo_blocking g v true offset size buffer
  · rw [h] at hok
    cases hok
  · rw [h] at hok ⊢
    exact transfer_write hok

theorem diskIo_fails {write : Bool} (hok : (diskIo g v write false offset size buffer).ok = false) :
    (diskIo g v write false offset size buffer).volume.disk = v.disk := by
  obtain h | ⟨-,h⟩ := diskIo_blocking g v write offset size buffer
  · rw [h]
  · rw [h] at hok ⊢
    exact transfer_fails hok

theorem writeCopies_diskCache (g : Geometry) (task : Bool) (size : Nat) (buffer : Nat → UInt8) :
    ∀ (count pos : Nat) (v : Volume),
      (writeCopies g task size buffer count pos v).2.diskCache = v.diskCache := by
  intro count
  induction count with
  | zero =>
    intro pos v
    rfl
  | succ count ih =>
    intro pos v
    unfold writeCopies
    split
    · exact (ih _ _).trans (diskIo_diskCache g v true task pos size buffer)
    · exact diskIo_diskCache g v true task pos size buffer

theorem writeCopies_subtasks (g : Geometry) (size : Nat) (buffer : Nat → UInt8) :
    ∀ (count pos : Nat) (v : Volume),
      (writeCopies g false size buffer count pos v).2.subtasks = v.subtasks := by
  intro count
  induction count with
  | zero =>
    intro pos v
    rfl
  | succ count ih =>
    intro pos v
    unfold writeCopies
    split
    · exact (ih _ _).trans (diskIo_subtasks g v true pos size buffer)
    · exact diskIo_subtasks g v true pos size buffer

theorem writeCopies_frame {g : Geometry} {q : Nat} : ∀ (count pos : Nat) (v : Volume),
      (∀ k < count, ¬(pos + k*g.fatSize ≤ q ∧ q < pos + k*g.fatSize + size)) →
      (writeCopies g false size buffer count pos v).2.disk q = v.disk q := by
  intro count
  induction count with
  | zero =>
    intro pos v _
    rfl
  | succ count ih =>
    intro pos v hq
    unfold writeCopies
    split
    · next hok =>
      have hfst := hq 0 (Nat.succ_pos count)
      rw [ih _ _ ?_, diskIo_write hok]
      · exact patch_outside (by omega)
      · intro k hk
        have := hq (k+1) (Nat.succ_lt_succ hk)
        rw [Nat.succ_mul] at this
        omega
    · next hok => rw [diskIo_fails (Bool.eq_false_iff.mpr hok)]

theorem copiesOf_diskCache (g : Geometry) (task : Bool) (v : Volume) (t : CacheDataType) (group : Nat) :
    (copiesOf g task v t group).2.diskCache = v.diskCache := writeCopies_diskCache g task _ _ _ _ v

theorem copiesOf_subtasks (g : Geometry) (v : Volume) (t : CacheDataType) (group : Nat) :
    (copiesOf g false v t group).2.subtasks = v.subtasks := writeCopies_subtasks g _ _ _ _ v

variable {group : Nat}

theorem Refines.copiesOf_other (h : Refines g v f) (hv : 0 < (v.tag t group).realSize)
    (hi : i' < g.realSize t' p') (hne : ¬(t = t' ∧ (v.tag t group).pageNo = p')) :
    (copiesOf g false v t group).2.disk (g.entryPos t' p' + i') = v.disk (g.entryPos t' p' + i') := by
  refine writeCopies_frame _ _ v ?_
  intro k hk hin
  rw [(h.valid t group hv).2] at hin
  have heq := @Geometry.copy_inj g t t' (v.tag t group).pageNo p'
    (g.entryPos t' p' + i' - (g.entryPos t (v.tag t group).pageNo + k*g.fatSize)) i' k (by omega) hi hk
    (by omega)
  exact hne ⟨heq.1, heq.2.1⟩

theorem Refines.copiesOf_page (h : Refines g v f) (hv : 0 < (v.tag t group).realSize)
    (hok : (copiesOf g false v t group).1 = true) (hi : i < g.realSize t (v.tag t group).pageNo) :
    (copiesOf g false v t group).2.disk (g.entryPos t (v.tag t group).pageNo + i) =
      (v.diskCache t).page group i := by
  have hval := h.valid t group hv
  obtain ⟨count,hcnt⟩ : ∃ count, g.writeCount t = count+1 := Nat.exists_eq_succ_of_ne_zero (by
      have := g.numFats_pos
      cases t <;> simp only [Geometry.writeCount] <;> omega)
  unfold copiesOf at hok ⊢
  rw [hcnt] at hok ⊢
  unfold writeCopies at hok ⊢
  split
  · next hfst =>
    rw [writeCopies_frame, diskIo_write hfst, patch_inside (by omega) (by omega), Nat.add_sub_cancel_left]
    intro k hk hin
    have heq := @Geometry.copy_inj g t t (v.tag t group).pageNo (v.tag t group).pageNo
      (g.entryPos t (v.tag t group).pageNo + i -
        (g.entryPos t (v.tag t group).pageNo + (k+1) * g.fatSize)) i (k+1)
      (by rw [Nat.succ_mul]; omega) hi (by omega) (by rw [Nat.succ_mul]; omega)
    have hsize : 0 < g.fatSize ∨ g.fatSize = 0 := by omega
    rw [Nat.succ_mul] at heq
    obtain hpos | hzero := hsize
    · omega
    cases t with
    | cacheFat =>
      have := Geometry.entryPos_lt hi
      have := @Geometry.baseAddress_le g .cacheFat (v.tag .cacheFat group).pageNo i
      simp only [Geometry.limitAddress, Geometry.baseAddress] at *
      omega
    | cacheData =>
      simp only [Geometry.writeCount] at hcnt
      omega
  · next hfst =>
    rw [if_neg hfst] at hok
    cases hok

section
variable (v : Volume)

section
variable (t t' : CacheDataType)

@[simp] theorem tag_setTag (group group' : Nat) (tag : CacheTag) :
    (v.setTag t group tag).tag t' group' = if t' = t ∧ group' = group then tag else v.tag t' group' := by
  by_cases ht : t' = t
  · subst ht
    by_cases hg : group' = group <;> simp [Volume.setTag, Volume.tag, hg]
  · simp [Volume.setTag, Volume.tag, ht]

@[simp] theorem page_setTag (group : Nat) (tag : CacheTag) :
    ((v.setTag t group tag).diskCache t').page = (v.diskCache t').page := by
  by_cases ht : t' = t
  · subst ht
    simp [Volume.setTag]
  · simp [Volume.setTag, ht]

@[simp] theorem dirty_setTag (group : Nat) (tag : CacheTag) :
    ((v.setTag t group tag).diskCache t').dirty = (v.diskCache t').dirty := by
  by_cases ht : t' = t
  · subst ht
    simp [Volume.setTag]
  · simp [Volume.setTag, ht]

@[simp] theorem tag_setPage (group group' : Nat) (page : Nat → UInt8) :
    (v.setPage t group page).tag t' group' = v.tag t' group' := by
  by_cases ht : t' = t
  · subst ht
    simp [Volume.setPage, Volume.tag]
  · simp [Volume.setPage, Volume.tag, ht]

@[simp] theorem page_setPage (group group' : Nat) (page : Nat → UInt8) :
    ((v.setPage t group page).diskCache t').page group' =
      if t' = t ∧ group' = group then page else (v.diskCache t').page group' := by
  by_cases ht : t' = t
  · subst ht
    by_cases hg : group' = group <;> simp [Volume.setPage, hg]
  · simp [Volume.setPage, ht]

@[simp] theorem dirty_setPage (group : Nat) (page : Nat → UInt8) :
    ((v.setPage t group page).diskCache t').dirty = (v.diskCache t').dirty := by
  by_cases ht : t' = t
  · subst ht
    simp [Volume.setPage]
  · simp [Volume.setPage, ht]

@[simp] theorem tag_setDirty (group' : Nat) (dirty : Bool) :
    (v.setDirty t dirty).tag t' group' = v.tag t' group' := by
  by_cases ht : t' = t
  · subst ht
    simp [Volume.setDirty, Volume.tag]
  · simp [Volume.setDirty, Volume.tag, ht]

@[simp] theorem page_setDirty (dirty : Bool) :
    ((v.setDirty t dirty).diskCache t').page = (v.diskCache t').page := by
  by_cases ht : t' = t
  · subst ht
    simp [Volume.setDirty]
  · simp [Volume.setDirty, ht]

@[simp] theorem dirty_setDirty (dirty : Bool) :
    ((v.setDirty t dirty).diskCache t').dirty = if t' = t then dirty else (v.diskCache t').dirty := by
  by_cases ht : t' = t
  · subst ht
    simp [Volume.setDirty]
  · simp [Volume.setDirty, ht]

end

end

theorem holds_setTag_other {tag : CacheTag} (h : ¬(t' = t ∧ g.groupNo t' p = group)) :
    (v.setTag t group tag).holds g t' p = v.holds g t' p := by
  simp only [Volume.holds, tag_setTag, if_neg h]

theorem dirtyAt_setTag_other {tag : CacheTag} (h : ¬(t' = t ∧ g.groupNo t' p = group)) :
    (v.setTag t group tag).dirtyAt g t' p = v.dirtyAt g t' p := by
  simp only [Volume.dirtyAt, holds_setTag_other h, tag_setTag, if_neg h]

theorem Refines.clean (h : Refines g v f) (hd : ∀ i < g.realSize t (v.tag t group).pageNo,
      0 < (v.tag t group).realSize →
      v.disk (g.entryPos t (v.tag t group).pageNo + i) = f (g.entryPos t (v.tag t group).pageNo + i)) :
    Refines g (v.setTag t group { v.tag t group with dirty := false }) f := by
  have hhold (t' : CacheDataType) (p : Nat) :
      (v.setTag t group { v.tag t group with dirty := false }).holds g t' p = v.holds g t' p := by
    simp only [Volume.holds, tag_setTag]
    split
    · next he => rw [← he.1, ← he.2]
    · rfl
  constructor
  · intro t' group' hv
    rw [tag_setTag] at hv ⊢
    split at hv
    · next he =>
      rw [if_pos he]
      obtain ⟨rfl,rfl⟩ := he
      exact h.valid t' group' hv
    · next he =>
      rw [if_neg he]
      exact h.valid t' group' hv
  · intro t' p i hp hi
    rw [hhold] at hp
    rw [page_setTag]
    exact h.page t' p i hp hi
  · intro t' p i hn hi
    by_cases he : t' = t ∧ g.groupNo t' p = group
    · obtain ⟨rfl,rfl⟩ := he
      cases hp : v.holds g t' p with
      | false => exact h.disk t' p i (not_dirtyAt hp) hi
      | true =>
        rw [holds_iff] at hp
        rw [hp.2] at hd
        exact hd i hi hp.1
    · rw [dirtyAt_setTag_other he] at hn
      exact h.disk t' p i hn hi
  · intro t' p hdirty
    rw [dirty_setTag]
    by_cases he : t' = t ∧ g.groupNo t' p = group
    · rw [dirtyAt_iff, tag_setTag, if_pos he] at hdirty
      cases hdirty.2
    · rw [dirtyAt_setTag_other he] at hdirty
      exact h.dirty t' p hdirty
  · exact h.queued

section
variable (h : Refines g v f) (hv : 0 < (v.tag t group).realSize) (hd : (v.tag t group).dirty = true)
include h hv hd

theorem Refines.copiesOf : Refines g (copiesOf g false v t group).2 f := by
  refine h.of_disk (copiesOf_diskCache g false v t group) (copiesOf_subtasks g v t group) ?_
  intro t' p' i' hn hi
  refine h.copiesOf_other hv hi ?_
  rintro ⟨rfl,rfl⟩
  have hgroup := (h.valid t group hv).1
  have : v.dirtyAt g t (v.tag t group).pageNo = true := by
    rw [dirtyAt_iff, holds_iff, hgroup]
    exact ⟨⟨hv, rfl⟩, hd⟩
  rw [this] at hn
  cases hn

theorem Refines.storePage : Refines g (storePage g false v t group).2 f := by
  have hcopies := h.copiesOf hv hd
  have htag := tag_congr (copiesOf_diskCache g false v t group) t group
  unfold Fat.storePage
  split
  · next hok =>
    rw [← htag]
    refine hcopies.clean ?_
    intro i hi _
    rw [htag] at hi ⊢
    have hgroup := (h.valid t group hv).1
    have hpage := h.page t (v.tag t group).pageNo i (holds_iff.mpr (by rw [hgroup]; exact ⟨hv, rfl⟩)) hi
    rw [hgroup] at hpage
    exact (h.copiesOf_page hv hok hi).trans hpage
  · exact hcopies

end

theorem storePage_tag (g : Geometry) (v : Volume) (t t' : CacheDataType) (group group' : Nat) :
    ((storePage g false v t group).2.tag t' group').pageNo = (v.tag t' group').pageNo ∧
      ((storePage g false v t group).2.tag t' group').realSize = (v.tag t' group').realSize := by
  have htag := tag_congr (copiesOf_diskCache g false v t group)
  unfold storePage
  split
  · rw [tag_setTag]
    split
    · next he =>
      obtain ⟨rfl,rfl⟩ := he
      exact ⟨rfl, rfl⟩
    · rw [htag]
      exact ⟨rfl, rfl⟩
  · rw [htag]
    exact ⟨rfl, rfl⟩

theorem storePage_dirty (hok : (storePage g false v t group).1 = true) :
    ((storePage g false v t group).2.tag t group).dirty = false := by
  unfold storePage at hok ⊢
  split
  · rw [tag_setTag, if_pos ⟨rfl, rfl⟩]
  · next hn =>
    rw [if_neg hn] at hok
    exact absurd hok hn

def LoadSafe (g : Geometry) (v : Volume) (t : CacheDataType) (p : Nat) : Prop :=
  v.holds g t p = false → 0 < (v.tag t (g.groupNo t p)).realSize → (writeBack g v t p).1 = true →
    (writeBack g v t p).2.outcome = true

theorem Refines.writeBack (h : Refines g v f) (t : CacheDataType) (p : Nat) :
    Refines g (writeBack g v t p).2 f := by
  unfold Fat.writeBack
  split
  · next hd => exact h.storePage hd.1 hd.2
  · exact h

theorem writeBack_tag (g : Geometry) (v : Volume) (t t' : CacheDataType) (p group : Nat) :
    ((writeBack g v t p).2.tag t' group).pageNo = (v.tag t' group).pageNo ∧
      ((writeBack g v t p).2.tag t' group).realSize = (v.tag t' group).realSize := by
  unfold writeBack
  split
  · exact storePage_tag g v t t' (g.groupNo t p) group
  · exact ⟨rfl, rfl⟩

theorem writeBack_holds (g : Geometry) (v : Volume) (t t' : CacheDataType) (p q : Nat) :
    (writeBack g v t p).2.holds g t' q = v.holds g t' q := by
  have htag := writeBack_tag g v t t' p (g.groupNo t' q)
  simp only [Volume.holds, htag.1, htag.2]

theorem writeBack_clean (hok : (writeBack g v t p).1 = true)
    (hv : 0 < ((writeBack g v t p).2.tag t (g.groupNo t p)).realSize) :
    ((writeBack g v t p).2.tag t (g.groupNo t p)).dirty = false := by
  rw [(writeBack_tag g v t t p _).2] at hv
  unfold writeBack at hok ⊢
  split
  · next hd =>
    rw [if_pos hd] at hok
    exact storePage_dirty hok
  · next hd => exact Bool.eq_false_iff.mpr fun hdirty => hd ⟨hv, hdirty⟩

theorem fetchPage_ok (h : 0 < g.realSize t p) (ho : v.outcome = true) : (fetchPage g v t p).ok = true := by
  have hlim := Geometry.entryPos_lt h
  have hle := g.limitAddress_le t
  have hin : g.entryPos t p + g.realSize t p ≤ g.limitAddress t := by
    unfold Geometry.realSize
    omega
  unfold fetchPage diskIo transfer
  rw [if_neg (by omega), ho]
  rfl

theorem fetchPage_same (g : Geometry) (v : Volume) (t : CacheDataType) (p : Nat) :
    (fetchPage g v t p).volume.diskCache = v.diskCache ∧
      (fetchPage g v t p).volume.subtasks = v.subtasks ∧ (fetchPage g v t p).volume.disk = v.disk :=
  ⟨diskIo_diskCache g v false false _ _ _, diskIo_subtasks g v false _ _ _, diskIo_read g v _ _ _⟩

theorem Refines.fetchPage (h : Refines g v f) (t : CacheDataType) (p : Nat) :
    Refines g (fetchPage g v t p).volume f := by
  obtain ⟨hc,hs,hd⟩ := fetchPage_same g v t p
  exact h.of_disk hc hs fun t' p' i' _ _ => by rw [hd]

theorem Refines.renumber (h : Refines g v f) (hz : (v.tag t group).realSize = 0) (p : Nat) :
    Refines g (v.setTag t group { v.tag t group with pageNo := p }) f := by
  have hhold (t' : CacheDataType) (q : Nat) :
      (v.setTag t group { v.tag t group with pageNo := p }).holds g t' q = v.holds g t' q := by
    by_cases he : t' = t ∧ g.groupNo t' q = group
    · obtain ⟨rfl,rfl⟩ := he
      simp [Volume.holds, hz]
    · exact holds_setTag_other he
  have hdirtyAt (t' : CacheDataType) (q : Nat) :
      (v.setTag t group { v.tag t group with pageNo := p }).dirtyAt g t' q = v.dirtyAt g t' q := by
    by_cases he : t' = t ∧ g.groupNo t' q = group
    · obtain ⟨rfl,rfl⟩ := he
      simp [Volume.dirtyAt, Volume.holds, hz]
    · exact dirtyAt_setTag_other he
  constructor
  · intro t' group' hv
    rw [tag_setTag] at hv ⊢
    split at hv
    · simp only [hz] at hv
      cases hv
    · next he =>
      rw [if_neg he]
      exact h.valid t' group' hv
  · intro t' q i hp hi
    rw [hhold] at hp
    rw [page_setTag]
    exact h.page t' q i hp hi
  · intro t' q i hn hi
    rw [hdirtyAt] at hn
    exact h.disk t' q i hn hi
  · intro t' q hd
    rw [hdirtyAt] at hd
    rw [dirty_setTag]
    exact h.dirty t' q hd
  · exact h.queued

theorem Refines.load (h : Refines g v f) (hn : v.holds g t p = false)
    (hclean : 0 < (v.tag t (g.groupNo t p)).realSize → (v.tag t (g.groupNo t p)).dirty = false)
    {page : Nat → UInt8} (hpage : ∀ i < g.realSize t p, page i = v.disk (g.entryPos t p + i)) :
    Refines g ((v.setPage t (g.groupNo t p) page).setTag t (g.groupNo t p) ⟨p, g.realSize t p, false⟩) f := by
  have hother (t' : CacheDataType) (q : Nat) (he : ¬(t' = t ∧ g.groupNo t' q = g.groupNo t p)) :
      ((v.setPage t (g.groupNo t p) page).setTag t (g.groupNo t p) ⟨p, g.realSize t p, false⟩).dirtyAt g t' q =
        v.dirtyAt g t' q := by
    rw [dirtyAt_setTag_other he]
    simp only [Volume.dirtyAt, Volume.holds, tag_setPage]
  constructor
  · intro t' group' hv
    rw [tag_setTag] at hv ⊢
    split at hv
    · next he =>
      rw [if_pos he]
      obtain ⟨rfl,rfl⟩ := he
      exact ⟨rfl, rfl⟩
    next he =>
    rw [if_neg he]
    rw [tag_setPage] at hv ⊢
    exact h.valid t' group' hv
  · intro t' q i hp hi
    rw [page_setTag, page_setPage]
    by_cases he : t' = t ∧ g.groupNo t' q = g.groupNo t p
    · rw [if_pos he]
      rw [holds_iff, tag_setTag, if_pos he] at hp
      obtain ⟨rfl,-⟩ := he
      obtain rfl : p = q := hp.2
      exact (hpage i hi).trans (h.disk t' p i (not_dirtyAt hn) hi)
    rw [if_neg he]
    rw [holds_setTag_other he] at hp
    simp only [Volume.holds, tag_setPage] at hp
    exact h.page t' q i hp hi
  · intro t' q i hnd hi
    by_cases he : t' = t ∧ g.groupNo t' q = g.groupNo t p
    · obtain ⟨rfl,hgroup⟩ := he
      refine h.disk t' q i (Bool.eq_false_iff.mpr fun hd => ?_) hi
      rw [dirtyAt_iff, holds_iff, hgroup] at hd
      have := hclean hd.1.1
      rw [hd.2] at this
      cases this
    · rw [hother t' q he] at hnd
      exact h.disk t' q i hnd hi
  · intro t' q hd
    rw [dirty_setTag, dirty_setPage]
    by_cases he : t' = t ∧ g.groupNo t' q = g.groupNo t p
    · rw [dirtyAt_iff, tag_setTag, if_pos he] at hd
      cases hd.2
    · rw [hother t' q he] at hd
      exact h.dirty t' q hd
  · exact h.queued

theorem loadPage_holds (h : 0 < g.realSize t p) (hok : (loadPage g v t p).1 = true) :
    (loadPage g v t p).2.holds g t p = true := by
  unfold loadPage at hok ⊢
  split
  · rw [holds_iff, tag_setTag, if_pos ⟨rfl, rfl⟩]
    exact ⟨h, rfl⟩
  · next hn =>
    rw [if_neg hn] at hok
    cases hok

theorem Refines.loadPage (h : Refines g v f) (hs : 0 < g.realSize t p) (hn : v.holds g t p = false)
    (hclean : 0 < (v.tag t (g.groupNo t p)).realSize → (v.tag t (g.groupNo t p)).dirty = false)
    (hsafe : 0 < (v.tag t (g.groupNo t p)).realSize → v.outcome = true) :
    Refines g (loadPage g v t p).2 f := by
  obtain ⟨hc,-,hd⟩ := fetchPage_same g v t p
  have hfetch := h.fetchPage t p
  unfold Fat.loadPage
  split
  · next hok =>
    refine hfetch.load (by rw [holds_congr hc]; exact hn) (by rw [tag_congr hc]; exact hclean) ?_
    intro i hi
    have hbuf := diskIo_read_buffer hok
    rw [patch_inside (Nat.zero_le i) (by omega), hd]
    exact congrFun hbuf i
  next hok =>
  rw [← tag_congr hc]
  refine hfetch.renumber ?_ p
  rw [tag_congr hc]
  by_contra hz
  exact hok (fetchPage_ok hs (hsafe (Nat.pos_of_ne_zero hz)))

theorem Refines.getCachePage (h : Refines g v f) (hs : 0 < g.realSize t p) (hsafe : LoadSafe g v t p) :
    Refines g (getCachePage g v t p).2 f := by
  unfold Fat.getCachePage
  split
  · exact h
  next hn =>
  have hn : v.holds g t p = false := Bool.eq_false_iff.mpr hn
  split
  · next hok =>
    refine (h.writeBack t p).loadPage hs (by rw [writeBack_holds]; exact hn) (writeBack_clean hok) ?_
    intro hv
    rw [(writeBack_tag g v t t p _).2] at hv
    exact hsafe hn hv hok
  · exact h.writeBack t p

theorem getCachePage_holds (hs : 0 < g.realSize t p) (hok : (getCachePage g v t p).1 = true) :
    (getCachePage g v t p).2.holds g t p = true := by
  unfold getCachePage at hok ⊢
  split
  · next hh => exact hh
  next hh =>
  rw [if_neg hh] at hok
  split
  · next hw =>
    rw [if_pos hw] at hok
    exact loadPage_holds hs hok
  · next hw =>
    rw [if_neg hw] at hok
    exact absurd hok hw

variable {length : Nat}

theorem Refines.dirtyPage (h : Refines g v f)
    (hh : v.holds g t p = true) (hl : offset+length ≤ g.realSize t p) :
    Refines g (dirtyPage g v t p offset length buffer)
      (patch f (g.entryPos t p + offset) length buffer) := by
  have hhold (t' : CacheDataType) (q : Nat) :
      (Fat.dirtyPage g v t p offset length buffer).holds g t' q = v.holds g t' q := by
    simp only [Fat.dirtyPage, Volume.holds, tag_setDirty, tag_setTag, tag_setPage]
    split
    · next he =>
      obtain ⟨rfl,hgq⟩ := he
      rw [hgq]
    · rfl
  have hsame (t' : CacheDataType) (q i : Nat) (hi : i < g.realSize t' q) (hne : ¬(t' = t ∧ q = p)) :
      patch f (g.entryPos t p + offset) length buffer (g.entryPos t' q + i) = f (g.entryPos t' q + i) := by
    refine patch_outside fun hin => hne ?_
    have := @Geometry.position_inj g t' t q p i (g.entryPos t' q + i - g.entryPos t p) hi (by omega) (by omega)
    exact ⟨this.1, this.2.1⟩
  have hdirtyAt (t' : CacheDataType) (q : Nat) (he : ¬(t' = t ∧ g.groupNo t' q = g.groupNo t p)) :
      (Fat.dirtyPage g v t p offset length buffer).dirtyAt g t' q = v.dirtyAt g t' q := by
    unfold Volume.dirtyAt
    rw [hhold]
    simp only [Fat.dirtyPage, tag_setDirty, tag_setTag, tag_setPage, if_neg he]
  have hpage := holds_iff.mp hh
  -- in the group of the page no other page is valid
  have hgroup (t' : CacheDataType) (q : Nat) (he : t' = t ∧ g.groupNo t' q = g.groupNo t p)
      (hq : v.holds g t' q = true) : q = p := by
    obtain ⟨rfl,hgq⟩ := he
    rw [holds_iff, hgq] at hq
    exact hq.2.symm.trans hpage.2
  constructor
  · intro t' group' hv
    simp only [Fat.dirtyPage, tag_setDirty, tag_setTag, tag_setPage] at hv ⊢
    split at hv
    · next he =>
      rw [if_pos he]
      obtain ⟨rfl,rfl⟩ := he
      exact h.valid t' _ hv
    · next he =>
      rw [if_neg he]
      exact h.valid t' group' hv
  · intro t' q i hq hi
    rw [hhold] at hq
    simp only [Fat.dirtyPage, page_setDirty, page_setTag, page_setPage]
    by_cases he : t' = t ∧ g.groupNo t' q = g.groupNo t p
    · rw [if_pos he]
      obtain rfl := hgroup t' q he hq
      obtain ⟨rfl,-⟩ := he
      by_cases hin : offset ≤ i ∧ i < offset+length
      · rw [patch_inside hin.1 hin.2, patch_inside (by omega) (by omega)]
        congr 1
        omega
      · rw [patch_outside hin, patch_outside (by omega)]
        exact h.page t' q i hq hi
    · rw [if_neg he, hsame t' q i hi (fun heq => he ⟨heq.1, by rw [heq.1, heq.2]⟩)]
      exact h.page t' q i hq hi
  · intro t' q i hn hi
    have hne : ¬(t' = t ∧ q = p) := by
      rintro ⟨rfl,rfl⟩
      unfold Volume.dirtyAt at hn
      rw [hhold, hh] at hn
      simp [dirtyPage] at hn
    rw [hsame t' q i hi hne]
    refine h.disk t' q i ?_ hi
    by_cases he : t' = t ∧ g.groupNo t' q = g.groupNo t p
    · refine not_dirtyAt (Bool.eq_false_iff.mpr fun hq => hne ⟨he.1, hgroup t' q he hq⟩)
    · rw [hdirtyAt t' q he] at hn
      exact hn
  · intro t' q hd
    simp only [Fat.dirtyPage, dirty_setDirty, dirty_setTag, dirty_setPage]
    split
    · rfl
    · next ht =>
      rw [hdirtyAt t' q (fun he => ht he.1)] at hd
      exact h.dirty t' q hd
  · exact h.queued

section
variable (h : Refines g v f) (hs : 0 < g.realSize t p)
include h hs

theorem Refines.accessPage_write (hl : offset+length ≤ g.realSize t p) (hsafe : LoadSafe g v t p) :
    Refines g (accessPage g v t true p offset length buffer).volume
      (if (accessPage g v t true p offset length buffer).ok then
        patch f (g.entryPos t p + offset) length buffer else f) := by
  have hget := h.getCachePage hs hsafe
  unfold accessPage
  split
  · next hok => exact hget.dirtyPage (getCachePage_holds hs hok) hl
  · exact hget

theorem Refines.accessPage_read (hsafe : LoadSafe g v t p) :
    Refines g (accessPage g v t false p offset length buffer).volume f := by
  have hget := h.getCachePage hs hsafe
  unfold accessPage
  split <;> exact hget

theorem Refines.accessPage_buffer (hl : offset+length ≤ g.realSize t p) (hsafe : LoadSafe g v t p)
    (hok : (accessPage g v t false p offset length buffer).ok = true) (hi : i < length) :
    (accessPage g v t false p offset length buffer).buffer i = f (g.entryPos t p + offset + i) := by
  have hget := h.getCachePage hs hsafe
  unfold accessPage at hok ⊢
  split
  · next hg =>
    have hpage := hget.page t p (offset+i) (getCachePage_holds hs hg) (by omega)
    rw [← add_assoc] at hpage
    rw [if_neg Bool.false_ne_true]
    dsimp only
    rw [patch_inside (Nat.zero_le i) (by omega)]
    exact hpage
  · next hg =>
    rw [if_neg hg] at hok
    cases hok

end

end Liano.Fat
