import Mathlib.Data.List.Nodup
import Mathlib.Data.List.Perm.Subperm
import Liano.Fat.Entries

/-! The chains of clusters under the changes of single entries: allocating, linking and freeing. -/
namespace Liano.Fat.Space

open Lib List

variable {v v' v'' : Volume} {o : OFile} {cs rest : List Nat} {c d i j x cluster : Nat} {t : FatType}

def Volume.HasCluster (v : Volume) (c : Nat) : Prop := minCluster ≤ c ∧ c ≤ v.maxCluster+1

def Volume.Fits (v : Volume) : Prop := v.maxCluster+1 < v.fatType.special

theorem rawEntry_storeEntry {fat fat' : Nat → UInt8} (hread : t = .fat12 → fat = fat') (i j x : Nat) :
    rawEntry t (storeEntry t fat fat' i x) j = if j = i then x % t.values else rawEntry t fat j := by
  cases t with
  | fat12 =>
    rw [← hread rfl]
    exact rawEntry_storeEntry_fat12 fat i j x
  | fat16 => exact rawEntry_storeEntry_fat16 fat fat' i j x
  | fat32 => exact rawEntry_storeEntry_fat32 fat fat' i j x

theorem updateFreeInfo_same (v : Volume) (i x : Nat) :
    (updateFreeInfo v i x).fat = v.fat ∧ (updateFreeInfo v i x).fatType = v.fatType ∧
      (updateFreeInfo v i x).maxCluster = v.maxCluster ∧
      (updateFreeInfo v i x).clusterAlignment = v.clusterAlignment ∧
      (updateFreeInfo v i x).freeInfoValid = v.freeInfoValid ∧
      (updateFreeInfo v i x).diskError = v.diskError := by
  unfold updateFreeInfo
  split
  · exact ⟨rfl, rfl, rfl, rfl, rfl, rfl⟩
  · split <;> exact ⟨rfl, rfl, rfl, rfl, rfl, rfl⟩

theorem markDirty_same (v : Volume) :
    (markDirty v).fatType = v.fatType ∧ (markDirty v).maxCluster = v.maxCluster ∧
      (markDirty v).clusterAlignment = v.clusterAlignment ∧ (markDirty v).clusterCount = v.clusterCount ∧
      (markDirty v).nextCluster = v.nextCluster ∧ (markDirty v).freeInfoValid = v.freeInfoValid ∧
      (markDirty v).diskError = v.diskError := by
  unfold markDirty
  split <;> exact ⟨rfl, rfl, rfl, rfl, rfl, rfl, rfl⟩

theorem rawEntry_markDirty (v : Volume) (hj : minCluster ≤ j) :
    rawEntry v.fatType (markDirty v).fat j = rawEntry v.fatType v.fat j := by
  have hj : 2 ≤ j := hj
  unfold markDirty
  split
  · next hd =>
    have hout (q : Nat) (hq : 2*v.fatType.entrySize ≤ q) :
        patch v.fat v.fatType.entrySize v.fatType.entrySize v.dirtyValue q = v.fat q :=
      patch_outside (by omega)
    unfold rawEntry
    cases ht : v.fatType with
    | fat12 => simp [ht] at hd
    | fat16 =>
      rw [ht] at hout
      simp only [FatType.entrySize, FatType.position, word] at hout ⊢
      rw [hout (j*2) (by omega), hout (j*2+1) (by omega)]
    | fat32 =>
      rw [ht] at hout
      simp only [FatType.entrySize, FatType.position, word] at hout ⊢
      rw [hout (j*4) (by omega), hout (j*4+1) (by omega), hout (j*4+2) (by omega), hout (j*4+3) (by omega)]
  · rfl

theorem markDirty_fat12 (h : v.fatType = .fat12) : (markDirty v).fat = v.fat := by
  unfold markDirty
  rw [h]
  simp

theorem setFatEntry_same (v : Volume) (i x : Nat) :
    (setFatEntry v i x).fatType = v.fatType ∧ (setFatEntry v i x).maxCluster = v.maxCluster ∧
      (setFatEntry v i x).clusterAlignment = v.clusterAlignment ∧
      (setFatEntry v i x).freeInfoValid = v.freeInfoValid ∧ (setFatEntry v i x).diskError = v.diskError := by
  obtain ⟨-,ht,hm,ha,hf,hd⟩ := updateFreeInfo_same v i x
  obtain ⟨ht',hm',ha',-,-,hf',hd'⟩ := markDirty_same (updateFreeInfo v i x)
  unfold setFatEntry
  split
  · exact ⟨rfl, rfl, rfl, rfl, rfl⟩
  · exact ⟨ht'.trans ht, hm'.trans hm, ha'.trans ha, hf'.trans hf, hd'.trans hd⟩

theorem getFatEntry_setFatEntry (hi : v.HasCluster i) (hj : v.HasCluster j) :
    getFatEntry (setFatEntry v i x) j =
      if j = i then extend v.fatType (x % v.fatType.values) else getFatEntry v j := by
  obtain ⟨ht,hm,-⟩ := setFatEntry_same v i x
  obtain ⟨hfat,htype,-⟩ := updateFreeInfo_same v i x
  have hraw : rawEntry v.fatType (setFatEntry v i x).fat j =
      if j = i then x % v.fatType.values else rawEntry v.fatType v.fat j := by
    unfold setFatEntry
    rw [if_neg (not_lt.mpr hi.1)]
    rw [rawEntry_storeEntry]
    · have hdirty := @rawEntry_markDirty j (updateFreeInfo v i x) hj.1
      rw [htype, hfat] at hdirty
      rw [hdirty]
    · intro h12
      rw [markDirty_fat12 (htype.trans h12), hfat]
  unfold getFatEntry
  rw [ht, hm, hraw, if_neg (not_lt.mpr hj.2)]
  split
  · rfl
  · rw [if_neg (not_lt.mpr hj.2)]

theorem extend_free (t : FatType) : extend t (clusterFree % t.values) = clusterFree := by cases t <;> rfl

theorem extend_last (t : FatType) :
    endOfFatChain (extend t (clusterLast % t.values)) = true ∧ extend t (clusterLast % t.values) ≠ 0 := by
  cases t <;> decide

theorem extend_cluster (hfits : v.Fits) (hc : v.HasCluster c) :
    extend v.fatType (c % v.fatType.values) = c := by
  have hle := hc.2
  have hlt : c < v.fatType.special := lt_of_le_of_lt hle hfits
  have hmod : c % v.fatType.values = c := Nat.mod_eq_of_lt (lt_trans hlt (by cases v.fatType <;> decide))
  unfold extend
  rw [hmod, if_neg (not_le.mpr hlt)]

theorem not_end_of_cluster (hfits : v.Fits) (hc : v.HasCluster c) :
    endOfFatChain c = false ∧ c ≠ clusterFree ∧ c < clusterSpecial := by
  have hlt : c < v.fatType.special := lt_of_le_of_lt hc.2 hfits
  have hspecial : v.fatType.special < clusterSpecial := by cases v.fatType <;> decide
  have hmin : 2 ≤ c := hc.1
  refine ⟨decide_eq_false (by omega), ?_, by omega⟩
  unfold clusterFree
  omega

theorem mem_freeClusters : c ∈ freeClusters v ↔ v.HasCluster c ∧ getFatEntry v c = clusterFree := by
  unfold freeClusters Volume.HasCluster
  rw [mem_filter, mem_range'_1, beq_iff_eq]
  constructor
  · rintro ⟨⟨hle,hlt⟩,hfree⟩
    exact ⟨⟨hle, by unfold minCluster at hlt; omega⟩, hfree⟩
  · rintro ⟨⟨hle,hlt⟩,hfree⟩
    exact ⟨⟨hle, by unfold minCluster; omega⟩, hfree⟩

theorem length_filter_flip {p p' : Nat → Bool} {l : List Nat} (hn : l.Nodup) (hi : i ∈ l) (hp : p i = true)
    (hp' : p' i = false) (hs : ∀ j ∈ l, j ≠ i → p' j = p j) :
    (l.filter p).length = (l.filter p').length + 1 := by
  induction l with
  | nil => exact absurd hi not_mem_nil
  | cons a l ih =>
    rw [nodup_cons] at hn
    obtain rfl | hi := mem_cons.mp hi
    · have hsame : l.filter p' = l.filter p := by
        refine filter_congr fun j hj => hs j (mem_cons_of_mem _ hj) ?_
        rintro rfl
        exact hn.1 hj
      rw [filter_cons_of_pos hp, filter_cons_of_neg (by rw [hp']; exact Bool.false_ne_true), hsame]
      rfl
    have hrest := ih hn.2 hi fun j hj => hs j (mem_cons_of_mem _ hj)
    have hai : a ≠ i := by
      rintro rfl
      exact hn.1 hi
    have ha := hs a mem_cons_self hai
    rw [filter_cons, filter_cons, ha]
    split
    · rw [length_cons, length_cons, hrest]
    · exact hrest

/-- ClusterCount is the number of the free clusters. -/
def Volume.CountRight (v : Volume) : Prop := v.clusterCount = (freeClusters v).length

/-- No transfer has failed, and the free info is right where it is marked valid. -/
def Volume.InfoOk (v : Volume) : Prop := v.diskError = false ∧ (v.freeInfoValid = true → v.CountRight)

theorem length_freeClusters_lt (hfits : v.Fits) : (freeClusters v).length < 2^32 := by
  have hle : (freeClusters v).length ≤ v.maxCluster := by
    have := length_filter_le (fun index => getFatEntry v index == clusterFree)
      (range' minCluster v.maxCluster)
    rw [length_range'] at this
    exact this
  have hspecial : v.fatType.special < 2^32 := by cases v.fatType <;> decide
  exact lt_of_le_of_lt hle (lt_trans (Nat.lt_of_succ_lt hfits) hspecial)

theorem setFatEntry_info (hi : minCluster ≤ i) (x : Nat) :
    (setFatEntry v i x).clusterCount = (updateFreeInfo v i x).clusterCount ∧
      (setFatEntry v i x).nextCluster = (updateFreeInfo v i x).nextCluster := by
  obtain ⟨-,-,-,hc,hn,-⟩ := markDirty_same (updateFreeInfo v i x)
  unfold setFatEntry
  rw [if_neg (not_lt.mpr hi)]
  exact ⟨hc, hn⟩

theorem next_setFatEntry (h : minCluster ≤ v.nextCluster) (i x : Nat) :
    minCluster ≤ (setFatEntry v i x).nextCluster := by
  by_cases hi : minCluster ≤ i
  · rw [(setFatEntry_info hi x).2]
    unfold updateFreeInfo
    split
    · dsimp only
      split
      · exact hi
      · exact h
    · split <;> exact h
  · unfold setFatEntry
    rw [if_pos (Nat.lt_of_not_le hi)]
    exact h

theorem length_freeClusters_set (hi : v.HasCluster i) :
    (getFatEntry v i = clusterFree → extend v.fatType (x % v.fatType.values) ≠ clusterFree →
      (freeClusters v).length = (freeClusters (setFatEntry v i x)).length + 1) ∧
    (getFatEntry v i ≠ clusterFree → extend v.fatType (x % v.fatType.values) = clusterFree →
      (freeClusters (setFatEntry v i x)).length = (freeClusters v).length + 1) ∧
    ((getFatEntry v i = clusterFree ↔ extend v.fatType (x % v.fatType.values) = clusterFree) →
      (freeClusters (setFatEntry v i x)).length = (freeClusters v).length) := by
  have hm := (setFatEntry_same v i x).2.1
  have hin (j : Nat) (hj : j ∈ range' minCluster v.maxCluster) : v.HasCluster j := by
    rw [mem_range'_1] at hj
    exact ⟨hj.1, by have := hj.2; unfold minCluster at this; omega⟩
  have hmem : i ∈ range' minCluster v.maxCluster := by
    rw [mem_range'_1]
    exact ⟨hi.1, by have := hi.2; unfold minCluster; omega⟩
  have hself : getFatEntry (setFatEntry v i x) i = extend v.fatType (x % v.fatType.values) := by
    rw [getFatEntry_setFatEntry hi hi, if_pos rfl]
  have hother (j : Nat) (hj : j ∈ range' minCluster v.maxCluster) (hne : j ≠ i) :
      getFatEntry (setFatEntry v i x) j = getFatEntry v j := by
    rw [getFatEntry_setFatEntry hi (hin j hj), if_neg hne]
  unfold freeClusters
  rw [hm]
  refine ⟨fun hfree hnew => ?_, fun hold hnew => ?_, fun hiff => ?_⟩
  · refine length_filter_flip nodup_range' hmem (by rw [hfree]; rfl) ?_ ?_
    · rw [hself]
      exact beq_eq_false_iff_ne.mpr hnew
    · intro j hj hne
      rw [hother j hj hne]
  · refine length_filter_flip nodup_range' hmem ?_ (beq_eq_false_iff_ne.mpr hold) ?_
    · rw [hself, hnew]
      rfl
    · intro j hj hne
      rw [hother j hj hne]
  · congr 1
    refine filter_congr fun j hj => ?_
    by_cases hne : j = i
    · subst hne
      rw [hself, Bool.eq_iff_iff, beq_iff_eq, beq_iff_eq]
      exact hiff.symm
    · rw [hother j hj hne]

def Plain (t : FatType) (x : Nat) : Prop := x = clusterFree ∨ extend t (x % t.values) ≠ clusterFree

theorem Volume.CountRight.set (h : v.CountRight) (hfits : v.Fits) (hi : v.HasCluster i)
    (hx : Plain v.fatType x) : (setFatEntry v i x).CountRight := by
  obtain ⟨htake,hgive,hsame⟩ := @length_freeClusters_set v i x hi
  have hzero : x = clusterFree ↔ extend v.fatType (x % v.fatType.values) = clusterFree := by
    constructor
    · rintro rfl
      exact extend_free _
    · intro he
      obtain hx | hx := hx
      · exact hx
      · exact absurd he hx
  unfold Volume.CountRight at h ⊢
  rw [(setFatEntry_info hi.1 x).1]
  unfold updateFreeInfo
  split
  · next hc =>
    have hnew := hgive hc.2 (hzero.mp hc.1)
    have hlt : (freeClusters (setFatEntry v i x)).length < 2^32 := by
      refine length_freeClusters_lt ?_
      unfold Volume.Fits
      rw [(setFatEntry_same v i x).1, (setFatEntry_same v i x).2.1]
      exact hfits
    rw [hnew] at hlt
    rw [hnew, h, Nat.mod_eq_of_lt hlt]
  · next hc =>
    split
    · next hc' =>
      dsimp only
      omega
    next hc' =>
    rw [hsame, h]
    rw [← hzero]
    constructor
    · intro hfree
      by_contra hx
      exact hc' ⟨hx, hfree⟩
    · intro hx
      by_contra hfree
      exact hc ⟨hx, hfree⟩

structure Kept (s : List Nat) (v v' : Volume) : Prop where
  fatType : v'.fatType = v.fatType
  maxCluster : v'.maxCluster = v.maxCluster
  clusterAlignment : v'.clusterAlignment = v.clusterAlignment
  entry : ∀ j, v.HasCluster j → j ∉ s → getFatEntry v' j = getFatEntry v j
  count : v.CountRight → v'.CountRight
  info : v.InfoOk → v'.InfoOk
  next : minCluster ≤ v.nextCluster → minCluster ≤ v'.nextCluster

variable {s : List Nat}

theorem Kept.hasCluster (h : Kept s v v') : v'.HasCluster c ↔ v.HasCluster c := by
  unfold Volume.HasCluster
  rw [h.maxCluster]

theorem Kept.fits (h : Kept s v v') (hf : v.Fits) : v'.Fits := by
  unfold Volume.Fits
  rw [h.maxCluster, h.fatType]
  exact hf

theorem Kept.refl (s : List Nat) (v : Volume) : Kept s v v := ⟨rfl, rfl, rfl, fun _ _ _ => rfl, id, id, id⟩

theorem Kept.trans (h : Kept s v v') (h' : Kept s v' v'') : Kept s v v'' :=
  ⟨h'.fatType.trans h.fatType, h'.maxCluster.trans h.maxCluster, h'.clusterAlignment.trans h.clusterAlignment,
    fun j hj hn => (h'.entry j (h.hasCluster.mpr hj) hn).trans (h.entry j hj hn), fun hc => h'.count (h.count hc),
    fun hi => h'.info (h.info hi), fun hn => h'.next (h.next hn)⟩

theorem Kept.mono {s' : List Nat} (h : Kept s v v') (hs : ∀ c ∈ s, c ∈ s') : Kept s' v v' :=
  { h with entry := fun j hj hn => h.entry j hj fun hin => hn (hs j hin) }

theorem kept_setFatEntry (hfits : v.Fits) (hi : v.HasCluster i) (hs : i ∈ s)
    (hx : Plain v.fatType x) : Kept s v (setFatEntry v i x) := by
  obtain ⟨ht,hm,ha,hf,hd⟩ := setFatEntry_same v i x
  refine ⟨ht, hm, ha, fun j hj hn => ?_, fun hc => hc.set hfits hi hx,
    fun ⟨hnone,hinfo⟩ => ⟨hd.trans hnone, fun hvalid => ?_⟩, fun hn => next_setFatEntry hn i x⟩
  · rw [getFatEntry_setFatEntry hi hj, if_neg]
    rintro rfl
    exact hn hs
  · rw [hf] at hvalid
    exact (hinfo hvalid).set hfits hi hx

theorem plain_free (t : FatType) : Plain t clusterFree := .inl rfl

theorem plain_last (t : FatType) : Plain t clusterLast := .inr (extend_last t).2

theorem plain_cluster (hfits : v.Fits) (hc : v.HasCluster c) : Plain v.fatType c := by
  refine .inr ?_
  rw [extend_cluster hfits hc]
  exact (not_end_of_cluster hfits hc).2.1

structure SameFat (v v' : Volume) : Prop where
  fat : v'.fat = v.fat
  fatType : v'.fatType = v.fatType
  maxCluster : v'.maxCluster = v.maxCluster
  clusterAlignment : v'.clusterAlignment = v.clusterAlignment
  diskError : v'.diskError = v.diskError

theorem SameFat.entry (h : SameFat v v') (j : Nat) : getFatEntry v' j = getFatEntry v j := by
  unfold getFatEntry
  rw [h.fat, h.fatType, h.maxCluster]

theorem SameFat.freeClusters (h : SameFat v v') : freeClusters v' = freeClusters v := by
  unfold Space.freeClusters
  rw [h.maxCluster]
  exact filter_congr fun j _ => by rw [h.entry j]

theorem SameFat.kept (h : SameFat v v') (hc : v.CountRight → v'.CountRight)
    (hi : v.InfoOk → v'.InfoOk) (hn : minCluster ≤ v.nextCluster → minCluster ≤ v'.nextCluster) :
    Kept s v v' := ⟨h.fatType, h.maxCluster, h.clusterAlignment, fun j _ _ => h.entry j, hc, hi, hn⟩

theorem sameFat_computeFreeInfo (v : Volume) : SameFat v (computeFreeInfo v) := by
  unfold computeFreeInfo
  split
  · exact ⟨rfl, rfl, rfl, rfl, rfl⟩
  · split <;> exact ⟨rfl, rfl, rfl, rfl, rfl⟩

theorem computeFreeInfo_invalid (h : v.freeInfoValid = false) (hd : v.diskError = false) :
    (computeFreeInfo v).CountRight ∧ (computeFreeInfo v).nextCluster = (freeClusters v).headD v.nextCluster := by
  unfold computeFreeInfo
  rw [if_neg (by rw [h]; exact Bool.false_ne_true), if_neg (by rw [hd]; exact Bool.false_ne_true)]
  exact ⟨rfl, rfl⟩

theorem computeFreeInfo_valid (h : v.freeInfoValid = true) : computeFreeInfo v = v := by
  unfold computeFreeInfo
  rw [if_pos h]

theorem sameFat_wrapAround (v : Volume) : SameFat v (wrapAround v) := by
  unfold wrapAround
  split
  · obtain ⟨h₁,h₂,h₃,h₄,h₅⟩ := sameFat_computeFreeInfo { v with freeInfoValid := false }
    exact ⟨h₁, h₂, h₃, h₄, h₅⟩
  · exact sameFat_computeFreeInfo v

/-- At the end of the FAT: the free info is recomputed, or it says that no cluster is free. -/
theorem wrapAround_cases (v : Volume) (hd : v.diskError = false) :
    ((wrapAround v).CountRight ∧ (wrapAround v).nextCluster = (freeClusters v).headD v.nextCluster) ∨
      wrapAround v = v ∧ v.freeInfoValid = true ∧ ¬(0 < v.clusterCount ∧ v.clusterCount < 2^31) := by
  unfold wrapAround
  split
  · exact .inl (@computeFreeInfo_invalid { v with freeInfoValid := false } rfl hd)
  next hn =>
  cases hv : v.freeInfoValid with
  | false => exact .inl (computeFreeInfo_invalid hv hd)
  | true => exact .inr ⟨computeFreeInfo_valid hv, rfl, fun hc => hn ⟨hv, hc⟩⟩

theorem length_freeClusters_le (v : Volume) : (freeClusters v).length ≤ v.maxCluster := by
  exact le_trans (length_filter_le _ _) (le_of_eq length_range')

theorem kept_wrapAround (s : List Nat) (v : Volume) (hd : v.diskError = false) : Kept s v (wrapAround v) := by
  have hsame := sameFat_wrapAround v
  obtain ⟨hright,hnext⟩ | ⟨he,-⟩ := wrapAround_cases v hd
  · refine hsame.kept (fun _ => hright) (fun _ => ⟨hsame.diskError.trans hd, fun _ => hright⟩) fun hn => ?_
    rw [hnext]
    cases hl : freeClusters v with
    | nil => exact hn
    | cons a l =>
      have ha : a ∈ freeClusters v := by
        rw [hl]
        exact mem_cons_self
      exact (mem_freeClusters.mp ha).1.1
  · rw [he]
    exact Kept.refl s v

theorem kept_next (s : List Nat) (v : Volume) (n : Nat) (hn : minCluster ≤ v.nextCluster → minCluster ≤ n) :
    Kept s v { v with nextCluster := n } := ⟨rfl, rfl, rfl, fun _ _ _ => rfl, id, id, hn⟩

/-- What is allocated is a free cluster; only where a transfer has failed or the free info is wrong can there be
none with a free cluster left. -/
structure Allocates (v : Volume) (r : Nat × Volume) : Prop where
  same : SameFat v r.2
  kept : ∀ s, Kept s v r.2
  result : v.HasCluster r.1 ∧ getFatEntry v r.1 = clusterFree ∨
    r.1 = clusterLast ∧ (v.InfoOk → freeClusters v = [])

theorem allocates_allocateFrom : ∀ (fuel : Nat) (v : Volume), v.Fits → v.diskError = false →
    minCluster ≤ v.nextCluster → 0 < fuel → v.maxCluster+3 ≤ fuel+v.nextCluster →
    Allocates v (allocateFrom fuel v) := by
  intro fuel
  induction fuel with
  | zero =>
    intro v _ _ _ hpos _
    exact absurd hpos (lt_irrefl 0)
  | succ fuel ih =>
    intro v hfits hd hmin _ hfuel
    unfold allocateFrom
    split
    · next hend =>
      have hsame := sameFat_wrapAround v
      have hkept := fun s => kept_wrapAround s v hd
      have hstop : v.InfoOk → v.maxCluster+1 < (wrapAround v).nextCluster → freeClusters v = [] := by
        intro hinfo hnext
        obtain ⟨-,hhead⟩ | ⟨-,hval,hzero⟩ := wrapAround_cases v hd
        · cases hl : freeClusters v with
          | nil => rfl
          | cons a l =>
            have ha : a ∈ freeClusters v := by
              rw [hl]
              exact mem_cons_self
            rw [hl] at hhead
            have := (mem_freeClusters.mp ha).1.2
            rw [hhead] at hnext
            exact absurd hnext (not_lt.mpr this)
        · have hright : v.clusterCount = (freeClusters v).length := hinfo.2 hval
          have hle := length_freeClusters_le v
          have hlt : v.maxCluster+1 < v.fatType.special := hfits
          have hspecial : v.fatType.special < 2^31 := by cases v.fatType <;> decide
          exact length_eq_zero_iff.mp (by omega)
      split
      · next hnone => exact ⟨hsame, hkept, .inr ⟨rfl, fun hinfo => hstop hinfo hnone⟩⟩
      next hsome =>
      obtain ⟨-,hhead⟩ | ⟨he,-⟩ := wrapAround_cases v hd
      · cases hl : freeClusters v with
        | nil =>
          rw [hl] at hhead
          rw [hhead] at hsome
          exact absurd hend hsome
        | cons a l =>
          have ha : a ∈ freeClusters v := by
            rw [hl]
            exact mem_cons_self
          rw [hl] at hhead
          have hfree := mem_freeClusters.mp ha
          have hent : getFatEntry (wrapAround v) (wrapAround v).nextCluster = clusterFree := by
            rw [hsame.entry, hhead]
            exact hfree.2
          rw [if_pos hent]
          refine ⟨⟨hsame.fat, hsame.fatType, hsame.maxCluster, hsame.clusterAlignment, hsame.diskError⟩,
            fun s => (hkept s).trans (kept_next s _ _ fun h => Nat.le_succ_of_le h), .inl ?_⟩
          rw [hhead]
          exact hfree
      · rw [he] at hsome
        exact absurd hend hsome
    · next hend =>
      split
      · next hfree =>
        exact ⟨⟨rfl, rfl, rfl, rfl, rfl⟩, fun s => kept_next s _ _ fun h => Nat.le_succ_of_le h,
          .inl ⟨⟨hmin, Nat.le_of_not_lt hend⟩, hfree⟩⟩
      obtain ⟨hsame,hkept,hres⟩ := ih { v with nextCluster := v.nextCluster + 1 } hfits hd
        (Nat.le_succ_of_le hmin) (by omega) (by dsimp only; omega)
      refine ⟨⟨hsame.fat, hsame.fatType, hsame.maxCluster, hsame.clusterAlignment, hsame.diskError⟩,
        fun s => ?_, hres⟩
      exact (kept_next s v _ fun h => Nat.le_succ_of_le h).trans (hkept s)

theorem allocates_allocateCluster (hfits : v.Fits) (hmin : minCluster ≤ v.nextCluster) :
    Allocates v (allocateCluster v) := by
  unfold allocateCluster
  cases hd : v.diskError with
  | true =>
    rw [if_pos rfl]
    refine ⟨⟨rfl, rfl, rfl, rfl, rfl⟩, fun s => Kept.refl s v, .inr ⟨rfl, fun hinfo => ?_⟩⟩
    exact absurd (hd.symm.trans hinfo.1) (by decide)
  | false =>
    rw [if_neg (by decide)]
    exact allocates_allocateFrom _ v hfits hd hmin (Nat.succ_pos _) (Nat.le_add_right _ _)

def Leads (cluster : Nat) : List Nat → Prop
  | [] => endOfFatChain cluster = true
  | d :: _ => cluster = d

def Linked (v : Volume) : List Nat → Prop
  | [] => True
  | c :: rest => Leads (getFatEntry v c) rest ∧ Linked v rest

theorem Linked.congr (h : Linked v cs) (he : ∀ c ∈ cs, getFatEntry v' c = getFatEntry v c) : Linked v' cs := by
  induction cs with
  | nil => exact trivial
  | cons c rest ih =>
    refine ⟨?_, ih h.2 fun d hd => he d (mem_cons_of_mem _ hd)⟩
    rw [he c mem_cons_self]
    exact h.1

theorem Linked.append {rest : List Nat} (h : Linked v (cs ++ rest)) : Linked v rest := by
  induction cs with
  | nil => exact h
  | cons c cs ih => exact ih h.2

theorem Linked.entry_ne (h : Linked v cs) (hin : ∀ c ∈ cs, v.HasCluster c) (hc : c ∈ cs) :
    getFatEntry v c ≠ clusterFree := by
  induction cs with
  | nil => exact absurd hc not_mem_nil
  | cons a rest ih =>
    obtain rfl | hc := mem_cons.mp hc
    · have hlead := h.1
      intro hzero
      rw [hzero] at hlead
      cases rest with
      | nil =>
        have hend : endOfFatChain clusterFree = true := hlead
        exact absurd hend (by decide)
      | cons d rest =>
        have hd := (hin d (mem_cons_of_mem _ mem_cons_self)).1
        have hzero : clusterFree = d := hlead
        rw [← hzero] at hd
        exact absurd hd (by decide)
    · exact ih h.2 (fun d hd => hin d (mem_cons_of_mem _ hd)) hc

theorem leads_append {l l' : List Nat} : Leads cluster (cs ++ d :: l) ↔ Leads cluster (cs ++ d :: l') := by
  cases cs <;> exact Iff.rfl

theorem Linked.snoc (h : Linked v (cs ++ [d])) (hlast : getFatEntry v' d = c)
    (hnew : endOfFatChain (getFatEntry v' c) = true) (hother : ∀ e ∈ cs, getFatEntry v' e = getFatEntry v e) :
    Linked v' (cs ++ [d] ++ [c]) := by
  induction cs with
  | nil => exact ⟨hlast, hnew, trivial⟩
  | cons a cs ih =>
    refine ⟨?_, ih h.2 fun e he => hother e (mem_cons_of_mem _ he)⟩
    rw [hother a mem_cons_self]
    have hlead : Leads (getFatEntry v a) (cs ++ d :: [c]) := leads_append.mp h.1
    change Leads (getFatEntry v a) (cs ++ [d] ++ [c])
    rw [append_assoc]
    exact hlead

theorem Linked.cut (h : Linked v (cs ++ d :: rest)) (hend : endOfFatChain (getFatEntry v' d) = true)
    (hother : ∀ e ∈ cs, getFatEntry v' e = getFatEntry v e) : Linked v' (cs ++ [d]) := by
  induction cs with
  | nil => exact ⟨hend, trivial⟩
  | cons a cs ih =>
    refine ⟨?_, ih h.2 fun e he => hother e (mem_cons_of_mem _ he)⟩
    rw [hother a mem_cons_self]
    exact leads_append.mp h.1

theorem length_le_maxCluster (hn : cs.Nodup) (hin : ∀ c ∈ cs, v.HasCluster c) : cs.length ≤ v.maxCluster := by
  have hsub : cs ⊆ range' minCluster v.maxCluster := by
    intro c hc
    obtain ⟨hle,hlt⟩ := hin c hc
    rw [mem_range'_1]
    exact ⟨hle, by unfold minCluster; omega⟩
  have := (hn.subperm hsub).length_le
  rw [length_range'] at this
  exact this

end Liano.Fat.Space
