import Mathlib.Algebra.Ring.Nat
import Liano.Lib.Patch

/-! The entries of a FAT and the space of the files (EnhancedFatDxe/FileSpace.c). The FAT is a function from
positions to bytes. A transfer that fails sets DiskError for good, and from then on no cluster is allocated; the
transfers of the functions here succeed. -/
namespace Liano.Fat.Space

open Lib

/-- FAT_VOLUME_TYPE -/
inductive FatType
  | fat12 | fat16 | fat32
deriving DecidableEq, Repr

/-- What the space functions use of a volume: the FAT, the value of the dirty flag in its entry 1, and the
free info of the information sector. -/
structure Volume where
  fatType : FatType
  maxCluster : Nat
  clusterAlignment : Nat
  fat : Nat → UInt8
  dirtyValue : Nat → UInt8
  fatDirty : Bool
  clusterCount : Nat
  nextCluster : Nat
  freeInfoValid : Bool
  diskError : Bool

namespace FatType

/-- FAT_POS_FAT12, FAT_POS_FAT16, FAT_POS_FAT32 -/
def position : FatType → Nat → Nat
  | fat12, index => index*3 / 2
  | fat16, index => index*2
  | fat32, index => index*4

def entrySize : FatType → Nat
  | fat12 => 2
  | fat16 => 2
  | fat32 => 4

/-- FAT_CLUSTER_SPECIAL_FAT12, FAT_CLUSTER_SPECIAL_FAT16, FAT_CLUSTER_SPECIAL_FAT32 -/
def special : FatType → Nat
  | fat12 => 0xFF7
  | fat16 => 0xFFF7
  | fat32 => 0x0FFFFFF7

def values : FatType → Nat
  | fat12 => 0x1000
  | fat16 => 0x10000
  | fat32 => 0x10000000

end FatType

def clusterFree : Nat := 0

/-- FAT_CLUSTER_LAST, (UINTN) -1 -/
def clusterLast : Nat := 0xFFFFFFFFFFFFFFFF

/-- FAT_CLUSTER_SPECIAL_EXT, MAX_UINTN & ~0xF -/
def clusterSpecialExt : Nat := 0xFFFFFFFFFFFFFFF0

/-- FAT_CLUSTER_SPECIAL -/
def clusterSpecial : Nat := 0xFFFFFFFFFFFFFFF7

/-- FAT_MIN_CLUSTER -/
def minCluster : Nat := 2

/-- FAT_END_OF_FAT_CHAIN -/
def endOfFatChain (cluster : Nat) : Bool := decide (clusterSpecial < cluster)

def word (fat : Nat → UInt8) (pos : Nat) : FatType → Nat
  | .fat12 => (fat pos).toNat + (fat (pos+1)).toNat * 0x100
  | .fat16 => (fat pos).toNat + (fat (pos+1)).toNat * 0x100
  | .fat32 =>
    (fat pos).toNat + (fat (pos+1)).toNat * 0x100 + (fat (pos+2)).toNat * 0x10000 +
      (fat (pos+3)).toNat * 0x1000000

/-- The value in the bytes of an entry. Two entries of FAT12 share a byte. -/
def fieldOf (index accum : Nat) : FatType → Nat
  | .fat12 => if index % 2 = 1 then accum / 0x10 else accum % 0x1000
  | .fat16 => accum
  | .fat32 => accum % 0x10000000

def withField (index accum value : Nat) : FatType → Nat
  | .fat12 =>
    if index % 2 = 1 then value % 0x1000 * 0x10 + accum % 0x10
    else value % 0x1000 + accum / 0x1000 * 0x1000
  | .fat16 => value % 0x10000
  | .fat32 => accum / 0x10000000 * 0x10000000 + value % 0x10000000

/-- Accum | FAT_CLUSTER_SPECIAL_EXT for the special values. -/
def extend (t : FatType) (accum : Nat) : Nat :=
  if t.special ≤ accum then clusterSpecialExt + accum % 0x10 else accum

def rawEntry (t : FatType) (fat : Nat → UInt8) (index : Nat) : Nat :=
  fieldOf index (word fat (t.position index) t) t

section
variable (v : Volume)

def getFatEntry (index : Nat) : Nat :=
  if v.maxCluster+1 < index then clusterLast else extend v.fatType (rawEntry v.fatType v.fat index)

def bytesOf (accum : Nat) : Nat → UInt8 := fun k => UInt8.ofNat (accum / 0x100^k)

/-- The entry in the FAT is replaced. -/
def storeEntry (t : FatType) (fat fatRead : Nat → UInt8) (index value : Nat) : Nat → UInt8 :=
  patch fat (t.position index) t.entrySize
    (bytesOf (withField index (word fatRead (t.position index) t) value t))

def updateFreeInfo (index value : Nat) : Volume :=
  if value = clusterFree ∧ getFatEntry v index ≠ clusterFree then
    { v with
      clusterCount := (v.clusterCount+1) % 2^32
      nextCluster := if index < v.nextCluster then index else v.nextCluster }
  else if value ≠ clusterFree ∧ getFatEntry v index = clusterFree then
    { v with clusterCount := v.clusterCount - 1 }
  else v

/-- The first change of a FAT16 or FAT32 sets the dirty flag of the volume, in entry 1. -/
def markDirty : Volume := if !v.fatDirty && v.fatType != .fat12 then
    { v with
      fatDirty := true
      fat := patch v.fat v.fatType.entrySize v.fatType.entrySize v.dirtyValue }
  else v

/-- `FatSetFatEntry` of an entry of the FAT: the bytes of the entry are read before the dirty flag is
written. -/
def setFatEntry (index value : Nat) : Volume := if index < minCluster then v
  else
    { markDirty (updateFreeInfo v index value) with
      fat := storeEntry v.fatType (markDirty (updateFreeInfo v index value)).fat v.fat index value }

def freeClusters : List Nat :=
  (List.range' minCluster v.maxCluster).filter fun index => getFatEntry v index == clusterFree

/-- `FatComputeFreeInfo`: the clusters are counted, and the lowest free one is the next. With DiskError set the
loop ends before the first cluster. -/
def computeFreeInfo : Volume := if v.freeInfoValid then v
  else if v.diskError then { v with freeInfoValid := true, clusterCount := 0 }
  else
    { v with
      freeInfoValid := true
      clusterCount := (freeClusters v).length
      nextCluster := (freeClusters v).headD v.nextCluster }

/-- The step at the end of the FAT: the free info is computed again unless it says that no cluster is free. -/
def wrapAround : Volume := if v.freeInfoValid ∧ 0 < v.clusterCount ∧ v.clusterCount < 2^31 then
    computeFreeInfo { v with freeInfoValid := false }
  else computeFreeInfo v

/-- The loop of `FatAllocateCluster`. -/
def allocateFrom : Nat → Volume → Nat × Volume
  | 0, v => (clusterLast,v)
  | fuel+1, v =>
    if v.maxCluster+1 < v.nextCluster then
      if v.maxCluster+1 < (wrapAround v).nextCluster then (clusterLast, wrapAround v)
      else if getFatEntry (wrapAround v) (wrapAround v).nextCluster = clusterFree then
        ((wrapAround v).nextCluster, { wrapAround v with nextCluster := (wrapAround v).nextCluster + 1 })
      else allocateFrom fuel { wrapAround v with nextCluster := (wrapAround v).nextCluster + 1 }
    else if getFatEntry v v.nextCluster = clusterFree then
      (v.nextCluster, { v with nextCluster := v.nextCluster + 1 })
    else allocateFrom fuel { v with nextCluster := v.nextCluster + 1 }

/-- `FatAllocateCluster`. After the end of the FAT the loop ends at once. -/
def allocateCluster : Nat × Volume := if v.diskError then (clusterLast,v)
  else allocateFrom (v.maxCluster+3) v

def sizeToClusters (size : Nat) : Nat :=
  size / 2^v.clusterAlignment + if 0 < size % 2^v.clusterAlignment then 1 else 0

/-- FAT_OFILE, the fields of the space functions. -/
structure OFile where
  fileCluster : Nat
  fileCurrentCluster : Nat
  fileLastCluster : Nat
  fileSize : Nat
  dirty : Bool

inductive Status
  | success | unsupported | volumeCorrupted | volumeFull
deriving DecidableEq, Repr

/-- `FatFreeClusters`. Every turn frees a cluster, so the chain ends or meets a free one. -/
def freeFrom : Nat → Volume → Nat → Status × Volume
  | 0, v, _ => (.volumeCorrupted, v)
  | fuel+1, v, cluster =>
    if endOfFatChain cluster then (.success, v)
    else if cluster = clusterFree ∨ clusterSpecial ≤ cluster then (.volumeCorrupted, v)
    else freeFrom fuel (setFatEntry v cluster clusterFree) (getFatEntry v cluster)

def freeChain (cluster : Nat) : Status × Volume := freeFrom (v.maxCluster+3) v cluster

def walk (v : Volume) : Nat → Nat → Nat → Option (Nat × Nat)
  | 0, cluster, last => some (cluster,last)
  | count+1, cluster, _ =>
    if cluster = clusterFree ∨ clusterSpecial ≤ cluster then none
    else walk v count (getFatEntry v cluster) cluster

def shrinkEof (o : OFile) : Status × Volume × OFile := if sizeToClusters v o.fileSize = 0 then
    if o.fileCluster = clusterFree then (.success, v, o)
    else
      ((freeChain v o.fileCluster).1, (freeChain v o.fileCluster).2, { o with
          fileCluster := clusterFree, fileCurrentCluster := clusterFree, fileLastCluster := clusterFree
          dirty := true })
  else
    match walk v (sizeToClusters v o.fileSize) o.fileCluster clusterFree with
    | none => (.volumeCorrupted, v, o)
    | some (cluster,last) =>
      ((freeChain (setFatEntry v last clusterLast) cluster).1,
        (freeChain (setFatEntry v last clusterLast) cluster).2,
        { o with fileCurrentCluster := o.fileCluster, fileLastCluster := last, dirty := true })

/-- The loop that looks for the last cluster of a file: whether the chain ends, its length and the last cluster
that was met. -/
def findLast (v : Volume) : Nat → Nat → Nat → Nat → Bool × Nat × Nat
  | 0, _, count, last => (false,count,last)
  | fuel+1, cluster, count, last =>
    if endOfFatChain cluster then (true,count,last)
    else if cluster < minCluster ∨ v.maxCluster+1 < cluster then (false,count,last)
    else findLast v fuel (getFatEntry v cluster) (count+1) cluster

def linkCluster (last new : Nat) : Volume :=
  setFatEntry (if last ≠ 0 then setFatEntry v last new else v) new clusterLast

def linkFile (o : OFile) (last new : Nat) : OFile := if last ≠ 0 then { o with fileLastCluster := new }
  else { o with fileCluster := new, fileCurrentCluster := new, fileLastCluster := new }

/-- The loop of `FatGrowEof`. -/
def growLoop : Nat → Nat → Volume → OFile → Status × Volume × OFile
  | 0, _, v, o => (.success, v, o)
  | count+1, last, v, o =>
    if endOfFatChain (allocateCluster v).1 then
      if last ≠ clusterFree then
        (.volumeFull, setFatEntry (allocateCluster v).2 last clusterLast, { o with fileLastCluster := last })
      else (.volumeFull, (allocateCluster v).2, o)
    else if (allocateCluster v).1 < minCluster ∨ v.maxCluster+1 < (allocateCluster v).1 then
      (.volumeCorrupted, (allocateCluster v).2, o)
    else
      growLoop count (allocateCluster v).1 (linkCluster (allocateCluster v).2 last (allocateCluster v).1)
        (linkFile o last (allocateCluster v).1)

def undoGrowth (r : Status × Volume × OFile) : Status × Volume × OFile :=
  (r.1, (shrinkEof r.2.1 r.2.2).2.1, (shrinkEof r.2.1 r.2.2).2.2)

def lastOf (o : OFile) : Bool × Nat × Nat :=
  findLast v (v.maxCluster+3) o.fileCluster 0 o.fileLastCluster

def loadLast (o : OFile) : Bool × OFile := if o.fileCluster ≠ 0 ∧ o.fileLastCluster = 0 then
    ((lastOf v o).1 && (lastOf v o).2.1 == sizeToClusters v o.fileSize,
      { o with fileLastCluster := (lastOf v o).2.2 })
  else (true,o)

def growBy (o : OFile) (count newSize : Nat) : Status × Volume × OFile :=
  if (growLoop count o.fileLastCluster v o).1 = .success then
    (.success, (growLoop count o.fileLastCluster v o).2.1,
      { (growLoop count o.fileLastCluster v o).2.2 with fileSize := newSize, dirty := true })
  else undoGrowth (growLoop count o.fileLastCluster v o)

def growEof (o : OFile) (newSize : Nat) : Status × Volume × OFile :=
  if 0xFFFFFFFF < newSize then (.unsupported, v, o)
  else if sizeToClusters v o.fileSize < sizeToClusters v newSize then
    if (loadLast v o).1 then
      growBy v (loadLast v o).2 (sizeToClusters v newSize - sizeToClusters v o.fileSize) newSize
    else undoGrowth (.volumeCorrupted, v, (loadLast v o).2)
  else (.success, v, { o with fileSize := newSize, dirty := true })

end

variable {v : Volume} {i j x : Nat} {t : FatType} {fat fat' : Nat → UInt8}

theorem toNat_bytesOf (accum k : Nat) : (bytesOf accum k).toNat = accum / 0x100^k % 0x100 := by
  simp [bytesOf]

theorem storeEntry_inside {q k : Nat} (hk : k < t.entrySize) (hq : q = t.position i + k) :
    (storeEntry t fat fat' i x q).toNat = withField i (word fat' (t.position i) t) x t / 0x100^k % 0x100 := by
  unfold storeEntry
  rw [patch_inside (by omega) (by omega), toNat_bytesOf, hq, Nat.add_sub_cancel_left]

theorem storeEntry_outside {q : Nat} (hq : ¬(t.position i ≤ q ∧ q < t.position i + t.entrySize)) :
    storeEntry t fat fat' i x q = fat q := patch_outside hq

theorem rawEntry_storeEntry_fat12 (fat : Nat → UInt8) (i j x : Nat) :
    rawEntry .fat12 (storeEntry .fat12 fat fat i x) j = if j = i then x % 0x1000 else rawEntry .fat12 fat j := by
  have h0 := @storeEntry_inside i x .fat12 fat fat (i*3 / 2) 0 (by decide) rfl
  have h1 := @storeEntry_inside i x .fat12 fat fat (i*3 / 2 + 1) 1 (by decide) rfl
  simp only [FatType.position, withField, word, pow_zero, Nat.pow_one, Nat.div_one] at h0 h1
  have hb0 := (fat (i*3 / 2)).toNat_lt
  have hb1 := (fat (i*3 / 2 + 1)).toNat_lt
  have hout (q : Nat) (hq : ¬(i*3 / 2 ≤ q ∧ q < i*3 / 2 + 2)) :
      storeEntry .fat12 fat fat i x q = fat q := storeEntry_outside hq
  simp only [rawEntry, fieldOf, word, FatType.position]
  by_cases hji : j = i
  · subst hji
    split at h0 <;> simp_all <;> omega
  rw [if_neg hji]
  by_cases hnext : j*3 / 2 = i*3 / 2 + 1
  · have hpar : i % 2 = 0 ∧ j % 2 = 1 := by omega
    rw [hnext, h1, hout (i*3 / 2 + 1 + 1) (by omega), if_pos hpar.2, if_pos hpar.2, if_neg (by omega)]
    omega
  by_cases hprev : i*3 / 2 = j*3 / 2 + 1
  · have hpar : i % 2 = 1 ∧ j % 2 = 0 := by omega
    have hj : ¬j % 2 = 1 := by omega
    rw [if_pos hpar.1, hprev] at h0
    rw [if_neg hj, if_neg hj, h0, hout (j*3 / 2) (by omega)]
    omega
  · rw [hout (j*3 / 2) (by omega), hout (j*3 / 2 + 1) (by omega)]

theorem rawEntry_storeEntry_fat16 (fat fat' : Nat → UInt8) (i j x : Nat) :
    rawEntry .fat16 (storeEntry .fat16 fat fat' i x) j = if j = i then x % 0x10000 else rawEntry .fat16 fat j := by
  have h0 := @storeEntry_inside i x .fat16 fat fat' (i*2) 0 (by decide) rfl
  have h1 := @storeEntry_inside i x .fat16 fat fat' (i*2+1) 1 (by decide) rfl
  simp only [withField, pow_zero, Nat.pow_one, Nat.div_one] at h0 h1
  have hout (q : Nat) (hq : ¬(i*2 ≤ q ∧ q < i*2+2)) :
      storeEntry .fat16 fat fat' i x q = fat q := storeEntry_outside hq
  simp only [rawEntry, fieldOf, word, FatType.position]
  by_cases hji : j = i
  · subst hji
    rw [if_pos rfl, h0, h1]
    omega
  · rw [if_neg hji, hout (j*2) (by omega), hout (j*2+1) (by omega)]

theorem rawEntry_storeEntry_fat32 (fat fat' : Nat → UInt8) (i j x : Nat) :
    rawEntry .fat32 (storeEntry .fat32 fat fat' i x) j =
      if j = i then x % 0x10000000 else rawEntry .fat32 fat j := by
  have h0 := @storeEntry_inside i x .fat32 fat fat' (i*4) 0 (by decide) rfl
  have h1 := @storeEntry_inside i x .fat32 fat fat' (i*4+1) 1 (by decide) rfl
  have h2 := @storeEntry_inside i x .fat32 fat fat' (i*4+2) 2 (by decide) rfl
  have h3 := @storeEntry_inside i x .fat32 fat fat' (i*4+3) 3 (by decide) rfl
  simp only [withField, pow_zero, Nat.pow_one, Nat.div_one] at h0 h1
  simp only [withField, Nat.reducePow] at h2 h3
  have hout (q : Nat) (hq : ¬(i*4 ≤ q ∧ q < i*4+4)) :
      storeEntry .fat32 fat fat' i x q = fat q := storeEntry_outside hq
  simp only [rawEntry, fieldOf, FatType.position]
  by_cases hji : j = i
  · subst hji
    rw [if_pos rfl]
    simp only [word]
    omega
  · unfold word
    rw [if_neg hji, hout (j*4) (by omega), hout (j*4+1) (by omega), hout (j*4+2) (by omega),
      hout (j*4+3) (by omega)]

end Liano.Fat.Space
