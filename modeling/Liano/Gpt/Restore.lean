import Liano.Gpt.Discovery

/-! Restoring the other copy of a partition table: what it leaves of the disk. -/
namespace Liano.Gpt
open Bytes

/-! ## A field that is set -/

section
variable {b : Bytes} {off len k n q v : Nat}

theorem length_set (hb : b.length = n) (h : off+k ≤ n) : (patch b off (leBytes k v)).length = n := by
  rw [length_patch, hb]
  rw [length_leBytes, hb]
  exact h

theorem slice_set (hb : b.length = n) (h : off+k ≤ n) (hd : q+len ≤ off ∨ off+k ≤ q) :
    slice (patch b off (leBytes k v)) q len = slice b q len := by
  apply slice_patch_of_disjoint
  · rw [length_leBytes, hb]
    exact h
  · rw [length_leBytes]
    exact hd

theorem leValue_set (h : off+k ≤ b.length) (hv : v < 256^k) :
    leValue (slice (patch b off (leBytes k v)) off k) = v := by
  have hself : slice (patch b off (leBytes k v)) off (leBytes k v).length = leBytes k v := by
    apply slice_patch_self
    rw [length_leBytes]
    exact h
  rw [length_leBytes] at hself
  rw [hself, leValue_leBytes]
  exact Nat.mod_eq_of_lt hv

end

/-! ## The CRC -/

section
variable {n : Nat} {buffer hdr : Bytes}

theorem crcBit_lt (h : n < 2^32) : crcBit n < 2^32 := by
  have hshift : n >>> 1 < 2^32 := by
    rw [Nat.shiftRight_eq_div_pow]
    omega
  unfold crcBit
  split
  · exact Nat.xor_lt_two_pow hshift (by decide)
  · exact hshift

theorem mCrcTable_lt (h : n < 2^32) : mCrcTable n < 2^32 := by
  have hbits : ∀ (l : List Nat) (crc : Nat), crc < 2^32 → l.foldl (fun crc _ => crcBit crc) crc < 2^32 := by
    intro l
    induction l with
    | nil => exact fun _ hcrc => hcrc
    | cons _ l ih => exact fun crc hcrc => ih (crcBit crc) (crcBit_lt hcrc)
  exact hbits _ n h

theorem calculateCrc32_lt (buffer : Bytes) : calculateCrc32 buffer < 2^32 := by
  have hfold : ∀ (buffer : Bytes) (crc : Nat), crc < 2^32 →
      buffer.foldl (fun crc byte => (crc >>> 8) ^^^ mCrcTable (crc % 256 ^^^ byte.toNat)) crc < 2^32 := by
    intro buffer
    induction buffer with
    | nil => exact fun _ hcrc => hcrc
    | cons byte buffer ih =>
      intro crc hcrc
      have hidx : crc % 256 ^^^ byte.toNat < 2^8 :=
        Nat.xor_lt_two_pow (Nat.mod_lt _ (by decide)) byte.toNat_lt
      have hshift : crc >>> 8 < 2^32 := by
        rw [Nat.shiftRight_eq_div_pow]
        omega
      exact ih _ (Nat.xor_lt_two_pow hshift (mCrcTable_lt (lt_trans hidx (by decide))))
  exact Nat.xor_lt_two_pow (hfold buffer _ (by decide)) (by decide)

/-- A header that PartitionSetCrc has been at passes PartitionCheckCrc. -/
theorem partitionCheckCrc_setCrc {maxSize : Nat} (hlen : 20 ≤ hdr.length) (hpos : headerSize hdr ≠ 0)
    (hmax : headerSize hdr ≤ maxSize) : partitionCheckCrc maxSize (partitionSetCrc hdr) = true := by
  have hsize : headerSize (partitionSetCrc hdr) = headerSize hdr :=
    congrArg leValue (slice_set rfl hlen (.inl (by decide)))
  have hzeroed : patch (partitionSetCrc hdr) 16 [0, 0, 0, 0] = patch hdr 16 [0, 0, 0, 0] :=
    patch_twice hlen (length_leBytes _ _)
  have hsto : headerCrc32 (partitionSetCrc hdr) =
      calculateCrc32 ((patch hdr 16 [0, 0, 0, 0]).take (headerSize hdr)) :=
    leValue_set hlen (calculateCrc32_lt _)
  unfold partitionCheckCrc
  rw [hsize, hzeroed, hsto, beq_self_eq_true, Bool.and_true, Bool.and_eq_true, bne_iff_ne, Bool.not_eq_true',
    Bool.and_eq_false_iff]
  exact ⟨hpos, .inr (decide_eq_false (not_lt.mpr hmax))⟩

end

/-! ## The writes -/

section
variable {m : Media} {offset off len : Nat} {buffer : Bytes} {outcome : Bool}

/-- The bytes of a range are not among those of another. -/
def RangesApart (offset len offset' len' : Nat) : Prop := offset+len ≤ offset' ∨ offset'+len' ≤ offset

theorem length_writeDisk : (writeDisk m offset buffer).2.disk.length = m.disk.length := by
  unfold writeDisk
  split
  · rfl
  rename_i hfits
  split
  · exact length_patch (by omega)
  · refine length_patch ?_
    rw [List.length_take]
    omega

theorem getElem?_writeDisk {i : Nat} (h : i < offset ∨ offset+buffer.length ≤ i) :
    (writeDisk m offset buffer).2.disk[i]? = m.disk[i]? := by
  unfold writeDisk
  split
  · rfl
  rename_i hfits
  split
  · rw [getElem?_patch (by omega), if_neg (by omega)]
  · rename_i written _
    have htaken : (buffer.take written).length ≤ buffer.length := List.length_take_le' _ _
    rw [getElem?_patch (by omega), if_neg (by omega)]

theorem readDisk_writeDisk (h : RangesApart offset buffer.length off len) :
    readDisk (writeDisk m offset buffer).2.disk off len = readDisk m.disk off len := by
  unfold readDisk
  rw [length_writeDisk]
  split
  · refine congrArg some (List.ext_getElem? fun i => ?_)
    rw [getElem?_slice, getElem?_slice]
    split
    · refine getElem?_writeDisk ?_
      unfold RangesApart at h
      omega
    · rfl
  · rfl

theorem readDisk_written (h : (writeDisk m offset buffer).1 = true) :
    readDisk (writeDisk m offset buffer).2.disk offset buffer.length = some buffer := by
  unfold readDisk
  rw [length_writeDisk]
  unfold writeDisk at h ⊢
  split at h
  · cases h
  rename_i hfits
  rw [if_neg hfits, if_pos (by omega)]
  split at h
  · exact congrArg some (slice_patch_self (by omega))
  · cases h

end

/-! ## The copy -/

section
variable {dev : Device} {m : Media} {disk hdr array : Bytes} {lba : Nat}

/-- The padded header with the places of the two copies. -/
def placedHeader (dev : Device) (hdr : Bytes) : Bytes :=
  patch (patch (hdr ++ List.replicate (dev.blockSize-headerStructSize) 0) 24 (leBytes 8 (alternateLba hdr)))
    32 (leBytes 8 (myLba hdr))

/-- The header of the copy before its CRC is set. -/
def mirroredHeader (dev : Device) (hdr : Bytes) : Bytes :=
  patch (placedHeader dev hdr) 72 (leBytes 8 (pEntryLba hdr))

/-- A header in a buffer of the size of a block. -/
structure HeaderFits (dev : Device) (hdr : Bytes) : Prop where
  block : headerStructSize ≤ dev.blockSize
  header : hdr.length = headerStructSize

theorem restoredHeader_eq : restoredHeader dev hdr = partitionSetCrc (mirroredHeader dev hdr) := rfl

theorem HeaderFits.length_padded (h : HeaderFits dev hdr) :
    (hdr ++ List.replicate (dev.blockSize-headerStructSize) (0 : UInt8)).length = dev.blockSize := by
  rw [List.length_append, List.length_replicate, h.header]
  exact Nat.add_sub_cancel' h.block

theorem HeaderFits.length_placed (h : HeaderFits dev hdr) : (placedHeader dev hdr).length = dev.blockSize := by
  have hblock : 92 ≤ dev.blockSize := h.block
  exact length_set (length_set h.length_padded (by omega)) (by omega)

theorem HeaderFits.length_mirrored (h : HeaderFits dev hdr) : (mirroredHeader dev hdr).length = dev.blockSize :=
  length_set h.length_placed (le_trans (by decide) h.block)

theorem HeaderFits.length_restored (h : HeaderFits dev hdr) : (restoredHeader dev hdr).length = dev.blockSize :=
  length_set h.length_mirrored (le_trans (by decide) h.block)

/-- The fields that the restoring does not set. -/
theorem HeaderFits.field (h : HeaderFits dev hdr) {off len : Nat}
    (hoff : (off+len ≤ 24 ∨ 40 ≤ off) ∧ (off+len ≤ 72 ∨ 80 ≤ off) ∧ off+len ≤ headerStructSize) :
    slice (mirroredHeader dev hdr) off len = slice hdr off len := by
  have hblock : 92 ≤ dev.blockSize := h.block
  rw [mirroredHeader, slice_set h.length_placed (by omega) hoff.2.1, placedHeader,
    slice_set (length_set h.length_padded (by omega)) (by omega) (by omega),
    slice_set h.length_padded (by omega) (by omega), slice_append_left _ (by rw [h.header]; exact hoff.2.2)]

theorem HeaderFits.crc_apart (h : HeaderFits dev hdr) {off len : Nat} (hcrc : off+len ≤ 16 ∨ 20 ≤ off) :
    slice (restoredHeader dev hdr) off len = slice (mirroredHeader dev hdr) off len :=
  slice_set h.length_mirrored (le_trans (by decide) h.block) hcrc

theorem HeaderFits.myLba (h : HeaderFits dev hdr) : myLba (restoredHeader dev hdr) = alternateLba hdr := by
  have hblock : 92 ≤ dev.blockSize := h.block
  rw [Gpt.myLba, h.crc_apart (by omega), mirroredHeader, slice_set h.length_placed (by omega) (by omega),
    placedHeader, slice_set (length_set h.length_padded (by omega)) (by omega) (by omega)]
  refine leValue_set ?_ (leValue_slice_lt hdr 32 8)
  rw [h.length_padded]
  omega

theorem pEntryLba_lt (hdr : Bytes) : pEntryLba hdr < 2^64 := by
  unfold pEntryLba
  split
  · exact Nat.mod_lt _ (by decide)
  · decide

theorem HeaderFits.partitionEntryLba (h : HeaderFits dev hdr) :
    partitionEntryLba (restoredHeader dev hdr) = pEntryLba hdr := by
  rw [Gpt.partitionEntryLba, h.crc_apart (by omega)]
  refine leValue_set ?_ (pEntryLba_lt hdr)
  rw [h.length_placed]
  exact le_trans (by decide) h.block

/-- The header of the copy as it is read back. -/
def copyHeader (dev : Device) (hdr : Bytes) : Bytes := (restoredHeader dev hdr).take headerStructSize

theorem HeaderFits.copy_field (h : HeaderFits dev hdr) {off len : Nat} (hoff : (off+len ≤ 16 ∨ 20 ≤ off) ∧
      (off+len ≤ 24 ∨ 40 ≤ off) ∧ (off+len ≤ 72 ∨ 80 ≤ off) ∧ off+len ≤ headerStructSize) :
    slice (copyHeader dev hdr) off len = slice hdr off len := by
  rw [copyHeader, slice_take hoff.2.2.2, h.crc_apart hoff.1, h.field hoff.2]

theorem HeaderFits.arraySize (h : HeaderFits dev hdr) : arraySize (copyHeader dev hdr) = arraySize hdr := by
  unfold Gpt.arraySize numberOfPartitionEntries sizeOfPartitionEntry
  rw [h.copy_field (by decide), h.copy_field (by decide)]

theorem HeaderFits.copy_entryLba (h : HeaderFits dev hdr) :
    Gpt.partitionEntryLba (copyHeader dev hdr) = pEntryLba hdr := by
  rw [Gpt.partitionEntryLba, copyHeader, slice_take (by decide), ← Gpt.partitionEntryLba, h.partitionEntryLba]

theorem checked_of_headerAt (h : headerAt dev disk lba = some hdr) (hblock : headerStructSize ≤ dev.blockSize) :
    dev.allocates dev.blockSize = true ∧ signature hdr = efiPtabHeaderId ∧ headerSize hdr ≠ 0 ∧
      headerSize hdr ≤ dev.blockSize ∧ myLba hdr = lba ∧ entryStructSize ≤ sizeOfPartitionEntry hdr := by
  obtain ⟨⟨block,_,hsignature,hcrc,hlba,rfl⟩,hsize⟩ := headerAt_verified h
  have hallocates : dev.allocates dev.blockSize = true := by
    unfold headerAt at h
    split at h
    · assumption
    · cases h
  unfold partitionCheckCrc at hcrc
  rw [Bool.and_eq_true, Bool.and_eq_true, bne_iff_ne, Bool.not_eq_true', Bool.and_eq_false_iff, bne_eq_false_iff_eq,
    decide_eq_false_iff_not, not_lt] at hcrc
  obtain ⟨⟨hpos,hmax⟩,-⟩ := hcrc
  have hhdrSize : headerSize (block.take headerStructSize) = headerSize block :=
    congrArg leValue (slice_take (by decide))
  refine ⟨hallocates, (slice_take (by decide)).trans hsignature, ?_, ?_, ?_, hsize⟩
  · rw [hhdrSize]
    exact hpos
  · rw [hhdrSize]
    rcases hmax with hzero | hle
    · rw [hzero] at hblock
      exact absurd hblock (by decide)
    · exact hle
  · exact (congrArg leValue (slice_take (by decide))).trans hlba

theorem headerFits_of_headerAt (h : headerAt dev disk lba = some hdr) (hblock : headerStructSize ≤ dev.blockSize) :
    HeaderFits dev hdr := by
  obtain ⟨⟨block,hread,_,_,_,rfl⟩,_⟩ := headerAt_verified h
  refine ⟨hblock, ?_⟩
  rw [List.length_take, length_readDisk hread]
  exact min_eq_left hblock

/-- The block that is written is a header that passes every check at its place. -/
theorem HeaderFits.headerAt (h : HeaderFits dev hdr) (hval : headerAt dev disk lba = some hdr) {disk' : Bytes}
    (hread : readDisk disk' (dev.offsetOf (alternateLba hdr)) dev.blockSize = some (restoredHeader dev hdr)) :
    headerAt dev disk' (alternateLba hdr) = some (copyHeader dev hdr) := by
  obtain ⟨hallocates,hsignature,hpos,hmax,-,hsize⟩ := checked_of_headerAt hval h.block
  have hblock : 92 ≤ dev.blockSize := h.block
  have hhdrSize : headerSize (mirroredHeader dev hdr) = headerSize hdr :=
    congrArg leValue (h.field (by decide))
  have hrestored : signature (restoredHeader dev hdr) = efiPtabHeaderId := by
    rw [signature, h.crc_apart (by decide), h.field (by decide)]
    exact hsignature
  have hent : sizeOfPartitionEntry (restoredHeader dev hdr) = sizeOfPartitionEntry hdr := by
    unfold sizeOfPartitionEntry
    rw [h.crc_apart (by decide), h.field (by decide)]
  have hcrc : partitionCheckCrc dev.blockSize (restoredHeader dev hdr) = true := by
    rw [restoredHeader_eq]
    refine partitionCheckCrc_setCrc ?_ ?_ ?_
    · rw [h.length_mirrored]
      omega
    · rw [hhdrSize]
      exact hpos
    · rw [hhdrSize]
      exact hmax
  unfold Gpt.headerAt
  rw [if_pos hallocates, hread, Option.filter_some, hrestored, hcrc, h.myLba, hent]
  simp only [beq_self_eq_true, hsize, decide_true, Bool.and_self, if_true, Option.map_some]
  rfl

/-- The header of the other copy is to be written apart from the valid copy. -/
structure HeaderApart (dev : Device) (hdr : Bytes) (lba : Nat) : Prop where
  fromHeader : RangesApart (dev.offsetOf (alternateLba hdr)) dev.blockSize (dev.offsetOf lba) dev.blockSize
  fromArray : RangesApart (dev.offsetOf (alternateLba hdr)) dev.blockSize
    (dev.offsetOf (partitionEntryLba hdr)) (arraySize hdr)

/-- The entries of the other copy are to be written apart from the valid copy and from the header before them. -/
structure ArrayApart (dev : Device) (hdr : Bytes) (lba : Nat) : Prop where
  fromHeader : RangesApart (dev.offsetOf (pEntryLba hdr)) (arraySize hdr) (dev.offsetOf lba) dev.blockSize
  fromArray : RangesApart (dev.offsetOf (pEntryLba hdr)) (arraySize hdr)
    (dev.offsetOf (partitionEntryLba hdr)) (arraySize hdr)
  fromCopy : RangesApart (dev.offsetOf (pEntryLba hdr)) (arraySize hdr)
    (dev.offsetOf (alternateLba hdr)) dev.blockSize

/-- What is written lies apart. A write behind the end of the disk fails. -/
structure DestinationApart (dev : Device) (disk hdr : Bytes) (lba : Nat) : Prop where
  header : dev.offsetOf (alternateLba hdr) + dev.blockSize ≤ disk.length → HeaderApart dev hdr lba
  array : dev.offsetOf (alternateLba hdr) + dev.blockSize ≤ disk.length →
    dev.offsetOf (pEntryLba hdr) + arraySize hdr ≤ disk.length → ArrayApart dev hdr lba

/-- The two copies name the same partitions: the same entries and the same usable blocks. -/
structure SameTable (dev : Device) (disk hdr disk' hdr' : Bytes) : Prop where
  entries : readEntryArray dev disk' hdr' = readEntryArray dev disk hdr
  number : numberOfPartitionEntries hdr' = numberOfPartitionEntries hdr
  size : sizeOfPartitionEntry hdr' = sizeOfPartitionEntry hdr
  firstUsable : firstUsableLba hdr' = firstUsableLba hdr
  lastUsable : lastUsableLba hdr' = lastUsableLba hdr

/-- After a call with the result `r`, wherever its writes have failed: the copy at `lba` is still valid, nothing but
the header block and the entry array of the other copy has changed, and if the call succeeds that copy is valid too. -/
structure RestoreKeeps (dev : Device) (m : Media) (lba : Nat) (hdr : Bytes) (r : Bool × Media) : Prop where
  source : IsValid dev r.2.disk lba hdr
  length : r.2.disk.length = m.disk.length
  elsewhere : ∀ i, (i < dev.offsetOf (alternateLba hdr) ∨ dev.offsetOf (alternateLba hdr) + dev.blockSize ≤ i) →
    (i < dev.offsetOf (pEntryLba hdr) ∨ dev.offsetOf (pEntryLba hdr) + arraySize hdr ≤ i) →
    r.2.disk[i]? = m.disk[i]?
  copy : r.1 = true → ∃ hdr', IsValid dev r.2.disk (alternateLba hdr) hdr' ∧
    SameTable dev m.disk hdr r.2.disk hdr'

theorem IsValid.of_reads {disk' : Bytes} (h : IsValid dev disk lba hdr)
    (hhdr : readDisk disk' (dev.offsetOf lba) dev.blockSize = readDisk disk (dev.offsetOf lba) dev.blockSize)
    (harray : readEntryArray dev disk' hdr = readEntryArray dev disk hdr) : IsValid dev disk' lba hdr where
  header := by
    rw [headerAt, hhdr]
    exact h.header
  array := by
    rw [partitionCheckGptEntryArrayCRC, harray]
    exact h.array

theorem length_readEntryArray (h : readEntryArray dev disk hdr = some array) : array.length = arraySize hdr := by
  unfold readEntryArray at h
  split at h
  · exact length_readDisk h
  · cases h

/-- The disk behind the write of the header. -/
def headerWritten (dev : Device) (m : Media) (hdr : Bytes) : Bool × Media :=
  writeDisk m (dev.offsetOf (alternateLba hdr)) (restoredHeader dev hdr)

/-- The disk behind the write of the entries. -/
def arrayWritten (dev : Device) (m : Media) (hdr array : Bytes) : Bool × Media :=
  writeDisk (headerWritten dev m hdr).2 (dev.offsetOf (pEntryLba hdr)) array

theorem partitionRestoreGptTable_eq (hallocates : dev.allocates dev.blockSize = true)
    (harray : readEntryArray dev (headerWritten dev m hdr).2.disk hdr = some array) :
    partitionRestoreGptTable dev m hdr = if (headerWritten dev m hdr).1 then arrayWritten dev m hdr array
      else (false, (headerWritten dev m hdr).2) := by
  unfold headerWritten at harray
  unfold partitionRestoreGptTable arrayWritten headerWritten
  rw [hallocates, Bool.not_true, if_ff]
  simp only [harray]
  cases (writeDisk m (dev.offsetOf (alternateLba hdr)) (restoredHeader dev hdr)).1 <;> rfl

/-- A write that leaves a range as it is: it lies apart from the range, or behind the end of the disk. -/
theorem readDisk_of_apart {off len offset : Nat} {buffer : Bytes}
    (h : offset+buffer.length ≤ m.disk.length → RangesApart offset buffer.length off len) :
    readDisk (writeDisk m offset buffer).2.disk off len = readDisk m.disk off len := by
  by_cases hins : offset+buffer.length ≤ m.disk.length
  · exact readDisk_writeDisk (h hins)
  · rw [writeDisk, if_pos (Nat.lt_of_not_le hins)]

theorem inside_of_written {offset : Nat} {buffer : Bytes} (h : (writeDisk m offset buffer).1 = true) :
    offset+buffer.length ≤ m.disk.length := by
  by_contra hnot
  rw [writeDisk, if_pos (Nat.lt_of_not_le hnot)] at h
  exact absurd h Bool.false_ne_true

theorem length_headerWritten : (headerWritten dev m hdr).2.disk.length = m.disk.length := by
  rw [headerWritten, length_writeDisk]

theorem HeaderFits.getElem?_headerWritten (h : HeaderFits dev hdr) {i : Nat}
    (hi : i < dev.offsetOf (alternateLba hdr) ∨ dev.offsetOf (alternateLba hdr) + dev.blockSize ≤ i) :
    (headerWritten dev m hdr).2.disk[i]? = m.disk[i]? := by
  rw [headerWritten, getElem?_writeDisk]
  rw [h.length_restored]
  exact hi

theorem HeaderFits.inside_of_headerWritten (h : HeaderFits dev hdr) (hhdr : (headerWritten dev m hdr).1 = true) :
    dev.offsetOf (alternateLba hdr) + dev.blockSize ≤ m.disk.length := by
  unfold headerWritten at hhdr
  have hins := inside_of_written hhdr
  rw [h.length_restored] at hins
  exact hins

theorem HeaderFits.readDisk_headerWritten (h : HeaderFits dev hdr) (hhdr : (headerWritten dev m hdr).1 = true) :
    readDisk (headerWritten dev m hdr).2.disk (dev.offsetOf (alternateLba hdr)) dev.blockSize =
      some (restoredHeader dev hdr) := by
  unfold headerWritten at hhdr ⊢
  have hread := readDisk_written hhdr
  rw [h.length_restored] at hread
  exact hread

theorem HeaderFits.readDisk_of_headerApart (h : HeaderFits dev hdr) {off len : Nat}
    (hapart : dev.offsetOf (alternateLba hdr) + dev.blockSize ≤ m.disk.length →
      RangesApart (dev.offsetOf (alternateLba hdr)) dev.blockSize off len) :
    readDisk (headerWritten dev m hdr).2.disk off len = readDisk m.disk off len := by
  rw [headerWritten, readDisk_of_apart]
  rw [h.length_restored]
  exact hapart

section
variable (hfits : HeaderFits dev hdr) (hapart : DestinationApart dev m.disk hdr lba)
include hfits hapart

theorem headerWritten_array : readEntryArray dev (headerWritten dev m hdr).2.disk hdr = readEntryArray dev m.disk hdr := by
  rw [readEntryArray, hfits.readDisk_of_headerApart fun hins => (hapart.header hins).fromArray]
  rfl

theorem headerWritten_valid (hval : IsValid dev m.disk lba hdr) :
    IsValid dev (headerWritten dev m hdr).2.disk lba hdr :=
  hval.of_reads (hfits.readDisk_of_headerApart fun hins => (hapart.header hins).fromHeader)
    (headerWritten_array hfits hapart)

theorem arrayApart_of_written (hhdr : (headerWritten dev m hdr).1 = true)
    (hins : dev.offsetOf (pEntryLba hdr) + arraySize hdr ≤ (headerWritten dev m hdr).2.disk.length) :
    ArrayApart dev hdr lba := by
  rw [length_headerWritten] at hins
  exact hapart.array (hfits.inside_of_headerWritten hhdr) hins

theorem arrayWritten_valid (hval : IsValid dev m.disk lba hdr) (hhdr : (headerWritten dev m hdr).1 = true)
    (harray : readEntryArray dev m.disk hdr = some array) :
    IsValid dev (arrayWritten dev m hdr array).2.disk lba hdr := by
  have hlen := length_readEntryArray harray
  refine (headerWritten_valid hfits hapart hval).of_reads (readDisk_of_apart ?_) ?_
  · rw [hlen]
    exact fun hins => (arrayApart_of_written hfits hapart hhdr hins).fromHeader
  · unfold readEntryArray arrayWritten
    rw [readDisk_of_apart]
    rw [hlen]
    exact fun hins => (arrayApart_of_written hfits hapart hhdr hins).fromArray

end

/-- Header and entries are in place: the other copy is a table with the same partitions. -/
theorem arrayWritten_copy (hfits : HeaderFits dev hdr) (hval : IsValid dev m.disk lba hdr)
    (hhdr : (headerWritten dev m hdr).1 = true) (harray : readEntryArray dev m.disk hdr = some array)
    (hapart : dev.offsetOf (pEntryLba hdr) + arraySize hdr ≤ (headerWritten dev m hdr).2.disk.length →
      RangesApart (dev.offsetOf (pEntryLba hdr)) (arraySize hdr) (dev.offsetOf (alternateLba hdr)) dev.blockSize)
    (hread : readDisk (arrayWritten dev m hdr array).2.disk (dev.offsetOf (pEntryLba hdr)) (arraySize hdr) =
      some array) :
    IsValid dev (arrayWritten dev m hdr array).2.disk (alternateLba hdr) (copyHeader dev hdr) ∧
      SameTable dev m.disk hdr (arrayWritten dev m hdr array).2.disk (copyHeader dev hdr) := by
  have hcopied : readEntryArray dev (arrayWritten dev m hdr array).2.disk (copyHeader dev hdr) =
      readEntryArray dev m.disk hdr := by
    rw [harray]
    unfold readEntryArray at harray ⊢
    rw [hfits.arraySize, hfits.copy_entryLba, hread]
    split
    · rfl
    · rename_i hnot
      rw [if_neg hnot] at harray
      cases harray
  have hcrc : partitionEntryArrayCrc32 (copyHeader dev hdr) = partitionEntryArrayCrc32 hdr :=
    congrArg leValue (hfits.copy_field (by decide))
  constructor
  · constructor
    · refine hfits.headerAt hval.header ?_
      rw [arrayWritten, readDisk_of_apart]
      · exact hfits.readDisk_headerWritten hhdr
      · rw [length_readEntryArray harray]
        exact hapart
    · rw [partitionCheckGptEntryArrayCRC, hcopied, hcrc]
      exact hval.array
  · exact ⟨hcopied, congrArg leValue (hfits.copy_field (by decide)), congrArg leValue (hfits.copy_field (by decide)),
      congrArg leValue (hfits.copy_field (by decide)), congrArg leValue (hfits.copy_field (by decide))⟩

/-- The restoring keeps the valid copy where what it writes lies apart from it. -/
theorem partitionRestoreGptTable_keeps (hvalid : IsValid dev m.disk lba hdr) (hblock : mbrSize ≤ dev.blockSize)
    (hapart : DestinationApart dev m.disk hdr lba) :
    RestoreKeeps dev m lba hdr (partitionRestoreGptTable dev m hdr) := by
  have hstruct : headerStructSize ≤ dev.blockSize := le_trans (by decide) hblock
  have hfits := headerFits_of_headerAt hvalid.header hstruct
  have hallocates := (checked_of_headerAt hvalid.header hstruct).1
  obtain ⟨array,harray,-⟩ := array_of_crc hvalid.array
  have harray' := (headerWritten_array hfits hapart).trans harray
  have hlen := length_readEntryArray harray
  rw [partitionRestoreGptTable_eq hallocates harray']
  cases hhdr : (headerWritten dev m hdr).1 with
  | false =>
    rw [if_ff]
    constructor <;> dsimp only
    · exact headerWritten_valid hfits hapart hvalid
    · exact length_headerWritten
    · exact fun i hi _ => hfits.getElem?_headerWritten hi
    · exact fun hdone => absurd hdone Bool.false_ne_true
  | true =>
    rw [if_pos rfl]
    refine ⟨arrayWritten_valid hfits hapart hvalid hhdr harray, ?_, fun i hi hi' => ?_,
      fun hdone => ⟨_, arrayWritten_copy hfits hvalid hhdr harray
        (fun hins => (arrayApart_of_written hfits hapart hhdr hins).fromCopy) ?_⟩⟩
    · rw [arrayWritten, length_writeDisk, length_headerWritten]
    · rw [arrayWritten, getElem?_writeDisk (by rw [hlen]; exact hi')]
      exact hfits.getElem?_headerWritten hi
    · have hread := readDisk_written hdone
      rw [hlen] at hread
      exact hread

end

/-- A primary header whose LastUsableLBA is 0, so that the entries of the backup are to be written to block 1. -/
def oddPrimaryBlock : Bytes :=
  partitionSetCrc (patch (patch (patch (patch backupBlock 24 (leBytes 8 1)) 32 (leBytes 8 5)) 48 (leBytes 8 0))
    72 (leBytes 8 2))

/-- The disk of that header, with no backup in block 5. -/
def oddPrimary : Media where
  disk := mbrBlock ++ oddPrimaryBlock ++ blockOf (entryOf 1 4) ++ blockOf [] ++ blockOf [] ++ blockOf []
  writes := []

/-- The entries are written over the primary header, and neither copy of the table is left. -/
theorem partitionRestoreGptTable_loses :
    ¬ ∀ dev m lba hdr, mbrSize ≤ dev.blockSize → IsValid dev m.disk lba hdr →
      (∀ hdr', ¬ IsValid dev m.disk (alternateLba hdr) hdr') →
      RestoreKeeps dev m lba hdr (partitionRestoreGptTable dev m hdr) := by
  intro hclaim
  have hdamaged : headerAt sixBlocks oddPrimary.disk 5 = none := by decide +kernel
  have halternate : alternateLba (oddPrimaryBlock.take headerStructSize) = 5 := by decide +kernel
  have hkeep := hclaim sixBlocks oddPrimary 1 (oddPrimaryBlock.take headerStructSize) (by decide)
    ⟨by decide +kernel, by decide +kernel⟩ fun hdr' hvalid => by
      have hhdr := hvalid.header
      rw [halternate, hdamaged] at hhdr
      cases hhdr
  have hlost : headerAt sixBlocks
      (partitionRestoreGptTable sixBlocks oddPrimary (oddPrimaryBlock.take headerStructSize)).2.disk 1 = none := by
    decide +kernel
  have hhdr := hkeep.source.header
  rw [hlost] at hhdr
  cases hhdr

/-- The backup of a lost primary header, whose first write is torn. -/
theorem partitionRestoreGptTable_keeps_lostPrimary :
    let m := { lostPrimary with writes := [.failed 100] }
    let hdr := backupBlock.take headerStructSize
    RestoreKeeps sixBlocks m 5 hdr (partitionRestoreGptTable sixBlocks m hdr) := by
  refine partitionRestoreGptTable_keeps ⟨by decide +kernel, by decide +kernel⟩ (by decide) ⟨fun _ => ⟨?_, ?_⟩,
    fun _ _ => ⟨?_, ?_, ?_⟩⟩
  · exact .inl (by decide +kernel)
  · exact .inl (by decide +kernel)
  · exact .inl (by decide +kernel)
  · exact .inl (by decide +kernel)
  · exact .inr (by decide +kernel)

end Liano.Gpt
