import Liano.Gpt.Restore

/-! Where the discovery uses validated tables only: the restoring of one copy leaves what the other one is read from,
or the restored copy is complete. -/
namespace Liano.Gpt
open Bytes

/-- The size of the entries does not wrap, or there is no room for their statuses. -/
def SizeFits (dev : Device) (hdr : Bytes) : Prop :=
  dev.allocates (numberOfPartitionEntries hdr * 3) = true →
    numberOfPartitionEntries hdr * sizeOfPartitionEntry hdr < 2^32

/-- The block of the other copy's header lies on the disk. -/
def HeaderInside (dev : Device) (disk hdr : Bytes) : Prop :=
  dev.offsetOf (alternateLba hdr) + dev.blockSize ≤ disk.length

/-- The place of the other copy's entries lies on the disk. -/
def ArrayInside (dev : Device) (disk hdr : Bytes) : Prop :=
  dev.offsetOf (pEntryLba hdr) + arraySize hdr ≤ disk.length

/-- What is written for the other copy lies apart from the entries of the valid one. A write behind the end of the
disk fails. -/
structure EntriesApart (dev : Device) (disk hdr : Bytes) : Prop where
  header : HeaderInside dev disk hdr → RangesApart (dev.offsetOf (alternateLba hdr)) dev.blockSize
    (dev.offsetOf (partitionEntryLba hdr)) (arraySize hdr)
  array : HeaderInside dev disk hdr → ArrayInside dev disk hdr →
    RangesApart (dev.offsetOf (pEntryLba hdr)) (arraySize hdr) (dev.offsetOf (partitionEntryLba hdr)) (arraySize hdr)

/-- A lost primary table comes back: the header is written, apart from the entries of the backup, and the entries are
written apart from it, or are still in their place. -/
structure PrimaryComes (dev : Device) (m : Media) (backup : Bytes) : Prop where
  size : SizeFits dev backup
  header : HeaderInside dev m.disk backup ∧ m.writes.headD .done = .done
  fromArray : RangesApart (dev.offsetOf (alternateLba backup)) dev.blockSize
    (dev.offsetOf (partitionEntryLba backup)) (arraySize backup)
  fromHeader : ArrayInside dev m.disk backup → RangesApart (dev.offsetOf (pEntryLba backup)) (arraySize backup)
    (dev.offsetOf (alternateLba backup)) dev.blockSize
  entries : ArrayInside dev m.disk backup ∧ m.writes.tail.headD .done = .done ∨
    readDisk m.disk (dev.offsetOf (pEntryLba backup)) (arraySize backup) = readEntryArray dev m.disk backup

/-- A lost primary table stays lost: there is no header, and what the failing write leaves is none. -/
structure PrimaryStaysLost (dev : Device) (m : Media) (backup : Bytes) : Prop where
  header : headerAt dev m.disk PRIMARY_PART_HEADER_LBA = none
  failed : ¬(HeaderInside dev m.disk backup ∧ m.writes.headD .done = .done)
  left : headerAt dev (headerWritten dev m backup).2.disk (alternateLba backup) = none

/-- The sizes fit, and the copy that is restored does not spoil the one that is used. -/
structure TableSound (dev : Device) (m : Media) : Prop where
  size : ∀ hdr, IsValid dev m.disk PRIMARY_PART_HEADER_LBA hdr → SizeFits dev hdr
  backup : ∀ hdr, IsValid dev m.disk PRIMARY_PART_HEADER_LBA hdr →
    (∀ backup, ¬ IsValid dev m.disk (alternateLba hdr) backup) → EntriesApart dev m.disk hdr
  primary : ∀ backup, (∀ hdr, ¬ IsValid dev m.disk PRIMARY_PART_HEADER_LBA hdr) →
    IsValid dev m.disk dev.lastBlock backup → PrimaryComes dev m backup ∨ PrimaryStaysLost dev m backup

section
variable {dev : Device} {m m' : Media} {disk hdr backup array entries buffer : Bytes} {lba offset : Nat}

theorem SizeFits.of_entries (h : SizeFits dev hdr) (hents : entriesOf dev disk hdr = some entries) :
    numberOfPartitionEntries hdr * sizeOfPartitionEntry hdr < 2^32 := h (Option.filter_eq_some_iff.mp hents).2

theorem crc_of_entries (harray : partitionCheckGptEntryArrayCRC dev disk hdr = true)
    (hents : entriesOf dev disk hdr = some entries) : partitionEntryArrayCrc32 hdr = calculateCrc32 entries := by
  obtain ⟨array,hread,hcrc⟩ := array_of_crc harray
  rw [(Option.filter_eq_some_iff.mp hents).1] at hread
  cases hread
  exact hcrc

theorem writeDisk_done (hins : offset+buffer.length ≤ m.disk.length) (hdone : m.writes.headD .done = .done) :
    (writeDisk m offset buffer).1 = true ∧ (writeDisk m offset buffer).2.writes = m.writes.tail := by
  unfold writeDisk
  rw [if_neg (not_lt.mpr hins), hdone]
  exact ⟨rfl, rfl⟩

theorem inside_of_readDisk {len : Nat} (h : readDisk disk offset len = some buffer) : offset+len ≤ disk.length := by
  unfold readDisk at h
  split at h
  · assumption
  · cases h

/-- To write what is there changes nothing, however far the write gets. -/
theorem readDisk_rewritten (h : readDisk m.disk offset buffer.length = some buffer) :
    readDisk (writeDisk m offset buffer).2.disk offset buffer.length = some buffer := by
  unfold readDisk at h ⊢
  split at h
  swap
  · cases h
  rename_i hins
  have hthere := Option.some.inj h
  rw [length_writeDisk, if_pos hins]
  refine congrArg some (List.ext_getElem? fun i => ?_)
  have hi : buffer[i]? = if i < buffer.length then m.disk[offset+i]? else none := by
    rw [← getElem?_slice, hthere]
  rw [getElem?_slice]
  split
  · rename_i hlt
    unfold writeDisk
    rw [if_neg (not_lt.mpr hins)]
    split
    · rw [getElem?_patch hins, if_pos (by omega), Nat.add_sub_cancel_left]
    · rename_i written _
      have htaken : (buffer.take written).length = min written buffer.length := List.length_take
      rw [getElem?_patch (by omega)]
      split
      · rw [Nat.add_sub_cancel_left, List.getElem?_take, if_pos (by omega)]
      · rw [hi, if_pos hlt]
  · rw [hi, if_neg (by assumption)]

theorem HeaderFits.restored_entries (hfits : HeaderFits dev hdr) (hallocates : dev.allocates dev.blockSize = true)
    (harray : readEntryArray dev m.disk hdr = some array) (hapart : EntriesApart dev m.disk hdr) :
    readEntryArray dev (partitionRestoreGptTable dev m hdr).2.disk hdr = some array := by
  have hwritten : readEntryArray dev (headerWritten dev m hdr).2.disk hdr = some array := by
    rw [← harray, readEntryArray, hfits.readDisk_of_headerApart hapart.header]
    rfl
  rw [partitionRestoreGptTable_eq hallocates hwritten]
  split
  · rename_i hhdr
    rw [← hwritten]
    unfold readEntryArray arrayWritten
    rw [readDisk_of_apart]
    rw [length_readEntryArray harray, length_headerWritten]
    exact fun hins => hapart.array (hfits.inside_of_headerWritten hhdr) hins
  · exact hwritten

theorem PrimaryComes.valid (h : PrimaryComes dev m backup) (hfits : HeaderFits dev backup)
    (hallocates : dev.allocates dev.blockSize = true) (hbackup : IsValid dev m.disk lba backup) :
    IsValid dev (partitionRestoreGptTable dev m backup).2.disk (alternateLba backup) (copyHeader dev backup) := by
  obtain ⟨array,harray,-⟩ := array_of_crc hbackup.array
  have hlen := length_readEntryArray harray
  have hdone := @writeDisk_done m (restoredHeader dev backup) _
    (by rw [hfits.length_restored]; exact h.header.1) h.header.2
  have hhdr : (headerWritten dev m backup).1 = true := hdone.1
  have hwritten : readEntryArray dev (headerWritten dev m backup).2.disk backup = some array := by
    rw [← harray, readEntryArray, hfits.readDisk_of_headerApart fun _ => h.fromArray]
    rfl
  rw [partitionRestoreGptTable_eq hallocates hwritten, if_pos hhdr]
  refine (arrayWritten_copy hfits hbackup hhdr harray ?_ ?_).1
  · rw [length_headerWritten]
    exact h.fromHeader
  · rw [← hlen]
    rcases h.entries with ⟨hins,hdone'⟩ | hthere
    · refine readDisk_written (writeDisk_done ?_ ?_).1
      · rw [hlen, length_headerWritten]
        exact hins
      · unfold headerWritten
        rw [hdone.2]
        exact hdone'
    · rw [harray] at hthere
      refine readDisk_rewritten ?_
      rw [hlen, hfits.readDisk_of_headerApart fun _ => (h.fromHeader (inside_of_readDisk hthere)).symm]
      exact hthere

/-- A write of the header that does not succeed ends the restoring. -/
theorem PrimaryStaysLost.restored (h : PrimaryStaysLost dev m backup) (hfits : HeaderFits dev backup)
    (hallocates : dev.allocates dev.blockSize = true) :
    (partitionRestoreGptTable dev m backup).2 = (headerWritten dev m backup).2 := by
  have hwritten : (headerWritten dev m backup).1 = false := by
    rw [Bool.eq_false_iff]
    intro hwritten
    refine h.failed ⟨hfits.inside_of_headerWritten hwritten, ?_⟩
    unfold headerWritten writeDisk at hwritten
    split at hwritten
    · cases hwritten
    split at hwritten
    · assumption
    · cases hwritten
  unfold headerWritten at hwritten ⊢
  unfold partitionRestoreGptTable
  rw [hallocates, Bool.not_true, if_ff]
  simp only [hwritten, Bool.not_false, if_true]

theorem TableSound.inUse (h : TableSound dev m) (hgpt : IsGpt dev m) (hinUse : InUse dev m hdr m')
    (hents : entriesOf dev m'.disk hdr = some entries) :
    numberOfPartitionEntries hdr * sizeOfPartitionEntry hdr < 2^32 ∧
      partitionEntryArrayCrc32 hdr = calculateCrc32 entries := by
  have hblock : headerStructSize ≤ dev.blockSize := le_trans (by decide) hgpt.1
  cases hinUse with
  | primary hprimary hbackup =>
    exact ⟨(h.size hdr hprimary).of_entries hents, crc_of_entries hprimary.array hents⟩
  | backupRestored hprimary hbackup =>
    refine ⟨(h.size hdr hprimary).of_entries hents, crc_of_entries ?_ hents⟩
    obtain ⟨array,harray,-⟩ := array_of_crc hprimary.array
    have hkept := (headerFits_of_headerAt hprimary.header hblock).restored_entries hgpt.2.1 harray
      (h.backup hdr hprimary hbackup)
    have hvalid := hprimary.array
    unfold partitionCheckGptEntryArrayCRC at hvalid ⊢
    rw [harray] at hvalid
    rw [hkept]
    exact hvalid
  | @primaryRestored backup hprimary hbackup hheader =>
    have hfits := headerFits_of_headerAt hbackup.header hblock
    rcases h.primary backup hprimary hbackup with hcomes | hlost
    · have hvalid := hcomes.valid hfits hgpt.2.1 hbackup
      rw [hvalid.header] at hheader
      cases hheader
      refine ⟨?_, crc_of_entries hvalid.array hents⟩
      have hnumber : numberOfPartitionEntries (copyHeader dev backup) = numberOfPartitionEntries backup :=
        congrArg leValue (hfits.copy_field (by decide))
      have hsize : sizeOfPartitionEntry (copyHeader dev backup) = sizeOfPartitionEntry backup :=
        congrArg leValue (hfits.copy_field (by decide))
      have hroom := (Option.filter_eq_some_iff.mp hents).2
      rw [hnumber] at hroom ⊢
      rw [hsize]
      exact hcomes.size hroom
    · rw [hlost.restored hfits hgpt.2.1, hlost.left] at hheader
      cases hheader
  | @headerLeft backup hprimary hbackup hheader hleft =>
    rcases h.primary backup hprimary hbackup with hcomes | hlost
    · rw [(hcomes.valid (headerFits_of_headerAt hbackup.header hblock) hgpt.2.1 hbackup).header] at hheader
      cases hheader
    · rw [hlost.header] at hleft
      cases hleft

end

theorem tableSound_lostPrimary : TableSound sixBlocks { lostPrimary with writes := [] } := by
  have hlost : headerAt sixBlocks lostPrimary.disk 1 = none := by decide +kernel
  have hno (hdr : Bytes) : ¬ IsValid sixBlocks lostPrimary.disk PRIMARY_PART_HEADER_LBA hdr := fun hvalid => by
    have hhdr := hvalid.header
    rw [show PRIMARY_PART_HEADER_LBA = 1 from rfl, hlost] at hhdr
    cases hhdr
  have hfound : headerAt sixBlocks lostPrimary.disk 5 = some (backupBlock.take headerStructSize) := by decide +kernel
  refine ⟨fun hdr h => absurd h (hno hdr), fun hdr h => absurd h (hno hdr), fun backup _ hbackup => .inl ?_⟩
  obtain rfl : backupBlock.take headerStructSize = backup :=
    Option.some.inj (hfound.symm.trans hbackup.header)
  refine ⟨fun _ => ?_, ⟨?_, rfl⟩, ?_, fun _ => ?_, .inl ⟨?_, rfl⟩⟩
  · decide +kernel
  · unfold HeaderInside
    decide +kernel
  · exact .inl (by decide +kernel)
  · exact .inr (by decide +kernel)
  · unfold ArrayInside
    decide +kernel

end Liano.Gpt
