import Liano.Gpt.Install
import Liano.Lib.Loop

/-! Which partition tables child handles are made from. -/
namespace Liano.Gpt
open Bytes

section
variable {dev : Device} {disk hdr partEntry : Bytes} {index : Nat}

theorem numberOfPartitionEntries_lt (hdr : Bytes) : numberOfPartitionEntries hdr < 2^32 :=
  leValue_slice_lt hdr 80 4

theorem sizeOfPartitionEntry_lt (hdr : Bytes) : sizeOfPartitionEntry hdr < 2^32 := leValue_slice_lt hdr 84 4

/-- A block with a header whose signature, CRC and location are good. -/
structure HeaderVerified (dev : Device) (disk : Bytes) (lba : Nat) (hdr : Bytes) : Prop where
  block : ∃ block, readDisk disk (dev.offsetOf lba) dev.blockSize = some block ∧
    signature block = efiPtabHeaderId ∧ partitionCheckCrc dev.blockSize block = true ∧ myLba block = lba ∧
    hdr = block.take headerStructSize
  size : entryStructSize ≤ sizeOfPartitionEntry hdr

/-- The header that is copied from an LBA. -/
def headerAt (dev : Device) (disk : Bytes) (lba : Nat) : Option Bytes := if dev.allocates dev.blockSize then
    ((readDisk disk (dev.offsetOf lba) dev.blockSize).filter fun block =>
      signature block == efiPtabHeaderId && partitionCheckCrc dev.blockSize block && myLba block == lba &&
        decide (entryStructSize ≤ sizeOfPartitionEntry block)).map (·.take headerStructSize)
  else none

variable {len lba offset : Nat}

theorem slice_take {block : Bytes} {off n : Nat} (h : off+len ≤ n) :
    slice (block.take n) off len = slice block off len := by
  apply List.ext_getElem?
  intro i
  rw [getElem?_slice, getElem?_slice, List.getElem?_take]
  split
  · rw [if_pos (by omega)]
  · rfl

theorem sizeOfPartitionEntry_take (block : Bytes) :
    sizeOfPartitionEntry (block.take headerStructSize) = sizeOfPartitionEntry block :=
  congrArg leValue (slice_take (by decide))

theorem headerAt_verified (h : headerAt dev disk lba = some hdr) : HeaderVerified dev disk lba hdr := by
  unfold headerAt at h
  split at h
  · obtain ⟨block,hblock,rfl⟩ := Option.map_eq_some_iff.mp h
    obtain ⟨hread,hchecks⟩ := Option.filter_eq_some_iff.mp hblock
    simp only [Bool.and_eq_true, beq_iff_eq, decide_eq_true_eq] at hchecks
    obtain ⟨⟨⟨hsignature,hcrc⟩,hlba⟩,hsize⟩ := hchecks
    exact ⟨⟨block, hread, hsignature, hcrc, hlba, rfl⟩, (sizeOfPartitionEntry_take block).symm ▸ hsize⟩
  · cases h

theorem partitionValidGptTable_eq (dev : Device) (disk : Bytes) (lba : Nat) (partHeader : Bytes) :
    partitionValidGptTable dev disk lba partHeader =
      .ok ((headerAt dev disk lba).elim (false,partHeader) fun hdr =>
        (partitionCheckGptEntryArrayCRC dev disk hdr, hdr)) := by
  unfold partitionValidGptTable headerAt
  cases hallocates : dev.allocates dev.blockSize with
  | false => rfl
  | true =>
    rw [Bool.not_true, if_ff, if_pos rfl]
    cases hread : readDisk disk (dev.offsetOf lba) dev.blockSize with
    | none => rfl
    | some block =>
      dsimp only
      split
      · rename_i hbad
        have hfilter : (signature block == efiPtabHeaderId && partitionCheckCrc dev.blockSize block &&
            myLba block == lba && decide (entryStructSize ≤ sizeOfPartitionEntry block)) = false := by
          simp only [Bool.and_eq_false_iff, beq_eq_false_iff_ne, decide_eq_false_iff_not, not_le]
          tauto
        rw [Option.filter_some, hfilter]
        rfl
      · rename_i hgood
        simp only [not_or, not_not, not_lt, Bool.not_eq_false] at hgood
        obtain ⟨hsignature,hcrc,hlba,hsize⟩ := hgood
        have hpos : 0 < sizeOfPartitionEntry block := lt_of_lt_of_le (by decide) hsize
        have hfits : numberOfPartitionEntries block ≤ maxUintn / sizeOfPartitionEntry block := by
          rw [Nat.le_div_iff_mul_le hpos]
          have hn : numberOfPartitionEntries block ≤ 2^32-1 := by
            have := numberOfPartitionEntries_lt block
            omega
          have hs : sizeOfPartitionEntry block ≤ 2^32-1 := by
            have := sizeOfPartitionEntry_lt block
            omega
          exact le_trans (Nat.mul_le_mul hn hs) (by decide)
        have hfilter : (signature block == efiPtabHeaderId && partitionCheckCrc dev.blockSize block &&
            myLba block == lba && decide (entryStructSize ≤ sizeOfPartitionEntry block)) = true := by
          simp only [hsignature, hcrc, hlba, hsize, beq_self_eq_true, decide_true, Bool.and_self]
        rw [Option.filter_some, hfilter, if_pos rfl, divU64x32, if_neg (by omega)]
        simp only [bind, Except.bind, if_neg (not_lt.mpr hfits), Option.map_some, Option.elim_some]

/-- The table at an LBA is valid. -/
structure IsValid (dev : Device) (disk : Bytes) (lba : Nat) (hdr : Bytes) : Prop where
  header : headerAt dev disk lba = some hdr
  array : partitionCheckGptEntryArrayCRC dev disk hdr = true

theorem array_of_crc (h : partitionCheckGptEntryArrayCRC dev disk hdr = true) :
    ∃ array, readEntryArray dev disk hdr = some array ∧
      partitionEntryArrayCrc32 hdr = calculateCrc32 array := by
  unfold partitionCheckGptEntryArrayCRC at h
  split at h
  · cases h
  · rename_i array harray
    exact ⟨array, harray, beq_iff_eq.mp (Bool.and_eq_true_iff.mp h).2⟩

theorem readEntry_ok (h : index * sizeOfPartitionEntry hdr + offset + len ≤ partEntry.length) :
    readEntry hdr partEntry index offset len =
      .ok (slice partEntry (index * sizeOfPartitionEntry hdr + offset) len) := if_pos h

structure HoldsEntries (hdr partEntry : Bytes) : Prop where
  size : entryStructSize ≤ sizeOfPartitionEntry hdr
  length : partEntry.length = numberOfPartitionEntries hdr * sizeOfPartitionEntry hdr

theorem HoldsEntries.inside (h : HoldsEntries hdr partEntry) (hidx : index < numberOfPartitionEntries hdr)
    (hlen : offset+len ≤ entryStructSize) :
    index * sizeOfPartitionEntry hdr + offset + len ≤ partEntry.length := by
  have hnext : (index+1) * sizeOfPartitionEntry hdr ≤ partEntry.length := by
    rw [h.length]
    exact Nat.mul_le_mul_right _ hidx
  rw [add_mul, one_mul] at hnext
  have := h.size
  omega

def unusedAt (hdr partEntry : Bytes) (index : Nat) : Bool :=
  slice partEntry (index * sizeOfPartitionEntry hdr) 16 == efiPartTypeUnusedGuid

section
variable (h : HoldsEntries hdr partEntry) (hidx : index < numberOfPartitionEntries hdr)
include h hidx

theorem HoldsEntries.isUnused : isUnused hdr partEntry index = .ok (unusedAt hdr partEntry index) := by
  unfold Gpt.isUnused
  rw [readEntry_ok (h.inside hidx (by decide))]
  rfl

theorem HoldsEntries.checkEntry
    (pEntryStatus : EntryStatuses) : ∃ pEntryStatus', checkEntry hdr partEntry pEntryStatus index = .ok pEntryStatus' := by
  have hoverlap : ∀ starting ending, ∀ index2 ∈ List.range' (index+1) (numberOfPartitionEntries hdr - (index+1)),
      ∀ pEntryStatus, ∃ pEntryStatus',
        checkOverlap hdr partEntry index starting ending pEntryStatus index2 = .ok pEntryStatus' := by
    intro starting ending index2 hmem pEntryStatus
    have hidx2 : index2 < numberOfPartitionEntries hdr := by
      rw [List.mem_range'_1] at hmem
      omega
    simp only [checkOverlap, h.isUnused hidx2, endingLba, startingLba, readEntry_ok (h.inside hidx2
      (by decide : 40+8 ≤ entryStructSize)), readEntry_ok (h.inside hidx2
      (by decide : 32+8 ≤ entryStructSize)), bind, Except.bind]
    repeat' split
    all_goals exact ⟨_, rfl⟩
  simp only [Gpt.checkEntry, h.isUnused hidx, endingLba, startingLba, attributes, readEntry_ok (h.inside hidx
    (by decide : 40+8 ≤ entryStructSize)), readEntry_ok (h.inside hidx (by decide : 32+8 ≤ entryStructSize)),
    readEntry_ok (h.inside hidx (by decide : 48+8 ≤ entryStructSize)), bind, Except.bind]
  split
  · exact ⟨_, rfl⟩
  · split
    · exact ⟨_, rfl⟩
    · exact Loop.foldlM_ok (hoverlap _ _) _

end

section
variable (h : HoldsEntries hdr partEntry)
include h

theorem HoldsEntries.installEntry (hidx : index < numberOfPartitionEntries hdr)
    (pEntryStatus : EntryStatuses) (handles : List ChildHandle) :
    installEntry hdr partEntry pEntryStatus handles index =
      .ok (if unusedAt hdr partEntry index || (pEntryStatus index).isFlagged then handles
        else handles ++
          [childHandle index (slice partEntry (index * sizeOfPartitionEntry hdr + 0) entryStructSize)]) := by
  simp only [Gpt.installEntry, h.isUnused hidx, bind, Except.bind]
  split
  · rfl
  · rw [readEntry_ok (h.inside hidx (by decide))]

theorem HoldsEntries.installEntries : ∃ handles, installEntries hdr partEntry = .ok handles := by
  obtain ⟨pEntryStatus,hst⟩ : ∃ pEntryStatus, partitionCheckGptEntry hdr partEntry = .ok pEntryStatus :=
    Loop.foldlM_ok (fun index hindex => h.checkEntry (List.mem_range.mp hindex)) _
  unfold Gpt.installEntries
  rw [hst]
  exact Loop.foldlM_ok (fun index hindex handles =>
    ⟨_, h.installEntry (List.mem_range.mp hindex) pEntryStatus handles⟩) _

end

/-- Where the product of number and size does not fit in 32 bits, the last entry lies outside of the buffer. -/
theorem installEntries_error (hlen : partEntry.length = arraySize hdr)
    (hwraps : 2^32 ≤ numberOfPartitionEntries hdr * sizeOfPartitionEntry hdr) :
    ∃ fault, installEntries hdr partEntry = .error fault := by
  have hs := sizeOfPartitionEntry_lt hdr
  obtain ⟨last,hlast⟩ : ∃ last, numberOfPartitionEntries hdr = last+1 := by
    cases hn : numberOfPartitionEntries hdr with
    | zero =>
      rw [hn, zero_mul] at hwraps
      exact absurd hwraps (by decide)
    | succ last => exact ⟨last, rfl⟩
  have hless : partEntry.length + 2^32 ≤ (last+1) * sizeOfPartitionEntry hdr := by
    rw [hlen, arraySize, toUint32, ← hlast]
    omega
  rw [add_mul, one_mul] at hless
  have hread : readEntry hdr partEntry last 0 16 = .error .outsideBuffer := by
    unfold readEntry
    rw [if_neg (by omega)]
  have hround : ∀ pEntryStatus, ∃ fault, checkEntry hdr partEntry pEntryStatus last = .error fault := by
    intro pEntryStatus
    refine ⟨.outsideBuffer, ?_⟩
    simp only [checkEntry, isUnused, hread, bind, Except.bind]
  have hmem : last ∈ List.range (numberOfPartitionEntries hdr) := by
    rw [hlast]
    exact List.self_mem_range_succ
  obtain ⟨fault,hfault⟩ := Loop.foldlM_error hmem hround fun _ => ⟨false, false, false⟩
  refine ⟨fault, ?_⟩
  have hchk : partitionCheckGptEntry hdr partEntry = .error fault := hfault
  rw [installEntries, hchk]
  rfl

variable {m m' : Media}

/-- The header that the partitions are looked for with, and the disk then. -/
inductive InUse (dev : Device) (m : Media) : Bytes → Media → Prop
  | primary {hdr backup : Bytes} (hprimary : IsValid dev m.disk PRIMARY_PART_HEADER_LBA hdr)
      (hbackup : IsValid dev m.disk (alternateLba hdr) backup) : InUse dev m hdr m
  | backupRestored {hdr : Bytes} (hprimary : IsValid dev m.disk PRIMARY_PART_HEADER_LBA hdr)
      (hbackup : ∀ backup, ¬ IsValid dev m.disk (alternateLba hdr) backup) :
      InUse dev m hdr (partitionRestoreGptTable dev m hdr).2
  | primaryRestored {hdr backup : Bytes} (hprimary : ∀ hdr, ¬ IsValid dev m.disk PRIMARY_PART_HEADER_LBA hdr)
      (hbackup : IsValid dev m.disk dev.lastBlock backup)
      (hheader : headerAt dev (partitionRestoreGptTable dev m backup).2.disk (alternateLba backup) = some hdr) :
      InUse dev m hdr (partitionRestoreGptTable dev m backup).2
  | headerLeft {hdr backup : Bytes} (hprimary : ∀ hdr, ¬ IsValid dev m.disk PRIMARY_PART_HEADER_LBA hdr)
      (hbackup : IsValid dev m.disk dev.lastBlock backup)
      (hheader : headerAt dev (partitionRestoreGptTable dev m backup).2.disk (alternateLba backup) = none)
      (hleft : headerAt dev m.disk PRIMARY_PART_HEADER_LBA = some hdr) :
      InUse dev m hdr (partitionRestoreGptTable dev m backup).2

theorem partitionValidGptTable_of_valid (h : IsValid dev disk lba hdr) (partHeader : Bytes) :
    partitionValidGptTable dev disk lba partHeader = .ok (true,hdr) := by
  rw [partitionValidGptTable_eq, h.header, Option.elim_some, h.array]

theorem partitionValidGptTable_of_not (h : ∀ hdr, ¬ IsValid dev disk lba hdr) (partHeader : Bytes) :
    partitionValidGptTable dev disk lba partHeader =
      .ok (false, (headerAt dev disk lba).getD partHeader) := by
  rw [partitionValidGptTable_eq]
  cases hhdr : headerAt dev disk lba with
  | none => rfl
  | some hdr =>
    have harray : partitionCheckGptEntryArrayCRC dev disk hdr = false :=
      Bool.eq_false_iff.mpr fun harray => h hdr ⟨hhdr, harray⟩
    rw [Option.elim_some, harray, Option.getD_some]

theorem findTable_of_inUse (h : InUse dev m hdr m') : findTable dev m = .ok (some (hdr,m')) := by
  unfold findTable
  cases h with
  | primary hprimary hbackup =>
    simp only [partitionValidGptTable_of_valid hprimary, partitionValidGptTable_of_valid hbackup, bind,
      Except.bind, Bool.not_true, Bool.false_eq_true, if_false, if_true]
  | backupRestored hprimary hbackup =>
    simp only [partitionValidGptTable_of_valid hprimary, partitionValidGptTable_of_not hbackup,
      partitionValidGptTable_eq, bind, Except.bind, Bool.not_true, Bool.false_eq_true, if_false]
  | primaryRestored hprimary hbackup hhdr =>
    simp only [partitionValidGptTable_of_not hprimary, partitionValidGptTable_of_valid hbackup,
      partitionValidGptTable_eq, hhdr, bind, Except.bind, Bool.not_false, Bool.not_true, Bool.false_eq_true,
      if_false, if_true, Option.elim_some]
  | headerLeft hprimary hbackup hhdr hleft =>
    simp only [partitionValidGptTable_of_not hprimary, partitionValidGptTable_of_valid hbackup,
      partitionValidGptTable_eq, hhdr, hleft, bind, Except.bind, Bool.not_false, Bool.not_true,
      Bool.false_eq_true, if_false, if_true, Option.getD_some, Option.elim_none]

theorem findTable_cases (dev : Device) (m : Media) :
    findTable dev m = .ok none ∨ (∃ m', findTable dev m = .ok (some (zeroHeader,m'))) ∨
      ∃ hdr m', InUse dev m hdr m' := by
  by_cases hprim : ∃ hdr, IsValid dev m.disk PRIMARY_PART_HEADER_LBA hdr
  · obtain ⟨hdr,hprim⟩ := hprim
    by_cases hbak : ∃ backup, IsValid dev m.disk (alternateLba hdr) backup
    · obtain ⟨backup,hbak⟩ := hbak
      exact .inr (.inr ⟨_, _, .primary hprim hbak⟩)
    · exact .inr (.inr ⟨_, _, .backupRestored hprim (not_exists.mp hbak)⟩)
  have hprim := not_exists.mp hprim
  by_cases hbak : ∃ backup, IsValid dev m.disk dev.lastBlock backup
  · obtain ⟨backup,hbak⟩ := hbak
    cases hhdr : headerAt dev (partitionRestoreGptTable dev m backup).2.disk (alternateLba backup) with
    | some hdr => exact .inr (.inr ⟨_, _, .primaryRestored hprim hbak hhdr⟩)
    | none =>
      cases hleft : headerAt dev m.disk PRIMARY_PART_HEADER_LBA with
      | some hdr => exact .inr (.inr ⟨_, _, .headerLeft hprim hbak hhdr hleft⟩)
      | none =>
        refine .inr (.inl ⟨(partitionRestoreGptTable dev m backup).2, ?_⟩)
        simp only [findTable, partitionValidGptTable_of_not hprim, partitionValidGptTable_of_valid hbak,
          partitionValidGptTable_eq, hhdr, hleft, bind, Except.bind, Bool.not_false, Bool.not_true,
          Bool.false_eq_true, if_false, if_true, Option.getD_none, Option.elim_none]
  · refine .inl ?_
    simp only [findTable, partitionValidGptTable_of_not hprim,
      partitionValidGptTable_of_not (not_exists.mp hbak), bind, Except.bind, Bool.not_false, if_true]

theorem InUse.size (h : InUse dev m hdr m') : entryStructSize ≤ sizeOfPartitionEntry hdr := by
  cases h with
  | primary hprimary hbackup => exact (headerAt_verified hprimary.header).size
  | backupRestored hprimary hbackup => exact (headerAt_verified hprimary.header).size
  | primaryRestored hprimary hbackup hheader => exact (headerAt_verified hheader).size
  | headerLeft hprimary hbackup hheader hleft => exact (headerAt_verified hleft).size

theorem InUse.verified (h : InUse dev m hdr m') :
    ∃ lba, HeaderVerified dev m.disk lba hdr ∨ HeaderVerified dev m'.disk lba hdr := by
  cases h with
  | primary hprimary hbackup => exact ⟨_, .inl (headerAt_verified hprimary.header)⟩
  | backupRestored hprimary hbackup => exact ⟨_, .inl (headerAt_verified hprimary.header)⟩
  | primaryRestored hprimary hbackup hheader => exact ⟨_, .inr (headerAt_verified hheader)⟩
  | headerLeft hprimary hbackup hheader hleft => exact ⟨_, .inl (headerAt_verified hleft)⟩

/-- The header of the child handles is verified, and so is what is read as their entries. -/
structure Verified (dev : Device) (m : Media) (d : Discovery) : Prop where
  header : ∃ lba, HeaderVerified dev m.disk lba d.header ∨ HeaderVerified dev d.media.disk lba d.header
  entries : readDisk d.media.disk (dev.offsetOf (partitionEntryLba d.header))
    (numberOfPartitionEntries d.header * sizeOfPartitionEntry d.header) = some d.entries
  crc : partitionEntryArrayCrc32 d.header = calculateCrc32 d.entries

/-- The call divides by no zero and reads the entries inside their buffer, and child handles are from a verified
table only. -/
def UsesValidated (dev : Device) (m : Media) : Prop :=
  ∃ d, partitionInstallGptChildHandles dev m = .ok d ∧ (d.handles ≠ [] → Verified dev m d)

/-- A table is looked for: block 0 holds the protective MBR. -/
def IsGpt (dev : Device) (m : Media) : Prop :=
  mbrSize ≤ dev.blockSize ∧ dev.allocates dev.blockSize = true ∧ dev.allocates headerStructSize = true ∧
    ∃ mbr, readDisk m.disk 0 dev.blockSize = some mbr ∧ isProtective mbr = true

def entriesOf (dev : Device) (disk hdr : Bytes) : Option Bytes :=
  (readEntryArray dev disk hdr).filter fun _ => dev.allocates (numberOfPartitionEntries hdr * 3)

theorem length_readDisk {size : Nat} {buffer : Bytes} (h : readDisk disk offset size = some buffer) :
    buffer.length = size := by
  unfold readDisk at h
  split at h
  · rename_i hins
    cases h
    exact length_slice hins
  · cases h

theorem length_entriesOf {entries : Bytes} (h : entriesOf dev disk hdr = some entries) :
    entries.length = arraySize hdr := by
  have hread := (Option.filter_eq_some_iff.mp h).1
  unfold readEntryArray at hread
  split at hread
  · exact length_readDisk hread
  · cases hread

theorem installTable_of_none (h : entriesOf dev m.disk hdr = none) :
    ∃ d, installTable dev hdr m = .ok d ∧ d.handles = [] := by
  unfold installTable
  unfold entriesOf readEntryArray at h
  split
  · exact ⟨_, rfl, rfl⟩
  rename_i hallocates
  rw [if_pos (by simpa using hallocates)] at h
  split
  · exact ⟨_, rfl, rfl⟩
  rename_i entries hentries
  rw [hentries, Option.filter_some] at h
  split at h
  · cases h
  · rename_i hstatuses
    rw [if_pos (by simpa using hstatuses)]
    exact ⟨_, rfl, rfl⟩

theorem installTable_of_some {entries : Bytes} (h : entriesOf dev m.disk hdr = some entries) :
    installTable dev hdr m =
      (installEntries hdr entries).map fun handles => ⟨.success, handles, hdr, entries, m⟩ := by
  obtain ⟨hread,hstatuses⟩ := Option.filter_eq_some_iff.mp h
  unfold readEntryArray at hread
  split at hread
  · rename_i hallocates
    unfold installTable
    rw [hallocates, Bool.not_true, if_ff, hread]
    dsimp only
    rw [hstatuses, Bool.not_true, if_ff]
    cases installEntries hdr entries <;> rfl
  · cases hread

theorem install_of_not_isGpt (h : ¬ IsGpt dev m) :
    ∃ d, partitionInstallGptChildHandles dev m = .ok d ∧ d.handles = [] := by
  unfold partitionInstallGptChildHandles
  split
  · exact ⟨_, rfl, rfl⟩
  rename_i hsize
  split
  · exact ⟨_, rfl, rfl⟩
  rename_i hallocates
  split
  · exact ⟨_, rfl, rfl⟩
  rename_i mbr hmbr
  split
  · exact ⟨_, rfl, rfl⟩
  rename_i hprotective
  rw [Bool.or_eq_true, not_or] at hprotective
  exact absurd ⟨not_lt.mp hsize, by simpa using hallocates, by simpa using hprotective.2, mbr, hmbr,
    by simpa using hprotective.1⟩ h

theorem install_of_isGpt (h : IsGpt dev m) : partitionInstallGptChildHandles dev m =
      (findTable dev m).bind fun
        | none => .ok ⟨.notFound, [], [], [], m⟩
        | some (hdr,m) => installTable dev hdr m := by
  obtain ⟨hsize,hallocates,hhdr,mbr,hmbr,hprotective⟩ := h
  unfold partitionInstallGptChildHandles
  rw [if_neg (by omega), hallocates, Bool.not_true, if_ff, hmbr]
  dsimp only
  rw [hprotective, hhdr, Bool.not_true, Bool.or_self, if_ff]
  rfl

theorem installTable_zeroHeader (dev : Device) (m : Media) :
    ∃ d, installTable dev zeroHeader m = .ok d ∧ d.handles = [] := by
  cases hents : entriesOf dev m.disk zeroHeader with
  | none => exact installTable_of_none hents
  | some entries =>
    rw [installTable_of_some hents]
    refine ⟨⟨.success, [], zeroHeader, entries, m⟩, ?_, rfl⟩
    rfl

theorem installTable_of_inUse (h : InUse dev m hdr m') (hgpt : IsGpt dev m) :
    partitionInstallGptChildHandles dev m = installTable dev hdr m' := by
  rw [install_of_isGpt hgpt, findTable_of_inUse h]
  rfl

/-- Child handles are from a verified table only where the entries that are read for the header in use do not wrap
in size and have its CRC. -/
theorem usesValidated_of_inUse (h : ∀ hdr m', InUse dev m hdr m' → ∀ entries, entriesOf dev m'.disk hdr = some entries →
      numberOfPartitionEntries hdr * sizeOfPartitionEntry hdr < 2^32 ∧
        partitionEntryArrayCrc32 hdr = calculateCrc32 entries) : UsesValidated dev m := by
  by_cases hgpt : IsGpt dev m
  swap
  · obtain ⟨d,hd,hnone⟩ := install_of_not_isGpt hgpt
    exact ⟨d, hd, fun hne => absurd hnone hne⟩
  rcases findTable_cases dev m with hfind | ⟨m',hfind⟩ | ⟨hdr,m',hinUse⟩
  · refine ⟨⟨.notFound, [], [], [], m⟩, ?_, fun hne => absurd rfl hne⟩
    rw [install_of_isGpt hgpt, hfind]
    rfl
  · obtain ⟨d,hd,hnone⟩ := installTable_zeroHeader dev m'
    refine ⟨d, ?_, fun hne => absurd hnone hne⟩
    rw [install_of_isGpt hgpt, hfind]
    exact hd
  have hinstall := installTable_of_inUse hinUse hgpt
  cases hents : entriesOf dev m'.disk hdr with
  | none =>
    obtain ⟨d,hd,hnone⟩ := installTable_of_none hents
    exact ⟨d, hinstall.trans hd, fun hne => absurd hnone hne⟩
  | some entries =>
    obtain ⟨hfits,hcrc⟩ := h hdr m' hinUse entries hents
    have hread := (Option.filter_eq_some_iff.mp hents).1
    have hhold : HoldsEntries hdr entries :=
      ⟨hinUse.size, (length_entriesOf hents).trans (toUint32_of_lt hfits)⟩
    obtain ⟨handles,hhnds⟩ := hhold.installEntries
    refine ⟨⟨.success, handles, hdr, entries, m'⟩, ?_, fun _ => ⟨hinUse.verified, ?_, hcrc⟩⟩
    · rw [hinstall, installTable_of_some hents, hhnds]
      rfl
    · unfold readEntryArray at hread
      split at hread
      · rw [arraySize, toUint32_of_lt hfits] at hread
        exact hread
      · cases hread

/-- Where the size of the entries wraps they are read outside of their buffer. -/
theorem UsesValidated.fits (h : UsesValidated dev m) (hgpt : IsGpt dev m) (hinUse : InUse dev m hdr m')
    {entries : Bytes} (hents : entriesOf dev m'.disk hdr = some entries) :
    numberOfPartitionEntries hdr * sizeOfPartitionEntry hdr < 2^32 := by
  obtain ⟨d,hd,-⟩ := h
  rw [installTable_of_inUse hinUse hgpt, installTable_of_some hents] at hd
  by_contra hwraps
  obtain ⟨fault,hfault⟩ := installEntries_error (length_entriesOf hents) (by omega)
  rw [hfault] at hd
  cases hd

end

def sixBlocks : Device := ⟨512, 5, fun _ => true⟩

def blockOf (content : Bytes) : Bytes := content ++ List.replicate (512-content.length) 0

/-- The protective MBR. -/
def mbrBlock : Bytes :=
  List.replicate 446 0 ++ [0, 0, 0, 0, 0xEE, 0, 0, 0, 1, 0, 0, 0, 5, 0, 0, 0] ++ List.replicate 48 0 ++ [0x55, 0xAA]

def entryOf (type lba : UInt8) : Bytes :=
  List.replicate 16 type ++ List.replicate 16 0 ++ [lba, 0, 0, 0, 0, 0, 0, 0] ++ [lba, 0, 0, 0, 0, 0, 0, 0] ++
    List.replicate 80 0

def backupBlock : Bytes := partitionSetCrc (blockOf
    (efiPtabHeaderId ++ leBytes 4 0x10000 ++ leBytes 4 92 ++ leBytes 8 0 ++ leBytes 8 5 ++ leBytes 8 1 ++
      leBytes 8 4 ++ leBytes 8 4 ++ List.replicate 16 7 ++ leBytes 8 3 ++ leBytes 4 1 ++ leBytes 4 128 ++
      leBytes 4 (calculateCrc32 (entryOf 1 4))))

/-- A disk whose primary header is lost, with other entries in block 2. The header is restored, and the write of
its entries fails. -/
def lostPrimary : Media where
  disk := mbrBlock ++ blockOf [] ++ blockOf (entryOf 2 4) ++ blockOf (entryOf 1 4) ++ blockOf [] ++ backupBlock
  writes := [.done, .failed 0]

end Liano.Gpt
