import Liano.Lib.Run
import Liano.Smbios.Tables

/-! The tables agree with the records in runs. -/
namespace Liano.Smbios

open List hiding after

open Bytes

structure Consistent (cfg : SmbiosConfig) (st : SmbiosState) : Prop where
  records : ∀ entry ∈ st.dataList, RecordOk cfg entry
  table32 : TableAgrees32 cfg (members32 st.dataList) st.entryPointStructure
  table64 : TableAgrees64 cfg (members64 st.dataList) st.smbios30EntryPointStructure

section
variable {cfg : SmbiosConfig} {st : SmbiosState} {allocations : Allocations}

/-- The records of a table, by the flag of the entries that are in it. -/
def members (isMember : SmbiosEntry → Bool) (dataList : List SmbiosEntry) : List Bytes :=
  (dataList.filter isMember).map (·.record)

variable {dataList : List SmbiosEntry} {records records' : List Bytes}

section
variable {isMember : SmbiosEntry → Bool} {before after : List SmbiosEntry} {entry : SmbiosEntry}

theorem measured_members (h : ∀ entry ∈ dataList, RecordOk cfg entry) : Measured cfg (members isMember dataList) := by
  have hall : ∀ record ∈ members isMember dataList,
      structureSize cfg record = some record.length ∧ 6 ≤ record.length := by
    intro record hrecord
    obtain ⟨entry,hent,rfl⟩ := mem_map.mp hrecord
    have hok := h entry (mem_filter.mp hent).1
    exact ⟨hok.structureSize, hok.length⟩
  exact ⟨fun record hrecord => (hall record hrecord).1, fun record hrecord => (hall record hrecord).2⟩

theorem members_split (hin : isMember entry = true) : members isMember (before ++ entry :: after) =
    members isMember before ++ entry.record :: members isMember after := by simp [members, hin]

theorem members_split_of_not (hnot : isMember entry = false) :
    members isMember (before ++ entry :: after) = members isMember (before ++ after) := by simp [members, hnot]

theorem members_ne_nil (hent : entry ∈ dataList) (hin : isMember entry = true) : members isMember dataList ≠ [] :=
  ne_nil_of_mem (mem_map_of_mem (mem_filter.mpr ⟨hent, hin⟩))

theorem length_members_le : (members isMember (before ++ after)).flatten.length ≤
    (members isMember (before ++ entry :: after)).flatten.length := by
  cases hin : isMember entry with
  | true =>
    rw [members_split hin]
    simp [members]
  | false => rw [members_split_of_not hin]

end

theorem smbiosTableConstruction_consistent {build32 build64 : Bool}
    (hrecs : ∀ entry ∈ st.dataList, RecordOk cfg entry)
    (h32 : build32 = true → CanBuild32 (members32 st.dataList) st.entryPointStructure allocations)
    (h32' : build32 = false → TableAgrees32 cfg (members32 st.dataList) st.entryPointStructure)
    (h64 : build64 = true → CanBuild64 (members64 st.dataList) st.smbios30EntryPointStructure allocations)
    (h64' : build64 = false → TableAgrees64 cfg (members64 st.dataList) st.smbios30EntryPointStructure) :
    ∃ st', smbiosTableConstruction cfg st build32 build64 allocations = some st' ∧ Consistent cfg st' := by
  obtain ⟨ep32,hbuild32,hagrees32⟩ : ∃ ep32,
      (if build32 then smbiosCreateTable cfg (members32 st.dataList) allocations st.entryPointStructure
        else some st.entryPointStructure) = some ep32 ∧ TableAgrees32 cfg (members32 st.dataList) ep32 := by
    cases build32 with
    | true =>
      obtain ⟨ep',hcreate,hagrees⟩ := smbiosCreateTable_agrees (measured_members hrecs) (h32 rfl)
      exact ⟨some ep', hcreate, hagrees⟩
    | false => exact ⟨_, rfl, h32' rfl⟩
  obtain ⟨ep64,hbuild64,hagrees64⟩ : ∃ ep64,
      (if build64 then smbiosCreate64BitTable cfg (members64 st.dataList) allocations st.smbios30EntryPointStructure
        else some st.smbios30EntryPointStructure) = some ep64 ∧
        TableAgrees64 cfg (members64 st.dataList) ep64 := by
    cases build64 with
    | true =>
      obtain ⟨ep',hcreate,hagrees⟩ := smbiosCreate64BitTable_agrees (measured_members hrecs) (h64 rfl)
      exact ⟨some ep', hcreate, hagrees⟩
    | false => exact ⟨_, rfl, h64' rfl⟩
  unfold smbiosTableConstruction
  rw [hbuild32, Option.bind_some, hbuild64]
  exact ⟨_, rfl, hrecs, hagrees32, hagrees64⟩

/-- A table has room for records that take no more than those in it. -/
theorem Published.canPlace {pages : TablePages} {tableLength limit : Nat}
    {table configurationTable : Bool} (h : Published cfg records pages tableLength) (hfits : tableLength ≤ limit)
    (hlen : records'.flatten.length ≤ records.flatten.length) :
    CanPlace (totalLength records') (some pages) table configurationTable ∧ totalLength records' ≤ limit := by
  have hold := h.length
  rw [length_append, length_endStructure] at hold
  have hless : totalLength records' ≤ tableLength := by
    unfold totalLength
    omega
  refine ⟨⟨fun hmore => ?_, fun hnot => ?_⟩, le_trans hless hfits⟩
  · have hmono := efiSizeToPages_mono hless
    have hroom := h.room
    have hmore : efiSizeToPages (totalLength records') > pages.preAllocatedPages := hmore
    omega
  · cases h.installed.symm.trans hnot

theorem TableAgrees32.canBuild {ep : Option EntryPoint32}
    (h : TableAgrees32 cfg records ep) (hne : records ≠ [])
    (hlen : records'.flatten.length ≤ records.flatten.length) : CanBuild32 records' ep allocations := by
  cases ep with
  | none => exact absurd h hne
  | some ep =>
    obtain ⟨hplace,hfits⟩ := h.published.canPlace h.fits hlen
    exact ⟨⟨hplace, fun hnone => nomatch hnone⟩, hfits⟩

theorem TableAgrees64.canBuild {ep : Option EntryPoint64}
    (h : TableAgrees64 cfg records ep) (hne : records ≠ [])
    (hlen : records'.flatten.length ≤ records.flatten.length) : CanBuild64 records' ep allocations := by
  cases ep with
  | none => exact absurd h hne
  | some ep =>
    obtain ⟨hplace,hfits⟩ := h.published.canPlace h.fits hlen
    exact ⟨⟨hplace, fun hnone => nomatch hnone⟩, hfits⟩

def addedState (cfg : SmbiosConfig) (st : SmbiosState) (req : AddRequest) (handle size numberOfStrings : Nat) :
    SmbiosState := insertEntry st (newEntry cfg st req handle size numberOfStrings) handle

def RegularAdd (cfg : SmbiosConfig) (st : SmbiosState) (req : AddRequest) (allocations : Allocations) : Prop :=
  ∀ handle size numberOfStrings, chooseHandle cfg st req.smbiosHandle = .ok handle →
    getSmbiosStructureSize cfg req.memory = some (.success, size, numberOfStrings) →
    (goesTo32 cfg st size || goesTo64 cfg st size) = true → allocations.smbiosEntry = true →
    allocations.handleEntry = true → (∃ length, formattedLength req.memory = some length ∧ 4 ≤ length) ∧
      (goesTo32 cfg st size = true →
        CanAllocate32 (totalLength (members32 st.dataList) + size) st.entryPointStructure allocations ∧
          (st.entryPointStructure = none → size+6 ≤ SMBIOS_TABLE_MAX_LENGTH)) ∧
      (goesTo64 cfg st size = true →
        CanAllocate64 (totalLength (members64 st.dataList) + size) st.smbios30EntryPointStructure allocations ∧
          (st.smbios30EntryPointStructure = none → size+6 ≤ SMBIOS_3_0_TABLE_MAX_LENGTH))

theorem TableAgrees32.totalLength_eq {ep : EntryPoint32} (h : TableAgrees32 cfg records (some ep)) :
    totalLength records = ep.tableLength := by
  have hlen := h.published.length
  rw [length_append, length_endStructure] at hlen
  exact hlen.symm

theorem TableAgrees64.totalLength_eq {ep : EntryPoint64} (h : TableAgrees64 cfg records (some ep)) :
    totalLength records = ep.tableMaximumSize := by
  have hlen := h.published.length
  rw [length_append, length_endStructure] at hlen
  exact hlen.symm

/-- The check of SmbiosAdd keeps the length within its field, but for the first record of a table. -/
theorem Consistent.fits32_of_goesTo (h : Consistent cfg st) {size : Nat} (hgoes : goesTo32 cfg st size = true)
    (hfirst : st.entryPointStructure = none → size+6 ≤ SMBIOS_TABLE_MAX_LENGTH) :
    totalLength (members32 st.dataList) + size ≤ SMBIOS_TABLE_MAX_LENGTH := by
  have htable := h.table32
  unfold goesTo32 at hgoes
  rw [Bool.and_eq_true] at hgoes
  cases hep : st.entryPointStructure with
  | none =>
    rw [hep] at htable
    have hno : members32 st.dataList = [] := htable
    rw [hno, totalLength, flatten_nil, length_nil]
    have := hfirst hep
    omega
  | some ep =>
    rw [hep] at htable hgoes
    rw [TableAgrees32.totalLength_eq htable]
    exact of_decide_eq_true hgoes.2

theorem Consistent.fits64_of_goesTo (h : Consistent cfg st) {size : Nat} (hgoes : goesTo64 cfg st size = true)
    (hfirst : st.smbios30EntryPointStructure = none → size+6 ≤ SMBIOS_3_0_TABLE_MAX_LENGTH) :
    totalLength (members64 st.dataList) + size ≤ SMBIOS_3_0_TABLE_MAX_LENGTH := by
  have htable := h.table64
  unfold goesTo64 at hgoes
  rw [Bool.and_eq_true] at hgoes
  cases hep : st.smbios30EntryPointStructure with
  | none =>
    rw [hep] at htable
    have hno : members64 st.dataList = [] := htable
    rw [hno, totalLength, flatten_nil, length_nil]
    have := hfirst hep
    omega
  | some ep =>
    rw [hep] at htable hgoes
    rw [TableAgrees64.totalLength_eq htable]
    exact of_decide_eq_true hgoes.2

theorem Consistent.smbiosAdd (h : Consistent cfg st) {req : AddRequest}
    (hreg : RegularAdd cfg st req allocations) {status : EfiStatus} {st' : SmbiosState}
    (hadd : smbiosAdd cfg st req allocations = some (status,st')) :
    Consistent cfg st' ∧ (status.isError = true → st' = st) := by
  unfold Smbios.smbiosAdd at hadd
  split at hadd
  · cases hadd
    exact ⟨h, fun _ => rfl⟩
  rename_i handle hhandle
  obtain ⟨⟨measured,size,numberOfStrings⟩,hmeas,hrest⟩ := Option.bind_eq_some_iff.mp hadd
  dsimp only at hrest
  split at hrest
  · cases hrest
    exact ⟨h, fun _ => rfl⟩
  rename_i hmeasured
  split at hrest
  · cases hrest
    exact ⟨h, fun _ => rfl⟩
  rename_i hgoes
  split at hrest
  · cases hrest
    exact ⟨h, fun _ => rfl⟩
  rename_i halloc
  obtain ⟨st'',hconstruct,heq⟩ := Option.map_eq_some_iff.mp hrest
  cases heq
  have hok : measured = .success := by
    cases measured <;> first | rfl | exact absurd rfl hmeasured
  rw [hok] at hmeas
  rw [Bool.or_eq_true, not_or] at halloc
  obtain ⟨⟨length,hlen,hfour⟩,h32,h64⟩ := hreg handle size numberOfStrings hhandle hmeas
    (by
      rw [Bool.and_eq_true, not_and_or, Bool.not_eq_true', Bool.not_eq_true', Bool.not_eq_false,
        Bool.not_eq_false] at hgoes
      exact Bool.or_eq_true_iff.mpr hgoes) (by simpa using halloc.1) (by simpa using halloc.2)
  have hrecs : ∀ entry ∈ (addedState cfg st req handle size numberOfStrings).dataList,
      RecordOk cfg entry := by
    intro entry hentry
    rcases mem_append.mp hentry with hold | hnew
    · exact h.records entry hold
    · rw [mem_singleton.mp hnew]
      exact (recordOk_newEntry hmeas hlen hfour).1
  have hsize := (@recordOk_newEntry cfg st req handle size numberOfStrings length hmeas hlen hfour).2
  have hbuild32 : goesTo32 cfg st size = true → CanBuild32
      (members32 (addedState cfg st req handle size numberOfStrings).dataList) st.entryPointStructure allocations := by
    intro hmember
    obtain ⟨hallocated,hfirst⟩ := h32 hmember
    have htotal : totalLength (members32 (addedState cfg st req handle size numberOfStrings).dataList) =
        totalLength (members32 st.dataList) + size := by
      simp [addedState, insertEntry, members32, totalLength, hsize, show (newEntry cfg st req handle size
        numberOfStrings).smbios32BitTable = true from hmember]
      omega
    exact ⟨htotal ▸ hallocated, htotal ▸ h.fits32_of_goesTo hmember hfirst⟩
  have hbuild64 : goesTo64 cfg st size = true → CanBuild64
      (members64 (addedState cfg st req handle size numberOfStrings).dataList) st.smbios30EntryPointStructure
      allocations := by
    intro hmember
    obtain ⟨hallocated,hfirst⟩ := h64 hmember
    have htotal : totalLength (members64 (addedState cfg st req handle size numberOfStrings).dataList) =
        totalLength (members64 st.dataList) + size := by
      simp [addedState, insertEntry, members64, totalLength, hsize, show (newEntry cfg st req handle size
        numberOfStrings).smbios64BitTable = true from hmember]
      omega
    exact ⟨htotal ▸ hallocated, htotal ▸ h.fits64_of_goesTo hmember hfirst⟩
  have hmembers32 : goesTo32 cfg st size = false →
      TableAgrees32 cfg (members32 (addedState cfg st req handle size numberOfStrings).dataList)
        st.entryPointStructure := by
    intro hnot
    have hsame : members32 (addedState cfg st req handle size numberOfStrings).dataList =
        members32 st.dataList := by simp [addedState, insertEntry, members32, newEntry, hnot]
    rw [hsame]
    exact h.table32
  have hmembers64 : goesTo64 cfg st size = false →
      TableAgrees64 cfg (members64 (addedState cfg st req handle size numberOfStrings).dataList)
        st.smbios30EntryPointStructure := by
    intro hnot
    have hsame : members64 (addedState cfg st req handle size numberOfStrings).dataList =
        members64 st.dataList := by simp [addedState, insertEntry, members64, newEntry, hnot]
    rw [hsame]
    exact h.table64
  obtain ⟨st₁,hst₁,hcons⟩ := @smbiosTableConstruction_consistent cfg
    (addedState cfg st req handle size numberOfStrings) allocations _ _ hrecs hbuild32 hmembers32 hbuild64
    hmembers64
  have hsame : st' = st₁ := Option.some.inj (hconstruct.symm.trans hst₁)
  exact ⟨hsame ▸ hcons, fun herr => by cases herr⟩

variable {index : Nat} {entry : SmbiosEntry}

theorem exists_split (h : dataList[index]? = some entry) :
    ∃ before after, dataList = before ++ entry :: after ∧ before.length = index := by
  obtain ⟨hidx,hent⟩ := List.getElem?_eq_some_iff.mp h
  refine ⟨dataList.take index, dataList.drop (index+1), ?_, ?_⟩
  · rw [← hent, ← drop_eq_getElem_cons hidx, take_append_drop]
  · rw [length_take]
    omega

structure RegularResize (cfg : SmbiosConfig) (st : SmbiosState) (index : Nat) (entry entry' : SmbiosEntry)
    (string : Bytes) (allocations : Allocations) : Prop where
  string : IsString cfg.maxLen string
  stays32 : entry.smbios32BitTable = true → entry'.smbios32BitTable = true
  stays64 : entry.smbios64BitTable = true → entry'.smbios64BitTable = true
  allocated : allocations.smbiosEntry = false → entry'.smbios32BitTable = entry.smbios32BitTable ∧
    entry'.smbios64BitTable = entry.smbios64BitTable
  build32 : allocations.smbiosEntry = true → entry'.smbios32BitTable = true →
    CanAllocate32 (totalLength (members32 (putEntry st index entry').dataList)) st.entryPointStructure allocations
  build64 : allocations.smbiosEntry = true → entry'.smbios64BitTable = true →
    CanAllocate64 (totalLength (members64 (putEntry st index entry').dataList)) st.smbios30EntryPointStructure
      allocations
  gains32 : entry.smbios32BitTable = false → entry'.smbios32BitTable = true →
    totalLength (members32 (putEntry st index entry').dataList) ≤ SMBIOS_TABLE_MAX_LENGTH
  gains64 : entry.smbios64BitTable = false → entry'.smbios64BitTable = true →
    totalLength (members64 (putEntry st index entry').dataList) ≤ SMBIOS_3_0_TABLE_MAX_LENGTH

theorem RegularResize.not32 {entry' : SmbiosEntry} {string : Bytes}
    (h : RegularResize cfg st index entry entry' string allocations) (hnot : entry'.smbios32BitTable = false) :
    entry.smbios32BitTable = false :=
  Bool.eq_false_iff.mpr fun hmem => Bool.false_ne_true (hnot.symm.trans (h.stays32 hmem))

theorem RegularResize.not64 {entry' : SmbiosEntry} {string : Bytes}
    (h : RegularResize cfg st index entry entry' string allocations) (hnot : entry'.smbios64BitTable = false) :
    entry.smbios64BitTable = false :=
  Bool.eq_false_iff.mpr fun hmem => Bool.false_ne_true (hnot.symm.trans (h.stays64 hmem))

def resizedEntry (cfg : SmbiosConfig) (st : SmbiosState) (entry : SmbiosEntry)
    (length targetStrOffset targetStrLen : Nat) (string : Bytes) : SmbiosEntry := { entry with
    record := replaceString entry.record length targetStrOffset targetStrLen string
    smbios32BitTable := staysIn32 cfg st string.length targetStrLen
    smbios64BitTable := staysIn64 cfg st string.length targetStrLen }

def RegularUpdate (cfg : SmbiosConfig) (st : SmbiosState) (req : UpdateRequest) (allocations : Allocations) : Prop :=
  isTooLong cfg req.string.length = false → ∀ index entry length targetStrOffset targetStrLen,
    findEntry st req.smbiosHandle = some index → st.dataList[index]? = some entry →
    0 < req.stringNumber → req.stringNumber ≤ entry.numberOfStrings →
    formattedLength entry.record = some length →
    findString (entry.record.drop length) req.stringNumber = some (.found targetStrOffset) →
    asciiStrLen ((entry.record.drop length).drop targetStrOffset) = some targetStrLen →
    req.string.length ≠ targetStrLen → RegularResize cfg st index entry
      (resizedEntry cfg st entry length targetStrOffset targetStrLen req.string) req.string allocations

theorem putEntry_self (h : st.dataList[index]? = some entry) : putEntry st index entry = st := by
  obtain ⟨hidx,rfl⟩ := List.getElem?_eq_some_iff.mp h
  unfold putEntry
  rw [set_getElem_self]

theorem records_putEntry (h : Consistent cfg st) {entry' : SmbiosEntry} (hok : RecordOk cfg entry') :
    ∀ entry ∈ (putEntry st index entry').dataList, RecordOk cfg entry := by
  intro entry hent
  rcases mem_or_eq_of_mem_set hent with hold | rfl
  · exact h.records entry hold
  · exact hok

theorem members_putEntry (h : st.dataList[index]? = some entry) (entry' : SmbiosEntry) :
    ∃ before after, st.dataList = before ++ entry :: after ∧
      (putEntry st index entry').dataList = before ++ entry' :: after := by
  obtain ⟨before,after,hsplit,rfl⟩ := exists_split h
  refine ⟨before, after, hsplit, ?_⟩
  unfold putEntry
  rw [hsplit]
  simp

section
variable {isMember : SmbiosEntry → Bool} {entry' : SmbiosEntry} (hent : st.dataList[index]? = some entry)
include hent

/-- A record that a table did not hold, and still does not. -/
theorem members_putEntry_of_not (hnot : isMember entry = false) (hnot' : isMember entry' = false) :
    members isMember (putEntry st index entry').dataList = members isMember st.dataList := by
  obtain ⟨before,after,hold,hnew⟩ := members_putEntry hent entry'
  rw [hold, hnew, members_split_of_not hnot, members_split_of_not hnot']

theorem length_members_putEntry (hin : isMember entry = true) (hin' : isMember entry' = true) :
    (members isMember (putEntry st index entry').dataList).flatten.length + entry.record.length =
      (members isMember st.dataList).flatten.length + entry'.record.length := by
  obtain ⟨before,after,hold,hnew⟩ := members_putEntry hent entry'
  rw [hold, hnew, members_split hin, members_split hin']
  simp only [flatten_append, flatten_cons, length_append]
  omega

/-- The check of SmbiosUpdateString keeps the length within its field for a record that is in the table. -/
theorem fits_of_stays {inputStrLen targetStrLen length limit : Nat} (hin : isMember entry = true)
    (hin' : isMember entry' = true) (hlimit : limit < 2^33) (hinput : inputStrLen < 2^32)
    (htarget : targetStrLen < 2^32) (hlen : entry'.record.length+targetStrLen = entry.record.length+inputStrLen)
    (htotal : totalLength (members isMember st.dataList) = length) (hfits : length ≤ limit)
    (hstays : toUint64 (length+inputStrLen + 2^64 - targetStrLen) ≤ limit) :
    totalLength (members isMember (putEntry st index entry').dataList) ≤ limit := by
  have hnew := @length_members_putEntry _ _ _ _ entry' hent hin hin'
  unfold totalLength at htotal ⊢
  unfold toUint64 at hstays
  omega

end

section
variable (h : Consistent cfg st)
include h

/-- A record that the table did not hold, and still does not, leaves the table as it is. -/
theorem Consistent.table32_putEntry (hent : st.dataList[index]? = some entry) {entry' : SmbiosEntry}
    (hnot : entry.smbios32BitTable = false) (hnot' : entry'.smbios32BitTable = false) :
    TableAgrees32 cfg (members32 (putEntry st index entry').dataList) st.entryPointStructure := by
  have hsame : members32 (putEntry st index entry').dataList = members32 st.dataList :=
    members_putEntry_of_not hent hnot hnot'
  exact hsame ▸ h.table32

theorem Consistent.table64_putEntry (hent : st.dataList[index]? = some entry) {entry' : SmbiosEntry}
    (hnot : entry.smbios64BitTable = false) (hnot' : entry'.smbios64BitTable = false) :
    TableAgrees64 cfg (members64 (putEntry st index entry').dataList) st.smbios30EntryPointStructure := by
  have hsame : members64 (putEntry st index entry').dataList = members64 st.dataList :=
    members_putEntry_of_not hent hnot hnot'
  exact hsame ▸ h.table64

theorem Consistent.updateInPlace
    (hent : st.dataList[index]? = some entry) {length targetStrOffset : Nat} {string : Bytes}
    (hok : ∀ entry' : SmbiosEntry,
      entry'.record = replaceString entry.record length targetStrOffset string.length string →
      entry'.numberOfStrings = entry.numberOfStrings →
      RecordOk cfg entry' ∧ entry'.record.length = entry.record.length) :
    ∃ st', updateInPlace cfg st index entry length targetStrOffset string allocations = some (.success, st') ∧
      Consistent cfg st' := by
  -- the record that is left, be it copied or not
  obtain ⟨entry',hentry',hok',hlen,h32,h64⟩ : ∃ entry' : SmbiosEntry, { entry with
        record := if cfg.copies (string.length+1) then
            replaceString entry.record length targetStrOffset string.length string
          else entry.record } = entry' ∧ RecordOk cfg entry' ∧ entry'.record.length = entry.record.length ∧
        entry'.smbios32BitTable = entry.smbios32BitTable ∧ entry'.smbios64BitTable = entry.smbios64BitTable := by
    refine ⟨_, rfl, ?_⟩
    by_cases hcopies : cfg.copies (string.length+1) = true
    · rw [if_pos hcopies]
      obtain ⟨hrec,hsame⟩ := hok { entry with
        record := replaceString entry.record length targetStrOffset string.length string } rfl rfl
      exact ⟨hrec, hsame, rfl, rfl⟩
    · rw [if_neg hcopies]
      exact ⟨h.records entry (mem_of_getElem? hent), rfl, rfl, rfl⟩
  have hlength : ∀ isMember : SmbiosEntry → Bool, isMember entry = true → isMember entry' = true →
      (members isMember (putEntry st index entry').dataList).flatten.length ≤
        (members isMember st.dataList).flatten.length := by
    intro isMember hin hin'
    have hnew := length_members_putEntry hent hin hin'
    omega
  have hmem := mem_of_getElem? hent
  have hbuild32 : entry.smbios32BitTable = true →
      CanBuild32 (members32 (putEntry st index entry').dataList) st.entryPointStructure allocations := fun hin =>
    h.table32.canBuild (members_ne_nil hmem hin) (hlength (·.smbios32BitTable) hin (h32.trans hin))
  have hbuild64 : entry.smbios64BitTable = true →
      CanBuild64 (members64 (putEntry st index entry').dataList) st.smbios30EntryPointStructure allocations := fun hin =>
    h.table64.canBuild (members_ne_nil hmem hin) (hlength (·.smbios64BitTable) hin (h64.trans hin))
  obtain ⟨st',hst',hcons⟩ := @smbiosTableConstruction_consistent cfg (putEntry st index entry') allocations
    entry.smbios32BitTable entry.smbios64BitTable (records_putEntry h hok')
    hbuild32 (fun hnot => h.table32_putEntry hent hnot (h32.trans hnot))
    hbuild64 fun hnot => h.table64_putEntry hent hnot (h64.trans hnot)
  refine ⟨st', ?_, hcons⟩
  unfold Smbios.updateInPlace
  rw [hentry', hst']
  rfl

section
variable {length targetStrOffset targetStrLen : Nat} {string : Bytes}
  (hreg : RegularResize cfg st index entry
    (resizedEntry cfg st entry length targetStrOffset targetStrLen string) string allocations)
  (hent : st.dataList[index]? = some entry) (hinput : string.length < 2^32) (htarget : targetStrLen < 2^32)
  (hlen : (resizedEntry cfg st entry length targetStrOffset targetStrLen string).record.length+targetStrLen =
    entry.record.length+string.length)
include hreg hent hinput htarget hlen

theorem RegularResize.fits32 (hstays : staysIn32 cfg st string.length targetStrLen = true) :
    totalLength (members32 (putEntry st index
      (resizedEntry cfg st entry length targetStrOffset targetStrLen string)).dataList) ≤ SMBIOS_TABLE_MAX_LENGTH := by
  cases hin : entry.smbios32BitTable with
  | false => exact hreg.gains32 hin hstays
  | true =>
    have htable := h.table32
    have hboth := hstays
    unfold staysIn32 at hboth
    rw [Bool.and_eq_true] at hboth
    cases hep : st.entryPointStructure with
    | none =>
      rw [hep] at htable
      exact absurd htable (members_ne_nil (mem_of_getElem? hent) hin)
    | some ep =>
      rw [hep, Option.all_some, decide_eq_true_iff] at hboth
      rw [hep] at htable
      exact @fits_of_stays st index entry (·.smbios32BitTable) _ hent _ _ _ _ hin hstays (by decide)
        hinput htarget hlen (TableAgrees32.totalLength_eq htable) htable.fits hboth.2

theorem RegularResize.fits64 (hstays : staysIn64 cfg st string.length targetStrLen = true) :
    totalLength (members64 (putEntry st index
      (resizedEntry cfg st entry length targetStrOffset targetStrLen string)).dataList) ≤
        SMBIOS_3_0_TABLE_MAX_LENGTH := by
  cases hin : entry.smbios64BitTable with
  | false => exact hreg.gains64 hin hstays
  | true =>
    have htable := h.table64
    have hboth := hstays
    unfold staysIn64 at hboth
    rw [Bool.and_eq_true] at hboth
    cases hep : st.smbios30EntryPointStructure with
    | none =>
      rw [hep] at htable
      exact absurd htable (members_ne_nil (mem_of_getElem? hent) hin)
    | some ep =>
      rw [hep, Option.all_some, decide_eq_true_iff] at hboth
      rw [hep] at htable
      exact @fits_of_stays st index entry (·.smbios64BitTable) _ hent _ _ _ _ hin hstays (by decide)
        hinput htarget hlen (TableAgrees64.totalLength_eq htable) htable.fits hboth.2

end

theorem Consistent.updateResized
    (hent : st.dataList[index]? = some entry) {length targetStrOffset targetStrLen : Nat} {string : Bytes}
    (hok : RecordOk cfg (resizedEntry cfg st entry length targetStrOffset targetStrLen string) ∧
      (resizedEntry cfg st entry length targetStrOffset targetStrLen string).record.length+targetStrLen =
        entry.record.length+string.length) (htarget : targetStrLen < cfg.maxLen)
    (hreg : RegularResize cfg st index entry
      (resizedEntry cfg st entry length targetStrOffset targetStrLen string) string allocations) :
    ∃ status st', updateResized cfg st index entry length targetStrOffset targetStrLen string allocations =
        some (status,st') ∧ Consistent cfg st' ∧ (status.isError = true → st' = st) := by
  have hmax : cfg.maxLen < 2^32 := by
    unfold SmbiosConfig.maxLen
    split
    · decide
    · split <;> decide
  have hinput := lt_trans hreg.string.short hmax
  have htarget := lt_trans htarget hmax
  unfold Smbios.updateResized
  dsimp only
  split
  · rename_i hneither
    rw [Bool.and_eq_true, Bool.not_eq_true', Bool.not_eq_true'] at hneither
    have h32 := hreg.not32 hneither.1
    have h64 := hreg.not64 hneither.2
    have hsame : { entry with
        smbios32BitTable := staysIn32 cfg st string.length targetStrLen
        smbios64BitTable := staysIn64 cfg st string.length targetStrLen } = entry := by
      rw [hneither.1, hneither.2]
      cases entry
      cases h32
      cases h64
      rfl
    rw [hsame, putEntry_self hent]
    exact ⟨_, _, rfl, h, fun _ => rfl⟩
  · split
    · rename_i halloc
      obtain ⟨h32,h64⟩ := hreg.allocated (by simpa using halloc)
      have hsame : { entry with
          smbios32BitTable := staysIn32 cfg st string.length targetStrLen
          smbios64BitTable := staysIn64 cfg st string.length targetStrLen } = entry := by
        rw [show staysIn32 cfg st string.length targetStrLen = _ from h32,
          show staysIn64 cfg st string.length targetStrLen = _ from h64]
      rw [hsame, putEntry_self hent]
      exact ⟨_, _, rfl, h, fun _ => rfl⟩
    · rename_i halloc
      have halloc : allocations.smbiosEntry = true := by simpa using halloc
      obtain ⟨st',hst',hcons⟩ := @smbiosTableConstruction_consistent cfg
        (putEntry st index (resizedEntry cfg st entry length targetStrOffset targetStrLen string)) allocations
        (staysIn32 cfg st string.length targetStrLen) (staysIn64 cfg st string.length targetStrLen)
        (records_putEntry h hok.1)
        (fun hin' => ⟨hreg.build32 halloc hin', hreg.fits32 h hent hinput htarget hok.2 hin'⟩) (fun hnot => h.table32_putEntry hent (hreg.not32 hnot) hnot)
        (fun hin' => ⟨hreg.build64 halloc hin', hreg.fits64 h hent hinput htarget hok.2 hin'⟩)
        fun hnot => h.table64_putEntry hent (hreg.not64 hnot) hnot
      have hst'' : smbiosTableConstruction cfg (putEntry st index { entry with
          record := replaceString entry.record length targetStrOffset targetStrLen string
          smbios32BitTable := staysIn32 cfg st string.length targetStrLen
          smbios64BitTable := staysIn64 cfg st string.length targetStrLen })
          (staysIn32 cfg st string.length targetStrLen) (staysIn64 cfg st string.length targetStrLen) allocations =
            some st' := hst'
      rw [hst'']
      exact ⟨_, _, rfl, hcons, fun herr => nomatch herr⟩

theorem Consistent.smbiosUpdateString {req : UpdateRequest} (hreg : RegularUpdate cfg st req allocations) :
    ∃ status st', smbiosUpdateString cfg st req allocations = some (status,st') ∧ Consistent cfg st' ∧
      (status.isError = true → st' = st) := by
  unfold Smbios.smbiosUpdateString
  split
  · exact ⟨_, _, rfl, h, fun _ => rfl⟩
  split
  · exact ⟨_, _, rfl, h, fun _ => rfl⟩
  rename_i hnum
  split
  · exact ⟨_, _, rfl, h, fun _ => rfl⟩
  rename_i hlong
  split
  · exact ⟨_, _, rfl, h, fun _ => rfl⟩
  rename_i index hindex
  obtain ⟨hins,hfnd,-⟩ := findIdx?_eq_some_iff_getElem.mp hindex
  have hent := getElem?_eq_getElem hins
  rw [hent, Option.bind_some]
  generalize st.dataList[index] = entry at hent
  unfold updateEntry
  split
  · exact ⟨_, _, rfl, h, fun _ => rfl⟩
  rename_i hcnt
  have hrec := h.records entry (mem_of_getElem? hent)
  obtain ⟨length,targetStrOffset,targetStrLen,hlength,hfind,hlen,hpos,hshort,hreplace⟩ :=
    hrec.target (Nat.pos_of_ne_zero hnum) (not_lt.mp hcnt)
  rw [hlength, Option.bind_some, hfind, Option.bind_some]
  dsimp only
  rw [hlen, Option.bind_some]
  split
  · rename_i hsame
    obtain ⟨st',hst',hcons⟩ := @Consistent.updateInPlace cfg st allocations index entry h hent
      length targetStrOffset req.string (by
        intro entry' hentry' hcount
        obtain ⟨hok,htotal⟩ := hreplace req.string entry' ⟨by
          rintro hnil
          rw [hnil, length_nil] at hsame
          omega, req.noNul, by omega⟩ (hsame ▸ hentry') hcount
        exact ⟨hok, by omega⟩)
    exact ⟨_, _, hst', hcons, fun herr => nomatch herr⟩
  · rename_i hdiffers
    have hresize := hreg (by simpa using hlong) index entry length targetStrOffset targetStrLen hindex
      hent (Nat.pos_of_ne_zero hnum) (not_lt.mp hcnt) hlength hfind hlen hdiffers
    exact h.updateResized hent (hreplace req.string
      (resizedEntry cfg st entry length targetStrOffset targetStrLen req.string) hresize.string rfl rfl) hshort
      hresize

theorem Consistent.smbiosRemove (smbiosHandle : Nat) :
    ∃ status st', smbiosRemove cfg st smbiosHandle allocations = some (status,st') ∧ Consistent cfg st' ∧
      (status.isError = true → st' = st) := by
  unfold Smbios.smbiosRemove
  split
  · exact ⟨_, _, rfl, h, fun _ => rfl⟩
  split
  · exact ⟨_, _, rfl, h, fun _ => rfl⟩
  rename_i index hindex
  obtain ⟨hins,hfnd,-⟩ := findIdx?_eq_some_iff_getElem.mp hindex
  have hent := getElem?_eq_getElem hins
  rw [hent, Option.bind_some]
  generalize st.dataList[index] = entry at hent
  obtain ⟨before,after,hold,rfl⟩ := exists_split hent
  have hnew : (dropEntry st before.length smbiosHandle).dataList = before ++ after := by
    unfold dropEntry
    rw [hold]
    simp [eraseIdx_append_of_length_le]
  have hmem := mem_of_getElem? hent
  obtain ⟨st',hst',hcons⟩ := @smbiosTableConstruction_consistent cfg
    (dropEntry st before.length smbiosHandle) allocations entry.smbios32BitTable entry.smbios64BitTable
    (fun other hother => h.records other (by
      rw [hnew] at hother
      rw [hold]
      rcases mem_append.mp hother with hmem | hmem
      · exact mem_append_left _ hmem
      · exact mem_append_right _ (mem_cons_of_mem _ hmem)))
    (fun hin => hnew ▸ h.table32.canBuild (members_ne_nil hmem hin) (hold ▸ length_members_le))
    (fun hnot => by
      have hsame : members32 st.dataList = members32 (before ++ after) := hold ▸ members_split_of_not hnot
      exact hnew ▸ hsame ▸ h.table32)
    (fun hin => hnew ▸ h.table64.canBuild (members_ne_nil hmem hin) (hold ▸ length_members_le))
    fun hnot => by
      have hsame : members64 st.dataList = members64 (before ++ after) := hold ▸ members_split_of_not hnot
      exact hnew ▸ hsame ▸ h.table64
  rw [hst']
  exact ⟨_, _, rfl, hcons, fun herr => nomatch herr⟩

end

end

inductive SmbiosCall
  | add (req : AddRequest) (allocations : Allocations)
  | updateString (req : UpdateRequest) (allocations : Allocations)
  | remove (smbiosHandle : Nat) (allocations : Allocations)

def smbiosCall (cfg : SmbiosConfig) (st : SmbiosState) : SmbiosCall → Option (EfiStatus × SmbiosState)
  | .add req allocations => smbiosAdd cfg st req allocations
  | .updateString req allocations => smbiosUpdateString cfg st req allocations
  | .remove smbiosHandle allocations => smbiosRemove cfg st smbiosHandle allocations

def smbiosStep (cfg : SmbiosConfig) (st : SmbiosState) (call : SmbiosCall) : Option SmbiosState :=
  (smbiosCall cfg st call).map (·.2)

def RegularCall (cfg : SmbiosConfig) (st : SmbiosState) : SmbiosCall → Prop
  | .add req allocations => RegularAdd cfg st req allocations
  | .updateString req allocations => RegularUpdate cfg st req allocations
  | .remove _ _ => True

def noRecords : SmbiosState := ⟨[], [], none, none⟩

structure TablesAgree (cfg : SmbiosConfig) (st : SmbiosState) : Prop where
  table32 : TableAgrees32 cfg (members32 st.dataList) st.entryPointStructure
  table64 : TableAgrees64 cfg (members64 st.dataList) st.smbios30EntryPointStructure

section
variable {cfg : SmbiosConfig} {st st' : SmbiosState} {status : EfiStatus} {call : SmbiosCall}

theorem consistent_noRecords (cfg : SmbiosConfig) : Consistent cfg noRecords :=
  ⟨fun _ hentry => (not_mem_nil hentry).elim, rfl, rfl⟩

theorem Consistent.smbiosCall (h : Consistent cfg st) (hreg : RegularCall cfg st call)
    (hcall : smbiosCall cfg st call = some (status,st')) :
    Consistent cfg st' ∧ (status.isError = true → st' = st) := by
  cases call with
  | add req allocations => exact h.smbiosAdd hreg hcall
  | updateString req allocations =>
    obtain ⟨status',st'',hupd,hcons,herr⟩ := h.smbiosUpdateString hreg
    cases hupd.symm.trans hcall
    exact ⟨hcons, herr⟩
  | remove smbiosHandle allocations =>
    obtain ⟨status',st'',hremove,hcons,herr⟩ := @Consistent.smbiosRemove cfg st allocations h smbiosHandle
    cases hremove.symm.trans hcall
    exact ⟨hcons, herr⟩

/-- In every run of regular calls a successful call leaves both tables in agreement with the records, and one that
fails leaves the records and their handles. -/
theorem smbiosTables_agree (h : Run.Reaches (smbiosStep cfg) (RegularCall cfg) noRecords st)
    (hregular : RegularCall cfg st call) (hcall : smbiosCall cfg st call = some (status,st')) :
    (status = .success → TablesAgree cfg st') ∧
      (status.isError = true → st'.dataList = st.dataList ∧ st'.allocatedHandleList = st.allocatedHandleList) := by
  have hcons : Consistent cfg st := h.invariant (consistent_noRecords cfg) fun s a s' hs ha hstep => by
    obtain ⟨⟨status',s''⟩,hcall',rfl⟩ := Option.map_eq_some_iff.mp hstep
    exact (hs.smbiosCall ha hcall').1
  obtain ⟨hafter,hkept⟩ := hcons.smbiosCall hregular hcall
  exact ⟨fun _ => ⟨hafter.table32, hafter.table64⟩, fun herr => by rw [hkept herr]; exact ⟨rfl, rfl⟩⟩

end

/-- SMBIOS 2.8. -/
def version28 : SmbiosConfig := ⟨2, 8, 0, 0⟩

def allAllocated : Allocations := ⟨true, true, true, true, true, true, true, true, true⟩

def threeStrings : AddRequest := ⟨0, 1, [1, 4, 0, 0, 0x41, 0, 0x42, 0, 0x43, 0, 0]⟩

def emptySecond : UpdateRequest := ⟨1, 2, [], by decide⟩

/-- With an empty string inside its section a record is measured up to that string only. -/
theorem smbiosTable_truncated :
    ¬ ∀ cfg st call status st', Run.Reaches (smbiosStep cfg) (fun _ _ => True) noRecords st →
      smbiosCall cfg st call = some (status,st') → status = .success → TablesAgree cfg st' := by
  intro hall
  have hrun : (Run.run (smbiosStep version28) noRecords [.add threeStrings allAllocated]).bind (fun st =>
      (smbiosCall version28 st (.updateString emptySecond allAllocated)).map fun r =>
        (r.1, r.2.entryPointStructure.map (·.tableLength), (members32 r.2.dataList).flatten.length)) =
      some (.success, some 13, 10) := by decide +kernel
  obtain ⟨st,hst,hcall⟩ := Option.bind_eq_some_iff.mp hrun
  obtain ⟨⟨status,st'⟩,hcall,hobs⟩ := Option.map_eq_some_iff.mp hcall
  have hstatus : status = .success := congrArg Prod.fst hobs
  have hlen : st'.entryPointStructure.map (·.tableLength) = some 13 := congrArg (·.2.1) hobs
  have htotal : (members32 st'.dataList).flatten.length = 10 := congrArg (·.2.2) hobs
  have hagree := (hall version28 st _ status st' (Run.reaches_of_run hst) hcall hstatus).table32
  obtain ⟨ep,hep,hepLen⟩ := Option.map_eq_some_iff.mp hlen
  rw [hep] at hagree
  have hexact := hagree.published.length
  rw [length_append, length_endStructure, htotal, hepLen] at hexact
  cases hexact

/-- The state behind the first record. -/
def oneRecord : SmbiosState where
  dataList := [⟨[1, 4, 1, 0, 0x41, 0, 0x42, 0, 0x43, 0, 0], 0, 3, true, false⟩]
  allocatedHandleList := [1]
  entryPointStructure := some ⟨17, 2, 11, ⟨1, some [1, 4, 1, 0, 0x41, 0, 0x42, 0, 0x43, 0, 0, 0x7F, 4, 0xFF, 0xFE, 0, 0],
    true⟩⟩
  smbios30EntryPointStructure := none

def longerSecond : UpdateRequest := ⟨1, 2, [0x42, 0x42], by decide⟩

theorem regularAdd_threeStrings : RegularCall version28 noRecords (.add threeStrings allAllocated) := by
  intro handle size numberOfStrings hhandle hmeasure _ _ _
  have hsize : getSmbiosStructureSize version28 threeStrings.memory = some (.success, 11, 3) := by decide +kernel
  cases hsize.symm.trans hmeasure
  exact ⟨⟨4, by decide, le_rfl⟩, fun _ => ⟨⟨⟨fun _ => rfl, fun _ => rfl⟩, fun _ => .inl rfl⟩, fun _ => by decide⟩,
    fun h => by cases h⟩

theorem regularUpdate_longerSecond : RegularCall version28 oneRecord (.updateString longerSecond allAllocated) := by
  intro _ index entry length targetStrOffset targetStrLen hindex hent _ _ hlength hfind hlen _
  have hfirst : findEntry oneRecord 1 = some 0 := by decide +kernel
  cases hfirst.symm.trans hindex
  cases hent
  have hfour : formattedLength [1, 4, 1, 0, 0x41, 0, 0x42, 0, 0x43, 0, 0] = some 4 := by decide
  cases hfour.symm.trans hlength
  have hsecond : findString ([1, 4, 1, 0, 0x41, 0, 0x42, 0, 0x43, 0, 0].drop 4) 2 = some (.found 2) := by decide +kernel
  cases hsecond.symm.trans hfind
  have hone : asciiStrLen (([1, 4, 1, 0, 0x41, 0, 0x42, 0, 0x43, 0, 0].drop 4).drop 2) = some 1 := by decide +kernel
  cases hone.symm.trans hlen
  have hno : staysIn64 version28 oneRecord 2 1 = false := by decide
  exact
    { string := ⟨by decide, by decide, by decide⟩
      stays32 := fun _ => by decide
      stays64 := fun h => nomatch h
      allocated := fun h => nomatch h
      build32 := fun _ _ => ⟨⟨fun _ => rfl, fun _ => rfl⟩, fun _ => .inl rfl⟩
      build64 := fun _ h => nomatch hno.symm.trans h
      gains32 := fun h => nomatch h
      gains64 := fun _ h => nomatch hno.symm.trans h }

/-- A string of the first record is replaced by a longer one. -/
theorem smbiosTables_agree_first :
    ∃ st', smbiosCall version28 oneRecord (.updateString longerSecond allAllocated) = some (.success, st') ∧
      TablesAgree version28 st' ∧ st'.entryPointStructure.map (·.tableLength) = some 18 := by
  have hrun : Run.run (smbiosStep version28) noRecords [.add threeStrings allAllocated] = some oneRecord := by
    decide +kernel
  have halong : Run.Along (smbiosStep version28) (RegularCall version28) noRecords [.add threeStrings allAllocated] := by
    refine ⟨regularAdd_threeStrings, ?_⟩
    cases smbiosStep version28 noRecords (.add threeStrings allAllocated) <;> trivial
  have hcall : (smbiosCall version28 oneRecord (.updateString longerSecond allAllocated)).map (fun r =>
      (r.1, r.2.entryPointStructure.map (·.tableLength))) = some (.success, some 18) := by decide +kernel
  obtain ⟨⟨status,st'⟩,hcall,hobs⟩ := Option.map_eq_some_iff.mp hcall
  obtain rfl : status = .success := congrArg Prod.fst hobs
  exact ⟨st', hcall, (smbiosTables_agree (Run.reaches_of_run_along hrun halong) regularUpdate_longerSecond hcall).1 rfl,
    congrArg Prod.snd hobs⟩

end Liano.Smbios
