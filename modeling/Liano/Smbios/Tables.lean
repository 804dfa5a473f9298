import Liano.Smbios.Services
import Liano.Smbios.Strings

/-! When the tables are built of the records that are marked for them. -/
namespace Liano.Smbios

open List hiding after max

open Bytes

/-- A formatted area with its length, and a string section whose strings are counted. -/
structure RecordOk (cfg : SmbiosConfig) (entry : SmbiosEntry) : Prop where
  parts : ∃ formatted lead strings, entry.record = formatted ++ stringSection lead strings ∧
    formattedLength entry.record = some formatted.length ∧ 4 ≤ formatted.length ∧
    (∀ string ∈ strings, IsString cfg.maxLen string) ∧ entry.numberOfStrings = strings.length

section
variable {cfg : SmbiosConfig} {entry : SmbiosEntry} {formatted : Bytes} {lead : Bool} {strings : List Bytes}

theorem length_le_encodeStrings (strings : List Bytes) : strings.length ≤ (encodeStrings strings).length := by
  induction strings with
  | nil => exact le_rfl
  | cons string strings ih =>
    rw [encodeStrings_cons, length_append, length_cons, length_cons]
    omega

theorem length_stringSection (lead : Bool) (strings : List Bytes) :
    strings.length ≤ (stringSection lead strings).length ∧ 2 ≤ (stringSection lead strings).length := by
  have h := length_le_encodeStrings strings
  cases strings with
  | nil => cases lead <;> simp [stringSection]
  | cons string strings =>
    rw [length_cons] at h ⊢
    simp only [stringSection, length_append, length_singleton]
    omega

theorem measure_section {behind : Bytes}
    (hlen : formattedLength (formatted ++ stringSection lead strings ++ behind) = some formatted.length)
    (h : ∀ string ∈ strings, IsString cfg.maxLen string) :
    getSmbiosStructureSize cfg (formatted ++ stringSection lead strings ++ behind) =
      some (.success, (formatted ++ stringSection lead strings).length, strings.length) := by
  have hfuel : strings.length < (formatted ++ stringSection lead strings ++ behind).length + 1 := by
    have := (length_stringSection lead strings).1
    simp only [length_append]
    omega
  rw [getSmbiosStructureSize, hlen, Option.bind_some]
  rw [append_assoc] at hfuel ⊢
  rw [drop_left, measureStrings_section h lead behind hfuel, length_append]

theorem RecordOk.structureSize (h : RecordOk cfg entry) : structureSize cfg entry.record = some entry.record.length := by
  obtain ⟨formatted,lead,strings,hrec,hlen,-,hstrs,-⟩ := h.parts
  have hwhole : entry.record = formatted ++ stringSection lead strings ++ [] := by rw [hrec, append_nil]
  rw [Smbios.structureSize, hwhole, measure_section (hwhole ▸ hlen) hstrs, append_nil]
  rfl

theorem RecordOk.length (h : RecordOk cfg entry) : 6 ≤ entry.record.length := by
  obtain ⟨formatted,lead,strings,hrec,-,hformatted,-,-⟩ := h.parts
  rw [hrec, length_append]
  have := (length_stringSection lead strings).2
  omega

theorem recordOk_newEntry {st : SmbiosState} {req : AddRequest} {handle size numberOfStrings length : Nat}
    (hmeas : getSmbiosStructureSize cfg req.memory = some (.success, size, numberOfStrings))
    (hlen : formattedLength req.memory = some length) (hfour : 4 ≤ length) :
    RecordOk cfg (newEntry cfg st req handle size numberOfStrings) ∧
      (newEntry cfg st req handle size numberOfStrings).record.length = size := by
  unfold getSmbiosStructureSize at hmeas
  rw [hlen, Option.bind_some] at hmeas
  obtain ⟨lead,strings,behind,hdrop,hstrs,hsize,hnum⟩ := section_of_measureStrings hmeas
  have hins : length ≤ req.memory.length := by
    by_contra hout
    rw [drop_eq_nil_of_le (by omega)] at hdrop
    have := (length_stringSection lead strings).2
    have hnil := congrArg List.length hdrop
    rw [length_nil, length_append] at hnil
    omega
  have hformatted : (req.memory.take length).length = length := by
    rw [length_take]
    omega
  have hmem : req.memory = req.memory.take length ++ stringSection lead strings ++ behind := by
    rw [append_assoc, ← hdrop, take_append_drop]
  have htake : req.memory.take size = req.memory.take length ++ stringSection lead strings := by
    have hwhole : size = (req.memory.take length ++ stringSection lead strings).length := by
      rw [length_append, hformatted, hsize]
    conv_lhs => rw [hmem, hwhole, take_left]
  have hrec : (newEntry cfg st req handle size numberOfStrings).record =
      patch (req.memory.take length) 2 (leBytes 2 handle) ++ stringSection lead strings := by
    have hpart := patch_append_part [] (req.memory.take length) (stringSection lead strings) (leBytes 2 handle)
      (by rw [length_leBytes, hformatted]; omega : 2 + (leBytes 2 handle).length ≤ (req.memory.take length).length)
    simpa [newEntry, htake] using hpart
  have hpatched : (patch (req.memory.take length) 2 (leBytes 2 handle)).length = length := by
    rw [length_patch (by rw [length_leBytes, hformatted]; omega), hformatted]
  refine ⟨⟨_, lead, strings, hrec, ?_, by omega, hstrs, hnum.trans (zero_add _)⟩, ?_⟩
  swap
  · rw [hrec, length_append, hpatched, hsize]
  rw [hrec, hpatched, formattedLength, getElem?_append_left (by omega),
    getElem?_patch (by rw [length_leBytes, hformatted]; omega), if_neg (by omega), getElem?_take,
    if_pos (by omega)]
  exact hlen

/-- A counted string number leads to a string of the record, and another one that is short enough can take its
place. -/
theorem RecordOk.target (h : RecordOk cfg entry) {stringNumber : Nat} (hpos : 0 < stringNumber)
    (hnum : stringNumber ≤ entry.numberOfStrings) :
    ∃ length targetStrOffset targetStrLen, formattedLength entry.record = some length ∧
      findString (entry.record.drop length) stringNumber = some (.found targetStrOffset) ∧
      asciiStrLen ((entry.record.drop length).drop targetStrOffset) = some targetStrLen ∧
      0 < targetStrLen ∧ targetStrLen < cfg.maxLen ∧
      ∀ string (entry' : SmbiosEntry), IsString cfg.maxLen string →
        entry'.record = replaceString entry.record length targetStrOffset targetStrLen string →
        entry'.numberOfStrings = entry.numberOfStrings →
        RecordOk cfg entry' ∧ entry'.record.length+targetStrLen = entry.record.length+string.length := by
  obtain ⟨formatted,lead,strings,hrec,hlen,hfour,hstrs,hcnt⟩ := h.parts
  obtain ⟨before,target,after,rfl,hfind⟩ := findString_section hstrs lead hpos (hcnt ▸ hnum)
  have htarget := hstrs target (by simp)
  have hdrop : entry.record.drop formatted.length = stringSection lead (before ++ target :: after) := by
    rw [hrec, drop_left]
  have hat : (stringSection lead (before ++ target :: after)).drop
      ((leadOf lead).length + (encodeStrings before).length) = target ++ 0 :: (encodeStrings after ++ [0]) := by
    rw [stringSection_eq, ← length_append, append_assoc (leadOf lead ++ encodeStrings before), drop_left]
  refine ⟨formatted.length, _, target.length, hlen, hdrop ▸ hfind, ?_,
    length_pos_iff.mpr htarget.nonempty, htarget.short, fun string entry' hstring hentry' hcount' => ?_⟩
  · rw [hdrop, hat, asciiStrLen_append htarget.noNul]
  · rw [hrec, replaceString_section] at hentry'
    have hlength' : formattedLength entry'.record = some formatted.length := by
      rw [← hlen, hentry', hrec, formattedLength, formattedLength,
        getElem?_append_left (by omega), getElem?_append_left (by omega)]
    refine ⟨⟨formatted, lead, _, hentry', hlength', hfour, fun s hs => ?_, ?_⟩, ?_⟩
    · rcases mem_append.mp hs with hs | hs
      · exact hstrs s (mem_append_left _ hs)
      · rcases mem_cons.mp hs with rfl | hs
        · exact hstring
        · exact hstrs s (mem_append_right _ (mem_cons_of_mem _ hs))
    · rw [hcount', hcnt, length_append, length_append, length_cons, length_cons]
    · rw [hentry', hrec, stringSection_eq, stringSection_eq]
      simp only [length_append, length_cons]
      omega

theorem foldl_mod (sizes : List Nat) (n length : Nat) :
    (sizes.foldl (fun length size => (length+size) % n) length + 6) % n = (length+sizes.sum+6) % n := by
  induction sizes generalizing length with
  | nil => rfl
  | cons size sizes ih =>
    rw [foldl_cons, ih, sum_cons, add_assoc, Nat.mod_add_mod]
    congr 1
    omega

def largest (first : Nat) (sizes : List Nat) : Nat := sizes.foldl max first

theorem foldl_largest {sizes : List Nat} (h : ∀ size ∈ sizes, size < 2^16) (first : Nat) :
    sizes.foldl (fun largest size => if size > largest then toUint16 size else largest) first =
      largest first sizes := by
  induction sizes generalizing first with
  | nil => rfl
  | cons size sizes ih =>
    have hmax : (if size > first then toUint16 size else first) = max first size := by
      split
      · rw [toUint16, Nat.mod_eq_of_lt (h size mem_cons_self)]
        omega
      · omega
    rw [foldl_cons, ih (fun s hs => h s (mem_cons_of_mem _ hs)), hmax]
    rfl

theorem largest_max (first second : Nat) (sizes : List Nat) :
    largest (max first second) sizes = max first (largest second sizes) := by
  induction sizes generalizing second with
  | nil => rfl
  | cons size sizes ih =>
    rw [largest, foldl_cons, Nat.max_assoc]
    exact ih (max second size)

theorem mapM_structureSize {records : List Bytes}
    (h : ∀ record ∈ records, structureSize cfg record = some record.length) :
    records.mapM (structureSize cfg) = some (records.map length) := by
  induction records with
  | nil => rfl
  | cons record records ih =>
    rw [mapM_cons, h record mem_cons_self, ih fun r hr => h r (mem_cons_of_mem _ hr)]
    rfl

theorem assemble_whole (records : List Bytes) :
    assemble cfg records (records.map length) = records.flatten ++ endStructure cfg := by
  have hzip : records.zipWith (fun record size => record.take size) (records.map length) = records := by
    induction records with
    | nil => rfl
    | cons record records ih => rw [map_cons, zipWith_cons_cons, ih, take_length]
  rw [assemble, hzip]

theorem efiSizeToPages_mono {size size' : Nat} (h : size ≤ size') : efiSizeToPages size ≤ efiSizeToPages size' := by
  unfold efiSizeToPages
  split <;> split <;> omega

/-- The pages hold the records and the end structure, and their length is that of the table. -/
structure Published (cfg : SmbiosConfig) (records : List Bytes) (pages : TablePages) (tableLength : Nat) : Prop where
  contents : pages.contents = some (records.flatten ++ endStructure cfg)
  length : tableLength = (records.flatten ++ endStructure cfg).length
  room : efiSizeToPages tableLength ≤ pages.preAllocatedPages
  installed : pages.installed = true

structure Agrees32 (cfg : SmbiosConfig) (records : List Bytes) (ep : EntryPoint32) : Prop where
  published : Published cfg records ep.pages ep.tableLength
  number : ep.numberOfSmbiosStructures = records.length+1
  largest : ep.maxStructureSize = largest (endStructure cfg).length (records.map length)
  fits : ep.tableLength ≤ SMBIOS_TABLE_MAX_LENGTH

structure Agrees64 (cfg : SmbiosConfig) (records : List Bytes) (ep : EntryPoint64) : Prop where
  published : Published cfg records ep.pages ep.tableMaximumSize
  fits : ep.tableMaximumSize ≤ SMBIOS_3_0_TABLE_MAX_LENGTH

def TableAgrees32 (cfg : SmbiosConfig) (records : List Bytes) : Option EntryPoint32 → Prop
  | none => records = []
  | some ep => Agrees32 cfg records ep

def TableAgrees64 (cfg : SmbiosConfig) (records : List Bytes) : Option EntryPoint64 → Prop
  | none => records = []
  | some ep => Agrees64 cfg records ep

theorem length_endStructure (cfg : SmbiosConfig) : (endStructure cfg).length = 6 := by simp [endStructure]

/-- The pages that a table of this length needs are allocated, and the configuration table takes the entry point. -/
structure CanPlace (tableLength : Nat) (pages : Option TablePages) (table configurationTable : Bool) : Prop where
  table : efiSizeToPages tableLength > (pages.map (·.preAllocatedPages)).getD 0 → table = true
  configurationTable : (pages.map (·.installed)).getD false = false → configurationTable = true

structure CanAllocate32 (tableLength : Nat) (ep : Option EntryPoint32) (allocations : Allocations) : Prop where
  place : CanPlace tableLength (ep.map (·.pages)) allocations.table32 allocations.configurationTable32
  entryPoint : ep = none → allocations.entryPointBelow4G = true ∨ allocations.entryPointAnywhere = true

structure CanAllocate64 (tableLength : Nat) (ep : Option EntryPoint64) (allocations : Allocations) : Prop where
  place : CanPlace tableLength (ep.map (·.pages)) allocations.table64 allocations.configurationTable64
  entryPoint : ep = none → allocations.entryPoint64 = true

def totalLength (records : List Bytes) : Nat := records.flatten.length+6

/-- The length of the table fits its field, and what it needs is allocated. -/
structure CanBuild32 (records : List Bytes) (ep : Option EntryPoint32) (allocations : Allocations) : Prop
    extends CanAllocate32 (totalLength records) ep allocations where
  fits : totalLength records ≤ SMBIOS_TABLE_MAX_LENGTH

structure CanBuild64 (records : List Bytes) (ep : Option EntryPoint64) (allocations : Allocations) : Prop
    extends CanAllocate64 (totalLength records) ep allocations where
  fits : totalLength records ≤ SMBIOS_3_0_TABLE_MAX_LENGTH

theorem CanPlace.published {records : List Bytes} {pages : TablePages} {table configurationTable : Bool}
    (h : CanPlace (totalLength records) (some pages) table configurationTable) : Published cfg records
      { (placeTable pages (records.flatten.length+6) table (records.flatten ++ endStructure cfg)).2 with
        installed :=
          (placeTable pages (records.flatten.length+6) table (records.flatten ++ endStructure cfg)).2.installed ||
            ((placeTable pages (records.flatten.length+6) table (records.flatten ++ endStructure cfg)).1 &&
              configurationTable) }
      (records.flatten.length+6) := by
  have hinst : (pages.installed || configurationTable) = true := by
    cases hcase : pages.installed with
    | true => rfl
    | false => exact h.configurationTable hcase
  have hlen : records.flatten.length+6 = (records.flatten ++ endStructure cfg).length := by
    rw [length_append, length_endStructure]
  unfold placeTable
  by_cases hmore : efiSizeToPages (records.flatten.length+6) > pages.preAllocatedPages
  · rw [if_pos hmore, h.table hmore, if_pos rfl]
    exact ⟨rfl, hlen, le_rfl, by simpa using hinst⟩
  · rw [if_neg hmore]
    exact ⟨rfl, hlen, not_lt.mp hmore, by simpa using hinst⟩

structure Measured (cfg : SmbiosConfig) (records : List Bytes) : Prop where
  size : ∀ record ∈ records, structureSize cfg record = some record.length
  length : ∀ record ∈ records, 6 ≤ record.length

variable {records : List Bytes} {allocations : Allocations}

theorem length_le_flatten {record : Bytes} (h : record ∈ records) : record.length ≤ records.flatten.length :=
  (sublist_flatten_of_mem h).length_le

theorem Measured.count (h : Measured cfg records) : 6*records.length ≤ records.flatten.length := by
  induction records with
  | nil => exact le_rfl
  | cons record records ih =>
    have hrest := ih ⟨fun r hr => h.size r (mem_cons_of_mem _ hr), fun r hr => h.length r
      (mem_cons_of_mem _ hr)⟩
    have := h.length record mem_cons_self
    rw [flatten_cons, length_append, length_cons]
    omega

theorem smbiosCreateTable_agrees {ep : Option EntryPoint32} (hrecs : Measured cfg records)
    (h : CanBuild32 records ep allocations) :
    ∃ ep', smbiosCreateTable cfg records allocations ep = some (some ep') ∧ Agrees32 cfg records ep' := by
  have hfits := h.fits
  rw [SMBIOS_TABLE_MAX_LENGTH, totalLength] at hfits
  have hlen : toUint16 ((records.map length).foldl (fun length size => toUint16 (length+size)) 0 + 6) =
      records.flatten.length+6 := by
    have hsum := foldl_mod (records.map length) (2^16) 0
    rw [← length_flatten, zero_add] at hsum
    exact hsum.trans (Nat.mod_eq_of_lt (by omega))
  have hsizes : ∀ size ∈ records.map length, size < 2^16 := by
    intro size hsize
    obtain ⟨record,hrec,rfl⟩ := mem_map.mp hsize
    have := length_le_flatten hrec
    omega
  have hplace : CanPlace (totalLength records) (some (ep.getD newEntryPoint32).pages) allocations.table32
      allocations.configurationTable32 := by
    cases ep with
    | none => exact ⟨h.place.table, h.place.configurationTable⟩
    | some ep => exact h.place
  unfold smbiosCreateTable
  rw [if_neg (by
    rintro ⟨hnone,hbelow,hanywhere⟩
    rcases h.entryPoint hnone with heq | heq
    · rw [heq] at hbelow
      cases hbelow
    · rw [heq] at hanywhere
      cases hanywhere), mapM_structureSize hrecs.size, Option.map_some, hlen, assemble_whole,
    foldl_largest hsizes]
  refine ⟨_, rfl, hplace.published, ?_, ?_, h.fits⟩
  · have := hrecs.count
    rw [toUint16, length_map]
    exact Nat.mod_eq_of_lt (by omega)
  · have hmax : largest 6 (records.map length) = max 6 (largest 0 (records.map length)) :=
      largest_max 6 0 _
    rw [length_endStructure]
    dsimp only
    split
    · omega
    · omega

theorem smbiosCreate64BitTable_agrees {ep : Option EntryPoint64} (hrecs : Measured cfg records)
    (h : CanBuild64 records ep allocations) :
    ∃ ep', smbiosCreate64BitTable cfg records allocations ep = some (some ep') ∧ Agrees64 cfg records ep' := by
  have hfits := h.fits
  rw [SMBIOS_3_0_TABLE_MAX_LENGTH, totalLength] at hfits
  have hlen : toUint32 ((records.map length).foldl (fun length size => toUint32 (length+size)) 0 + 6) =
      records.flatten.length+6 := by
    have hsum := foldl_mod (records.map length) (2^32) 0
    rw [← length_flatten, zero_add] at hsum
    exact hsum.trans (Nat.mod_eq_of_lt (by omega))
  have hplace : CanPlace (totalLength records) (some (ep.getD newEntryPoint64).pages) allocations.table64
      allocations.configurationTable64 := by
    cases ep with
    | none => exact ⟨h.place.table, h.place.configurationTable⟩
    | some ep => exact h.place
  unfold smbiosCreate64BitTable
  rw [if_neg (by
    rintro ⟨hnone,halloc⟩
    rw [h.entryPoint hnone] at halloc
    cases halloc), mapM_structureSize hrecs.size, Option.map_some, hlen, assemble_whole]
  exact ⟨_, rfl, hplace.published, h.fits⟩

end

end Liano.Smbios
