import Liano.Dhcp4.Build

/-! A packet that was built parses back to the values asked for, and exactly when. -/
namespace Liano.Dhcp4

open List

open Bytes Lib.Gather

variable {occ fs ss : List (Nat × Bytes)} {value : Nat → Bytes} {seed : EfiDhcp4Packet} {t : Nat}

def builtPacket (seed : EfiDhcp4Packet) (value : Nat → Bytes) : EfiDhcp4Packet where
  size := sizeofPacket + (builtBytes value).length
  length := sizeofHeader+4 + ((builtBytes value).length + 1)
  header := seed.header
  magik := DHCP_OPTION_MAGIC
  option := builtBytes value ++ [UInt8.ofNat DHCP4_TAG_EOP]

theorem size_builtPacket : (builtPacket seed value).size = 8 + (builtPacket seed value).length := by
  simp only [builtPacket, sizeofPacket, sizeofHeader]
  omega

theorem held_builtPacket : (builtPacket seed value).Held := by
  show sizeofHeader+4 + ((builtBytes value).length + 1) ≤
    sizeofHeader+4 + (builtBytes value ++ [UInt8.ofNat DHCP4_TAG_EOP]).length
  rw [length_append]
  exact le_rfl

theorem optionArea_builtPacket :
    (builtPacket seed value).optionArea = builtBytes value ++ [UInt8.ofNat DHCP4_TAG_EOP] := by
  apply take_of_length_le
  simp only [EfiDhcp4Packet.optionLen, builtPacket, length_append, length_singleton]
  omega

section
variable (htags : ∀ o ∈ occ, o.1 < DHCP_MAX_OPTIONS) (hfew : totalLen occ < 2^16)
include htags hfew

theorem length_builtValue_lt (deleteList : List UInt8) (appendList : List EfiDhcp4PacketOption) (t : Nat) :
    (builtValue occ deleteList appendList t).length < 2^16 := by
  have hle := baseOf_add_le htags hfew (t := t)
  have hval : (gather occ t).length = valueLen occ t := rfl
  rw [builtValue]
  split
  · rename_i a _
    have hlt := a.length.toNat_lt
    rw [a.length_data]
    omega
  · split
    · decide
    · omega

theorem dhcpBuild_eq
    (hparse : dhcpParseOption true true seed = some (.success, optionMap occ)) (deleteList : List UInt8)
    (appendList : List EfiDhcp4PacketOption) : dhcpBuild true true true true seed deleteList appendList =
      some (.success, some (builtPacket seed (builtValue occ deleteList appendList))) := by
  have hmarks := marks_spec htags deleteList appendList
  have hval : ∀ t < DHCP_MAX_OPTIONS, (builtValue occ deleteList appendList t).length < 2^16 :=
    fun t _ => length_builtValue_lt htags hfew deleteList appendList t
  have hsum := sum_encodedLen_lt hval
  rw [← length_builtBytes] at hsum
  have hlen : toUint32 (sizeofHeader+4 + ((builtBytes (builtValue occ deleteList appendList)).length + 1)) =
      sizeofHeader+4 + ((builtBytes (builtValue occ deleteList appendList)).length + 1) := by
    apply toUint32_of_lt
    simp only [sizeofHeader]
    omega
  simp only [dhcpBuild, hparse, if_true, Option.map_some, EfiStatus.isError, Bool.false_eq_true, if_false,
    packetOptions_eq hmarks, packetLen_eq hmarks hval, length_append, length_singleton, hlen]
  rfl

end

def overloadOf (value : Nat → Bytes) : Nat := ((value DHCP4_TAG_OVERLOAD).head?.map UInt8.toNat).getD 0

theorem foldl_overloadAfter (os : List (Nat × Bytes)) (overload : Option Nat) :
    os.foldl overloadAfter overload =
      (os.filter fun o => o.1 = DHCP4_TAG_OVERLOAD).foldl overloadAfter overload := by
  induction os generalizing overload with
  | nil => rfl
  | cons o os ih =>
    by_cases h : o.1 = DHCP4_TAG_OVERLOAD
    · simp [h, ih]
    · have hsame : overloadAfter overload o = overload := if_neg fun hc => h hc.1
      simp [h, hsame, ih]

theorem filter_builtOptions (ht : t < DHCP_MAX_OPTIONS) :
    ((builtOptions value).filter fun o => o.1 = t) = (pieces (value t)).map fun p => (t,p) := by
  have heach (u : Nat) : (((pieces (value u)).map fun p => (u,p)).filter fun o => o.1 = t) =
      if u = t then (pieces (value u)).map fun p => (u,p) else [] := by
    by_cases h : u = t
    · simp [h]
    · simp [h]
  simp only [builtOptions, filter_flatMap, heach]
  rw [flatMap_range_ite, if_pos ht]

theorem pieces_of_length_le_one {v : Bytes} (h : v.length ≤ 1) : pieces v = if v = [] then [] else [v] := by
  match v, h with
  | [], _ => rfl
  | [c], _ => simp [pieces, slice]

theorem overloadValue_builtOptions (h : (value DHCP4_TAG_OVERLOAD).length ≤ 1) :
    overloadValue (builtOptions value) = overloadOf value := by
  rw [overloadValue, foldl_overloadAfter, filter_builtOptions (by decide), pieces_of_length_le_one h, overloadOf]
  cases hv : value DHCP4_TAG_OVERLOAD with
  | nil => rfl
  | cons c cs => simp [overloadAfter]

theorem overloadsOk_builtOptions :
    OverloadsOk (some 0) (builtOptions value) ↔ (value DHCP4_TAG_OVERLOAD).length ≤ 1 := by
  have hmem (p : Bytes) : (DHCP4_TAG_OVERLOAD,p) ∈ builtOptions value ↔ p ∈ pieces (value DHCP4_TAG_OVERLOAD) := by
    constructor
    · exact fun h => (mem_builtOptions h).2
    · intro h
      have hfilter : (DHCP4_TAG_OVERLOAD,p) ∈ (builtOptions value).filter fun o => o.1 = DHCP4_TAG_OVERLOAD := by
        rw [filter_builtOptions (by decide)]
        exact mem_map_of_mem h
      exact (mem_filter.mp hfilter).1
  constructor
  · intro h
    by_contra hlong
    have hfst : slice (value DHCP4_TAG_OVERLOAD) (0*255) 255 ∈ pieces (value DHCP4_TAG_OVERLOAD) := by
      apply mem_map_of_mem
      rw [mem_range]
      omega
    have hone := h rfl _ ((hmem _).mpr hfst) rfl
    simp only [slice, length_take, length_drop] at hone
    omega
  · rintro h - ⟨u,p⟩ ho htag
    have htag' : u = DHCP4_TAG_OVERLOAD := htag
    subst htag'
    obtain ⟨hpos,-,hle⟩ := length_piece ((hmem p).mp ho)
    show p.length = 1
    omega

theorem packetOptions_builtPacket (hpad : value 0 = []) (heop : value 255 = []) :
    PacketOptions (builtPacket seed value) occ ↔ (value DHCP4_TAG_OVERLOAD).length ≤ 1 ∧
      ∃ fs ss, OverloadedOptions (overloadsFileName (overloadOf value)) seed.header.bootFileName fs ∧
        OverloadedOptions (overloadsServerName (overloadOf value)) seed.header.serverName ss ∧
        occ = builtOptions value ++ (fs ++ ss) := by
  have harea : AreaOptions (builtPacket seed value).optionArea (builtOptions value) := by
    rw [optionArea_builtPacket]
    exact areaOptions_built hpad heop
  constructor
  · rintro ⟨hos,hover,hfs,hss⟩
    cases hos.unique harea
    have hlen := overloadsOk_builtOptions.mp hover
    rw [overloadValue_builtOptions hlen] at hfs hss
    exact ⟨hlen, _, _, hfs, hss, rfl⟩
  · rintro ⟨hlen,fs,ss,hfs,hss,rfl⟩
    rw [← overloadValue_builtOptions hlen] at hfs hss
    exact .areas harea (overloadsOk_builtOptions.mpr hlen) hfs hss

def HoldsNoValue (overloaded : Bool) (area : Bytes) : Prop :=
  ∃ os, OverloadedOptions overloaded area os ∧ ∀ o ∈ os, o.2 = []

structure Carriable (header : EfiDhcp4Header) (value : Nat → Bytes) : Prop where
  pad : value DHCP4_TAG_PAD = []
  eop : value DHCP4_TAG_EOP = []
  overload : (value DHCP4_TAG_OVERLOAD).length ≤ 1
  bootFileName : HoldsNoValue (overloadsFileName (overloadOf value)) header.bootFileName
  serverName : HoldsNoValue (overloadsServerName (overloadOf value)) header.serverName
  total : ∑ t ∈ Finset.range DHCP_MAX_OPTIONS, (value t).length < 2^16

theorem sum_filter_ne_zero (f : Nat → Nat) (n : Nat) :
    (((range n).filter fun i => f i ≠ 0).map f).sum = ∑ i ∈ Finset.range n, f i := by
  induction n with
  | zero => rfl
  | succ n ih =>
    rw [range_succ, filter_append, map_append, sum_append, ih, Finset.sum_range_succ]
    by_cases h : f n = 0
    · simp [h]
    · simp [h]

theorem sum_len_parsedOptions (occ : List (Nat × Bytes)) : ((parsedOptions occ).map DhcpOption.len).sum = totalLen occ := by
  rw [parsedOptions, map_map]
  exact sum_filter_ne_zero (valueLen occ) DHCP_MAX_OPTIONS

theorem sum_len_optionsOf (value : Nat → Bytes) : ((optionsOf value).map DhcpOption.len).sum =
    ∑ t ∈ Finset.range DHCP_MAX_OPTIONS, (value t).length := by
  rw [optionsOf, map_map]
  exact sum_filter_ne_zero (fun t => (value t).length) DHCP_MAX_OPTIONS

theorem mem_optionsOf (ht : t < DHCP_MAX_OPTIONS) (hne : value t ≠ []) :
    ⟨t, (value t).length, value t⟩ ∈ optionsOf value := by
  refine mem_map.mpr ⟨t, ?_, rfl⟩
  simp [ht, hne]

theorem tag_of_parsed {packet : EfiDhcp4Packet} {es : List DhcpOption} (hheld : packet.Held)
    (h : dhcpParseOption true true packet = some (.success, es)) : ∀ e ∈ es, 0 < e.tag ∧ e.tag < 255 := by
  by_cases hex : ∃ occ, PacketOptions packet occ
  · obtain ⟨occ,hocc⟩ := hex
    rcases lt_or_ge (totalLen occ) (2^16) with hfew | hmany
    · rw [dhcpParseOption_few hheld hocc hfew, Option.some.injEq, Prod.mk.injEq] at h
      rw [← h.2]
      simp only [parsedOptions, mem_map]
      rintro _ ⟨t,ht,rfl⟩
      obtain ⟨o,ho,-,-,hlabel⟩ := exists_find (mem_presentTags.mp ht).2
      rw [hlabel]
      exact hocc.tag_bounds o ho
    · rcases dhcpParseOption_many hheld hocc hmany with hnone | hnil
      · rw [hnone] at h
        cases h
      · rw [hnil, Option.some.injEq, Prod.mk.injEq] at h
        rw [← h.2]
        simp
  · rw [dhcpParseOption_malformed hheld fun occ hocc => hex ⟨occ, hocc⟩] at h
    cases h

theorem totalLen_append (occ occ' : List (Nat × Bytes)) : totalLen (occ ++ occ') = totalLen occ + totalLen occ' := by
  simp only [totalLen, place, ← Finset.sum_add_distrib]
  apply Finset.sum_congr rfl
  intro t _
  rw [valueLen, gather_append, length_append]
  rfl

theorem totalLen_builtOptions :
    totalLen (builtOptions value) = ∑ t ∈ Finset.range DHCP_MAX_OPTIONS, (value t).length := by
  rw [totalLen, place]
  apply Finset.sum_congr rfl
  intro t ht
  rw [valueLen, gather_builtOptions (Finset.mem_range.mp ht)]

variable {os : List (Nat × Bytes)}

theorem data_eq_nil_of_totalLen (htags : ∀ o ∈ os, o.1 < DHCP_MAX_OPTIONS)
    (h : totalLen os = 0) : ∀ o ∈ os, o.2 = [] := by
  intro o ho
  have hsum : (os.map fun o => o.2.length).sum = 0 := (sum_length_gather htags).symm.trans h
  have hle : o.2.length ≤ (os.map fun o => o.2.length).sum := single_le_sum (by simp) _ (mem_map_of_mem ho)
  exact eq_nil_of_length_eq_zero (by omega)

theorem overload_of_optionsOf_nil (h : optionsOf value = []) :
    ∑ t ∈ Finset.range DHCP_MAX_OPTIONS, (value t).length = 0 ∧ overloadOf value = 0 := by
  have hsum := sum_len_optionsOf value
  rw [h] at hsum
  refine ⟨hsum.symm, ?_⟩
  have hnil : value DHCP4_TAG_OVERLOAD = [] := by
    by_contra hne
    have hmem := mem_optionsOf (by decide : DHCP4_TAG_OVERLOAD < DHCP_MAX_OPTIONS) hne
    rw [h] at hmem
    exact nomatch hmem
  rw [overloadOf, hnil]
  rfl

theorem carriable_of_parsed (h : dhcpParseOption true true (builtPacket seed value) =
    some (.success, optionsOf value)) : Carriable seed.header value := by
  have htags := tag_of_parsed held_builtPacket h
  have hpad : value 0 = [] := by
    by_contra hne
    have hmem := htags _ (mem_optionsOf (by decide) hne)
    exact absurd hmem.1 (lt_irrefl 0)
  have heop : value 255 = [] := by
    by_contra hne
    have hmem := htags _ (mem_optionsOf (by decide) hne)
    exact absurd hmem.2 (lt_irrefl 255)
  have hex : ∃ occ, PacketOptions (builtPacket seed value) occ := by
    by_contra hno
    rw [dhcpParseOption_malformed held_builtPacket fun occ hocc => hno ⟨occ, hocc⟩] at h
    cases h
  obtain ⟨occ,hocc⟩ := hex
  obtain ⟨hlen,fs,ss,hfs,hss,rfl⟩ := (packetOptions_builtPacket hpad heop).mp hocc
  have htotal : totalLen (builtOptions value ++ (fs ++ ss)) < 2^16 ∧ totalLen (fs ++ ss) = 0 := by
    rcases lt_or_ge (totalLen (builtOptions value ++ (fs ++ ss))) (2^16) with hfew | hmany
    · rw [dhcpParseOption_few held_builtPacket hocc hfew, Option.some.injEq, Prod.mk.injEq] at h
      have hsum := sum_len_parsedOptions (builtOptions value ++ (fs ++ ss))
      rw [h.2, sum_len_optionsOf, totalLen_append, totalLen_builtOptions] at hsum
      exact ⟨hfew, by omega⟩
    rcases dhcpParseOption_many held_builtPacket hocc hmany with hnone | hnil
    · rw [hnone] at h
      cases h
    rw [hnil, Option.some.injEq, Prod.mk.injEq] at h
    obtain ⟨hsum,hover⟩ := overload_of_optionsOf_nil h.2.symm
    rw [hover] at hfs hss
    have hfs' : fs = [] := hfs
    have hss' : ss = [] := hss
    subst hfs' hss'
    rw [append_nil, append_nil, totalLen_builtOptions, hsum] at hmany
    exact absurd hmany (by decide)
  have htags' : ∀ o ∈ fs ++ ss, o.1 < DHCP_MAX_OPTIONS := fun o ho =>
    lt_trans (hocc.tag_bounds o (mem_append_right _ ho)).2 (by decide)
  have hdata := data_eq_nil_of_totalLen htags' htotal.2
  refine ⟨hpad, heop, hlen, ⟨fs, hfs, fun o ho => hdata o (mem_append_left _ ho)⟩,
    ⟨ss, hss, fun o ho => hdata o (mem_append_right _ ho)⟩, ?_⟩
  have hfew := htotal.1
  rwa [totalLen_append, totalLen_builtOptions, htotal.2, add_zero] at hfew

theorem gather_built_append (hos : ∀ o ∈ os, o.2 = []) (ht : t < DHCP_MAX_OPTIONS) :
    gather (builtOptions value ++ os) t = value t := by
  rw [gather_append, gather_builtOptions ht, gather_eq_nil_of_nil hos, append_nil]

theorem optionMap_built_append (hos : ∀ o ∈ os, o.2 = []) :
    optionMap (builtOptions value ++ os) = optionsOf value := by
  have hsame : ∀ t ∈ range DHCP_MAX_OPTIONS, gather (builtOptions value ++ os) t = value t :=
    fun t ht => gather_built_append hos (mem_range.mp ht)
  rw [optionMap, optionsOf, optionsOf]
  have hfilter : ((range DHCP_MAX_OPTIONS).filter fun t =>
      (gather (builtOptions value ++ os) t).length ≠ 0) =
      (range DHCP_MAX_OPTIONS).filter fun t => (value t).length ≠ 0 := by
    apply filter_congr
    intro t ht
    rw [hsame t ht]
  rw [hfilter]
  apply map_congr_left
  intro t ht
  rw [hsame t (mem_filter.mp ht).1]

theorem value_ne_nil_of_mem {o : Nat × Bytes} (ho : o ∈ builtOptions value) : value o.1 ≠ [] := by
  obtain ⟨-,hp⟩ := mem_builtOptions ho
  intro hnil
  rw [hnil, pieces_nil] at hp
  exact nomatch hp

theorem firstLabelled_built_append (hos : ∀ o ∈ os, o.2 = []) : FirstLabelled (builtOptions value ++ os) := by
  intro t ht o ho
  obtain ⟨hmem,-⟩ := head_presentTags.mp ht
  obtain ⟨hlt,hvalued⟩ := mem_presentTags.mp hmem
  have hval (u : Nat) (hu : u < DHCP_MAX_OPTIONS) : valueLen (builtOptions value ++ os) u = (value u).length := by
    rw [valueLen, gather_built_append hos hu]
  rw [find?_append] at ho
  cases hfind : (builtOptions value).find?
      (fun o => o.1 = t ∨ valueLen (builtOptions value ++ os) o.1 = 0) with
  | none =>
    rw [find?_eq_none] at hfind
    have hnone : ∀ o ∈ builtOptions value, o.1 ≠ t := fun o ho heq => hfind o ho (by simp [heq])
    rw [hval t hlt] at hvalued
    have hnil := gather_eq_nil_of_not_mem hnone
    rw [gather_builtOptions hlt] at hnil
    exact absurd (by rw [hnil]; rfl) hvalued
  | some o' =>
    rw [hfind, Option.some_or, Option.mem_def, Option.some.injEq] at ho
    subst ho
    have hmem' := mem_of_find?_eq_some hfind
    have hcond := find?_some hfind
    simp only [decide_eq_true_eq] at hcond
    rcases hcond with heq | hzero
    · exact heq
    · rw [hval _ (mem_builtOptions hmem').1] at hzero
      exact absurd (eq_nil_of_length_eq_zero hzero) (value_ne_nil_of_mem hmem')

/-- The new packet parses back to the values exactly where these can be carried beside its header. -/
theorem parse_builtPacket_iff : dhcpParseOption true true (builtPacket seed value) = some (.success, optionsOf value) ↔
    Carriable seed.header value := by
  constructor
  · exact carriable_of_parsed
  · intro h
    obtain ⟨fs,hfs,hfile⟩ := h.bootFileName
    obtain ⟨ss,hss,hname⟩ := h.serverName
    have hocc : PacketOptions (builtPacket seed value) (builtOptions value ++ (fs ++ ss)) :=
      (packetOptions_builtPacket h.pad h.eop).mpr ⟨h.overload, fs, ss, hfs, hss, rfl⟩
    have hnil : ∀ o ∈ fs ++ ss, o.2 = [] := by
      intro o ho
      rcases mem_append.mp ho with ho | ho
      · exact hfile o ho
      · exact hname o ho
    have htotal : totalLen (builtOptions value ++ (fs ++ ss)) < 2^16 := by
      have hzero : totalLen (fs ++ ss) = 0 := by
        rw [totalLen, place]
        apply Finset.sum_eq_zero
        intro t _
        rw [valueLen, gather_eq_nil_of_nil hnil, length_nil]
      rw [totalLen_append, totalLen_builtOptions, hzero, add_zero]
      exact h.total
    rw [← optionMap_built_append hnil]
    exact (dhcpParseOption_iff held_builtPacket hocc).mpr ⟨htotal, firstLabelled_built_append hnil⟩

/-- Parsing returns the options of a well-formed packet exactly where they have fewer than 65536 value bytes and
the first entry gets its own label, any other packet is rejected, and the packet built from a seed that parses so
fits its buffer and parses back to the values asked for exactly where these can be carried. -/
theorem dhcpOptions_correct (packet : EfiDhcp4Packet) (hheld : packet.Held) :
    (∀ occ, PacketOptions packet occ → (dhcpParseOption true true packet = some (.success, optionMap occ) ↔
      totalLen occ < 2^16 ∧ FirstLabelled occ)) ∧ ((∀ occ, ¬ PacketOptions packet occ) →
      ∀ allocated, dhcpParseOption true allocated packet = some (.invalidParameter, [])) ∧
    ∀ occ, PacketOptions packet occ → totalLen occ < 2^16 → FirstLabelled occ → ∀ deleteList appendList,
      ∃ newPacket, dhcpBuild true true true true packet deleteList appendList = some (.success, some newPacket) ∧
        newPacket.size = 8+newPacket.length ∧ (dhcpParseOption true true newPacket =
          some (.success, optionsOf (builtValue occ deleteList appendList)) ↔
            Carriable packet.header (builtValue occ deleteList appendList)) := by
  refine ⟨fun occ hocc => dhcpParseOption_iff hheld hocc, fun h => dhcpParseOption_malformed hheld h, ?_⟩
  intro occ hocc hfew hlabel deleteList appendList
  have htags : ∀ o ∈ occ, o.1 < DHCP_MAX_OPTIONS := fun o ho =>
    lt_trans (hocc.tag_bounds o ho).2 (by decide)
  have hparse := (dhcpParseOption_iff hheld hocc).mpr ⟨hfew, hlabel⟩
  exact ⟨_, dhcpBuild_eq htags hfew hparse deleteList appendList, size_builtPacket, parse_builtPacket_iff⟩

def packetOf (option : Bytes) : EfiDhcp4Packet where
  size := sizeofPacket+option.length
  length := sizeofHeader+4+option.length
  header := ⟨replicate sizeofHeader 0, length_replicate⟩
  magik := DHCP_OPTION_MAGIC
  option := option

theorem packetOptions_packetOf {option : Bytes} (h : AreaOptions option os)
    (hos : ∀ o ∈ os, o.1 ≠ DHCP4_TAG_OVERLOAD) : PacketOptions (packetOf option) os := by
  have harea : (packetOf option).optionArea = option := by
    apply take_of_length_le
    simp only [EfiDhcp4Packet.optionLen, packetOf]
    omega
  have hnone : os.filter (fun o => o.1 = DHCP4_TAG_OVERLOAD) = [] := by simpa using hos
  have hval : overloadValue os = 0 := by
    rw [overloadValue, foldl_overloadAfter, hnone]
    rfl
  have hover : OverloadsOk (some 0) os := fun _ o ho htag => absurd htag (hos o ho)
  have hpkt : PacketOptions (packetOf option) (os ++ ([] ++ [])) :=
    .areas (by rw [harea]; exact h) hover (by rw [hval]; rfl) (by rw [hval]; rfl)
  simpa using hpkt

theorem carriable_hostName : Carriable (packetOf [12, 1, 65, 255]).header
    (builtValue [(12, [65])] [12] [⟨60, 2, [66, 67], rfl⟩]) where
  pad := by decide
  eop := by decide
  overload := by decide
  bootFileName := ⟨[], rfl, nofun⟩
  serverName := ⟨[], rfl, nofun⟩
  total := by decide +kernel

/-- One option is deleted and another appended. -/
theorem dhcpOptions_correct_hostName : ∃ newPacket,
    dhcpParseOption true true (packetOf [12, 1, 65, 255]) = some (.success, [⟨12, 1, [65]⟩]) ∧
    dhcpBuild true true true true (packetOf [12, 1, 65, 255]) [12] [⟨60, 2, [66, 67], rfl⟩] =
      some (.success, some newPacket) ∧ newPacket.size = 8+newPacket.length ∧
    newPacket.option = [60, 2, 66, 67, 255] ∧
    dhcpParseOption true true newPacket = some (.success, [⟨60, 2, [66, 67]⟩]) := by
  have hheld : (packetOf [12, 1, 65, 255]).Held := by exact le_rfl
  have harea : AreaOptions [12, 1, 65, 255] [(12, [65])] :=
    (areaOptions_option (by decide) (by decide)).mpr ⟨by decide, [], rfl, (areaOptions_eop rfl).mpr rfl⟩
  have hocc := packetOptions_packetOf harea (by decide)
  obtain ⟨hparse,-,hbuild⟩ := dhcpOptions_correct (packetOf [12, 1, 65, 255]) hheld
  have hmap : optionMap [(12, [65])] = [⟨12, 1, [65]⟩] := by decide +kernel
  have hres : dhcpParseOption true true (packetOf [12, 1, 65, 255]) =
      some (.success, optionMap [(12, [65])]) := by decide +kernel
  obtain ⟨hfew,hlabel⟩ := (hparse _ hocc).mp hres
  obtain ⟨newPacket,hnew,hsize,hback⟩ := hbuild _ hocc hfew hlabel [12] [⟨60, 2, [66, 67], rfl⟩]
  have hoption : (dhcpBuild true true true true (packetOf [12, 1, 65, 255]) [12]
      [⟨60, 2, [66, 67], rfl⟩]).map (fun r => r.2.map EfiDhcp4Packet.option) =
      some (some [60, 2, 66, 67, 255]) := by decide +kernel
  rw [hnew] at hoption
  simp only [Option.map_some, Option.some.injEq] at hoption
  refine ⟨newPacket, hmap ▸ hres, hnew, hsize, hoption, (hback.mpr carriable_hostName).trans ?_⟩
  decide +kernel

/-- An empty option before the first value: the value of option 12 is returned under tag 1. -/
theorem dhcpParseOption_mislabelled : PacketOptions (packetOf [1, 0, 12, 1, 65, 255]) [(1, []), (12, [65])] ∧
    dhcpParseOption true true (packetOf [1, 0, 12, 1, 65, 255]) = some (.success, [⟨1, 1, [65]⟩]) ∧
    optionMap [(1, []), (12, [65])] = [⟨12, 1, [65]⟩] := by
  have hval : AreaOptions [12, 1, 65, 255] [(12, [65])] :=
    (areaOptions_option (by decide) (by decide)).mpr ⟨by decide, [], rfl, (areaOptions_eop rfl).mpr rfl⟩
  have harea : AreaOptions [1, 0, 12, 1, 65, 255] [(1, []), (12, [65])] :=
    (areaOptions_option (by decide) (by decide)).mpr ⟨by decide, _, rfl, hval⟩
  exact ⟨packetOptions_packetOf harea (by decide), by decide +kernel, by decide +kernel⟩

end Liano.Dhcp4
