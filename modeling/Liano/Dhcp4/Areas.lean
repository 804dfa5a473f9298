import Liano.Dhcp4.Option

/-! Well-formed option areas, and what visiting them does: a well-formed area is visited option by option up to
its end mark, any other is rejected, and no byte behind an area is read. -/
namespace Liano.Dhcp4

open List

open Bytes

variable {b r : Bytes} {c l : UInt8} {os os' : List (Nat × Bytes)}

inductive AreaOptions : Bytes → List (Nat × Bytes) → Prop
  | eop {c : UInt8} (r : Bytes) : c.toNat = DHCP4_TAG_EOP → AreaOptions (c :: r) []
  | pad {c : UInt8} {b : Bytes} {os : List (Nat × Bytes)} : c.toNat = DHCP4_TAG_PAD → AreaOptions b os →
      AreaOptions (c :: b) os
  | option {c l : UInt8} {data b : Bytes} {os : List (Nat × Bytes)} : c.toNat ≠ DHCP4_TAG_PAD →
      c.toNat ≠ DHCP4_TAG_EOP → data.length = l.toNat → AreaOptions b os →
      AreaOptions (c :: l :: (data ++ b)) ((c.toNat,data) :: os)

theorem areaOptions_nil : ¬ AreaOptions [] os := nofun

theorem areaOptions_pad (hc : c.toNat = DHCP4_TAG_PAD) : AreaOptions (c :: b) os ↔ AreaOptions b os := by
  constructor
  · intro h
    cases h with
    | eop _ heop => exact absurd (heop.symm.trans hc) (by decide)
    | pad _ h => exact h
    | option hne _ _ _ => exact absurd hc hne
  · exact .pad hc

theorem areaOptions_eop (hc : c.toNat = DHCP4_TAG_EOP) : AreaOptions (c :: b) os ↔ os = [] := by
  constructor
  · intro h
    cases h with
    | eop _ _ => rfl
    | pad hpad _ => exact absurd (hpad.symm.trans hc) (by decide)
    | option _ hne _ _ => exact absurd hc hne
  · rintro rfl
    exact .eop b hc

theorem areaOptions_single (hpad : c.toNat ≠ DHCP4_TAG_PAD) (heop : c.toNat ≠ DHCP4_TAG_EOP) :
    ¬ AreaOptions [c] os := by
  intro h
  cases h with
  | eop _ h => exact heop h
  | pad h _ => exact hpad h

theorem areaOptions_option (hpad : c.toNat ≠ DHCP4_TAG_PAD) (heop : c.toNat ≠ DHCP4_TAG_EOP) :
    AreaOptions (c :: l :: r) os ↔ l.toNat ≤ r.length ∧
      ∃ os', os = (c.toNat, r.take l.toNat) :: os' ∧ AreaOptions (r.drop l.toNat) os' := by
  constructor
  · intro h
    cases h with
    | eop _ h => exact absurd h heop
    | pad h _ => exact absurd h hpad
    | @option _ _ data b os _ _ hlen h =>
      refine ⟨by simp [← hlen], os, ?_, ?_⟩
      · rw [take_left' hlen]
      · rwa [drop_left' hlen]
  · rintro ⟨hle,os',rfl,h⟩
    have hdata : (r.take l.toNat).length = l.toNat := by simp [hle]
    have hoption := AreaOptions.option hpad heop hdata h
    rwa [take_append_drop] at hoption

theorem AreaOptions.unique (h : AreaOptions b os) (h' : AreaOptions b os') : os = os' := by
  induction h generalizing os' with
  | eop r hc => exact ((areaOptions_eop hc).mp h').symm
  | pad hc _ ih => exact ih ((areaOptions_pad hc).mp h')
  | option hpad heop hlen _ ih =>
    obtain ⟨-,rest,rfl,hrest⟩ := (areaOptions_option hpad heop).mp h'
    rw [drop_left' hlen] at hrest
    rw [take_left' hlen, ih hrest]

theorem AreaOptions.tag_bounds (h : AreaOptions b os) : ∀ o ∈ os, 0 < o.1 ∧ o.1 < 255 := by
  induction h with
  | eop _ _ => simp
  | pad _ _ ih => exact ih
  | @option c l data b os hpad heop _ _ ih =>
    intro o ho
    rcases mem_cons.mp ho with rfl | ho
    · have hlt := c.toNat_lt
      simp only [DHCP4_TAG_PAD, DHCP4_TAG_EOP] at hpad heop
      constructor
      · exact Nat.pos_of_ne_zero hpad
      · show c.toNat < 255
        omega
    · exact ih o ho

def OverloadsOk (overload : Option Nat) (os : List (Nat × Bytes)) : Prop :=
  overload.isSome → ∀ o ∈ os, o.1 = DHCP4_TAG_OVERLOAD → o.2.length = 1

def overloadAfter (overload : Option Nat) (o : Nat × Bytes) : Option Nat :=
  if o.1 = DHCP4_TAG_OVERLOAD ∧ overload.isSome then o.2.head?.map UInt8.toNat else overload

section Visit

variable {σ : Type*} {check : CheckOption σ}

def checked (check : CheckOption σ) (s : σ) (o : Nat × Bytes) : σ := (check o.1 o.2 s).2

def VisitSpec (check : CheckOption σ) (area : Bytes) (overload : Option Nat) (s : σ)
    (result : Option (EfiStatus × Option Nat × σ)) : Prop :=
  (∃ os, AreaOptions area os ∧ OverloadsOk overload os ∧
    result = some (.success, os.foldl overloadAfter overload, os.foldl (checked check) s)) ∨
  ((∀ os, AreaOptions area os → ¬ OverloadsOk overload os) ∧
    ∃ overload' s', result = some (.invalidParameter, overload', s'))

variable {overload : Option Nat} {s : σ}

theorem visitSpec_invalid {area : Bytes} {overload' : Option Nat} {s' : σ}
    (h : ∀ os, AreaOptions area os → ¬ OverloadsOk overload os) :
    VisitSpec check area overload s (some (.invalidParameter, overload', s')) := .inr ⟨h, overload', s', rfl⟩

theorem visitSpec_option {result : Option (EfiStatus × Option Nat × σ)}
    (hpad : c.toNat ≠ DHCP4_TAG_PAD) (heop : c.toNat ≠ DHCP4_TAG_EOP) (hle : l.toNat ≤ r.length)
    (hone : c.toNat = DHCP4_TAG_OVERLOAD → overload.isSome → l.toNat = 1)
    (h : VisitSpec check (r.drop l.toNat) (overloadAfter overload (c.toNat, r.take l.toNat))
      (checked check s (c.toNat, r.take l.toNat)) result) :
    VisitSpec check (c :: l :: r) overload s result := by
  have hsome : (overloadAfter overload (c.toNat, r.take l.toNat)).isSome = overload.isSome := by
    by_cases hov : c.toNat = DHCP4_TAG_OVERLOAD ∧ overload.isSome
    · have hl := hone hov.1 hov.2
      have hne : r.take l.toNat ≠ [] := by
        intro hnil
        have hlen := congrArg length hnil
        simp only [length_take, length_nil] at hlen
        omega
      obtain ⟨d,ds,hd⟩ := exists_cons_of_ne_nil hne
      simp [overloadAfter, hov, hd]
    · simp [overloadAfter, hov]
  have hok (os : List (Nat × Bytes)) : OverloadsOk overload ((c.toNat, r.take l.toNat) :: os) ↔
      OverloadsOk (overloadAfter overload (c.toNat, r.take l.toNat)) os := by
    simp only [OverloadsOk, hsome, forall_mem_cons]
    constructor
    · exact fun h hov => (h hov).2
    · refine fun h hov => ⟨fun htag => ?_, h hov⟩
      rw [length_take, hone htag hov]
      have := hone htag hov
      omega
  rcases h with ⟨os,harea,hover,rfl⟩ | ⟨hnone,overload',s',rfl⟩
  · exact .inl ⟨_, (areaOptions_option hpad heop).mpr ⟨hle, os, rfl, harea⟩, (hok os).mpr hover, rfl⟩
  refine visitSpec_invalid ?_
  intro os hos hover
  obtain ⟨-,os,rfl,hrest⟩ := (areaOptions_option hpad heop).mp hos
  exact hnone os hrest ((hok os).mp hover)

section
variable (hchk : ∀ tag data s, (check tag data s).1 = .success) {buffer : Bytes}
include hchk

theorem visitOption_spec {cur : Nat} {next : Nat → Option Nat → σ → Option (EfiStatus × Option Nat × σ)}
    (hpad : c.toNat ≠ DHCP4_TAG_PAD) (heop : c.toNat ≠ DHCP4_TAG_EOP) (hlt : cur+1 < buffer.length)
    (hnext : ∀ {overload s}, cur+2+l.toNat ≤ buffer.length →
      VisitSpec check (buffer.drop (cur+2+l.toNat)) overload s (next (cur+2+l.toNat) overload s)) :
    VisitSpec check (c :: l :: buffer.drop (cur+1+1)) overload s
      (visitOption check buffer buffer.length next cur c.toNat l.toNat overload s) := by
  have hrest : (buffer.drop (cur+1+1)).length = buffer.length - (cur+2) := length_drop
  rw [visitOption]
  by_cases hlong : cur+2+l.toNat > buffer.length
  · rw [if_pos hlong]
    refine visitSpec_invalid ?_
    intro os h
    have hle := ((areaOptions_option hpad heop).mp h).1
    omega
  rw [if_neg hlong]
  have hle : l.toNat ≤ (buffer.drop (cur+1+1)).length := by omega
  by_cases hbad : c.toNat = DHCP4_TAG_OVERLOAD ∧ overload.isSome ∧ l.toNat ≠ 1
  · rw [if_pos hbad]
    refine visitSpec_invalid ?_
    intro os h hover
    obtain ⟨-,os,rfl,-⟩ := (areaOptions_option hpad heop).mp h
    have hone := hover hbad.2.1 _ mem_cons_self hbad.1
    rw [length_take] at hone
    omega
  · rw [if_neg hbad]
    have hone : c.toNat = DHCP4_TAG_OVERLOAD → overload.isSome → l.toNat = 1 := by
      intro h1 h2
      by_contra h3
      exact hbad ⟨h1, h2, h3⟩
    have hover : (if c.toNat = DHCP4_TAG_OVERLOAD ∧ overload.isSome then buffer[cur+2]?.map UInt8.toNat
        else overload) = overloadAfter overload (c.toNat, (buffer.drop (cur+1+1)).take l.toNat) := by
      by_cases h : c.toNat = DHCP4_TAG_OVERLOAD ∧ overload.isSome
      · simp [overloadAfter, h, hone h.1 h.2, head?_take]
      · simp only [overloadAfter, if_neg h]
    have hslice : slice buffer (cur+2) l.toNat = (buffer.drop (cur+1+1)).take l.toNat := rfl
    simp only [if_pos (Nat.le_of_not_lt hlong), hover, hslice, hchk, EfiStatus.isError, Bool.false_eq_true,
      if_false]
    apply visitSpec_option hpad heop hle hone
    rw [drop_drop]
    exact hnext (Nat.le_of_not_lt hlong)

theorem iterateFrom_spec
    {fuel cur : Nat} (hcur : cur ≤ buffer.length) (hfuel : buffer.length ≤ cur+fuel) :
    VisitSpec check (buffer.drop cur) overload s
      (iterateFrom check buffer buffer.length fuel cur overload s) := by
  induction fuel generalizing cur overload s with
  | zero =>
    rw [iterateFrom, drop_eq_nil_of_le (by omega)]
    exact visitSpec_invalid fun _ h => absurd h areaOptions_nil
  | succ fuel ih =>
    rw [iterateFrom]
    by_cases hlt : cur < buffer.length
    · rw [if_pos hlt, getElem?_eq_getElem hlt, Option.bind_some, drop_eq_getElem_cons hlt]
      have hnext : VisitSpec check (buffer.drop (cur+1)) overload s
          (iterateFrom check buffer buffer.length fuel (cur+1) overload s) := ih hlt (by omega)
      by_cases hpad : buffer[cur].toNat = DHCP4_TAG_PAD
      · rw [if_pos hpad]
        rcases hnext with ⟨os,harea,hrest⟩ | ⟨hnone,hrest⟩
        · exact .inl ⟨os, .pad hpad harea, hrest⟩
        · exact .inr ⟨fun os hos => hnone os ((areaOptions_pad hpad).mp hos), hrest⟩
      rw [if_neg hpad]
      by_cases heop : buffer[cur].toNat = DHCP4_TAG_EOP
      · rw [if_pos heop]
        exact .inl ⟨[], .eop _ heop, fun _ => by simp, rfl⟩
      rw [if_neg heop]
      by_cases hend : cur+1 = buffer.length
      · rw [if_pos hend, drop_eq_nil_of_le (by omega)]
        exact visitSpec_invalid fun _ h => absurd h (areaOptions_single hpad heop)
      · have hlt' : cur+1 < buffer.length := by omega
        rw [if_neg hend, getElem?_eq_getElem hlt', Option.bind_some, drop_eq_getElem_cons hlt']
        exact visitOption_spec hchk hpad heop hlt' fun hle => ih hle (by omega)
    · rw [if_neg hlt, drop_eq_nil_of_le (by omega)]
      exact visitSpec_invalid fun _ h => absurd h areaOptions_nil

end

end Visit

def EfiDhcp4Packet.Held (packet : EfiDhcp4Packet) : Prop := packet.length ≤ sizeofHeader+4+packet.option.length

def overloadValue (os : List (Nat × Bytes)) : Nat := (os.foldl overloadAfter (some 0)).getD 0

def OverloadedOptions (overloaded : Bool) (area : Bytes) (os : List (Nat × Bytes)) : Prop :=
  if overloaded then AreaOptions area os else os = []

inductive PacketOptions (packet : EfiDhcp4Packet) : List (Nat × Bytes) → Prop
  | areas {os fs ss : List (Nat × Bytes)} : AreaOptions packet.optionArea os → OverloadsOk (some 0) os →
      OverloadedOptions (overloadsFileName (overloadValue os)) packet.header.bootFileName fs →
      OverloadedOptions (overloadsServerName (overloadValue os)) packet.header.serverName ss →
      PacketOptions packet (os ++ (fs ++ ss))

variable {packet : EfiDhcp4Packet}

theorem length_optionArea (h : packet.Held) : packet.optionArea.length = packet.optionLen := by
  have hheld : packet.length ≤ sizeofHeader+4+packet.option.length := h
  rw [EfiDhcp4Packet.optionArea, length_take, min_eq_left]
  rw [EfiDhcp4Packet.optionLen]
  omega

theorem EfiDhcp4Header.length_bootFileName (header : EfiDhcp4Header) : header.bootFileName.length = 128 :=
  length_slice (by rw [header.length_bytes]; decide)

theorem EfiDhcp4Header.length_serverName (header : EfiDhcp4Header) : header.serverName.length = 64 :=
  length_slice (by rw [header.length_bytes]; decide)

theorem OverloadedOptions.unique {overloaded : Bool} (h : OverloadedOptions overloaded b os)
    (h' : OverloadedOptions overloaded b os') : os = os' := by
  cases overloaded with
  | false => exact Eq.trans h (Eq.symm h')
  | true => exact AreaOptions.unique h h'

theorem PacketOptions.unique (h : PacketOptions packet os) (h' : PacketOptions packet os') : os = os' := by
  obtain ⟨hos,-,hfs,hss⟩ := h
  obtain ⟨hos',-,hfs',hss'⟩ := h'
  cases hos.unique hos'
  rw [hfs.unique hfs', hss.unique hss']

theorem OverloadedOptions.tag_bounds {overloaded : Bool} (h : OverloadedOptions overloaded b os) :
    ∀ o ∈ os, 0 < o.1 ∧ o.1 < 255 := by
  cases overloaded with
  | false =>
    have hnil : os = [] := h
    simp [hnil]
  | true => exact AreaOptions.tag_bounds h

theorem PacketOptions.tag_bounds (h : PacketOptions packet os) : ∀ o ∈ os, 0 < o.1 ∧ o.1 < 255 := by
  obtain ⟨hos,-,hfs,hss⟩ := h
  intro o ho
  simp only [mem_append] at ho
  rcases ho with ho | ho | ho
  · exact hos.tag_bounds o ho
  · exact hfs.tag_bounds o ho
  · exact hss.tag_bounds o ho

section VisitPacket

variable {σ : Type*} {check : CheckOption σ}

theorem iterateOverloaded_spec (hchk : ∀ tag data s, (check tag data s).1 = .success) (overloaded : Bool)
    {bufLen : Nat} (hlen : b.length = bufLen) (s : σ) : (∃ os, OverloadedOptions overloaded b os ∧
      iterateOverloaded check overloaded b bufLen s = some (.success, os.foldl (checked check) s)) ∨
    ((∀ os, ¬ OverloadedOptions overloaded b os) ∧
      ∃ s', iterateOverloaded check overloaded b bufLen s = some (.invalidParameter, s')) := by
  cases overloaded with
  | false => exact .inl ⟨[], rfl, rfl⟩
  | true =>
    subst hlen
    have hspec : VisitSpec check (b.drop 0) none s (iterateFrom check b b.length b.length 0 none s) :=
      iterateFrom_spec hchk (Nat.zero_le _) (Nat.le_add_left _ 0)
    rcases hspec with ⟨os,harea,-,hres⟩ | ⟨hnone,overload',s',hres⟩
    · refine .inl ⟨os, harea, ?_⟩
      simp [iterateOverloaded, dhcpIterateBufferOptions, hres]
    · refine .inr ⟨fun os hos => hnone os hos nofun, s', ?_⟩
      simp [iterateOverloaded, dhcpIterateBufferOptions, hres]

/-- A callback that never fails is called for each option of a well-formed packet, any other packet is
rejected. -/
theorem dhcpIterateOptions_spec (hchk : ∀ tag data s, (check tag data s).1 = .success) (hheld : packet.Held)
    (s : σ) : (∃ os, PacketOptions packet os ∧
      dhcpIterateOptions check packet s = some (.success, os.foldl (checked check) s)) ∨
    ((∀ os, ¬ PacketOptions packet os) ∧
      ∃ s', dhcpIterateOptions check packet s = some (.invalidParameter, s')) := by
  have hspec : VisitSpec check (packet.optionArea.drop 0) (some 0) s
      (iterateFrom check packet.optionArea packet.optionArea.length packet.optionArea.length 0 (some 0) s) :=
    iterateFrom_spec hchk (Nat.zero_le _) (Nat.le_add_left _ 0)
  rw [length_optionArea hheld, drop_zero] at hspec
  rcases hspec with ⟨os,harea,hover,hres⟩ | ⟨hnone,overload',s',hres⟩
  · have hval : ((os.foldl overloadAfter (some 0)).getD 0) = overloadValue os := rfl
    simp only [dhcpIterateOptions, dhcpIterateBufferOptions, hres, Option.bind_some, EfiStatus.isError,
      Bool.false_eq_true, if_false, hval]
    rcases iterateOverloaded_spec hchk (overloadsFileName (overloadValue os))
      packet.header.length_bootFileName (os.foldl (checked check) s) with ⟨fs,hfs,hfile⟩ | ⟨hfs,s',hfile⟩
    · simp only [hfile, Option.bind_some, Bool.false_eq_true, if_false]
      rcases iterateOverloaded_spec hchk (overloadsServerName (overloadValue os))
        packet.header.length_serverName (fs.foldl (checked check) (os.foldl (checked check) s)) with
        ⟨ss, hss, hname⟩ | ⟨hss, s', hname⟩
      · refine .inl ⟨_, .areas harea hover hfs hss, ?_⟩
        rw [hname, foldl_append, foldl_append]
      refine .inr ⟨?_, s', hname⟩
      intro occ hocc
      obtain ⟨hos',-,-,hss'⟩ := hocc
      cases harea.unique hos'
      exact hss _ hss'
    · refine .inr ⟨?_, s', ?_⟩
      · intro occ hocc
        obtain ⟨hos',-,hfs',-⟩ := hocc
        cases harea.unique hos'
        exact hfs _ hfs'
      · simp only [hfile, Option.bind_some, if_true]
  · refine .inr ⟨?_, s', ?_⟩
    · intro occ hocc
      obtain ⟨hos',hover',-,-⟩ := hocc
      exact hnone _ hos' hover'
    · simp only [dhcpIterateOptions, dhcpIterateBufferOptions, hres, Option.bind_some, EfiStatus.isError,
        if_true]

end VisitPacket

end Liano.Dhcp4
