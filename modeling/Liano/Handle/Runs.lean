import Liano.Handle.Installed
import Liano.Handle.Services

/-! The handle database over a run of calls, some of which are made while others wait for a driver to be
disconnected. -/
namespace Liano.Handle

open Function (update update_of_ne update_self)
open List

def OpenData.claims (data : OpenData) : Bool := data.attributes.isByDriver || data.attributes.isExclusive

/-- The open records of an interface are counted, and at most one of them keeps others out. -/
structure ProtocolInterface.Fair (prot : ProtocolInterface) : Prop where
  counted : prot.openListCount = prot.openList.length
  oneClaim : prot.openList.countP OpenData.claims ≤ 1

structure Database.Wellformed (db : Database) : Prop where
  linked : db.Linked
  noneEmpty : db.NoneEmpty
  unique : db.Unique
  fair : ∀ p prot, db.prot p = some prot → prot.Fair

/-- What is asked of a database: interfaces and handles are linked, a handle is there while it has an
interface, no handle carries a GUID twice, and the open records exclude each other. -/
structure Database.Consistent (db : Database) : Prop where
  linked : db.Linked
  noneEmpty : db.NoneEmpty
  unique : db.Unique
  counted : ∀ p prot, db.prot p = some prot → prot.openListCount = prot.openList.length
  oneDriver : ∀ p prot, db.prot p = some prot → prot.openList.countP (·.attributes.isByDriver) ≤ 1
  oneExclusive : ∀ p prot, db.prot p = some prot → prot.openList.countP (·.attributes.isExclusive) ≤ 1
  apart : ∀ p prot, db.prot p = some prot → ∀ d ∈ prot.openList, ∀ e ∈ prot.openList,
    d.attributes.isByDriver = true → e.attributes.isExclusive = true → d.agentHandle = e.agentHandle

theorem eq_of_countP_le_one {α : Type} {f : α → Bool} {l : List α} (h : l.countP f ≤ 1) {x y : α}
    (hx : x ∈ l) (hy : y ∈ l) (hfx : f x = true) (hfy : f y = true) : x = y := by
  rw [countP_eq_length_filter] at h
  have hmx : x ∈ l.filter f := mem_filter.mpr ⟨hx, hfx⟩
  have hmy : y ∈ l.filter f := mem_filter.mpr ⟨hy, hfy⟩
  cases hl : l.filter f with
  | nil =>
    rw [hl] at hmx
    cases hmx
  | cons a rest =>
    cases rest with
    | nil =>
      rw [hl] at hmx hmy
      rw [mem_singleton.mp hmx, mem_singleton.mp hmy]
    | cons b rest =>
      rw [hl] at h
      exact absurd h (by simp)

theorem Database.Wellformed.consistent {db : Database} (hw : db.Wellformed) : db.Consistent where
  linked := hw.linked
  noneEmpty := hw.noneEmpty
  unique := hw.unique
  counted p prot hp := (hw.fair p prot hp).counted
  oneDriver p prot hp := by
    refine le_trans (countP_mono_left fun data _ hdriver => ?_) (hw.fair p prot hp).oneClaim
    unfold OpenData.claims
    rw [hdriver, Bool.true_or]
  oneExclusive p prot hp := by
    refine le_trans (countP_mono_left fun data _ hexclusive => ?_) (hw.fair p prot hp).oneClaim
    unfold OpenData.claims
    rw [hexclusive, Bool.or_true]
  apart p prot hp d hd e he hdriver hexclusive := by
    refine congrArg OpenData.agentHandle (eq_of_countP_le_one (hw.fair p prot hp).oneClaim hd he ?_ ?_)
    · unfold OpenData.claims
      rw [hdriver, Bool.true_or]
    · unfold OpenData.claims
      rw [hexclusive, Bool.or_true]

section
variable {db db' db'' : Database} {p q h : Nat} {prot : ProtocolInterface}

theorem wellformed_allocated (hw : db.Wellformed) : db.allocated.Wellformed :=
  ⟨hw.linked.allocated, hw.noneEmpty, hw.unique, hw.fair⟩

theorem prot_setOpens (hp : db.prot p = some prot) (l : List OpenData) (n : Nat) {q : Nat}
    {prot' : ProtocolInterface} (hq : (db.setOpens p prot l n).prot q = some prot') :
    ∃ old, db.prot q = some old ∧ prot'.handle = old.handle ∧ prot'.protocol = old.protocol ∧
      (q = p → prot'.openList = l ∧ prot'.openListCount = n) ∧ (q ≠ p → prot' = old) := by
  change update db.prot p _ q = some prot' at hq
  by_cases hqp : q = p
  · subst hqp
    rw [update_self] at hq
    obtain rfl := Option.some.inj hq
    exact ⟨prot, hp, rfl, rfl, fun _ => ⟨rfl, rfl⟩, fun hne => absurd rfl hne⟩
  · rw [update_of_ne hqp] at hq
    exact ⟨prot', hq, rfl, rfl, fun heq => absurd heq hqp, fun _ => rfl⟩

variable {l : List OpenData}

theorem wellformed_setOpens (hw : db.Wellformed) (hp : db.prot p = some prot) {n : Nat}
    (hn : n = l.length) (hclaims : l.countP OpenData.claims ≤ 1) : (db.setOpens p prot l n).Wellformed := by
  refine ⟨hw.linked.setOpens hp l n, hw.noneEmpty, ?_, ?_⟩
  · intro q r prot' prot'' hq hr hhnd hguid
    obtain ⟨old,hold,hh,hg,-,-⟩ := prot_setOpens hp l n hq
    obtain ⟨old',hold',hh',hg',-,-⟩ := prot_setOpens hp l n hr
    exact hw.unique q r old old' hold hold' (hh.symm.trans (hhnd.trans hh')) (hg.symm.trans (hguid.trans hg'))
  · intro q prot' hq
    obtain ⟨old,hold,-,-,hself,hne⟩ := prot_setOpens hp l n hq
    by_cases hqp : q = p
    · obtain ⟨hl,hcnt⟩ := hself hqp
      exact ⟨by rw [hl, hcnt, hn], by rw [hl]; exact hclaims⟩
    · rw [hne hqp]
      exact hw.fair q old hold

theorem wellformed_filterOpens (hw : db.Wellformed) (hp : db.prot p = some prot) (f : OpenData → Bool) :
    (db.setOpens p prot (prot.openList.filter fun data => !f data)
      (prot.openListCount - (prot.openList.filter f).length)).Wellformed := by
  have hfair := hw.fair p prot hp
  refine wellformed_setOpens hw hp ?_ (le_trans (List.Sublist.countP_le filter_sublist) hfair.oneClaim)
  rw [hfair.counted, length_eq_length_filter_add f, Nat.add_sub_cancel_left]

theorem wellformed_findProtocolEntry (hw : db.Wellformed) (protocol : Guid) :
    (coreFindProtocolEntry db protocol).2.Wellformed := by
  have hlink := hw.linked.findProtocolEntry protocol
  unfold coreFindProtocolEntry at hlink ⊢
  split
  · exact hw
  rename_i hent
  rw [if_neg hent] at hlink
  split
  · rename_i halloc
    rw [if_pos halloc] at hlink
    exact ⟨hlink, hw.noneEmpty, hw.unique, hw.fair⟩
  · exact wellformed_allocated hw

variable {image controller : Nat} {mode : OpenMode}

theorem scanOpens_noMatch {seen : List OpenData} {byDriver exclusive byDriver' exclusive' : Bool}
    (hscan : scanOpens image controller mode byDriver exclusive seen l = .noMatch byDriver' exclusive') :
    byDriver' = (byDriver || l.any (·.attributes.isByDriver)) ∧
      exclusive' = (exclusive || l.any (·.attributes.isExclusive)) := by
  induction l generalizing seen byDriver exclusive with
  | nil =>
    obtain ⟨rfl,rfl⟩ := OpenScan.noMatch.inj hscan
    exact ⟨(Bool.or_false _).symm, (Bool.or_false _).symm⟩
  | cons data rest ih =>
    rw [scanOpens] at hscan
    split at hscan
    · cases hscan
    split at hscan
    · cases hscan
    · obtain ⟨hdriver,hexcl⟩ := ih hscan
      rw [Bool.or_assoc] at hdriver hexcl
      exact ⟨hdriver, hexcl⟩

theorem scanOpens_query {seen : List OpenData}
    {byDriver exclusive : Bool} (hmode : mode.isByDriver = false ∧ mode.isExclusive = false) :
    scanOpens image controller mode byDriver exclusive seen l ≠ .alreadyStarted ∧
      (l.any (·.matchesOpen image controller mode) = true →
        ∃ l', scanOpens image controller mode byDriver exclusive seen l = .counted l') := by
  induction l generalizing seen byDriver exclusive with
  | nil =>
    constructor
    · intro hno
      cases hno
    · intro hno
      cases hno
  | cons data rest ih =>
    have hattr : data.matchesOpen image controller mode = true → data.attributes = mode := by
      intro hmatch
      unfold OpenData.matchesOpen at hmatch
      rw [Bool.and_eq_true, Bool.and_eq_true, beq_iff_eq, beq_iff_eq] at hmatch
      exact hmatch.1.2
    rw [scanOpens]
    cases hmatch : data.matchesOpen image controller mode with
    | true =>
      rw [hattr hmatch, hmode.1, hmode.2, Bool.false_and, if_ff, Bool.not_false,
        Bool.true_and, if_pos rfl]
      constructor
      · intro hno
        cases hno
      · exact fun _ => ⟨_, rfl⟩
    | false =>
      rw [Bool.and_false, if_ff, Bool.and_false, if_ff, any_cons,
        hmatch, Bool.false_or]
      exact ih

theorem countP_claims_of_attributes {l' : List OpenData}
    (h : l'.map (·.attributes) = l.map (·.attributes)) :
    l'.countP OpenData.claims = l.countP OpenData.claims ∧ l'.length = l.length := by
  have hcnt : ∀ l : List OpenData, l.countP OpenData.claims =
      (l.map (·.attributes)).countP fun mode => mode.isByDriver || mode.isExclusive := by
    intro l
    rw [countP_map]
    rfl
  refine ⟨?_, ?_⟩
  · rw [hcnt, hcnt, h]
  · rw [← length_map (f := (·.attributes)), h, length_map]

theorem wellformed_counted (hw : db.Wellformed) (hp : db.prot p = some prot)
    (hscan : scanOpens image controller mode false false [] prot.openList = .counted l) :
    (db.setOpens p prot l prot.openListCount).Wellformed := by
  have hfair := hw.fair p prot hp
  obtain ⟨hclaims,hlen⟩ := countP_claims_of_attributes (scanOpens_counted hscan).2
  refine wellformed_setOpens hw hp ?_ ?_
  · rw [hfair.counted, hlen]
    rfl
  · rw [hclaims]
    exact hfair.oneClaim

theorem wellformed_addOpen (hw : db.Wellformed) (hp : db.prot p = some prot)
    (hmode : (mode.isByDriver || mode.isExclusive) = true → prot.openList.countP OpenData.claims = 0) :
    (addOpen db p prot image controller mode).2.Wellformed := by
  have hfair := hw.fair p prot hp
  unfold addOpen
  split
  · exact hw
  split
  · refine wellformed_setOpens (wellformed_allocated hw) hp ?_ ?_
    · rw [hfair.counted, length_append]
      rfl
    · rw [countP_append]
      cases hclaim : (mode.isByDriver || mode.isExclusive) with
      | true =>
        rw [hmode hclaim, zero_add]
        exact countP_le_length
      | false =>
        have hnew : [OpenData.mk image controller mode 1].countP OpenData.claims = 0 := by
          rw [countP_singleton, if_neg]
          unfold OpenData.claims
          rw [hclaim]
          exact Bool.false_ne_true
        rw [hnew]
        exact hfair.oneClaim
  · exact wellformed_allocated hw

/-- The record of the lookup that Install makes can be kept, if the GUID is on the handle. -/
def queryFits (dxeCore : Nat) (db : Database) (userHandle : Nat) (protocol : Guid) : Bool :=
  match (coreGetProtocolInterface db userHandle protocol).bind db.prot with
  | none => true
  | some prot =>
    dxeCore == 0 || db.allocates || prot.openList.any (·.matchesOpen dxeCore 0 .byHandleProtocol)

/-- No interface with the GUID is on the handle. -/
def Database.Absent (db : Database) (userHandle : Nat) (protocol : Guid) : Prop :=
  ∀ p prot, db.prot p = some prot → prot.handle = userHandle → prot.protocol ≠ protocol

variable {protocol : Guid}

theorem getProtocolInterface_some (hl : db.Linked)
    (hget : coreGetProtocolInterface db h protocol = some p) :
    ∃ prot, db.prot p = some prot ∧ prot.handle = h ∧ prot.protocol = protocol := by
  unfold coreGetProtocolInterface at hget
  split at hget
  · obtain ⟨prot,hprot,hhnd⟩ := (hl.onHandle h p).mp (mem_of_find?_eq_some hget)
    have hguid := find?_some hget
    unfold Database.guidOf at hguid
    rw [hprot, Option.map_some, beq_iff_eq] at hguid
    exact ⟨prot, hprot, hhnd, Option.some.inj hguid⟩
  · cases hget

theorem absent_of_getProtocolInterface (hl : db.Linked)
    (hget : coreGetProtocolInterface db h protocol = none) : db.Absent h protocol := by
  rintro q prot hq rfl hguid
  unfold coreGetProtocolInterface at hget
  rw [if_pos (hl.validate_iff.mpr (hl.mem_handleList hq))] at hget
  refine find?_eq_none.mp hget q ((hl.onHandle prot.handle q).mpr ⟨prot, hq, rfl⟩) ?_
  unfold Database.guidOf
  rw [hq, Option.map_some, hguid, beq_self_eq_true]

theorem wellformed_handleProtocol (hw : db.Wellformed) (dxeCore userHandle : Nat) (protocol : Guid) :
    (coreHandleProtocol dxeCore db userHandle protocol).2.Wellformed := by
  unfold coreHandleProtocol
  split
  · exact hw
  split
  · exact hw
  rename_i p hget
  split
  · exact hw
  rename_i prot hp
  split
  · exact hw
  · rename_i l hscan
    exact wellformed_counted hw hp hscan
  · split
    · exact wellformed_addOpen hw hp fun hno => by cases hno
    · exact wellformed_addOpen hw hp fun hno => by cases hno

theorem handleProtocol_absent (hw : db.Wellformed) {dxeCore userHandle : Nat}
    (hfits : queryFits dxeCore db userHandle protocol = true)
    (hst : (coreHandleProtocol dxeCore db userHandle protocol).1 ≠ .success) :
    (coreHandleProtocol dxeCore db userHandle protocol).2 = db ∧ db.Absent userHandle protocol := by
  have hmiss : coreValidateHandle db userHandle = false → db.Absent userHandle protocol := by
    rintro hval q prot hq rfl -
    rw [hw.linked.validate_iff.mpr (hw.linked.mem_handleList hq)] at hval
    cases hval
  unfold coreHandleProtocol at hst ⊢
  cases hval : coreValidateHandle db userHandle with
  | false => exact ⟨rfl, hmiss hval⟩
  | true =>
    rw [hval] at hst
    cases hget : coreGetProtocolInterface db userHandle protocol with
    | none => exact ⟨rfl, absent_of_getProtocolInterface hw.linked hget⟩
    | some p =>
      obtain ⟨prot,hp,-,-⟩ := getProtocolInterface_some hw.linked hget
      unfold queryFits at hfits
      rw [hget, Option.bind_some, hp] at hfits
      rw [hget] at hst
      dsimp only at hst hfits
      rw [if_neg (by decide), hp] at hst
      dsimp only at hst
      obtain ⟨hnot,hfnd⟩ := @scanOpens_query prot.openList dxeCore 0 .byHandleProtocol [] false false
        ⟨rfl, rfl⟩
      exfalso
      cases hscan : scanOpens dxeCore 0 .byHandleProtocol false false [] prot.openList with
      | alreadyStarted => exact hnot hscan
      | counted l =>
        rw [hscan] at hst
        exact hst rfl
      | noMatch byDriver exclusive =>
        rw [hscan] at hst
        dsimp only at hst
        cases hany : prot.openList.any (·.matchesOpen dxeCore 0 .byHandleProtocol) with
        | true =>
          obtain ⟨l',hl'⟩ := hfnd hany
          rw [hl'] at hscan
          cases hscan
        | false =>
          rw [hany, Bool.or_false, Bool.or_eq_true, beq_iff_eq] at hfits
          unfold addOpen at hst
          rcases hfits with hzero | halloc
          · rw [if_pos hzero] at hst
            exact hst rfl
          rw [if_pos halloc] at hst
          split at hst
          · exact hst rfl
          · exact hst rfl

theorem wellformed_linkInterface (hl : db.Linked) (hne : ∀ h' ∈ db.handleList, h' ≠ h → db.protocolsOf h' ≠ [])
    (huniq : db.Unique) (hfair : ∀ q prot, db.prot q = some prot → prot.Fair) (hh : h ∈ db.handleList)
    (hp : db.prot p = none) (hnext : p < db.next) (hent : protocol ∈ db.entries)
    (habsent : db.Absent h protocol) (interface : Nat) :
    (linkInterface db p h protocol interface).Wellformed := by
  have hprot : ∀ q prot', (linkInterface db p h protocol interface).prot q = some prot' →
      q = p ∧ prot' = ⟨h, protocol, interface, [], 0⟩ ∨ q ≠ p ∧ db.prot q = some prot' := by
    intro q prot' hq
    change update db.prot p _ q = some prot' at hq
    by_cases hqp : q = p
    · rw [hqp, update_self] at hq
      exact .inl ⟨hqp, (Option.some.inj hq).symm⟩
    · rw [update_of_ne hqp] at hq
      exact .inr ⟨hqp, hq⟩
  refine ⟨hl.linkInterface hh hp hnext hent, fun h' hh' => ?_, ?_, ?_⟩
  · rw [protocolsOf_linkInterface]
    by_cases hhh : h' = h
    · rw [hhh, update_self]
      exact cons_ne_nil _ _
    · rw [update_of_ne hhh]
      exact hne h' hh' hhh
  · intro q r prot' prot'' hq hr hhandle hguid
    rcases hprot q prot' hq with ⟨rfl,rfl⟩ | ⟨hqp,hq'⟩
    · rcases hprot r prot'' hr with ⟨rfl,-⟩ | ⟨-,hr'⟩
      · rfl
      · exact absurd hguid.symm (habsent r prot'' hr' hhandle.symm)
    · rcases hprot r prot'' hr with ⟨rfl,rfl⟩ | ⟨-,hr'⟩
      · exact absurd hguid (habsent q prot' hq' hhandle)
      · exact huniq q r prot' prot'' hq' hr' hhandle hguid
  · intro q prot' hq
    rcases hprot q prot' hq with ⟨-,rfl⟩ | ⟨-,hq'⟩
    · exact ⟨rfl, Nat.zero_le 1⟩
    · exact hfair q prot' hq'

theorem wellformed_installInterface (hw : db.Wellformed) (hent : protocol ∈ db.entries)
    (habsent : h ≠ 0 → db.Absent h protocol) (interface : Nat) :
    (installInterface db h protocol interface).2.2.Wellformed := by
  have halloc := wellformed_allocated hw
  have hfree : db.prot db.next = none := hw.linked.next_free.1
  unfold installInterface
  split
  · exact halloc
  split
  · split
    · exact wellformed_allocated halloc
    have hl := halloc.linked
    refine wellformed_linkInterface hl.newHandle (fun h' hh' hne => ?_) hw.unique hw.fair
      (mem_append_right _ (mem_singleton_self _)) hfree
      (Nat.lt_succ_of_lt (Nat.lt_succ_self _)) hent ?_ interface
    · rw [protocolsOf_newHandle hl]
      rcases mem_append.mp hh' with hold | hnew
      · exact hw.noneEmpty h' hold
      · exact absurd (mem_singleton.mp hnew) hne
    · intro q prot hq hhnd _
      exact hl.next_free.2 (hhnd ▸ hl.mem_handleList hq)
  · rename_i hzero
    split
    · rename_i hval
      exact wellformed_linkInterface halloc.linked (fun h' hh' _ => hw.noneEmpty h' hh') hw.unique
        hw.fair (hw.linked.allocated.validate_iff.mp hval) hfree (Nat.lt_succ_self _) hent
        (habsent hzero) interface
    · exact halloc

theorem prot_findProtocolEntry (db : Database) (protocol : Guid) :
    (coreFindProtocolEntry db protocol).2.prot = db.prot := by
  unfold coreFindProtocolEntry
  split
  · rfl
  · split
    · rfl
    · rfl

theorem prot_dropHandle (db : Database) (h : Nat) : (dropHandle db h).prot = db.prot := by
  unfold dropHandle
  split
  · rfl
  · rfl

theorem wellformed_installOnEntry (hw : db.Wellformed) (status : EfiStatus)
    (habsent : h ≠ 0 → db.Absent h protocol) (interface : Nat) :
    (installOnEntry status db h protocol interface).2.2.Wellformed := by
  have hent := wellformed_findProtocolEntry hw protocol
  unfold installOnEntry
  split
  · rename_i hfnd
    refine wellformed_installInterface hent (mem_entries_findProtocolEntry hfnd) (fun hzero q prot hq => ?_) interface
    rw [prot_findProtocolEntry] at hq
    exact habsent hzero q prot hq
  · exact hent

theorem wellformed_install (hw : db.Wellformed) {dxeCore : Nat}
    (hfits : queryFits dxeCore db h protocol = true) (interface : Nat) :
    (coreInstallProtocolInterface dxeCore db h protocol interface).2.2.Wellformed := by
  unfold coreInstallProtocolInterface
  split
  · split
    · exact wellformed_handleProtocol hw dxeCore h protocol
    rename_i hst
    obtain ⟨hsame,habsent⟩ := handleProtocol_absent hw hfits hst
    rw [hsame]
    exact wellformed_installOnEntry hw _ (fun _ => habsent) interface
  · rename_i hzero
    exact wellformed_installOnEntry hw _ (fun hne => absurd hne hzero) interface

theorem wellformed_dropHandle (hl : db.Linked) (hne : ∀ h' ∈ db.handleList, h' ≠ h → db.protocolsOf h' ≠ [])
    (huniq : db.Unique) (hfair : ∀ q prot, db.prot q = some prot → prot.Fair) :
    (dropHandle db h).Wellformed := by
  have hprot := prot_dropHandle db h
  refine ⟨hl.dropHandle h, fun h' hh' => ?_, ?_, ?_⟩
  · rw [protocolsOf_dropHandle]
    unfold dropHandle at hh'
    split at hh'
    · have hne' := (hl.nodup.mem_erase_iff.mp hh')
      exact hne h' hne'.2 hne'.1
    rename_i hnil
    by_cases hhh : h' = h
    · rw [hhh]
      exact hnil
    · exact hne h' hh' hhh
  · unfold Database.Unique
    rw [hprot]
    exact huniq
  · rw [hprot]
    exact hfair

theorem wellformed_removeInterface (hw : db.Wellformed) (h : Nat) (protocol : Guid) (interface : Nat) :
    (removeInterface db h protocol interface).2.Wellformed := by
  have hnone : (dropHandle db h).Wellformed :=
    wellformed_dropHandle hw.linked (fun h' hh' _ => hw.noneEmpty h' hh') hw.unique hw.fair
  unfold removeInterface
  split
  · exact hnone
  rename_i p hfind
  split
  · exact hnone
  rename_i prot hp
  obtain ⟨hmem,-,-⟩ := @findProtocolInterface_some db h p (protocol,interface) hfind
  obtain ⟨prot',hprot',hhnd⟩ := (hw.linked.onHandle h p).mp hmem
  obtain rfl := Option.some.inj (hp.symm.trans hprot')
  have hold : ∀ q prot', (unlinkInterface db p prot h).prot q = some prot' → db.prot q = some prot' := by
    intro q prot' hq
    change update db.prot p none q = some prot' at hq
    by_cases hqp : q = p
    · rw [hqp, update_self] at hq
      cases hq
    · rwa [update_of_ne hqp] at hq
  refine wellformed_dropHandle (hhnd ▸ hw.linked.unlinkInterface hp) (fun h' hh' hne => ?_) ?_ ?_
  · rw [protocolsOf_unlinkInterface, update_of_ne hne]
    exact hw.noneEmpty h' hh'
  · exact fun q r prot' prot'' hq hr => hw.unique q r prot' prot'' (hold q prot' hq) (hold r prot'' hr)
  · exact fun q prot' hq => hw.fair q prot' (hold q prot' hq)

/-- A call that waits has changed nothing yet. -/
def Outcome.Wellformed (db : Database) : Outcome → Prop
  | .returns _ db' => db'.Wellformed
  | .disconnects _ db' => db' = db

theorem wellformed_uninstallLoop (hw : db.Wellformed) (hp : db.prot p = some prot) (h : Nat) (protocol : Guid)
    (interface : Nat) : (uninstallLoop db p prot h protocol interface).Wellformed db := by
  have hqueries : (removeQueries db p prot).Wellformed := wellformed_filterOpens hw hp fun data => data.attributes.isQuery
  unfold uninstallLoop
  split
  · rfl
  change (uninstallDisconnected db p prot h protocol interface).2.Wellformed
  unfold uninstallDisconnected
  split
  · exact hqueries
  · exact wellformed_removeInterface hqueries h protocol interface

theorem wellformed_uninstall (hw : db.Wellformed) (h : Nat) (protocol : Guid) (interface : Nat) :
    (coreUninstallProtocolInterface db h protocol interface).Wellformed db := by
  unfold coreUninstallProtocolInterface
  split
  · exact hw
  split
  · exact hw
  split
  · exact hw
  · rename_i prot hp
    exact wellformed_uninstallLoop hw hp h protocol interface

theorem countP_claims_eq_zero (hdriver : l.any (·.attributes.isByDriver) = false)
    (hexcl : l.any (·.attributes.isExclusive) = false) : l.countP OpenData.claims = 0 := by
  rw [countP_eq_zero]
  intro data hdata
  have h₁ := any_eq_false.mp hdriver data hdata
  have h₂ := any_eq_false.mp hexcl data hdata
  unfold OpenData.claims
  rw [Bool.eq_false_iff.mpr h₁, Bool.eq_false_iff.mpr h₂]
  exact Bool.false_ne_true

theorem firstDriver_none (hnone : firstDriver l = none) : l.any (·.attributes.isByDriver) = false :=
  any_eq_false.mpr (find?_eq_none.mp hnone)

theorem wellformed_openUnmatched (hw : db.Wellformed) (hp : db.prot p = some prot) (image controller : Nat)
    (mode : OpenMode) :
    (openUnmatched db p prot image controller mode (prot.openList.any (·.attributes.isByDriver))
      (prot.openList.any (·.attributes.isExclusive))).Wellformed db := by
  have hzero := @countP_claims_eq_zero prot.openList
  have hnone := @firstDriver_none prot.openList
  generalize prot.openList.any (·.attributes.isByDriver) = byDriver at hzero hnone ⊢
  generalize prot.openList.any (·.attributes.isExclusive) = exclusive at hzero ⊢
  unfold openUnmatched
  split
  · exact hw
  rename_i hdriver
  split
  · exact hw
  rename_i hexcl
  split
  · rename_i hdisconnect
    split
    · rfl
    · rename_i hfst
      rw [hnone hfst, Bool.and_false] at hdisconnect
      cases hdisconnect
  rename_i hdisconnect
  refine wellformed_addOpen hw hp fun hclaims => ?_
  cases byDriver <;> cases exclusive <;> cases mode <;>
    first
      | exact hzero rfl rfl
      | exact absurd rfl hdriver
      | exact absurd rfl hexcl
      | exact absurd rfl hdisconnect
      | cases hclaims

theorem wellformed_open (hw : db.Wellformed) (h : Nat) (protocol : Guid) (image controller : Nat)
    (mode : OpenMode) : (coreOpenProtocol db h protocol image controller mode).Wellformed db := by
  unfold coreOpenProtocol
  split
  · exact hw
  split
  · exact hw
  split
  · exact hw
  split
  · exact hw
  rename_i prot hp
  split
  · exact hw
  · rename_i l hscan
    exact wellformed_counted hw hp hscan
  · rename_i byDriver exclusive hscan
    obtain ⟨rfl,rfl⟩ := scanOpens_noMatch hscan
    exact wellformed_openUnmatched hw hp image controller mode

theorem wellformed_close (hw : db.Wellformed) (h : Nat) (protocol : Guid) (agent controller : Nat) :
    (coreCloseProtocol db h protocol agent controller).2.Wellformed := by
  unfold coreCloseProtocol
  split
  · exact hw
  split
  · exact hw
  split
  · exact hw
  split
  · exact hw
  · rename_i prot hp
    exact wellformed_filterOpens hw hp fun data => data.isOf agent controller

/-- The interface of the number q is still there, on its handle and with its GUID. Where `unshared` is set, it
has not got an EXCLUSIVE record either. -/
def Stays (unshared : Bool) (db db' : Database) (q : Nat) : Prop :=
  ∀ prot, db.prot q = some prot → ∃ prot', db'.prot q = some prot' ∧ prot'.handle = prot.handle ∧
    prot'.protocol = prot.protocol ∧ (unshared = true →
      prot.openList.any (·.attributes.isExclusive) = false → prot'.openList.any (·.attributes.isExclusive) = false)

variable {unshared : Bool}

theorem stays_of_prot (hsame : db'.prot = db.prot) : Stays unshared db db' q := by
  intro prot hq
  exact ⟨prot, (congrFun hsame q).trans hq, rfl, rfl, fun _ hnone => hnone⟩

theorem Stays.trans (hs : Stays unshared db db' q) (hs' : Stays unshared db' db'' q) :
    Stays unshared db db'' q := by
  intro prot hq
  obtain ⟨prot',hq',hhandle',hguid',hshare'⟩ := hs prot hq
  obtain ⟨prot'',hq'',hhandle'',hguid'',hshare''⟩ := hs' prot' hq'
  exact ⟨prot'', hq'', hhandle''.trans hhandle', hguid''.trans hguid',
    fun hset hnone => hshare'' hset (hshare' hset hnone)⟩

theorem stays_setOpens (hp : db.prot p = some prot) (n : Nat)
    (hl : unshared = true → q = p → prot.openList.any (·.attributes.isExclusive) = false →
      l.any (·.attributes.isExclusive) = false) : Stays unshared db (db.setOpens p prot l n) q := by
  intro old hq
  by_cases hqp : q = p
  · subst hqp
    obtain rfl := Option.some.inj (hp.symm.trans hq)
    exact ⟨_, update_self _ _ _, rfl, rfl, fun hset hnone => hl hset rfl hnone⟩
  · exact ⟨old, (update_of_ne hqp _ _).trans hq, rfl, rfl, fun _ hnone => hnone⟩

theorem stays_filterOpens (hp : db.prot p = some prot) (f : OpenData → Bool) (n : Nat) :
    Stays unshared db (db.setOpens p prot (prot.openList.filter f) n) q := by
  refine stays_setOpens hp n fun _ _ hnone => any_eq_false.mpr fun data hdata => ?_
  exact any_eq_false.mp hnone data (mem_filter.mp hdata).1

theorem stays_addOpen (hp : db.prot p = some prot)
    (hmode : unshared = true → q = p → mode.isExclusive = false) :
    Stays unshared db (addOpen db p prot image controller mode).2 q := by
  unfold addOpen
  split
  · exact stays_of_prot rfl
  split
  · have hallocated : Stays unshared db db.allocated q := stays_of_prot rfl
    refine hallocated.trans (stays_setOpens hp _ fun hset hqp hnone => ?_)
    rw [any_append, hnone, Bool.false_or, any_cons, any_nil, Bool.or_false]
    exact hmode hset hqp
  · exact stays_of_prot rfl

theorem stays_counted (hp : db.prot p = some prot)
    (hscan : scanOpens image controller mode false false [] prot.openList = .counted l) :
    Stays unshared db (db.setOpens p prot l prot.openListCount) q := by
  refine stays_setOpens hp _ fun _ _ hnone => ?_
  have hmap : ∀ l : List OpenData, l.any (·.attributes.isExclusive) =
      (l.map (·.attributes)).any OpenMode.isExclusive := fun l => by
    rw [any_map]
    rfl
  rw [hmap, (scanOpens_counted hscan).2, nil_append, ← hmap]
  exact hnone

theorem stays_handleProtocol (dxeCore userHandle : Nat) (protocol : Guid) :
    Stays unshared db (coreHandleProtocol dxeCore db userHandle protocol).2 q := by
  unfold coreHandleProtocol
  split
  · exact stays_of_prot rfl
  split
  · exact stays_of_prot rfl
  split
  · exact stays_of_prot rfl
  rename_i prot hp
  split
  · exact stays_of_prot rfl
  · rename_i l hscan
    exact stays_counted hp hscan
  · split <;> exact stays_addOpen hp fun _ _ => rfl

theorem stays_linkInterface (hq : db.prot p = none) (h : Nat) (protocol : Guid) (interface : Nat) :
    Stays unshared db (linkInterface db p h protocol interface) q := by
  intro prot hprot
  have hqp : q ≠ p := fun heq => Option.some_ne_none prot (hprot.symm.trans (heq ▸ hq))
  exact ⟨prot, (update_of_ne hqp _ _).trans hprot, rfl, rfl, fun _ hnone => hnone⟩

theorem stays_installInterface (hl : db.Linked) (h : Nat) (protocol : Guid) (interface : Nat) :
    Stays unshared db (installInterface db h protocol interface).2.2 q := by
  have hfree : db.prot db.next = none := hl.next_free.1
  unfold installInterface
  split
  · exact stays_of_prot rfl
  split
  · split
    · exact stays_of_prot rfl
    · have hnew : Stays unshared db (newHandle db.allocated) q := stays_of_prot rfl
      exact hnew.trans (stays_linkInterface hfree _ _ _)
  · split
    · have hallocated : Stays unshared db db.allocated q := stays_of_prot rfl
      exact hallocated.trans (stays_linkInterface hfree _ _ _)
    · exact stays_of_prot rfl

theorem stays_install (hw : db.Wellformed) {dxeCore : Nat} (hfits : queryFits dxeCore db h protocol = true)
    (interface : Nat) : Stays unshared db (coreInstallProtocolInterface dxeCore db h protocol interface).2.2 q := by
  have hentry : ∀ status, Stays unshared db (installOnEntry status db h protocol interface).2.2 q := by
    intro status
    have hsame : Stays unshared db (coreFindProtocolEntry db protocol).2 q :=
      stays_of_prot (prot_findProtocolEntry db protocol)
    unfold installOnEntry
    split
    · exact hsame.trans (stays_installInterface (wellformed_findProtocolEntry hw protocol).linked _ _ _)
    · exact hsame
  unfold coreInstallProtocolInterface
  split
  · split
    · exact stays_handleProtocol _ _ _
    rename_i hst
    rw [(handleProtocol_absent hw hfits hst).1]
    exact hentry _
  · exact hentry _

def Outcome.Stays (unshared : Bool) (db : Database) (q : Nat) : Outcome → Prop
  | .returns _ db' => Handle.Stays unshared db db' q
  | .disconnects _ _ => True

theorem stays_removeInterface (hw : db.Wellformed) (hp : db.prot p = some prot) (hqp : q ≠ p) (interface : Nat) :
    Stays unshared db (removeInterface db prot.handle prot.protocol interface).2 q := by
  unfold removeInterface
  split
  · exact stays_of_prot (prot_dropHandle _ _)
  rename_i r hfind
  split
  · exact stays_of_prot (prot_dropHandle _ _)
  rename_i prot' hr
  -- the interface found is the one of the number p, as the handle has its GUID once
  obtain ⟨hmem,hpair,-⟩ := @findProtocolInterface_some db prot.handle r (prot.protocol,interface) hfind
  obtain ⟨found,hfound,hhandle⟩ := (hw.linked.onHandle prot.handle r).mp hmem
  obtain rfl := Option.some.inj (hr.symm.trans hfound)
  have hguid : prot'.protocol = prot.protocol := by
    unfold Database.pairOf at hpair
    rw [hr, Option.map_some] at hpair
    exact congrArg Prod.fst (Option.some.inj hpair)
  obtain rfl := hw.unique r p prot' prot hr hp hhandle hguid
  refine Stays.trans ?_ (stays_of_prot (prot_dropHandle (unlinkInterface db r prot' prot.handle) prot.handle))
  intro old hq
  exact ⟨old, (update_of_ne hqp _ _).trans hq, rfl, rfl, fun _ hnone => hnone⟩

theorem stays_uninstallLoop (hw : db.Wellformed) (hp : db.prot p = some prot) (hqp : q ≠ p) (interface : Nat) :
    (uninstallLoop db p prot prot.handle prot.protocol interface).Stays unshared db q := by
  unfold uninstallLoop
  split
  · trivial
  change Stays unshared db (uninstallDisconnected db p prot prot.handle prot.protocol interface).2 q
  have hqueries : Stays unshared db (removeQueries db p prot) q := stays_filterOpens hp _ _
  unfold uninstallDisconnected
  split
  · exact hqueries
  have hwell : (removeQueries db p prot).Wellformed :=
    wellformed_filterOpens hw hp fun data => data.attributes.isQuery
  exact hqueries.trans (stays_removeInterface hwell (update_self p _ db.prot) hqp interface)

/-- The interface that an uninstall is about. -/
theorem prot_of_find (hl : db.Linked) {interface : Nat}
    (hfind : coreFindProtocolInterface db h protocol interface = some p) :
    ∃ prot, db.prot p = some prot ∧ prot.handle = h ∧ prot.protocol = protocol := by
  obtain ⟨hmem,hpair,-⟩ := @findProtocolInterface_some db h p (protocol,interface) hfind
  obtain ⟨prot,hp,hhandle⟩ := (hl.onHandle h p).mp hmem
  unfold Database.pairOf at hpair
  rw [hp, Option.map_some] at hpair
  exact ⟨prot, hp, hhandle, congrArg Prod.fst (Option.some.inj hpair)⟩

theorem stays_uninstall (hw : db.Wellformed) {interface : Nat}
    (hother : coreFindProtocolInterface db h protocol interface ≠ some q) :
    (coreUninstallProtocolInterface db h protocol interface).Stays unshared db q := by
  unfold coreUninstallProtocolInterface
  split
  · exact stays_of_prot rfl
  split
  · exact stays_of_prot rfl
  rename_i p hfind
  split
  · exact stays_of_prot rfl
  rename_i prot hp
  obtain ⟨prot',hp',rfl,rfl⟩ := prot_of_find hw.linked hfind
  obtain rfl := Option.some.inj (hp.symm.trans hp')
  exact stays_uninstallLoop hw hp (fun heq => hother (hfind.trans (congrArg some heq.symm))) interface

theorem stays_openUnmatched (hp : db.prot p = some prot)
    (hmode : unshared = true → q = p → mode.isExclusive = false) (byDriver exclusive : Bool) :
    (openUnmatched db p prot image controller mode byDriver exclusive).Stays unshared db q := by
  unfold openUnmatched
  split
  · exact stays_of_prot rfl
  split
  · exact stays_of_prot rfl
  split
  · split
    · trivial
    · exact stays_addOpen hp hmode
  · exact stays_addOpen hp hmode

theorem stays_open (hother : unshared = true → mode.isExclusive = true → coreGetProtocolInterface db h protocol ≠ some q) :
    (coreOpenProtocol db h protocol image controller mode).Stays unshared db q := by
  unfold coreOpenProtocol
  split
  · exact stays_of_prot rfl
  split
  · exact stays_of_prot rfl
  split
  · exact stays_of_prot rfl
  rename_i p hget
  split
  · exact stays_of_prot rfl
  rename_i prot hp
  split
  · exact stays_of_prot rfl
  · rename_i l hscan
    exact stays_counted hp hscan
  · refine stays_openUnmatched hp (fun hset hqp => ?_) _ _
    exact Bool.eq_false_iff.mpr fun hexcl => hother hset hexcl (hget.trans (congrArg some hqp.symm))

theorem stays_close (h : Nat) (protocol : Guid) (agent controller : Nat) :
    Stays unshared db (coreCloseProtocol db h protocol agent controller).2 q := by
  unfold coreCloseProtocol
  split
  · exact stays_of_prot rfl
  split
  · exact stays_of_prot rfl
  split
  · exact stays_of_prot rfl
  split
  · exact stays_of_prot rfl
  · rename_i prot hp
    exact stays_filterOpens hp _ _

end

def Frame.pointer : Frame → Nat
  | .uninstalling _ p _ _ => p
  | .opening _ p _ _ _ _ _ => p

def Frame.userHandle : Frame → Nat
  | .uninstalling userHandle _ _ _ => userHandle
  | .opening userHandle _ _ _ _ _ _ => userHandle

def Frame.protocol : Frame → Guid
  | .uninstalling _ _ protocol _ => protocol
  | .opening _ _ protocol _ _ _ _ => protocol

def Frame.isOpening : Frame → Bool
  | .uninstalling _ _ _ _ => false
  | .opening _ _ _ _ _ _ _ => true

/-- The interface that a waiting call is about is there, and one that is to be opened is not opened
exclusively. -/
def Frame.Waits (db : Database) (frame : Frame) : Prop :=
  ∃ prot, db.prot frame.pointer = some prot ∧ prot.handle = frame.userHandle ∧
    prot.protocol = frame.protocol ∧
    (frame.isOpening = true → prot.openList.any (·.attributes.isExclusive) = false)

/-- A call that waits inside another one is about another interface, or it opens the one to be uninstalled. -/
def Frame.Apart (frame other : Frame) : Prop :=
  frame.pointer = other.pointer → frame.isOpening = true ∧ other.isOpening = false

structure Machine.Wellformed (m : Machine) : Prop where
  db : m.db.Wellformed
  frames : ∀ frame ∈ m.frames, frame.Waits m.db
  apart : m.frames.Pairwise Frame.Apart

/-- The condition on a step. Install has memory for the record of its lookup. What is called while other calls
wait does not uninstall an interface that one of them is about, and does not open one exclusively that one of
them is to open. -/
def Sound (dxeCore : Nat) (m : Machine) : Action → Prop
  | .install userHandle protocol _ => queryFits dxeCore m.db userHandle protocol = true
  | .uninstall userHandle protocol interface =>
    ∀ frame ∈ m.frames, coreFindProtocolInterface m.db userHandle protocol interface ≠ some frame.pointer
  | .openProtocol userHandle protocol _ _ attributes =>
    attributes.isExclusive = true → ∀ frame ∈ m.frames, frame.isOpening = true →
      coreGetProtocolInterface m.db userHandle protocol ≠ some frame.pointer
  | _ => True

section
variable {dxeCore : Nat} {m : Machine} {db db' : Database}
variable {frame : Frame} {prot : ProtocolInterface}

theorem Frame.Waits.stays (h : frame.Waits db) (hs : Stays frame.isOpening db db' frame.pointer) :
    frame.Waits db' := by
  obtain ⟨prot,hp,hhandle,hguid,hshare⟩ := h
  obtain ⟨prot',hp',hhandle',hguid',hshare'⟩ := hs prot hp
  exact ⟨prot', hp', hhandle'.trans hhandle, hguid'.trans hguid, fun hset => hshare' hset (hshare hset)⟩

theorem wellformed_settle (hw : db.Wellformed) {frames : List Frame}
    (hframes : ∀ frame ∈ frames, frame.Waits db) (hapart : frames.Pairwise Frame.Apart)
    {outcome : Outcome} (hwell : outcome.Wellformed db)
    (hstays : ∀ other ∈ frames, outcome.Stays other.isOpening db other.pointer)
    (hwaits : ∀ agent db', outcome = .disconnects agent db' →
      frame.Waits db ∧ ∀ other ∈ frames, frame.Apart other) :
    (Machine.settle frames frame outcome).Wellformed := by
  cases outcome with
  | returns status db' =>
    exact ⟨hwell, fun other hother => (hframes other hother).stays (hstays other hother), hapart⟩
  | disconnects agent db' =>
    obtain rfl : db' = db := hwell
    obtain ⟨hframe,hothers⟩ := hwaits agent db' rfl
    exact ⟨hw, forall_mem_cons.mpr ⟨hframe, hframes⟩, pairwise_cons.mpr ⟨hothers, hapart⟩⟩

theorem uninstall_waits (hw : db.Wellformed) {h : Nat} {protocol : Guid} {interface agent : Nat}
    (hwaits : coreUninstallProtocolInterface db h protocol interface = .disconnects agent db') :
    (uninstallFrame db h protocol interface).Waits db ∧
      coreFindProtocolInterface db h protocol interface =
        some (uninstallFrame db h protocol interface).pointer := by
  unfold coreUninstallProtocolInterface at hwaits
  split at hwaits
  · cases hwaits
  split at hwaits
  · cases hwaits
  rename_i p hfind
  obtain ⟨prot,hp,hhandle,hguid⟩ := prot_of_find hw.linked hfind
  unfold uninstallFrame
  rw [hfind]
  exact ⟨⟨prot, hp, hhandle, hguid, nofun⟩, rfl⟩

theorem open_waits (hw : db.Wellformed) {h : Nat} {protocol : Guid} {image controller agent : Nat}
    {mode : OpenMode} (hwaits : coreOpenProtocol db h protocol image controller mode = .disconnects agent db') :
    (openFrame db h protocol image controller mode).Waits db ∧ mode.isExclusive = true ∧
      coreGetProtocolInterface db h protocol = some (openFrame db h protocol image controller mode).pointer := by
  unfold coreOpenProtocol at hwaits
  split at hwaits
  · cases hwaits
  split at hwaits
  · cases hwaits
  split at hwaits
  · cases hwaits
  rename_i p hget
  split at hwaits
  · cases hwaits
  rename_i prot hp
  split at hwaits
  · cases hwaits
  · cases hwaits
  rename_i byDriver exclusive hscan
  obtain ⟨-,hexclusive⟩ := scanOpens_noMatch hscan
  unfold openUnmatched at hwaits
  split at hwaits
  · cases hwaits
  split at hwaits
  · cases hwaits
  rename_i hshared
  split at hwaits
  · rename_i hdisconnect
    rw [Bool.and_eq_true] at hdisconnect
    have hnone : exclusive = false := by
      rw [hdisconnect.1, Bool.true_and] at hshared
      exact Bool.eq_false_iff.mpr hshared
    obtain ⟨prot',hp',hhandle,hguid⟩ := getProtocolInterface_some hw.linked hget
    obtain rfl := Option.some.inj (hp.symm.trans hp')
    unfold openFrame
    rw [hget]
    exact ⟨⟨prot, hp, hhandle, hguid, fun _ => hexclusive.symm.trans hnone⟩, hdisconnect.1, rfl⟩
  · cases hwaits

theorem wellformed_openLoop (hw : db.Wellformed) {p : Nat} (hp : db.prot p = some prot)
    {image controller : Nat} {mode : OpenMode} (hexcl : prot.openList.any (·.attributes.isExclusive) = false) :
    (openLoop db p prot image controller mode).Wellformed db := by
  unfold openLoop
  split
  · rfl
  · rename_i hnone
    exact wellformed_addOpen hw hp fun _ => countP_claims_eq_zero (firstDriver_none hnone) hexcl

theorem stays_openLoop {unshared : Bool} {p q : Nat} (hp : db.prot p = some prot) {image controller : Nat}
    {mode : OpenMode} (hqp : unshared = true → q ≠ p) :
    (openLoop db p prot image controller mode).Stays unshared db q := by
  unfold openLoop
  split
  · trivial
  · exact stays_addOpen hp fun hset heq => absurd heq (hqp hset)

theorem resume_wellformed {status : EfiStatus} (hw : m.Wellformed) :
    ∃ m', step dxeCore m (.resume status) = some m' ∧ m'.Wellformed := by
  obtain ⟨db,frames⟩ := m
  rw [step]
  cases frames with
  | nil => exact ⟨_, rfl, hw⟩
  | cons frame frames =>
    obtain ⟨hdb,hall,hapart⟩ := hw
    obtain ⟨hfst,hothers⟩ := forall_mem_cons.mp hall
    obtain ⟨hbelow,hrest⟩ : _ ∧ frames.Pairwise Frame.Apart := pairwise_cons.mp hapart
    dsimp only
    unfold resumeFrame
    cases herr : status.isError with
    | true => exact ⟨⟨db, frames⟩, rfl, ⟨hdb, hothers, hrest⟩⟩
    | false =>
      obtain ⟨prot,hp,hhandle,hguid,hshare⟩ := id hfst
      cases frame with
      | uninstalling userHandle p protocol interface =>
        dsimp only [Frame.pointer, Frame.userHandle, Frame.protocol] at hp hhandle hguid ⊢
        obtain rfl := hhandle
        obtain rfl := hguid
        rw [hp]
        dsimp only
        rw [if_neg Bool.false_ne_true, if_pos (hdb.linked.validate_iff.mpr (hdb.linked.mem_handleList hp))]
        refine ⟨_, rfl, wellformed_settle hdb hothers hrest (wellformed_uninstallLoop hdb hp _ _ interface)
          (fun other hother => stays_uninstallLoop hdb hp (fun heq => ?_) interface)
          fun _ _ _ => ⟨hfst, hbelow⟩⟩
        exact Bool.noConfusion (hbelow other hother heq.symm).1
      | opening userHandle p protocol interface image controller mode =>
        dsimp only [Frame.pointer] at hp ⊢
        rw [hp]
        refine ⟨_, rfl, wellformed_settle hdb hothers hrest (wellformed_openLoop hdb hp (hshare rfl))
          (fun other hother => stays_openLoop hp fun hset heq => ?_) fun _ _ _ => ⟨hfst, hbelow⟩⟩
        exact Bool.false_ne_true ((hbelow other hother heq.symm).2.symm.trans hset)

theorem step_wellformed {action : Action} (hw : m.Wellformed) (hsound : Sound dxeCore m action) :
    ∃ m', step dxeCore m action = some m' ∧ m'.Wellformed := by
  cases action with
  | install userHandle protocol interface =>
    exact ⟨_, rfl, wellformed_install hw.db hsound interface,
      fun frame hframe => (hw.frames frame hframe).stays (stays_install hw.db hsound interface), hw.apart⟩
  | uninstall userHandle protocol interface =>
    refine ⟨_, rfl, wellformed_settle hw.db hw.frames hw.apart (wellformed_uninstall hw.db _ _ _)
      (fun other hother => stays_uninstall hw.db (hsound other hother)) fun _ _ hwaits => ?_⟩
    obtain ⟨hframe,hfind⟩ := uninstall_waits hw.db hwaits
    exact ⟨hframe, fun other hother heq => absurd (hfind.trans (congrArg some heq)) (hsound other hother)⟩
  | openProtocol userHandle protocol image controller mode =>
    refine ⟨_, rfl, wellformed_settle hw.db hw.frames hw.apart (wellformed_open hw.db _ _ _ _ mode)
      (fun other hother => stays_open fun hset hexcl => hsound hexcl other hother hset) fun _ _ hwaits => ?_⟩
    obtain ⟨hframe,hexcl,hget⟩ := open_waits hw.db hwaits
    refine ⟨hframe, fun other hother heq => ⟨rfl, Bool.eq_false_iff.mpr fun hset => ?_⟩⟩
    exact hsound hexcl other hother hset (hget.trans (congrArg some heq))
  | closeProtocol userHandle protocol agent controller =>
    exact ⟨_, rfl, wellformed_close hw.db userHandle protocol agent controller,
      fun frame hframe => (hw.frames frame hframe).stays (stays_close _ _ _ _), hw.apart⟩
  | resume status => exact resume_wellformed hw

def SoundRun (dxeCore : Nat) : Machine → List Action → Prop
  | _, [] => True
  | m, action :: actions =>
    Sound dxeCore m action ∧ ∀ m', step dxeCore m action = some m' → SoundRun dxeCore m' actions

theorem run_wellformed {actions : List Action} (hw : m.Wellformed) (hsound : SoundRun dxeCore m actions) :
    ∃ m', run dxeCore m actions = some m' ∧ m'.Wellformed := by
  induction actions generalizing m with
  | nil => exact ⟨m, rfl, hw⟩
  | cons action actions ih =>
    obtain ⟨m₁,hstep,hw₁⟩ := step_wellformed hw hsound.1
    obtain ⟨m',hrun,hw'⟩ := ih hw₁ (hsound.2 m₁ hstep)
    refine ⟨m', ?_, hw'⟩
    rw [run, hstep]
    exact hrun

theorem wellformed_initial (pool : List Bool) : (Database.initial pool).Wellformed := by
  have hprot : ∀ p prot, (Database.initial pool).prot p ≠ some prot := fun _ _ hp => (nomatch hp)
  have hlist : ∀ h, h ∉ (Database.initial pool).handleList := fun _ hh => (nomatch hh)
  have hlink : (Database.initial pool).Linked := by
    constructor
    · exact nodup_nil
    · exact fun h => ⟨fun hh => absurd hh (hlist h), fun hsome => absurd hsome Bool.false_ne_true⟩
    · exact fun _ => nodup_nil
    · exact fun h p => ⟨fun hp => absurd hp not_mem_nil, fun ⟨prot, hp, _⟩ => absurd hp (hprot p prot)⟩
    · exact fun guid p => ⟨fun hp => absurd hp not_mem_nil, fun ⟨prot, hp, _⟩ => absurd hp (hprot p prot)⟩
    · exact fun _ => nodup_nil
    · exact fun p prot hp => absurd hp (hprot p prot)
    · exact ⟨Nat.one_pos, fun h hh => absurd hh (hlist h), fun p prot hp => absurd hp (hprot p prot)⟩
  constructor
  · exact hlink
  · exact fun h hh => absurd hh (hlist h)
  · exact fun p q prot prot' hp => absurd hp (hprot p prot)
  · exact fun p prot hp => absurd hp (hprot p prot)

/-- Over every run of calls from the start whose steps meet the condition nothing that has been freed is used,
and the database is consistent. -/
theorem database_consistent (pool : List Bool) (actions : List Action)
    (hsound : SoundRun dxeCore ⟨Database.initial pool, []⟩ actions) :
    ∃ m', run dxeCore ⟨Database.initial pool, []⟩ actions = some m' ∧ m'.db.Consistent := by
  obtain ⟨m',hrun,hw⟩ := run_wellformed
    ⟨wellformed_initial pool, fun frame hframe => absurd hframe not_mem_nil, Pairwise.nil⟩ hsound
  exact ⟨m', hrun, hw.db.consistent⟩

end

/-- While an uninstall waits, the driver closes the interface and uninstalls it itself: the first call goes on
with an interface and a handle that have been freed. -/
theorem uninstall_uses_freed : ¬ ∀ (dxeCore : Nat) (pool : List Bool) (actions : List Action),
      ∃ m, run dxeCore ⟨Database.initial pool, []⟩ actions = some m ∧ m.db.Consistent := by
  intro hall
  obtain ⟨m,hrun,-⟩ := hall 0 [] [.install 0 7 70, .install 0 8 80, .openProtocol 3 7 6 6 .byDriver,
    .uninstall 3 7 70, .closeProtocol 3 7 6 6, .uninstall 3 7 70, .resume .success]
  cases hrun

/-- The driver closes the interface, and uninstalls another one. -/
theorem database_consistent_uninstalled :
    ∃ m, run 0 ⟨Database.initial [], []⟩ [.install 0 7 70, .install 0 8 80, .openProtocol 3 7 6 6 .byDriver,
      .uninstall 3 7 70, .closeProtocol 3 7 6 6, .uninstall 6 8 80, .resume .success] = some m ∧
        m.db.Consistent := by
  refine database_consistent [] _ ⟨rfl, fun m hm => ?_⟩
  obtain rfl := Option.some.inj hm
  refine ⟨rfl, fun m hm => ?_⟩
  obtain rfl := Option.some.inj hm
  refine ⟨nofun, fun m hm => ?_⟩
  obtain rfl := Option.some.inj hm
  refine ⟨fun frame hframe => absurd hframe not_mem_nil, fun m hm => ?_⟩
  obtain rfl := Option.some.inj hm
  refine ⟨trivial, fun m hm => ?_⟩
  obtain rfl := Option.some.inj hm
  refine ⟨fun frame hframe => ?_, fun m hm => ?_⟩
  · obtain rfl := mem_singleton.mp hframe
    decide
  obtain rfl := Option.some.inj hm
  exact ⟨trivial, fun _ _ => trivial⟩

end Liano.Handle
