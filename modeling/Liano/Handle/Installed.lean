import Liano.Handle.Database
import Mathlib.Data.List.Perm.Basic

/-! What is installed in the handle database: the GUID and interface pairs on every handle, and what an
install, an uninstall and a lookup do to them. -/
namespace Liano.Handle

open Function (update update_idem update_of_ne update_self)
open List

def Database.installed (db : Database) (userHandle : Nat) : Option (List (Guid × Nat)) :=
  (db.handle userHandle).map fun handle => handle.protocols.filterMap db.pairOf

def Database.pairsOn (db : Database) (userHandle : Nat) : List (Guid × Nat) :=
  (db.protocolsOf userHandle).filterMap db.pairOf

def Database.OnlyQueries (db : Database) : Prop :=
  ∀ p prot, db.prot p = some prot → prot.openListCount = prot.openList.length ∧
    ∀ data ∈ prot.openList, data.attributes.isQuery = true

structure Database.Ready (db : Database) : Prop where
  linked : db.Linked
  queries : db.OnlyQueries

section
variable {db db' : Database} {h p : Nat} {prot : ProtocolInterface} {pair : Guid × Nat}

theorem installed_eq (hl : db.Linked) :
    db.installed h = if h ∈ db.handleList then some (db.pairsOn h) else none := by
  unfold Database.installed Database.pairsOn Database.protocolsOf
  cases hh : db.handle h with
  | none =>
    rw [if_neg]
    · rfl
    · rw [hl.valid, hh]
      exact Bool.false_ne_true
  | some handle =>
    rw [if_pos]
    · rfl
    · rw [hl.valid, hh]
      rfl

structure Looks (db db' : Database) : Prop where
  ready : db.Ready → db'.Ready
  installed : db'.installed = db.installed
  handleList : db'.handleList = db.handleList
  entries : ∀ guid ∈ db.entries, guid ∈ db'.entries

theorem Looks.refl (db : Database) : Looks db db := ⟨id, rfl, rfl, fun _ h => h⟩

theorem Looks.trans {db'' : Database} (h : Looks db db') (h' : Looks db' db'') : Looks db db'' where
  ready hr := h'.ready (h.ready hr)
  installed := h'.installed.trans h.installed
  handleList := h'.handleList.trans h.handleList
  entries guid hguid := h'.entries guid (h.entries guid hguid)

theorem looks_allocated (db : Database) : Looks db db.allocated :=
  ⟨fun hr => ⟨hr.linked.allocated, hr.queries⟩, rfl, rfl, fun _ h => h⟩

theorem pairOf_setOpens (hp : db.prot p = some prot) (l : List OpenData) (n : Nat) :
    (db.setOpens p prot l n).pairOf = db.pairOf := by
  funext q
  unfold Database.pairOf Database.setOpens
  dsimp only
  by_cases hq : q = p
  · rw [hq, update_self, hp]
    rfl
  · rw [update_of_ne hq]

theorem onlyQueries_setOpens (hq : db.OnlyQueries) {l : List OpenData} {n : Nat} (hn : n = l.length)
    (hall : ∀ data ∈ l, data.attributes.isQuery = true) : (db.setOpens p prot l n).OnlyQueries := by
  intro q prot' hprot'
  change update db.prot p _ q = some prot' at hprot'
  by_cases hqp : q = p
  · rw [hqp, update_self] at hprot'
    rw [← Option.some.inj hprot']
    exact ⟨hn, hall⟩
  · rw [update_of_ne hqp] at hprot'
    exact hq q prot' hprot'

theorem looks_setOpens (hp : db.prot p = some prot) {l : List OpenData} {n : Nat}
    (hl : db.OnlyQueries → n = l.length ∧ ∀ data ∈ l, data.attributes.isQuery = true) :
    Looks db (db.setOpens p prot l n) where
  ready hr := ⟨hr.linked.setOpens hp l n, onlyQueries_setOpens hr.queries (hl hr.queries).1 (hl hr.queries).2⟩
  installed := by
    unfold Database.installed
    rw [pairOf_setOpens hp]
    rfl
  handleList := rfl
  entries _ h := h

theorem scanOpens_counted {image controller : Nat} {mode : OpenMode} {seen l l' : List OpenData}
    {byDriver exclusive : Bool}
    (h : scanOpens image controller mode byDriver exclusive seen l = .counted l') :
    l'.length = (seen ++ l).length ∧ l'.map (·.attributes) = (seen ++ l).map (·.attributes) := by
  induction l generalizing seen byDriver exclusive with
  | nil => cases h
  | cons data rest ih =>
    rw [scanOpens] at h
    split at h
    · cases h
    split at h
    · obtain rfl := OpenScan.counted.inj h
      simp
    · obtain ⟨hlen,hmap⟩ := ih h
      rw [append_assoc] at hlen hmap
      exact ⟨hlen, hmap⟩

theorem looks_handleProtocol (dxeCore : Nat) (db : Database) (userHandle : Nat) (protocol : Guid) :
    Looks db (coreHandleProtocol dxeCore db userHandle protocol).2 := by
  unfold coreHandleProtocol
  split
  · exact Looks.refl db
  split
  · exact Looks.refl db
  split
  · exact Looks.refl db
  rename_i p _ _ prot hp
  split
  · exact Looks.refl db
  · rename_i l hscan
    obtain ⟨hlen,hmap⟩ := scanOpens_counted hscan
    refine looks_setOpens hp fun hq => ⟨(hq p prot hp).1.trans hlen.symm, fun data hdata => ?_⟩
    have hattr : data.attributes ∈ l.map (·.attributes) := mem_map_of_mem hdata
    rw [hmap, nil_append] at hattr
    obtain ⟨old,hold,heq⟩ := mem_map.mp hattr
    rw [← heq]
    exact (hq p prot hp).2 old hold
  · have hadd : Looks db (addOpen db p prot dxeCore 0 .byHandleProtocol).2 := by
      unfold addOpen
      split
      · exact Looks.refl db
      split
      · refine (looks_allocated db).trans (@looks_setOpens db.allocated p prot hp _ _ fun hq =>
          ⟨?_, fun data hdata => ?_⟩)
        · rw [length_append, (hq p prot hp).1]
          rfl
        · rcases mem_append.mp hdata with hold | hnew
          · exact (hq p prot hp).2 data hold
          · rw [mem_singleton.mp hnew]
            rfl
      · exact looks_allocated db
    split
    · exact hadd
    · exact hadd

theorem installed_linkInterface (hl : db.Linked) (hp : db.prot p = none) (guid : Guid) (interface : Nat) :
    (linkInterface db p h guid interface).installed =
      update db.installed h (some ((guid,interface) :: db.pairsOn h)) := by
  have hpairs : ∀ h', (db.protocolsOf h').filterMap (linkInterface db p h guid interface).pairOf =
      db.pairsOn h' := by
    intro h'
    refine filterMap_congr fun q hq => ?_
    have hqp : q ≠ p := by
      rintro rfl
      obtain ⟨prot,hprot,-⟩ := (hl.onHandle h' q).mp hq
      rw [hp] at hprot
      cases hprot
    unfold Database.pairOf linkInterface
    dsimp only
    rw [update_of_ne hqp]
  funext h'
  change (update db.handle h _ h').map _ = _
  by_cases hh : h' = h
  · rw [hh, update_self, update_self, Option.map_some, filterMap_cons, hpairs]
    unfold Database.pairOf linkInterface
    dsimp only
    rw [update_self]
    rfl
  rw [update_of_ne hh, update_of_ne hh]
  unfold Database.installed
  cases hhnd : db.handle h' with
  | none => rfl
  | some handle =>
    have h := hpairs h'
    unfold Database.pairsOn at h
    rw [protocolsOf_of_handle hhnd] at h
    exact congrArg some h

theorem onlyQueries_linkInterface (hq : db.OnlyQueries) (guid : Guid) (interface : Nat) :
    (linkInterface db p h guid interface).OnlyQueries := by
  intro q prot' hprot'
  change update db.prot p _ q = some prot' at hprot'
  by_cases hqp : q = p
  · rw [hqp, update_self] at hprot'
    rw [← Option.some.inj hprot']
    exact ⟨rfl, fun data hdata => by cases hdata⟩
  · rw [update_of_ne hqp] at hprot'
    exact hq q prot' hprot'

theorem looks_findProtocolEntry (db : Database) (protocol : Guid) :
    Looks db (coreFindProtocolEntry db protocol).2 := by
  refine ⟨fun hr => ⟨hr.linked.findProtocolEntry protocol, ?_⟩, ?_, ?_, ?_⟩
  · unfold coreFindProtocolEntry
    split
    · exact hr.queries
    · split
      · exact hr.queries
      · exact hr.queries
  · unfold coreFindProtocolEntry
    split
    · rfl
    · split
      · rfl
      · rfl
  · unfold coreFindProtocolEntry
    split
    · rfl
    · split
      · rfl
      · rfl
  · intro guid hguid
    unfold coreFindProtocolEntry
    split
    · exact hguid
    · split
      · exact mem_append_left _ hguid
      · exact hguid

theorem mem_entries_findProtocolEntry {protocol : Guid} (h : (coreFindProtocolEntry db protocol).1 = true) :
    protocol ∈ (coreFindProtocolEntry db protocol).2.entries := by
  unfold coreFindProtocolEntry at h ⊢
  split
  · assumption
  rename_i hnot
  rw [if_neg hnot] at h
  split
  · exact mem_append_right _ (mem_singleton_self _)
  · rename_i hno
    rw [if_neg hno] at h
    cases h

theorem installed_newHandle (db : Database) :
    (newHandle db).installed = update db.installed db.next (some []) := by
  funext h
  change (update db.handle db.next (some ⟨db.key+1, []⟩) h).map _ = _
  by_cases hh : h = db.next
  · rw [hh, update_self, update_self]
    rfl
  · rw [update_of_ne hh, update_of_ne hh]
    rfl

inductive Installs (db : Database) (h : Nat) (pair : Guid × Nat) : EfiStatus × Nat × Database → Prop
  | failed (status : EfiStatus) (db' : Database) (hstatus : status ≠ .success) (hready : db'.Ready)
      (hinstalled : db'.installed = db.installed) : Installs db h pair (status,h,db')
  | existing (l : List (Guid × Nat)) (db' : Database) (hh : h ≠ 0) (hbefore : db.installed h = some l)
      (hready : db'.Ready)
      (hinstalled : db'.installed = update db.installed h (some (pair :: l))) :
      Installs db h pair (.success, h, db')
  | created (h' : Nat) (db' : Database) (hh : h = 0) (hh' : h' ≠ 0) (hbefore : db.installed h' = none)
      (hready : db'.Ready)
      (hinstalled : db'.installed = update db.installed h' (some [pair])) :
      Installs db h pair (.success, h', db')

theorem installs_installInterface (hr : db.Ready) (hent : pair.1 ∈ db.entries) :
    Installs db h pair (installInterface db h pair.1 pair.2) := by
  have halloc := hr.linked.allocated
  have hfree : db.prot db.next = none := hr.linked.next_free.1
  unfold installInterface
  split
  · exact .failed _ _ (by decide) ⟨halloc, hr.queries⟩ rfl
  split
  · rename_i hh
    split
    · exact .failed _ _ (by decide) ⟨halloc.allocated, hr.queries⟩ rfl
    have hnew : db.allocated.next ∉ db.handleList := halloc.next_free.2
    refine .created _ _ hh (ne_of_gt halloc.fresh.1) ?_ ⟨?_, onlyQueries_linkInterface hr.queries _ _⟩ ?_
    · rw [installed_eq hr.linked, if_neg hnew]
    · exact halloc.newHandle.linkInterface (mem_append_right _ (mem_singleton_self _)) hfree
        (Nat.lt_succ_of_lt (Nat.lt_succ_self _)) hent
    · rw [installed_linkInterface halloc.newHandle hfree, installed_newHandle, update_idem]
      unfold Database.pairsOn
      rw [protocolsOf_newHandle halloc, halloc.protocolsOf_nil hnew]
      rfl
  · rename_i hh
    split
    · rename_i hval
      have hmem : h ∈ db.handleList := halloc.validate_iff.mp hval
      refine .existing (db.pairsOn h) _ hh ?_ ⟨?_, onlyQueries_linkInterface hr.queries _ _⟩ ?_
      · rw [installed_eq hr.linked, if_pos hmem]
      · exact halloc.linkInterface hmem hfree (Nat.lt_succ_self _) hent
      · exact installed_linkInterface halloc hfree _ _
    · exact .failed _ _ (by decide) ⟨halloc, hr.queries⟩ rfl

theorem Installs.after {r : EfiStatus × Nat × Database} (hlooks : Looks db db')
    (h' : Installs db' h pair r) : Installs db h pair r := by
  have hsame := hlooks.installed
  cases h' with
  | failed status db'' hstatus hready hinst =>
    exact .failed status db'' hstatus hready (hinst.trans hsame)
  | existing l db'' hh hbefore hready hinst =>
    rw [hsame] at hbefore hinst
    exact .existing l db'' hh hbefore hready hinst
  | created h' db'' hh hh' hbefore hready hinst =>
    rw [hsame] at hbefore hinst
    exact .created h' db'' hh hh' hbefore hready hinst

theorem installs_installOnEntry {status : EfiStatus} (hst : status ≠ .success) (hr : db.Ready) :
    Installs db h pair (installOnEntry status db h pair.1 pair.2) := by
  have hlooks := looks_findProtocolEntry db pair.1
  unfold installOnEntry
  split
  · rename_i hent
    exact (installs_installInterface (hlooks.ready hr) (mem_entries_findProtocolEntry hent)).after hlooks
  · exact .failed _ _ hst (hlooks.ready hr) hlooks.installed

theorem installs_coreInstallProtocolInterface (dxeCore : Nat) (hr : db.Ready) :
    Installs db h pair (coreInstallProtocolInterface dxeCore db h pair.1 pair.2) := by
  have hlooks := looks_handleProtocol dxeCore db h pair.1
  unfold coreInstallProtocolInterface
  split
  · split
    · exact .failed _ _ (by decide) (hlooks.ready hr) hlooks.installed
    · rename_i hst
      exact (installs_installOnEntry hst (hlooks.ready hr)).after hlooks
  · exact installs_installOnEntry (by decide) hr

theorem filterMap_erase_of_find {α β : Type} [BEq α] [LawfulBEq α] [BEq β] [LawfulBEq β] {f : α → Option β} {l : List α}
    {a : α} {b : β} (h : l.find? (fun x => f x == some b) = some a) :
    (l.erase a).filterMap f = (l.filterMap f).erase b := by
  induction l with
  | nil => cases h
  | cons x rest ih =>
    cases hx : (f x == some b) with
    | true =>
      rw [find?_cons_of_pos (by simpa using hx)] at h
      rw [← Option.some.inj h, erase_cons_head, filterMap_cons_some (beq_iff_eq.mp hx), erase_cons_head]
    | false =>
      rw [find?_cons_of_neg (by simpa using hx)] at h
      have hne : x ≠ a := by
        rintro rfl
        have hfnd := find?_some h
        rw [hx] at hfnd
        cases hfnd
      rw [erase_cons_tail (by simpa using hne)]
      cases hfx : f x with
      | none => rw [filterMap_cons_none hfx, filterMap_cons_none hfx, ih h]
      | some c =>
        have hcb : c ≠ b := by
          rintro rfl
          rw [hfx, beq_self_eq_true] at hx
          cases hx
        rw [filterMap_cons_some hfx, filterMap_cons_some hfx, erase_cons_tail (by simpa using hcb), ih h]

theorem findProtocolInterface_some (h' : coreFindProtocolInterface db h pair.1 pair.2 = some p) :
    p ∈ db.protocolsOf h ∧ db.pairOf p = some pair ∧
      ((db.protocolsOf h).erase p).filterMap db.pairOf = (db.pairsOn h).erase pair := by
  unfold coreFindProtocolInterface at h'
  split at h'
  · have hfnd := find?_some h'
    exact ⟨mem_of_find?_eq_some h', by simpa using hfnd, filterMap_erase_of_find h'⟩
  · cases h'

theorem findProtocolInterface_none (hl : db.Linked)
    (h' : coreFindProtocolInterface db h pair.1 pair.2 = none) : pair ∉ db.pairsOn h := by
  intro hmem
  obtain ⟨p,hp,hpair⟩ := mem_filterMap.mp hmem
  obtain ⟨prot,hprot,-⟩ := (hl.onHandle h p).mp hp
  unfold coreFindProtocolInterface at h'
  split at h'
  · exact absurd hpair (by simpa using find?_eq_none.mp h' p hp)
  rename_i hent
  unfold Database.pairOf at hpair
  rw [hprot, Option.map_some] at hpair
  have hguid : prot.protocol = pair.1 := congrArg Prod.fst (Option.some.inj hpair)
  exact hent (hguid ▸ hl.entry p prot hprot)

theorem pairsOn_eq_nil (hl : db.Linked) : db.pairsOn h = [] ↔ db.protocolsOf h = [] := by
  constructor
  · intro hnil
    rw [eq_nil_iff_forall_not_mem]
    intro p hp
    obtain ⟨prot,hprot,-⟩ := (hl.onHandle h p).mp hp
    have hnone := filterMap_eq_nil_iff.mp hnil p hp
    unfold Database.pairOf at hnone
    rw [hprot] at hnone
    cases hnone
  · intro hnil
    unfold Database.pairsOn
    rw [hnil]
    rfl

theorem installed_unlinkInterface (hl : db.Linked) (hp : db.prot p = some prot) (hh : prot.handle = h) :
    (unlinkInterface db p prot h).installed =
      update db.installed h (some (((db.protocolsOf h).erase p).filterMap db.pairOf)) := by
  have hpairs : ∀ l : List Nat, p ∉ l →
      l.filterMap (unlinkInterface db p prot h).pairOf = l.filterMap db.pairOf := by
    intro l hnot
    refine filterMap_congr fun q hq => ?_
    have hqp : q ≠ p := by
      rintro rfl
      exact hnot hq
    unfold Database.pairOf unlinkInterface
    dsimp only
    rw [update_of_ne hqp]
  funext h'
  change (update db.handle h _ h').map _ = _
  by_cases hhh : h' = h
  · rw [hhh, update_self, update_self, Option.map_some]
    exact congrArg some (hpairs _ (hl.protocols h).not_mem_erase)
  rw [update_of_ne hhh, update_of_ne hhh]
  unfold Database.installed
  cases hhnd : db.handle h' with
  | none => rfl
  | some handle =>
    refine congrArg some (hpairs _ fun hmem => hhh ?_)
    rw [← protocolsOf_of_handle hhnd] at hmem
    obtain ⟨prot',hprot',hhandle'⟩ := (hl.onHandle h' p).mp hmem
    rw [← hhandle', ← hh, Option.some.inj (hp.symm.trans hprot')]

theorem installed_dropHandle (hl : db.Linked) (hmem : h ∈ db.handleList) : (dropHandle db h).installed =
      update db.installed h (if db.pairsOn h = [] then none else some (db.pairsOn h)) := by
  unfold dropHandle
  split
  · rename_i hnil
    rw [if_pos ((pairsOn_eq_nil hl).mpr hnil)]
    funext h'
    change (update db.handle h none h').map _ = _
    by_cases hh : h' = h
    · rw [hh, update_self, update_self]
      rfl
    · rw [update_of_ne hh, update_of_ne hh]
      rfl
  · rename_i hnil
    rw [if_neg fun hpairs => hnil ((pairsOn_eq_nil hl).mp hpairs)]
    have hsame := installed_eq (h := h) hl
    rw [if_pos hmem] at hsame
    rw [← hsame, Function.update_eq_self]

inductive Uninstalls (db : Database) (h : Nat) (pair : Guid × Nat) : Outcome → Prop
  | failed (status : EfiStatus) (hstatus : status ≠ .success)
      (hnot : ∀ l, db.installed h = some l → pair ∉ l) : Uninstalls db h pair (.returns status db)
  | removed (l : List (Guid × Nat)) (db' : Database) (hbefore : db.installed h = some l) (hmem : pair ∈ l)
      (hready : db'.Ready)
      (hinstalled : db'.installed =
        update db.installed h (if l.erase pair = [] then none else some (l.erase pair)))
      (hpool : db'.pool = db.pool) (hentries : db'.entries = db.entries) :
      Uninstalls db h pair (.returns .success db')

theorem onlyQueries_unlinkInterface (hq : db.OnlyQueries) : (unlinkInterface db p prot h).OnlyQueries := by
  intro q prot' hprot'
  change update db.prot p none q = some prot' at hprot'
  by_cases hqp : q = p
  · rw [hqp, update_self] at hprot'
    cases hprot'
  · rw [update_of_ne hqp] at hprot'
    exact hq q prot' hprot'

theorem onlyQueries_dropHandle (hq : db.OnlyQueries) : (dropHandle db h).OnlyQueries := by
  unfold dropHandle
  split
  · exact hq
  · exact hq

theorem dropHandle_pool (db : Database) (h : Nat) :
    (dropHandle db h).pool = db.pool ∧ (dropHandle db h).entries = db.entries := by
  unfold dropHandle
  split
  · exact ⟨rfl, rfl⟩
  · exact ⟨rfl, rfl⟩

theorem removeInterface_found (hr : db.Ready)
    (hfind : coreFindProtocolInterface db h pair.1 pair.2 = some p) (hp : db.prot p = some prot) :
    ∃ l db', removeInterface db h pair.1 pair.2 = (.success, db') ∧ db.installed h = some l ∧ pair ∈ l ∧
      db'.Ready ∧ db'.installed =
        update db.installed h (if l.erase pair = [] then none else some (l.erase pair)) ∧
      db'.pool = db.pool ∧ db'.entries = db.entries := by
  obtain ⟨hmem,hpair,herase⟩ := findProtocolInterface_some hfind
  obtain ⟨prot',hprot',hhnd⟩ := (hr.linked.onHandle h p).mp hmem
  obtain rfl := Option.some.inj (hp.symm.trans hprot')
  have hlist : h ∈ db.handleList := hhnd ▸ hr.linked.mem_handleList hp
  have hunlinked : (unlinkInterface db p prot h).Linked := hhnd ▸ hr.linked.unlinkInterface hp
  have hinst := installed_unlinkInterface hr.linked hp hhnd
  rw [herase] at hinst
  have hpairs : (unlinkInterface db p prot h).pairsOn h = (db.pairsOn h).erase pair := by
    have heq := installed_eq (h := h) hunlinked
    rw [hinst, update_self, if_pos (show h ∈ (unlinkInterface db p prot h).handleList from hlist)]
      at heq
    exact (Option.some.inj heq).symm
  have hdrop := installed_dropHandle (h := h) hunlinked hlist
  rw [hpairs, hinst, update_idem] at hdrop
  have hpool := dropHandle_pool (unlinkInterface db p prot h) h
  unfold removeInterface
  rw [hfind]
  dsimp only
  rw [hp]
  refine ⟨db.pairsOn h, _, rfl, ?_, mem_filterMap.mpr ⟨p, hmem, hpair⟩,
    ⟨hunlinked.dropHandle h, onlyQueries_dropHandle (onlyQueries_unlinkInterface hr.queries)⟩, hdrop, hpool⟩
  rw [installed_eq hr.linked, if_pos hlist]

theorem firstDriver_queries {l : List OpenData} (hall : ∀ data ∈ l, data.attributes.isQuery = true) :
    firstDriver l = none := by
  refine find?_eq_none.mpr fun data hdata hdriver => ?_
  have hquery := hall data hdata
  cases hattr : data.attributes <;> rw [hattr] at hquery hdriver <;> cases hquery <;> cases hdriver

theorem looks_removeQueries (hp : db.prot p = some prot) (hr : db.Ready) :
    (removeQueries db p prot).Ready ∧ (removeQueries db p prot).installed = db.installed := by
  have hlooks : Looks db (removeQueries db p prot) := by
    refine looks_setOpens hp fun hq => ⟨?_, fun data hdata => ?_⟩
    · rw [(hq p prot hp).1, filter_eq_self.mpr (hq p prot hp).2, Nat.sub_self]
      symm
      rw [length_eq_zero_iff, filter_eq_nil_iff]
      intro data hdata
      rw [(hq p prot hp).2 data hdata]
      exact Bool.false_ne_true
    · exact (hq p prot hp).2 data (mem_of_mem_filter hdata)
  exact ⟨hlooks.ready hr, hlooks.installed⟩

theorem findProtocolInterface_removeQueries (hp : db.prot p = some prot) :
    coreFindProtocolInterface (removeQueries db p prot) = coreFindProtocolInterface db := by
  funext h guid interface
  have hpairs := pairOf_setOpens hp (prot.openList.filter fun data => !data.attributes.isQuery)
    (prot.openListCount - (prot.openList.filter fun data => data.attributes.isQuery).length)
  unfold coreFindProtocolInterface removeQueries
  rw [hpairs]
  rfl

theorem uninstalls_coreUninstallProtocolInterface (hr : db.Ready) :
    Uninstalls db h pair (coreUninstallProtocolInterface db h pair.1 pair.2) := by
  unfold coreUninstallProtocolInterface
  split
  · rename_i hval
    refine .failed _ (by decide) fun l hl => ?_
    rw [installed_eq hr.linked, if_neg] at hl
    · cases hl
    · intro hmem
      rw [hr.linked.validate_iff.mpr hmem] at hval
      cases hval
  · have hnot : coreFindProtocolInterface db h pair.1 pair.2 = none → ∀ l, db.installed h = some l → pair ∉ l := by
      intro hnone l hl
      rw [installed_eq hr.linked] at hl
      split at hl
      · rw [← Option.some.inj hl]
        exact findProtocolInterface_none hr.linked hnone
      · cases hl
    split
    · rename_i hnone
      exact .failed _ (by decide) (hnot hnone)
    rename_i p hfind
    obtain ⟨hmem,-,-⟩ := findProtocolInterface_some hfind
    obtain ⟨prot,hp,-⟩ := (hr.linked.onHandle h p).mp hmem
    rw [hp]
    dsimp only
    obtain ⟨hcnt,hall⟩ := hr.queries p prot hp
    unfold uninstallLoop
    rw [firstDriver_queries hall]
    dsimp only
    unfold uninstallDisconnected
    rw [filter_eq_self.mpr hall, hcnt, Nat.sub_self, if_neg (lt_irrefl 0)]
    obtain ⟨hready,hsame⟩ := looks_removeQueries hp hr
    have hfind' := hfind
    rw [← findProtocolInterface_removeQueries hp] at hfind'
    have hp' : (removeQueries db p prot).prot p = some
        { prot with
          openList := prot.openList.filter fun data => !data.attributes.isQuery
          openListCount := prot.openListCount -
            (prot.openList.filter fun data => data.attributes.isQuery).length } := update_self _ _ _
    obtain ⟨l,db',heq,hbef,hmem',hready',hinst,hpool,hents⟩ := removeInterface_found hready hfind' hp'
    rw [hsame] at hbef hinst
    rw [heq]
    exact .removed l db' hbef hmem' hready' hinst hpool hents

/-- A GUID that is not on the handle, and that has an entry: only the interface is allocated. -/
theorem install_absent (dxeCore : Nat) (hr : db.Ready) {l : List (Guid × Nat)} (hl : db.installed h = some l)
    (hguid : ∀ other ∈ l, other.1 ≠ pair.1) (hent : pair.1 ∈ db.entries) :
    ∃ db', db'.Ready ∧ db'.pool = db.pool.tail ∧ db'.entries = db.entries ∧
      coreInstallProtocolInterface dxeCore db h pair.1 pair.2 =
        (if db.allocates then .success else .outOfResources, h, db') ∧ db'.installed =
        if db.allocates then update db.installed h (some (pair :: l)) else db.installed := by
  have hmem : h ∈ db.handleList := by
    by_contra hnot
    rw [installed_eq hr.linked, if_neg hnot] at hl
    cases hl
  have hval : coreValidateHandle db h = true := hr.linked.validate_iff.mpr hmem
  rw [installed_eq hr.linked, if_pos hmem] at hl
  obtain rfl := Option.some.inj hl
  have habsent : coreGetProtocolInterface db h pair.1 = none := by
    unfold coreGetProtocolInterface
    rw [if_pos hval, find?_eq_none]
    intro p hp hfnd
    obtain ⟨prot,hprot,-⟩ := (hr.linked.onHandle h p).mp hp
    unfold Database.guidOf at hfnd
    rw [hprot, Option.map_some, beq_iff_eq] at hfnd
    refine hguid (prot.protocol,prot.interface) (mem_filterMap.mpr ⟨p, hp, ?_⟩) (Option.some.inj hfnd)
    unfold Database.pairOf
    rw [hprot]
    rfl
  have hunsupported : coreHandleProtocol dxeCore db h pair.1 = (.unsupported, db) := by
    unfold coreHandleProtocol
    rw [hval, habsent]
    rfl
  have hfnd : coreFindProtocolEntry db pair.1 = (true,db) := by
    unfold coreFindProtocolEntry
    exact if_pos hent
  have hzero : h ≠ 0 := (hr.linked.fresh.2.1 h hmem).1
  unfold coreInstallProtocolInterface
  rw [if_pos hzero, hunsupported]
  dsimp only
  rw [if_neg (by decide)]
  unfold installOnEntry
  rw [hfnd, if_pos rfl]
  dsimp only
  unfold installInterface
  cases hpool : db.allocates with
  | false => exact ⟨db.allocated, ⟨hr.linked.allocated, hr.queries⟩, rfl, rfl, rfl, rfl⟩
  | true =>
    refine ⟨linkInterface db.allocated db.next h pair.1 pair.2, ⟨?_, onlyQueries_linkInterface hr.queries _ _⟩, rfl,
      rfl, ?_, ?_⟩
    · exact hr.linked.allocated.linkInterface hmem hr.linked.next_free.1 (Nat.lt_succ_self _) hent
    · rw [if_neg (by decide), if_neg hzero, if_pos hval, if_pos rfl]
    · exact installed_linkInterface hr.linked.allocated hr.linked.next_free.1 _ _

end

end Liano.Handle
