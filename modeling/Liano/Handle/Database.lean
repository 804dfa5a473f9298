import Liano.Efi
import Mathlib.Data.List.Nodup
import Mathlib.Logic.Function.Basic

/-! The handle and protocol database (Core/Dxe/Hand/Handle.c): handles, the protocol interfaces on them
and who has opened an interface. An object is named by the number under which the pool has handed it
out; a number is not handed out twice. -/
namespace Liano.Handle

open Function (update update_of_ne update_self)
open List

abbrev Guid := Nat

/-- The attributes of OpenProtocol. -/
inductive OpenMode
  | byHandleProtocol | getProtocol | testProtocol | byChildController | byDriver | exclusive
  | byDriverExclusive
deriving DecidableEq, Repr

/-- EFI_OPEN_PROTOCOL_BY_DRIVER is set. -/
def OpenMode.isByDriver : OpenMode → Bool
  | .byDriver | .byDriverExclusive => true
  | _ => false

/-- EFI_OPEN_PROTOCOL_EXCLUSIVE is set. -/
def OpenMode.isExclusive : OpenMode → Bool
  | .exclusive | .byDriverExclusive => true
  | _ => false

/-- One of BY_HANDLE_PROTOCOL, GET_PROTOCOL and TEST_PROTOCOL is set. -/
def OpenMode.isQuery : OpenMode → Bool
  | .byHandleProtocol | .getProtocol | .testProtocol => true
  | _ => false

/-- OPEN_PROTOCOL_DATA -/
structure OpenData where
  agentHandle : Nat
  controllerHandle : Nat
  attributes : OpenMode
  openCount : Nat
deriving DecidableEq, Repr

structure ProtocolInterface where
  handle : Nat
  protocol : Guid
  interface : Nat
  openList : List OpenData
  openListCount : Nat
deriving DecidableEq, Repr

/-- IHANDLE, with the protocol interfaces from the head of its list on. -/
structure IHandle where
  key : Nat
  protocols : List Nat
deriving DecidableEq, Repr

/-- The database. Of a PROTOCOL_ENTRY the GUID and the interfaces are kept. The pool is what the coming
allocations do, true where they succeed. -/
structure Database where
  handleList : List Nat
  handle : Nat → Option IHandle
  entries : List Guid
  byProtocol : Guid → List Nat
  prot : Nat → Option ProtocolInterface
  key : Nat
  next : Nat
  pool : List Bool

section
variable (db : Database)

def Database.allocates : Bool := db.pool.headD true

def Database.allocated : Database := { db with pool := db.pool.tail, next := db.next + 1 }

def coreValidateHandle (userHandle : Nat) : Bool :=
  decide (userHandle ≠ 0 ∧ userHandle ∈ db.handleList)

def Database.protocolsOf (userHandle : Nat) : List Nat := match db.handle userHandle with
  | none => []
  | some handle => handle.protocols

/-- The GUID and the interface of a PROTOCOL_INTERFACE. -/
def Database.pairOf (p : Nat) : Option (Guid × Nat) :=
  (db.prot p).map fun prot => (prot.protocol,prot.interface)

def coreFindProtocolInterface (userHandle : Nat) (protocol : Guid) (interface : Nat) :
    Option Nat := if protocol ∈ db.entries then
    (db.protocolsOf userHandle).find? fun p => db.pairOf p == some (protocol,interface)
  else none

/-- The GUID of a PROTOCOL_INTERFACE. -/
def Database.guidOf (p : Nat) : Option Guid := (db.prot p).map (·.protocol)

def coreGetProtocolInterface (userHandle : Nat) (protocol : Guid) : Option Nat :=
  if coreValidateHandle db userHandle then
    (db.protocolsOf userHandle).find? fun p => db.guidOf p == some protocol
  else none

/-- CoreFindProtocolEntry with Create, with whether there is an entry then. -/
def coreFindProtocolEntry (protocol : Guid) : Bool × Database :=
  if protocol ∈ db.entries then (true,db)
  else if db.allocates then (true, { db.allocated with entries := db.entries ++ [protocol] })
  else (false,db.allocated)

section
variable (p : Nat) (prot : ProtocolInterface)

def Database.setOpens (openList : List OpenData)
    (openListCount : Nat) : Database := { db with
    prot := update db.prot p (some { prot with openList := openList, openListCount := openListCount }) }

def OpenData.matchesOpen (data : OpenData) (imageHandle controllerHandle : Nat) (attributes : OpenMode) :
    Bool := data.agentHandle == imageHandle && data.attributes == attributes &&
    data.controllerHandle == controllerHandle

/-- What the scan of the open list for an exact match comes to: a driver has opened the interface in the
same way, the count of a record goes up, or there is no match. -/
inductive OpenScan
  | alreadyStarted
  | counted (openList : List OpenData)
  | noMatch (byDriver exclusive : Bool)
deriving DecidableEq, Repr

def scanOpens (imageHandle controllerHandle : Nat) (attributes : OpenMode) (byDriver exclusive : Bool)
    (seen : List OpenData) : List OpenData → OpenScan
  | [] => .noMatch byDriver exclusive
  | data :: rest =>
    if data.attributes.isByDriver && data.matchesOpen imageHandle controllerHandle attributes then
      .alreadyStarted
    else if !data.attributes.isExclusive && data.matchesOpen imageHandle controllerHandle attributes then
      .counted (seen ++ { data with openCount := data.openCount + 1 } :: rest)
    else
      scanOpens imageHandle controllerHandle attributes (byDriver || data.attributes.isByDriver)
        (exclusive || data.attributes.isExclusive) (seen ++ [data]) rest

/-- The new record at the end of the open list; false where there is no memory for it. An open without an
agent leaves none. -/
def addOpen (imageHandle controllerHandle : Nat)
    (attributes : OpenMode) : Bool × Database := if imageHandle = 0 then (true,db)
  else if db.allocates then
    (true, db.allocated.setOpens p prot
      (prot.openList ++ [⟨imageHandle, controllerHandle, attributes, 1⟩]) (prot.openListCount+1))
  else (false,db.allocated)

/-- CoreHandleProtocol: OpenProtocol by the core with BY_HANDLE_PROTOCOL. -/
def coreHandleProtocol (dxeCore : Nat) (db : Database) (userHandle : Nat) (protocol : Guid) :
    EfiStatus × Database := if !coreValidateHandle db userHandle then (.invalidParameter, db)
  else
    match coreGetProtocolInterface db userHandle protocol with
    | none => (.unsupported, db)
    | some p =>
      match db.prot p with
      | none => (.unsupported, db)
      | some prot =>
        match scanOpens dxeCore 0 .byHandleProtocol false false [] prot.openList with
        | .alreadyStarted => (.alreadyStarted, db)
        | .counted openList => (.success, db.setOpens p prot openList prot.openListCount)
        | .noMatch _ _ =>
          if (addOpen db p prot dxeCore 0 .byHandleProtocol).1 then
            (.success, (addOpen db p prot dxeCore 0 .byHandleProtocol).2)
          else (.outOfResources, (addOpen db p prot dxeCore 0 .byHandleProtocol).2)

def linkInterface (p : Nat) (userHandle : Nat) (protocol : Guid) (interface : Nat) :
    Database := { db with
    prot := update db.prot p (some ⟨userHandle, protocol, interface, [], 0⟩)
    handle := update db.handle userHandle
      (some ⟨match db.handle userHandle with | none => db.key | some handle => handle.key,
        p :: db.protocolsOf userHandle⟩)
    byProtocol := update db.byProtocol protocol (db.byProtocol protocol ++ [p]) }

/-- A new handle without an interface, at the tail of gHandleList. -/
def newHandle : Database := { db.allocated with
    handleList := db.handleList ++ [db.next]
    handle := update db.handle db.next (some ⟨db.key+1, []⟩)
    key := db.key + 1 }

section
variable (userHandle : Nat) (protocol : Guid) (interface : Nat)

def installInterface :
    EfiStatus × Nat × Database := if !db.allocates then (.outOfResources, userHandle, db.allocated)
  else if userHandle = 0 then
    if !db.allocated.allocates then (.outOfResources, userHandle, db.allocated.allocated)
    else
      (.success, db.allocated.next,
        linkInterface (newHandle db.allocated) db.next db.allocated.next protocol interface)
  else if coreValidateHandle db userHandle then
    (.success, userHandle, linkInterface db.allocated db.next userHandle protocol interface)
  else (.invalidParameter, userHandle, db.allocated)

def installOnEntry (status : EfiStatus) (db : Database) (userHandle : Nat) (protocol : Guid)
    (interface : Nat) : EfiStatus × Nat × Database := if (coreFindProtocolEntry db protocol).1 then
    installInterface (coreFindProtocolEntry db protocol).2 userHandle protocol interface
  else (status, userHandle, (coreFindProtocolEntry db protocol).2)

/-- CoreInstallProtocolInterface, with the handle in UserHandle then. -/
def coreInstallProtocolInterface (dxeCore : Nat) (db : Database) (userHandle : Nat) (protocol : Guid)
    (interface : Nat) : EfiStatus × Nat × Database := if userHandle ≠ 0 then
    if (coreHandleProtocol dxeCore db userHandle protocol).1 = .success then
      (.invalidParameter, userHandle, (coreHandleProtocol dxeCore db userHandle protocol).2)
    else
      installOnEntry (coreHandleProtocol dxeCore db userHandle protocol).1
        (coreHandleProtocol dxeCore db userHandle protocol).2 userHandle protocol interface
  else installOnEntry .outOfResources db userHandle protocol interface

def unlinkInterface (userHandle : Nat) : Database :=
  { db with
    prot := update db.prot p none
    handle := update db.handle userHandle (some ⟨db.key+1, (db.protocolsOf userHandle).erase p⟩)
    byProtocol := update db.byProtocol prot.protocol ((db.byProtocol prot.protocol).erase p)
    key := db.key + 1 }

def dropHandle (userHandle : Nat) : Database := if db.protocolsOf userHandle = [] then
    { db with
      handle := update db.handle userHandle none
      handleList := db.handleList.erase userHandle }
  else db

/-- What a call comes to: it returns, or it releases the lock and has a driver disconnected, of which
the agent is named. -/
inductive Outcome
  | returns (status : EfiStatus) (db : Database)
  | disconnects (agentHandle : Nat) (db : Database)

def firstDriver (openList : List OpenData) : Option OpenData :=
  openList.find? fun data => data.attributes.isByDriver

/-- The records of BY_HANDLE_PROTOCOL, GET_PROTOCOL and TEST_PROTOCOL are removed. -/
def removeQueries : Database :=
  db.setOpens p prot (prot.openList.filter fun data => !data.attributes.isQuery)
    (prot.openListCount - (prot.openList.filter fun data => data.attributes.isQuery).length)

/-- CoreRemoveInterfaceFromProtocol, and what CoreUninstallProtocolInterface does behind it. -/
def removeInterface :
    EfiStatus × Database := match coreFindProtocolInterface db userHandle protocol interface with
  | none => (.notFound, dropHandle db userHandle)
  | some p =>
    match db.prot p with
    | none => (.notFound, dropHandle db userHandle)
    | some prot => (.success, dropHandle (unlinkInterface db p prot userHandle) userHandle)

/-- CoreUninstallProtocolInterface, from the disconnection of the drivers on; there is none left. -/
def uninstallDisconnected : EfiStatus × Database :=
  if 0 < prot.openListCount - (prot.openList.filter fun data => data.attributes.isQuery).length then
    (.accessDenied, removeQueries db p prot)
  else removeInterface (removeQueries db p prot) userHandle protocol interface

/-- The loop of CoreDisconnectControllersUsingProtocolInterface, and what follows it. -/
def uninstallLoop : Outcome := match firstDriver prot.openList with
  | some data => .disconnects data.agentHandle db
  | none =>
    .returns (uninstallDisconnected db p prot userHandle protocol interface).1
      (uninstallDisconnected db p prot userHandle protocol interface).2

end

end

/-- CoreUninstallProtocolInterface, up to its first release of the lock. -/
def coreUninstallProtocolInterface (userHandle : Nat) (protocol : Guid)
    (interface : Nat) : Outcome := if !coreValidateHandle db userHandle then .returns .invalidParameter db
  else
    match coreFindProtocolInterface db userHandle protocol interface with
    | none => .returns .notFound db
    | some p =>
      match db.prot p with
      | none => .returns .notFound db
      | some prot => uninstallLoop db p prot userHandle protocol interface

structure Database.Linked (db : Database) : Prop where
  nodup : db.handleList.Nodup
  valid : ∀ h, h ∈ db.handleList ↔ (db.handle h).isSome = true
  protocols : ∀ h, (db.protocolsOf h).Nodup
  onHandle : ∀ h p, p ∈ db.protocolsOf h ↔ ∃ prot, db.prot p = some prot ∧ prot.handle = h
  onEntry : ∀ guid p, p ∈ db.byProtocol guid ↔ ∃ prot, db.prot p = some prot ∧ prot.protocol = guid
  entryNodup : ∀ guid, (db.byProtocol guid).Nodup
  entry : ∀ p prot, db.prot p = some prot → prot.protocol ∈ db.entries
  fresh : 0 < db.next ∧ (∀ h ∈ db.handleList, h ≠ 0 ∧ h < db.next) ∧
    ∀ p prot, db.prot p = some prot → p < db.next

def Database.NoneEmpty : Prop := ∀ h ∈ db.handleList, db.protocolsOf h ≠ []

/-- No handle carries a GUID twice. -/
def Database.Unique : Prop :=
  ∀ p q prot prot', db.prot p = some prot → db.prot q = some prot' → prot.handle = prot'.handle →
    prot.protocol = prot'.protocol → p = q

end

section
variable {db : Database} {p q h : Nat} {prot : ProtocolInterface}

theorem protocolsOf_of_handle {handle : IHandle} (hh : db.handle h = some handle) :
    db.protocolsOf h = handle.protocols := by
  unfold Database.protocolsOf
  rw [hh]

section
variable (hl : db.Linked)
include hl

theorem Database.Linked.protocolsOf_nil (hh : h ∉ db.handleList) : db.protocolsOf h = [] := by
  unfold Database.protocolsOf
  cases hhnd : db.handle h with
  | none => rfl
  | some handle => exact absurd ((hl.valid h).mpr (by rw [hhnd]; rfl)) hh

theorem Database.Linked.mem_handleList (hp : db.prot p = some prot) : prot.handle ∈ db.handleList := by
  by_contra hnot
  have hmem := (hl.onHandle prot.handle p).mpr ⟨prot, hp, rfl⟩
  rw [hl.protocolsOf_nil hnot] at hmem
  cases hmem

theorem Database.Linked.validate_iff : coreValidateHandle db h = true ↔ h ∈ db.handleList := by
  unfold coreValidateHandle
  rw [decide_eq_true_eq]
  exact ⟨fun hboth => hboth.2, fun hmem => ⟨(hl.fresh.2.1 h hmem).1, hmem⟩⟩

theorem Database.Linked.next_free : db.prot db.next = none ∧ db.next ∉ db.handleList := by
  constructor
  · cases hp : db.prot db.next with
    | none => rfl
    | some prot => exact absurd (hl.fresh.2.2 _ _ hp) (lt_irrefl _)
  · intro hmem
    exact absurd (hl.fresh.2.1 _ hmem).2 (lt_irrefl _)

theorem Database.Linked.allocated : db.allocated.Linked where
  nodup := hl.nodup
  valid := hl.valid
  protocols := hl.protocols
  onHandle := hl.onHandle
  onEntry := hl.onEntry
  entryNodup := hl.entryNodup
  entry := hl.entry
  fresh := ⟨Nat.succ_pos _, fun h hh => ⟨(hl.fresh.2.1 h hh).1, Nat.lt_succ_of_lt (hl.fresh.2.1 h hh).2⟩,
    fun p prot hp => Nat.lt_succ_of_lt (hl.fresh.2.2 p prot hp)⟩

theorem Database.Linked.setOpens (hp : db.prot p = some prot) (l : List OpenData)
    (n : Nat) : (db.setOpens p prot l n).Linked := by
  have hmem : ∀ q prot', (db.setOpens p prot l n).prot q = some prot' →
      ∃ old, db.prot q = some old ∧ prot'.handle = old.handle ∧ prot'.protocol = old.protocol := by
    intro q prot' hq
    change update db.prot p _ q = some prot' at hq
    by_cases hqp : q = p
    · subst hqp
      rw [update_self] at hq
      obtain rfl := Option.some.inj hq
      exact ⟨prot, hp, rfl, rfl⟩
    · rw [update_of_ne hqp] at hq
      exact ⟨prot', hq, rfl, rfl⟩
  have hmem' : ∀ q old, db.prot q = some old →
      ∃ prot', (db.setOpens p prot l n).prot q = some prot' ∧ prot'.handle = old.handle ∧
        prot'.protocol = old.protocol := by
    intro q old hq
    change ∃ prot', update db.prot p _ q = some prot' ∧ _
    by_cases hqp : q = p
    · subst hqp
      rw [update_self]
      obtain rfl := Option.some.inj (hp.symm.trans hq)
      exact ⟨_, rfl, rfl, rfl⟩
    · rw [update_of_ne hqp]
      exact ⟨old, hq, rfl, rfl⟩
  constructor
  · exact hl.nodup
  · exact hl.valid
  · exact hl.protocols
  · intro h q
    refine (hl.onHandle h q).trans ⟨?_, ?_⟩
    · rintro ⟨old,hold,rfl⟩
      obtain ⟨prot',hprot',hhnd,-⟩ := hmem' q old hold
      exact ⟨prot', hprot', hhnd⟩
    · rintro ⟨prot',hprot',rfl⟩
      obtain ⟨old,hold,hhnd,-⟩ := hmem q prot' hprot'
      exact ⟨old, hold, hhnd.symm⟩
  · intro guid q
    refine (hl.onEntry guid q).trans ⟨?_, ?_⟩
    · rintro ⟨old,hold,rfl⟩
      obtain ⟨prot',hprot',-,hguid⟩ := hmem' q old hold
      exact ⟨prot', hprot', hguid⟩
    · rintro ⟨prot',hprot',rfl⟩
      obtain ⟨old,hold,-,hguid⟩ := hmem q prot' hprot'
      exact ⟨old, hold, hguid.symm⟩
  · exact hl.entryNodup
  · intro q prot' hq
    obtain ⟨old,hold,-,hguid⟩ := hmem q prot' hq
    rw [hguid]
    exact hl.entry q old hold
  · refine ⟨hl.fresh.1, hl.fresh.2.1, fun q prot' hq => ?_⟩
    obtain ⟨old,hold,-,-⟩ := hmem q prot' hq
    exact hl.fresh.2.2 q old hold

theorem Database.Linked.findProtocolEntry (protocol : Guid) :
    (coreFindProtocolEntry db protocol).2.Linked := by
  unfold coreFindProtocolEntry
  split
  · exact hl
  split
  · exact { hl.allocated with
      entry := fun q prot' hq => mem_append_left _ (hl.entry q prot' hq) }
  · exact hl.allocated

theorem protocolsOf_newHandle (h : Nat) : (newHandle db).protocolsOf h = db.protocolsOf h := by
  unfold newHandle Database.protocolsOf
  dsimp only
  by_cases hh : h = db.next
  · rw [hh, update_self]
    exact (hl.protocolsOf_nil hl.next_free.2).symm
  · rw [update_of_ne hh]

theorem Database.Linked.newHandle : (newHandle db).Linked := by
  have hfree := hl.next_free.2
  have hprots := protocolsOf_newHandle hl
  constructor
  · exact nodup_append'.mpr ⟨hl.nodup, nodup_singleton _, fun h hh hnew =>
      hfree (mem_singleton.mp hnew ▸ hh)⟩
  · intro h
    change h ∈ db.handleList ++ [db.next] ↔ (update db.handle db.next (some ⟨db.key+1, []⟩) h).isSome = true
    rw [mem_append, mem_singleton]
    by_cases hh : h = db.next
    · rw [hh, update_self]
      exact ⟨fun _ => rfl, fun _ => .inr rfl⟩
    · rw [update_of_ne hh, ← hl.valid h]
      exact ⟨fun hor => hor.resolve_right hh, .inl⟩
  · intro h
    rw [hprots]
    exact hl.protocols h
  · intro h q
    rw [hprots]
    exact hl.onHandle h q
  · exact hl.onEntry
  · exact hl.entryNodup
  · exact hl.entry
  · refine ⟨Nat.succ_pos _, fun h hh => ?_, fun q prot' hq => Nat.lt_succ_of_lt (hl.fresh.2.2 q prot' hq)⟩
    rcases mem_append.mp hh with hold | hnew
    · exact ⟨(hl.fresh.2.1 h hold).1, Nat.lt_succ_of_lt (hl.fresh.2.1 h hold).2⟩
    · rw [mem_singleton.mp hnew]
      exact ⟨ne_of_gt hl.fresh.1, Nat.lt_succ_self _⟩

end

theorem protocolsOf_linkInterface (db : Database) (p userHandle : Nat) (protocol : Guid)
    (interface : Nat) : (linkInterface db p userHandle protocol interface).protocolsOf =
      update db.protocolsOf userHandle (p :: db.protocolsOf userHandle) := by
  funext h
  unfold linkInterface
  by_cases hh : h = userHandle
  · subst hh
    rw [update_self]
    unfold Database.protocolsOf
    dsimp only
    rw [update_self]
  rw [update_of_ne hh]
  unfold Database.protocolsOf
  dsimp only
  rw [update_of_ne hh]

structure Indexes {ι α : Type} (lists : ι → List Nat) (table : Nat → Option α) (key : α → ι) : Prop where
  nodup : ∀ i, (lists i).Nodup
  mem : ∀ i p, p ∈ lists i ↔ ∃ x, table p = some x ∧ key x = i

section
variable {ι α : Type} [DecidableEq ι] {lists : ι → List Nat} {table : Nat → Option α} {key : α → ι} {x : α}

theorem Indexes.insert {l : List Nat} (h : Indexes lists table key) (hp : table p = none)
    (hl : l.Perm (p :: lists (key x))) : Indexes (update lists (key x) l) (update table p (some x)) key := by
  have hnot : ∀ i, p ∉ lists i := by
    intro i hmem
    obtain ⟨y,hy,-⟩ := (h.mem i p).mp hmem
    cases hp.symm.trans hy
  refine ⟨fun i => ?_, fun i q => ?_⟩
  · by_cases hi : i = key x
    · rw [hi, update_self, hl.nodup_iff]
      exact nodup_cons.mpr ⟨hnot _, h.nodup _⟩
    · rw [update_of_ne hi]
      exact h.nodup i
  · by_cases hq : q = p
    · subst hq
      rw [update_self]
      by_cases hi : i = key x
      · rw [hi, update_self]
        exact iff_of_true (hl.mem_iff.mpr mem_cons_self) ⟨x, rfl, rfl⟩
      rw [update_of_ne hi]
      refine iff_of_false (hnot i) ?_
      rintro ⟨y,hy,hkey⟩
      cases hy
      exact hi hkey.symm
    · rw [update_of_ne hq, ← h.mem i q]
      by_cases hi : i = key x
      · rw [hi, update_self, hl.mem_iff, mem_cons]
        exact or_iff_right hq
      · rw [update_of_ne hi]

theorem Indexes.erase (h : Indexes lists table key) (hp : table p = some x) :
    Indexes (update lists (key x) ((lists (key x)).erase p)) (update table p none) key := by
  refine ⟨fun i => ?_, fun i q => ?_⟩
  · by_cases hi : i = key x
    · rw [hi, update_self]
      exact (h.nodup _).erase p
    · rw [update_of_ne hi]
      exact h.nodup i
  · by_cases hq : q = p
    · subst hq
      rw [update_self]
      refine iff_of_false (fun hmem => ?_) fun ⟨_, hsome, _⟩ => by cases hsome
      by_cases hi : i = key x
      · rw [hi, update_self] at hmem
        exact (h.nodup _).not_mem_erase hmem
      rw [update_of_ne hi] at hmem
      obtain ⟨y,hy,hkey⟩ := (h.mem i q).mp hmem
      cases hp.symm.trans hy
      exact hi hkey.symm
    · rw [update_of_ne hq, ← h.mem i q]
      by_cases hi : i = key x
      · rw [hi, update_self, (h.nodup _).mem_erase_iff]
        exact and_iff_right hq
      · rw [update_of_ne hi]

end

theorem Database.Linked.byHandle (hl : db.Linked) :
    Indexes db.protocolsOf db.prot ProtocolInterface.handle := ⟨hl.protocols, hl.onHandle⟩

theorem Database.Linked.byEntry (hl : db.Linked) :
    Indexes db.byProtocol db.prot ProtocolInterface.protocol := ⟨hl.entryNodup, hl.onEntry⟩

theorem Database.Linked.linkInterface (hl : db.Linked) {userHandle interface : Nat} {protocol : Guid}
    (hh : userHandle ∈ db.handleList) (hp : db.prot p = none) (hnext : p < db.next)
    (hent : protocol ∈ db.entries) : (linkInterface db p userHandle protocol interface).Linked := by
  have hhnd := @Indexes.insert p _ _ _ _ _ _ ⟨userHandle, protocol, interface, [], 0⟩ _ hl.byHandle hp
    (Perm.refl _)
  have hguid := @Indexes.insert p _ _ _ _ _ _ ⟨userHandle, protocol, interface, [], 0⟩ _ hl.byEntry hp
    (perm_append_singleton p _)
  rw [← protocolsOf_linkInterface db p userHandle protocol interface] at hhnd
  refine ⟨hl.nodup, fun h => ?_, hhnd.nodup, hhnd.mem, hguid.mem, hguid.nodup, fun q prot' hq => ?_,
    hl.fresh.1, hl.fresh.2.1, fun q prot' hq => ?_⟩
  · change h ∈ db.handleList ↔ (update db.handle userHandle _ h).isSome = true
    by_cases hhu : h = userHandle
    · rw [hhu, update_self]
      exact ⟨fun _ => rfl, fun _ => hh⟩
    · rw [update_of_ne hhu]
      exact hl.valid h
  · change update db.prot p _ q = _ at hq
    by_cases hqp : q = p
    · rw [hqp, update_self] at hq
      cases hq
      exact hent
    · rw [update_of_ne hqp] at hq
      exact hl.entry q prot' hq
  · change update db.prot p _ q = _ at hq
    by_cases hqp : q = p
    · rw [hqp]
      exact hnext
    · rw [update_of_ne hqp] at hq
      exact hl.fresh.2.2 q prot' hq

theorem protocolsOf_unlinkInterface (db : Database) (p : Nat) (prot : ProtocolInterface)
    (userHandle : Nat) : (unlinkInterface db p prot userHandle).protocolsOf =
      update db.protocolsOf userHandle ((db.protocolsOf userHandle).erase p) := by
  funext h
  unfold unlinkInterface
  by_cases hh : h = userHandle
  · subst hh
    rw [update_self]
    unfold Database.protocolsOf
    dsimp only
    rw [update_self]
  rw [update_of_ne hh]
  unfold Database.protocolsOf
  dsimp only
  rw [update_of_ne hh]

theorem Database.Linked.unlinkInterface (hl : db.Linked) (hp : db.prot p = some prot) :
    (unlinkInterface db p prot prot.handle).Linked := by
  have hhnd := hl.byHandle.erase hp
  have hguid := hl.byEntry.erase hp
  rw [← protocolsOf_unlinkInterface db p prot prot.handle] at hhnd
  have hkept : ∀ q prot', (Handle.unlinkInterface db p prot prot.handle).prot q = some prot' →
      db.prot q = some prot' := by
    intro q prot' hq
    change update db.prot p none q = _ at hq
    by_cases hqp : q = p
    · rw [hqp, update_self] at hq
      cases hq
    · rwa [update_of_ne hqp] at hq
  refine ⟨hl.nodup, fun h => ?_, hhnd.nodup, hhnd.mem, hguid.mem, hguid.nodup,
    fun q prot' hq => hl.entry q prot' (hkept q prot' hq), hl.fresh.1, hl.fresh.2.1,
    fun q prot' hq => hl.fresh.2.2 q prot' (hkept q prot' hq)⟩
  change h ∈ db.handleList ↔ (update db.handle prot.handle _ h).isSome = true
  by_cases hhu : h = prot.handle
  · rw [hhu, update_self]
    exact ⟨fun _ => rfl, fun _ => hl.mem_handleList hp⟩
  · rw [update_of_ne hhu]
    exact hl.valid h

theorem protocolsOf_dropHandle (db : Database) (userHandle : Nat) :
    (dropHandle db userHandle).protocolsOf = db.protocolsOf := by
  unfold dropHandle
  split
  · rename_i hempty
    funext h
    by_cases hh : h = userHandle
    · subst hh
      rw [hempty]
      unfold Database.protocolsOf
      dsimp only
      rw [update_self]
    · unfold Database.protocolsOf
      dsimp only
      rw [update_of_ne hh]
  · rfl

theorem Database.Linked.dropHandle (hl : db.Linked) (userHandle : Nat) :
    (dropHandle db userHandle).Linked := by
  have hprots := protocolsOf_dropHandle db userHandle
  unfold Handle.dropHandle at hprots ⊢
  split
  · rename_i hempty
    rw [if_pos hempty] at hprots
    constructor
    · exact hl.nodup.erase userHandle
    · intro h
      dsimp only
      rw [hl.nodup.mem_erase_iff]
      by_cases hh : h = userHandle
      · rw [hh, update_self]
        exact ⟨fun hboth => absurd rfl hboth.1, fun hsome => by cases hsome⟩
      · rw [update_of_ne hh, ← hl.valid h]
        exact ⟨fun hboth => hboth.2, fun hmem => ⟨hh, hmem⟩⟩
    · intro h
      rw [hprots]
      exact hl.protocols h
    · intro h q
      rw [hprots]
      exact hl.onHandle h q
    · exact hl.onEntry
    · exact hl.entryNodup
    · exact hl.entry
    · exact ⟨hl.fresh.1, fun h hh => hl.fresh.2.1 h (mem_of_mem_erase hh), hl.fresh.2.2⟩
  · exact hl

end

end Liano.Handle
