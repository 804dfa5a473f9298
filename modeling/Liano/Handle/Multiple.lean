import Liano.Handle.Installed

/-! Installing and uninstalling several protocol interfaces on a handle (Core/Dxe/Hand/Handle.c), and what
the rollback leaves where one of them fails. -/
namespace Liano.Handle

open Function (update update_idem update_self)
open List

def gEfiDevicePathProtocolGuid : Guid := 0x09576e91_6d3f_11d2_8e39_00a0c969723b

/-- A device path as bytes: up to the end of its first instance, and up to the end of the whole. -/
structure DevicePath where
  source : List UInt8
  whole : List UInt8
deriving DecidableEq, Repr

/-- The interface that CoreHandleProtocol returns. -/
def Database.interfaceOf (db : Database) (userHandle : Nat) (protocol : Guid) : Nat :=
  match (coreGetProtocolInterface db userHandle protocol).bind db.prot with
  | none => 0
  | some prot => prot.interface

def betterMatch (source path : List UInt8) (userHandle : Nat) (best : Option (Nat × Nat)) :
    Option (Nat × Nat) := if path.isPrefixOf source then
    match best with
    | none => some (path.length,userHandle)
    | some (size,other) => if size < path.length then some (path.length,userHandle) else some (size,other)
  else best

/-- The loop of CoreLocateDevicePath, over the handles with a device path. -/
def locateLoop (dxeCore : Nat) (paths : Nat → DevicePath) (source : List UInt8) :
    List Nat → Option (Nat × Nat) → Database → Option (Nat × Nat) × Database
  | [], best, db => (best,db)
  | userHandle :: rest, best, db =>
    if (coreHandleProtocol dxeCore db userHandle gEfiDevicePathProtocolGuid).1 = .success then
      locateLoop dxeCore paths source rest
        (betterMatch source (paths (db.interfaceOf userHandle gEfiDevicePathProtocolGuid)).whole userHandle best)
        (coreHandleProtocol dxeCore db userHandle gEfiDevicePathProtocolGuid).2
    else
      locateLoop dxeCore paths source rest best
        (coreHandleProtocol dxeCore db userHandle gEfiDevicePathProtocolGuid).2

def Database.deviceHandles (db : Database) : List Nat :=
  (db.byProtocol gEfiDevicePathProtocolGuid).filterMap fun p => (db.prot p).map (·.handle)

section
variable (dxeCore : Nat) (paths : Nat → DevicePath) (db : Database)

def coreLocateDevicePath (path : DevicePath) :
    Bool × Database := if !db.allocates ∨ db.deviceHandles = [] then (false,db.allocated)
  else
    match locateLoop dxeCore paths path.source db.deviceHandles none db.allocated with
    | (none,db') => (false,db')
    | (some (size,_), db') => (decide (size = path.source.length ∧ path.source = path.whole), db')

def isDuplicatePath (protocol : Guid)
    (interface : Nat) : Bool × Database := if protocol = gEfiDevicePathProtocolGuid ∧ interface ≠ 0 then
    coreLocateDevicePath dxeCore paths db (paths interface)
  else (false,db)

/-- The body of the loop of CoreInstallMultipleProtocolInterfaces. -/
def installOne (userHandle : Nat)
    (pair : Guid × Nat) : EfiStatus × Nat × Database :=
  if (isDuplicatePath dxeCore paths db pair.1 pair.2).1 then
    (.alreadyStarted, userHandle, (isDuplicatePath dxeCore paths db pair.1 pair.2).2)
  else
    coreInstallProtocolInterface dxeCore (isDuplicatePath dxeCore paths db pair.1 pair.2).2 userHandle
      pair.1 pair.2

def installLoop (dxeCore : Nat) (paths : Nat → DevicePath) :
    List (Guid × Nat) → Nat → Database → EfiStatus × Nat × Nat × Database
  | [], userHandle, db => (.success, 0, userHandle, db)
  | pair :: rest, userHandle, db =>
    match installOne dxeCore paths db userHandle pair with
    | (.success, userHandle', db') =>
      ((installLoop dxeCore paths rest userHandle' db').1,
        (installLoop dxeCore paths rest userHandle' db').2.1 + 1,
        (installLoop dxeCore paths rest userHandle' db').2.2)
    | (status,userHandle',db') => (status,1,userHandle',db')

/-- The pairs are uninstalled in their order, whatever the statuses; none where a driver has to be
disconnected. -/
def uninstallAll (userHandle : Nat) : List (Guid × Nat) → Database → Option Database
  | [], db => some db
  | pair :: rest, db =>
    match coreUninstallProtocolInterface db userHandle pair.1 pair.2 with
    | .returns _ db' => uninstallAll userHandle rest db'
    | .disconnects _ _ => none

/-- CoreInstallMultipleProtocolInterfaces: the status, the handle in Handle then, and the database; none
where a driver has to be disconnected. -/
def coreInstallMultipleProtocolInterfaces (userHandle : Nat) (pairs : List (Guid × Nat)) : Option (EfiStatus × Nat × Database) :=
  match installLoop dxeCore paths pairs userHandle db with
  | (.success, _, userHandle', db') => some (.success, userHandle', db')
  | (status,index,userHandle',db') =>
    (uninstallAll userHandle' (pairs.take (index-1)) db').map fun db'' => (status,userHandle,db'')

end

/-- The loop of CoreUninstallMultipleProtocolInterfaces: the status, Index and the database. -/
def uninstallLoopAll (userHandle : Nat) : List (Guid × Nat) → Database → Option (EfiStatus × Nat × Database)
  | [], db => some (.success, 0, db)
  | pair :: rest, db =>
    match coreUninstallProtocolInterface db userHandle pair.1 pair.2 with
    | .returns .success db' => (uninstallLoopAll userHandle rest db').map fun r => (r.1, r.2.1+1, r.2.2)
    | .returns status db' => some (status,1,db')
    | .disconnects _ _ => none

def reinstallAll (dxeCore : Nat) : Nat → List (Guid × Nat) → Database → Database
  | _, [], db => db
  | userHandle, pair :: rest, db =>
    reinstallAll dxeCore (coreInstallProtocolInterface dxeCore db userHandle pair.1 pair.2).2.1 rest
      (coreInstallProtocolInterface dxeCore db userHandle pair.1 pair.2).2.2

def coreUninstallMultipleProtocolInterfaces (dxeCore : Nat) (db : Database) (userHandle : Nat)
    (pairs : List (Guid × Nat)) : Option (EfiStatus × Database) :=
  match uninstallLoopAll userHandle pairs db with
  | none => none
  | some (.success, _, db') => some (.success, db')
  | some (_,index,db') =>
    some (.invalidParameter, reinstallAll dxeCore userHandle (pairs.take (index-1)) db')

section
variable {db : Database} {h : Nat} {pair : Guid × Nat} {pairs : List (Guid × Nat)} {l : List (Guid × Nat)}

section
variable (dxeCore : Nat) (paths : Nat → DevicePath)

theorem looks_locateLoop (source : List UInt8)
    (handles : List Nat) (best : Option (Nat × Nat)) (db : Database) :
    Looks db (locateLoop dxeCore paths source handles best db).2 := by
  induction handles generalizing best db with
  | nil => exact Looks.refl db
  | cons userHandle rest ih =>
    rw [locateLoop]
    split
    · exact (looks_handleProtocol dxeCore db userHandle _).trans (ih _ _)
    · exact (looks_handleProtocol dxeCore db userHandle _).trans (ih _ _)

theorem looks_isDuplicatePath (db : Database) (protocol : Guid)
    (interface : Nat) : Looks db (isDuplicatePath dxeCore paths db protocol interface).2 := by
  unfold isDuplicatePath
  split
  · unfold coreLocateDevicePath
    split
    · exact looks_allocated db
    have hloop := looks_locateLoop dxeCore paths (paths interface).source db.deviceHandles none db.allocated
    split
    · rename_i db' heq
      rw [heq] at hloop
      exact (looks_allocated db).trans hloop
    · rename_i size best db' heq
      rw [heq] at hloop
      exact (looks_allocated db).trans hloop
  · exact Looks.refl db

theorem installs_installOne (hr : db.Ready) : Installs db h pair (installOne dxeCore paths db h pair) := by
  have hlooks := looks_isDuplicatePath dxeCore paths db pair.1 pair.2
  unfold installOne
  split
  · exact .failed _ _ (by decide) (hlooks.ready hr) hlooks.installed
  · exact (installs_coreInstallProtocolInterface dxeCore (hlooks.ready hr)).after hlooks

end

/-- What n installs have come to: the pairs are at the head of the list of the handle, which is the one
that was given or a new one. -/
structure Loaded (db : Database) (h : Nat) (done : List (Guid × Nat)) (h' : Nat) (db' : Database) : Prop where
  ready : db'.Ready
  unchanged : done = [] → h' = h ∧ db'.installed = db.installed
  added : done ≠ [] → h' ≠ 0 ∧ (h ≠ 0 → h' = h ∧ db.installed h ≠ none) ∧ (h = 0 → db.installed h' = none) ∧
    db'.installed = update db.installed h' (some (done.reverse ++ (db.installed h').getD []))

theorem Loaded.cons {db₁ db' : Database} {h₁ h' : Nat} {done : List (Guid × Nat)}
    (hfst : Installs db h pair (.success, h₁, db₁)) (hrest : Loaded db₁ h₁ done h' db') :
    Loaded db h (pair :: done) h' db' := by
  refine ⟨hrest.ready, fun hnil => absurd hnil (cons_ne_nil _ _), fun _ => ?_⟩
  have hone : h₁ ≠ 0 ∧ (h ≠ 0 → h₁ = h ∧ db.installed h ≠ none) ∧ (h = 0 → db.installed h₁ = none) ∧
      db₁.installed = update db.installed h₁ (some (pair :: (db.installed h₁).getD [])) := by
    cases hfst with
    | failed status db₁ hstatus hready hinst => exact absurd rfl hstatus
    | existing l db₁ hh hbef hready hinst =>
      refine ⟨hh, fun _ => ⟨rfl, ?_⟩, fun hzero => absurd hzero hh, ?_⟩
      · rw [hbef]
        exact Option.some_ne_none l
      · rw [hinst, hbef]
        rfl
    | created h₁ db₁ hh hh' hbef hready hinst =>
      refine ⟨hh', fun hzero => absurd hh hzero, fun _ => hbef, ?_⟩
      rw [hinst, hbef]
      rfl
  obtain ⟨hne,hgiven,hnew,hinst⟩ := hone
  by_cases hdone : done = []
  · obtain ⟨rfl,hsame⟩ := hrest.unchanged hdone
    rw [hsame, hdone]
    exact ⟨hne, hgiven, hnew, hinst⟩
  obtain ⟨-,hgiven',-,hinstalled'⟩ := hrest.added hdone
  obtain ⟨rfl,-⟩ := hgiven' hne
  refine ⟨hne, hgiven, hnew, ?_⟩
  rw [hinstalled', hinst, update_self, update_idem, reverse_cons, append_assoc]
  rfl

theorem installLoop_loaded (dxeCore : Nat) (paths : Nat → DevicePath) (hr : db.Ready) :
    ∃ status n h' db', installLoop dxeCore paths pairs h db = (status,n,h',db') ∧
      (status ≠ .success → Loaded db h (pairs.take (n-1)) h' db' ∧ 0 < n) := by
  induction pairs generalizing h db with
  | nil => exact ⟨.success, 0, h, db, rfl, fun hne => absurd rfl hne⟩
  | cons pair rest ih =>
    have hone := @installs_installOne db h pair dxeCore paths hr
    rw [installLoop]
    generalize installOne dxeCore paths db h pair = r at hone ⊢
    obtain ⟨status,h₁,db₁⟩ := r
    by_cases hst : status = .success
    · subst hst
      have hready : db₁.Ready := by
        cases hone with
        | failed status db₁ hst hready hinst => exact hready
        | existing l db₁ hh hbefore hready hinst => exact hready
        | created h₁ db₁ hh hh' hbefore hready hinst => exact hready
      obtain ⟨status,n,h',db',heq,hloaded⟩ := ih (h := h₁) hready
      dsimp only
      rw [heq]
      refine ⟨status, n+1, h', db', rfl, fun hne => ?_⟩
      obtain ⟨hrest,hpos⟩ := hloaded hne
      have htake : (pair :: rest).take (n+1-1) = pair :: rest.take (n-1) := by
        obtain ⟨m,rfl⟩ := Nat.exists_eq_succ_of_ne_zero (ne_of_gt hpos)
        rfl
      rw [htake]
      exact ⟨Loaded.cons hone hrest, Nat.succ_pos n⟩
    · refine ⟨status, 1, h₁, db₁, ?_, fun _ => ⟨?_, Nat.one_pos⟩⟩
      · cases status <;> first | rfl | exact absurd rfl hst
      · cases hone with
        | failed status db₁ hst hready hinst =>
          exact ⟨hready, fun _ => ⟨rfl, hinst⟩, fun hne => absurd rfl hne⟩
        | existing l db₁ hh hbefore hready hinst => exact absurd rfl hst
        | created h₁ db₁ hh hh' hbefore hready hinst => exact absurd rfl hst

def shown (l : List (Guid × Nat)) : Option (List (Guid × Nat)) := if l = [] then none else some l

theorem uninstallAll_restores {new old : List (Guid × Nat)} (hr : db.Ready) (hne : pairs ≠ [])
    (hl : db.installed h = some (new ++ old)) (hperm : new.Perm pairs) :
    ∃ db', uninstallAll h pairs db = some db' ∧ db'.installed = update db.installed h (shown old) := by
  induction pairs generalizing new db with
  | nil => exact absurd rfl hne
  | cons pair rest ih =>
    have hmem : pair ∈ new := hperm.mem_iff.mpr mem_cons_self
    have hone := @uninstalls_coreUninstallProtocolInterface db h pair hr
    rw [uninstallAll]
    generalize coreUninstallProtocolInterface db h pair.1 pair.2 = outcome at hone ⊢
    cases hone with
    | failed status hstatus hnot => exact absurd (mem_append_left old hmem) (hnot _ hl)
    | removed l db₁ hbefore hmem' hready hinst hpool hentries =>
      obtain rfl := Option.some.inj (hl.symm.trans hbefore)
      rw [erase_append_left old hmem] at hinst
      have hrest : (new.erase pair).Perm rest := by
        have h := hperm.erase pair
        rwa [erase_cons_head] at h
      by_cases hnil : rest = []
      · subst hnil
        rw [hrest.eq_nil, nil_append] at hinst
        exact ⟨db₁, rfl, hinst⟩
      have hne' : new.erase pair ++ old ≠ [] := fun happ =>
        hnil (hrest.symm.trans (List.Perm.of_eq (append_eq_nil_iff.mp happ).1)).eq_nil
      rw [if_neg hne'] at hinst
      obtain ⟨db',heq,hdb'⟩ := ih hready hnil
        (by rw [hinst, update_self]) hrest
      exact ⟨db', heq, by rw [hdb', hinst, update_idem]⟩

theorem Database.NoneEmpty.pairsOn_ne (hne : db.NoneEmpty) (hl : db.Linked) (hmem : h ∈ db.handleList) :
    db.pairsOn h ≠ [] := fun hnil => hne h hmem ((pairsOn_eq_nil hl).mp hnil)

theorem Database.NoneEmpty.shown_installed (hne : db.NoneEmpty) (hl : db.Linked) :
    shown ((db.installed h).getD []) = db.installed h := by
  rw [installed_eq hl]
  split
  · rename_i hmem
    exact if_neg (hne.pairsOn_ne hl hmem)
  · rfl

theorem install_restores (dxeCore : Nat) (paths : Nat → DevicePath) (hr : db.Ready) (hne : db.NoneEmpty) :
    ∃ status h' db', coreInstallMultipleProtocolInterfaces dxeCore paths db h pairs = some (status,h',db') ∧
      (status ≠ .success → h' = h ∧ db'.installed = db.installed) := by
  obtain ⟨status,n,h',db',heq,hloaded⟩ := @installLoop_loaded db h pairs dxeCore paths hr
  unfold coreInstallMultipleProtocolInterfaces
  rw [heq]
  by_cases hst : status = .success
  · subst hst
    exact ⟨.success, h', db', rfl, fun hne => absurd rfl hne⟩
  obtain ⟨hdone,-⟩ := hloaded hst
  have hundo : ∃ db'', uninstallAll h' (pairs.take (n-1)) db' = some db'' ∧
      db''.installed = db.installed := by
    by_cases hnil : pairs.take (n-1) = []
    · rw [hnil]
      exact ⟨db', rfl, (hdone.unchanged hnil).2⟩
    obtain ⟨-,hgiven,hnew,hinst⟩ := hdone.added hnil
    obtain ⟨db'',hall,hdb''⟩ := uninstallAll_restores hdone.ready hnil
      (by rw [hinst, update_self]) (reverse_perm _)
    refine ⟨db'', hall, ?_⟩
    rw [hdb'', hinst, update_idem, hne.shown_installed hr.linked, Function.update_eq_self]
  obtain ⟨db'',hall,hsame⟩ := hundo
  refine ⟨status, h, db'', ?_, fun _ => ⟨rfl, hsame⟩⟩
  cases status with
  | success => exact absurd rfl hst
  | _ =>
    dsimp only
    rw [hall]
    rfl

def failsAt : List (Guid × Nat) → List (Guid × Nat) → Option Nat
  | _, [] => none
  | l, pair :: rest => if pair ∈ l then (failsAt (l.erase pair) rest).map (· + 1) else some 0

theorem perm_of_failsAt {k : Nat} (hk : failsAt l pairs = some k) :
    l.Perm (pairs.take k ++ l.diff (pairs.take k)) ∧ (pairs.take k).length = k := by
  induction pairs generalizing l k with
  | nil => cases hk
  | cons pair rest ih =>
    rw [failsAt] at hk
    split at hk
    · rename_i hmem
      obtain ⟨j,hj,rfl⟩ := Option.map_eq_some_iff.mp hk
      obtain ⟨hperm,hlen⟩ := ih hj
      rw [take_succ_cons, diff_cons, length_cons, hlen]
      exact ⟨(perm_cons_erase hmem).trans (hperm.cons pair), rfl⟩
    · obtain rfl := Option.some.inj hk
      exact ⟨List.Perm.refl l, rfl⟩

theorem uninstallLoopAll_eq (hr : db.Ready) (hl : db.installed h = shown l) : match failsAt l pairs with
    | none => ∃ n db', uninstallLoopAll h pairs db = some (.success, n, db')
    | some k => ∃ status db', status ≠ .success ∧ uninstallLoopAll h pairs db = some (status, k+1, db') ∧
        db'.Ready ∧ db'.installed h = shown (l.diff (pairs.take k)) ∧ db'.pool = db.pool ∧
        db'.entries = db.entries := by
  induction pairs generalizing l db with
  | nil => exact ⟨0, db, rfl⟩
  | cons pair rest ih =>
    have hone := @uninstalls_coreUninstallProtocolInterface db h pair hr
    rw [uninstallLoopAll, failsAt]
    generalize coreUninstallProtocolInterface db h pair.1 pair.2 = outcome at hone ⊢
    cases hone with
    | failed status hst hnot =>
      have hnotin : pair ∉ l := by
        intro hmem
        refine hnot l ?_ hmem
        rw [hl]
        exact if_neg (ne_nil_of_mem hmem)
      rw [if_neg hnotin]
      refine ⟨status, db, hst, ?_, hr, ?_, rfl, rfl⟩
      · cases status with
        | success => exact absurd rfl hst
        | _ => rfl
      · exact hl
    | removed l' db₁ hbef hmem hready hinst hpool hents =>
      obtain rfl : l = l' := by
        rw [hl] at hbef
        unfold shown at hbef
        split at hbef
        · cases hbef
        · exact Option.some.inj hbef
      rw [if_pos hmem]
      have hafter : db₁.installed h = shown (l.erase pair) := by
        rw [hinst, update_self]
        rfl
      have hrest := ih hready hafter
      cases hk : failsAt (l.erase pair) rest with
      | none =>
        rw [hk] at hrest
        obtain ⟨n,db',heq⟩ := hrest
        dsimp only [Option.map_none]
        rw [heq]
        exact ⟨n+1, db', rfl⟩
      | some k =>
        rw [hk] at hrest
        obtain ⟨status,db',hst,heq,hready',hinstalled',hpool',hentries'⟩ := hrest
        dsimp only [Option.map_some]
        rw [heq, take_succ_cons, diff_cons]
        exact ⟨status, db', hst, rfl, hready', hinstalled', hpool'.trans hpool, hentries'.trans hents⟩

theorem reinstallAll_gone (dxeCore : Nat) (hr : db.Ready) (hh : h ≠ 0) (hl : db.installed h = none) :
    (reinstallAll dxeCore h pairs db).installed h = none := by
  induction pairs generalizing db with
  | nil => exact hl
  | cons pair rest ih =>
    have hone := @installs_coreInstallProtocolInterface db h pair dxeCore hr
    rw [reinstallAll]
    generalize coreInstallProtocolInterface dxeCore db h pair.1 pair.2 = r at hone ⊢
    cases hone with
    | failed status db' hstatus hready hinstalled => exact ih hready (by rw [hinstalled, hl])
    | existing l db' hh' hbef hready hinstalled =>
      rw [hl] at hbef
      cases hbef
    | created h' db' hzero hh' hbef hready hinstalled => exact absurd hzero hh

theorem reinstallAll_kept (dxeCore : Nat) (hr : db.Ready) (hl : db.installed h = some l)
    (hguids : ((pairs ++ l).map Prod.fst).Nodup) (hents : ∀ pair ∈ pairs, pair.1 ∈ db.entries) :
    ∃ l', (reinstallAll dxeCore h pairs db).installed h = some l' ∧
      ∀ pair, pair ∈ l' ↔ pair ∈ l ∨ ∃ i : Nat, pairs[i]? = some pair ∧ db.pool[i]? ≠ some false := by
  induction pairs generalizing l db with
  | nil =>
    refine ⟨l, hl, fun pair => ⟨.inl, ?_⟩⟩
    rintro (hmem | ⟨i,hi,-⟩)
    · exact hmem
    · cases hi
  | cons first rest ih =>
    rw [cons_append, map_cons, nodup_cons] at hguids
    have habsent : ∀ other ∈ l, other.1 ≠ first.1 := fun other hother heq =>
      hguids.1 (heq ▸ mem_map_of_mem (mem_append_right rest hother))
    obtain ⟨db₁,hready,hpool,hents₁,heq,hinst⟩ :=
      install_absent dxeCore hr hl habsent (hents first mem_cons_self)
    rw [reinstallAll, heq]
    have hentries' : ∀ pair ∈ rest, pair.1 ∈ db₁.entries := fun pair hpair =>
      hents₁ ▸ hents pair (mem_cons_of_mem first hpair)
    have hshift : ∀ i : Nat, db₁.pool[i]? = db.pool[i+1]? := by
      intro i
      rw [hpool, getElem?_tail]
    cases halloc : db.allocates with
    | true =>
      have hfst : db.pool[0]? ≠ some false := by
        intro hfalse
        unfold Database.allocates at halloc
        rw [headD_eq_head?_getD, head?_eq_getElem?, hfalse] at halloc
        cases halloc
      rw [halloc, if_pos rfl] at hinst
      have hguids' : ((rest ++ first :: l).map Prod.fst).Nodup := by
        have hperm : ((rest ++ first :: l).map Prod.fst).Perm (first.1 :: (rest ++ l).map Prod.fst) :=
          perm_middle.map Prod.fst
        exact hperm.nodup_iff.mpr (nodup_cons.mpr hguids)
      obtain ⟨l',hl',hiff⟩ := ih hready (by rw [hinst, update_self]) hguids' hentries'
      refine ⟨l', hl', fun pair => (hiff pair).trans ⟨?_, ?_⟩⟩
      · rintro (hmem | ⟨i,hi,hok⟩)
        · rcases mem_cons.mp hmem with rfl | hold
          · exact .inr ⟨0, rfl, hfst⟩
          · exact .inl hold
        · exact .inr ⟨i+1, hi, hshift i ▸ hok⟩
      · rintro (hold | ⟨i,hi,hok⟩)
        · exact .inl (mem_cons_of_mem first hold)
        · cases i with
          | zero => exact .inl (Option.some.inj hi ▸ mem_cons_self)
          | succ i => exact .inr ⟨i, hi, (hshift i).symm ▸ hok⟩
    | false =>
      have hfst : db.pool[0]? = some false := by
        unfold Database.allocates at halloc
        rw [headD_eq_head?_getD, head?_eq_getElem?] at halloc
        cases hget : db.pool[0]? with
        | none =>
          rw [hget] at halloc
          cases halloc
        | some b =>
          rw [hget] at halloc
          exact congrArg some halloc
      rw [halloc, if_ff] at hinst
      obtain ⟨l',hl',hiff⟩ := ih hready (by rw [hinst, hl]) hguids.2 hentries'
      refine ⟨l', hl', fun pair => (hiff pair).trans ⟨?_, ?_⟩⟩
      · rintro (hold | ⟨i,hi,hok⟩)
        · exact .inl hold
        · exact .inr ⟨i+1, hi, hshift i ▸ hok⟩
      · rintro (hold | ⟨i,hi,hok⟩)
        · exact .inl hold
        · cases i with
          | zero => exact absurd hfst hok
          | succ i => exact .inr ⟨i, hi, (hshift i).symm ▸ hok⟩

structure Database.WithoutOpens (db : Database) : Prop where
  linked : db.Linked
  noneEmpty : db.NoneEmpty
  unique : db.Unique
  opens : ∀ p prot, db.prot p = some prot → prot.openList = [] ∧ prot.openListCount = 0

theorem Database.WithoutOpens.ready (hdb : db.WithoutOpens) : db.Ready := by
  refine ⟨hdb.linked, fun p prot hp => ?_⟩
  obtain ⟨hnil,hzero⟩ := hdb.opens p prot hp
  rw [hnil, hzero]
  exact ⟨rfl, fun data hdata => by cases hdata⟩

theorem Database.WithoutOpens.guids_nodup (hdb : db.WithoutOpens) (h : Nat) :
    ((db.pairsOn h).map Prod.fst).Nodup := by
  unfold List.Nodup Database.pairsOn
  rw [pairwise_map, pairwise_filterMap]
  refine (hdb.linked.protocols h).imp_of_mem ?_
  intro p q hp hq hne pair hpair pair' hpair' heq
  obtain ⟨prot,hprot,hhnd⟩ := (hdb.linked.onHandle h p).mp hp
  obtain ⟨prot',hprot',hhandle'⟩ := (hdb.linked.onHandle h q).mp hq
  unfold Database.pairOf at hpair hpair'
  rw [hprot, Option.map_some] at hpair
  rw [hprot', Option.map_some] at hpair'
  refine hne (hdb.unique p q prot prot' hprot hprot' (hhnd.trans hhandle'.symm) ?_)
  rw [← Option.some.inj hpair, ← Option.some.inj hpair'] at heq
  exact heq

theorem Database.Linked.guid_mem_entries (hl : db.Linked) (hmem : pair ∈ db.pairsOn h) :
    pair.1 ∈ db.entries := by
  obtain ⟨p,hp,hpair⟩ := mem_filterMap.mp hmem
  obtain ⟨prot,hprot,-⟩ := (hl.onHandle h p).mp hp
  unfold Database.pairOf at hpair
  rw [hprot, Option.map_some] at hpair
  rw [← Option.some.inj hpair]
  exact hl.entry p prot hprot

def SamePairs : Option (List (Guid × Nat)) → Option (List (Guid × Nat)) → Prop
  | none, none => True
  | some l, some l' => ∀ pair, pair ∈ l' ↔ pair ∈ l
  | _, _ => False

theorem SamePairs.refl (l : Option (List (Guid × Nat))) : SamePairs l l := by
  cases l with
  | none => trivial
  | some l => exact fun _ => Iff.rfl

/-- The rollback of an uninstall restores what it can: not a handle that is gone, and not a pair whose
allocation fails. -/
theorem reinstallAll_samePairs (dxeCore : Nat) (hdb : db.WithoutOpens) {db' : Database} {k : Nat}
    (hk : failsAt ((db.installed h).getD []) pairs = some k) (hready : db'.Ready)
    (hinst : db'.installed h = shown (((db.installed h).getD []).diff (pairs.take k)))
    (hpool : db'.pool = db.pool) (hents : db'.entries = db.entries) :
    SamePairs (db.installed h) ((reinstallAll dxeCore h (pairs.take k) db').installed h) ↔
      k = 0 ∨ k < ((db.installed h).getD []).length ∧ ∀ i < k, db.pool[i]? ≠ some false := by
  obtain ⟨hperm,hlen⟩ := perm_of_failsAt hk
  have hshown := hdb.noneEmpty.shown_installed (h := h) hdb.linked
  by_cases hzero : k = 0
  · subst hzero
    refine iff_of_true ?_ (.inl rfl)
    have hsame : db'.installed h = db.installed h := hinst.trans hshown
    change SamePairs (db.installed h) (db'.installed h)
    rw [hsame]
    exact SamePairs.refl _
  have hmem : h ∈ db.handleList := by
    by_contra hnot
    rw [installed_eq hdb.linked, if_neg hnot] at hperm
    have hnil := (append_eq_nil_iff.mp hperm.symm.eq_nil).1
    rw [hnil] at hlen
    exact hzero hlen.symm
  have hbef : db.installed h = some (db.pairsOn h) := by rw [installed_eq hdb.linked, if_pos hmem]
  rw [hbef, Option.getD_some] at hperm hinst ⊢
  have hsum := hperm.length_eq
  rw [length_append, hlen] at hsum
  by_cases hrest : (db.pairsOn h).diff (pairs.take k) = []
  · rw [hrest] at hinst hsum
    rw [reinstallAll_gone dxeCore hready (hdb.linked.fresh.2.1 h hmem).1 hinst]
    refine iff_of_false id ?_
    rintro (hk0 | ⟨hlt,-⟩)
    · exact hzero hk0
    · rw [hsum] at hlt
      exact lt_irrefl k hlt
  · have hlt : k < (db.pairsOn h).length := by
      rw [hsum]
      exact Nat.lt_add_of_pos_right (length_pos_of_ne_nil hrest)
    have hguids : ((pairs.take k ++ (db.pairsOn h).diff (pairs.take k)).map Prod.fst).Nodup :=
      (hperm.map Prod.fst).nodup_iff.mp (hdb.guids_nodup h)
    have hnodup := List.Nodup.of_map _ hguids
    have hent : ∀ pair ∈ pairs.take k, pair.1 ∈ db'.entries := by
      intro pair hpair
      rw [hents]
      exact hdb.linked.guid_mem_entries (hperm.mem_iff.mpr (mem_append_left _ hpair))
    obtain ⟨l',hl',hiff⟩ := reinstallAll_kept dxeCore hready
      (hinst.trans (if_neg hrest)) hguids hent
    rw [hl']
    constructor
    · intro hsame
      refine .inr ⟨hlt, fun i hi hfalse => ?_⟩
      have hget : (pairs.take k)[i]? = some (pairs.take k)[i] :=
        getElem?_eq_getElem (by rw [hlen]; exact hi)
      have hin := mem_of_getElem? hget
      rcases (hiff _).mp ((hsame _).mpr (hperm.mem_iff.mpr (mem_append_left _ hin))) with
        hdiff | ⟨j, hj, hok⟩
      · exact (nodup_append'.mp hnodup).2.2 hin hdiff
      have hij : i = j := by
        have hnd := (nodup_append'.mp hnodup).1
        exact (getElem?_inj (by rw [hlen]; exact hi) hnd).mp (hget.trans hj.symm)
      rw [← hij, hpool] at hok
      exact hok hfalse
    · rintro (hk0 | ⟨-,hok⟩)
      · exact absurd hk0 hzero
      · intro pair
        rw [hiff, hperm.mem_iff, mem_append]
        constructor
        · rintro (hdiff | ⟨i,hi,-⟩)
          · exact .inr hdiff
          · exact .inl (mem_of_getElem? hi)
        · rintro (hin | hdiff)
          · obtain ⟨i,hi,heq⟩ := getElem_of_mem hin
            refine .inr ⟨i, List.getElem?_eq_some_iff.mpr ⟨hi, heq⟩, ?_⟩
            rw [hpool]
            exact hok i (by rw [← hlen]; exact hi)
          · exact .inl hdiff

/-- A failed install of several interfaces changes nothing. A failed uninstall leaves the handle as it was
exactly where the pairs before the failing one are not all of its pairs and can be allocated again. -/
theorem multiple_restores (dxeCore : Nat) (paths : Nat → DevicePath) (hdb : db.WithoutOpens) (h : Nat)
    (pairs : List (Guid × Nat)) :
    (∃ status h' db', coreInstallMultipleProtocolInterfaces dxeCore paths db h pairs = some (status,h',db') ∧
      (status ≠ .success → h' = h ∧ db'.installed = db.installed)) ∧
    ∃ status db', coreUninstallMultipleProtocolInterfaces dxeCore db h pairs = some (status,db') ∧
      ((status ≠ .success → SamePairs (db.installed h) (db'.installed h)) ↔
        ∀ k, failsAt ((db.installed h).getD []) pairs = some k →
          k = 0 ∨ k < ((db.installed h).getD []).length ∧ ∀ i < k, db.pool[i]? ≠ some false) := by
  refine ⟨install_restores dxeCore paths hdb.ready hdb.noneEmpty, ?_⟩
  have hloop := @uninstallLoopAll_eq db h pairs _ hdb.ready
    (hdb.noneEmpty.shown_installed (h := h) hdb.linked).symm
  unfold coreUninstallMultipleProtocolInterfaces
  cases hk : failsAt ((db.installed h).getD []) pairs with
  | none =>
    rw [hk] at hloop
    obtain ⟨n,db',heq⟩ := hloop
    rw [heq]
    exact ⟨.success, db', rfl, iff_of_true (fun hne => absurd rfl hne) fun k hk => by cases hk⟩
  | some k =>
    rw [hk] at hloop
    obtain ⟨status,db',hst,heq,hready,hinst,hpool,hents⟩ := hloop
    rw [heq]
    have hrollback := reinstallAll_samePairs dxeCore hdb hk hready hinst hpool hents
    refine ⟨.invalidParameter, reinstallAll dxeCore h (pairs.take k) db', ?_, ?_⟩
    · cases status with
      | success => exact absurd rfl hst
      | _ => rfl
    · constructor
      · intro hsame j hj
        obtain rfl := Option.some.inj hj
        exact hrollback.mp (hsame (by decide))
      · exact fun hcond _ => hrollback.mpr (hcond k rfl)

end

def twoInterfaces : Database where
  handleList := [1]
  handle h := if h = 1 then some ⟨1, [2, 3]⟩ else none
  entries := [7, 8]
  byProtocol guid := if guid = 7 then [2] else if guid = 8 then [3] else []
  prot p := if p = 2 then some ⟨1, 7, 70, [], 0⟩ else if p = 3 then some ⟨1, 8, 80, [], 0⟩ else none
  key := 1
  next := 4
  pool := []

theorem twoInterfaces_prot (p : Nat) (prot : ProtocolInterface) : twoInterfaces.prot p = some prot ↔
    p = 2 ∧ prot = ⟨1, 7, 70, [], 0⟩ ∨ p = 3 ∧ prot = ⟨1, 8, 80, [], 0⟩ := by
  change (if p = 2 then _ else if p = 3 then _ else none) = some prot ↔ _
  by_cases htwo : p = 2
  · simp [htwo, eq_comm]
  · by_cases hthree : p = 3 <;> simp [htwo, hthree, eq_comm]

theorem twoInterfaces_protocolsOf (h : Nat) : twoInterfaces.protocolsOf h = if h = 1 then [2, 3] else [] := by
  by_cases hh : h = 1 <;> simp [Database.protocolsOf, twoInterfaces, hh]

theorem twoInterfaces_withoutOpens : twoInterfaces.WithoutOpens := by
  refine ⟨⟨nodup_singleton 1, fun h => ?_, fun h => ?_, fun h p => ?_, fun guid p => ?_, fun guid => ?_, ?_,
    by decide, by decide, ?_⟩, fun h hh => ?_, ?_, ?_⟩
  · by_cases hh : h = 1 <;> simp [twoInterfaces, hh]
  · rw [twoInterfaces_protocolsOf]
    split <;> decide
  · simp only [twoInterfaces_protocolsOf, twoInterfaces_prot]
    by_cases hh : h = 1
    · simp [hh, or_and_right, exists_or]
    · simp [hh, or_and_right, exists_or, Ne.symm hh]
  · simp only [twoInterfaces_prot]
    change p ∈ (if guid = 7 then [2] else if guid = 8 then [3] else []) ↔ _
    by_cases hseven : guid = 7
    · simp [hseven, or_and_right, exists_or]
    · by_cases height : guid = 8
      · simp [height, or_and_right, exists_or]
      · simp [hseven, height, or_and_right, exists_or, Ne.symm hseven, Ne.symm height]
  · change (if guid = 7 then [2] else if guid = 8 then [3] else []).Nodup
    split
    · decide
    · split <;> decide
  · intro p prot hp
    rcases (twoInterfaces_prot p prot).mp hp with ⟨rfl,rfl⟩ | ⟨rfl,rfl⟩ <;> decide
  · intro p prot hp
    rcases (twoInterfaces_prot p prot).mp hp with ⟨rfl,rfl⟩ | ⟨rfl,rfl⟩ <;> decide
  · rw [mem_singleton.mp hh]
    decide
  · intro p q prot prot' hp hq _ hguid
    rcases (twoInterfaces_prot p prot).mp hp with ⟨rfl,rfl⟩ | ⟨rfl,rfl⟩ <;>
      rcases (twoInterfaces_prot q prot').mp hq with ⟨rfl,rfl⟩ | ⟨rfl,rfl⟩ <;>
      first | rfl | exact absurd hguid (by decide)
  · intro p prot hp
    rcases (twoInterfaces_prot p prot).mp hp with ⟨rfl,rfl⟩ | ⟨rfl,rfl⟩ <;> exact ⟨rfl, rfl⟩

/-- The interfaces of a handle, and then one that is not installed: the handle is gone. -/
theorem uninstall_loses_handle :
    ¬ ∀ (dxeCore : Nat) (db : Database) (h : Nat) (pairs : List (Guid × Nat)) (status : EfiStatus)
      (db' : Database), db.WithoutOpens →
      coreUninstallMultipleProtocolInterfaces dxeCore db h pairs = some (status,db') → status ≠ .success →
      SamePairs (db.installed h) (db'.installed h) := by
  intro hall
  exact hall 0 twoInterfaces 1 [(7,70), (8,80), (9,90)] .invalidParameter _ twoInterfaces_withoutOpens rfl
    (by decide)

/-- With one of them left, the one that was uninstalled is installed again. -/
theorem multiple_restores_twoInterfaces :
    ∃ db', coreUninstallMultipleProtocolInterfaces 0 twoInterfaces 1 [(8,80), (9,90)] =
        some (.invalidParameter,db') ∧ SamePairs (twoInterfaces.installed 1) (db'.installed 1) ∧
      db'.installed 1 ≠ twoInterfaces.installed 1 := by
  obtain ⟨status,db',heq,hiff⟩ :=
    (multiple_restores 0 (fun _ => ⟨[], []⟩) twoInterfaces_withoutOpens 1 [(8,80), (9,90)]).2
  cases (show some (EfiStatus.invalidParameter, _) = some (status,db') from heq)
  refine ⟨_, heq, hiff.mpr (fun k hk => ?_) EfiStatus.noConfusion, by decide⟩
  obtain rfl := Option.some.inj (show some 1 = some k from hk)
  exact .inr ⟨by decide, fun i _ => by simp [twoInterfaces]⟩

end Liano.Handle
