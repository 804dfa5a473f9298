import Liano.Efi
import Mathlib.Data.List.Infix

/-! The DXE dispatcher (Dispatcher.c): the discovered drivers with the flags of their states, the queue of
those that are scheduled, and the loop that loads and starts them. -/
namespace Liano.Dispatcher

abbrev EfiGuid := Nat
abbrev EfiHandle := Nat

inductive DepexOpcode
  | before | after | sor | other
deriving DecidableEq, Repr

/-- A dependency expression, with the bytes behind its first opcode where they are read as a GUID. -/
structure Depex where
  opcode : DepexOpcode
  guid : EfiGuid
deriving DecidableEq, Repr

/-- What ReadSection says of the section with the dependency expression. -/
inductive DepexSection
  | protocolError
  | missing
  | found (depex : Depex)
deriving DecidableEq, Repr

/-- EFI_CORE_DRIVER_ENTRY. The image handle counts only for not being NULL. -/
structure DriverEntry where
  fvHandle : EfiHandle
  fileName : EfiGuid
  before : Bool
  after : Bool
  beforeAfterGuid : EfiGuid
  dependent : Bool
  unrequested : Bool
  scheduled : Bool
  untrusted : Bool
  initialized : Bool
  depexProtocolError : Bool
  imageHandle : Bool
  isFvImage : Bool
deriving DecidableEq, Repr

section
variable (d : DriverEntry)

/-- Unrequested for SOR, and Dependent for every other opcode. -/
def DriverEntry.setRequested (opcode : DepexOpcode) : DriverEntry :=
  if opcode = .sor then { d with unrequested := true } else { d with dependent := true }

def DriverEntry.setRelation (opcode : DepexOpcode) : DriverEntry :=
  if opcode = .before then { d with before := true }
  else if opcode = .after then { d with after := true }
  else d

def DriverEntry.setGuid (guid : EfiGuid) : DriverEntry :=
  if d.before = true ∨ d.after = true then { d with beforeAfterGuid := guid } else d

def corePreProcessDepex (depex : Depex) : DriverEntry :=
  ((d.setRequested depex.opcode).setRelation depex.opcode).setGuid depex.guid

def coreGetDepexSectionAndPreProccess : DepexSection → DriverEntry
  | .protocolError => { d with depexProtocolError := true }
  | .missing => { d with dependent := true, depexProtocolError := false }
  | .found depex => { corePreProcessDepex d depex with depexProtocolError := false }

/-- CoreIsSchedulable, with what the evaluation of the expression says, or for a driver without one
whether all services are available. -/
def coreIsSchedulable (evaluates : Bool) : Bool :=
  if d.after = true ∨ d.before = true then false else evaluates

/-- BEFORE or AFTER. -/
inductive Relation
  | before | after
deriving DecidableEq, Repr

structure Pull where
  relation : Relation
  inserted : Nat
  driver : Nat
deriving DecidableEq, Repr

/-- Where the dispatcher is: it drains the queue, searches the list from a driver on, or has returned. -/
inductive Phase
  | drain
  | search (next : Nat) (readyToRun : Bool)
  | returned
deriving DecidableEq, Repr

/-- The drivers of mDiscoveredList are told apart by their places in it. The last three fields are no data
of the program: they say which drivers have been put on the queue for their expressions and in what order,
which of them because of which other one, and which drivers have been started. -/
structure State where
  discoveredList : List DriverEntry
  scheduledQueue : List Nat
  phase : Phase
  inserted : List Nat
  pulls : List Pull
  started : List Nat
deriving DecidableEq, Repr

def State.has (s : State) (i : Nat) (q : DriverEntry → Bool) : Bool := (s.discoveredList[i]?).any q

def State.change (s : State) (i : Nat) (f : DriverEntry → DriverEntry) : State :=
  { s with discoveredList := s.discoveredList.modify i f }

def DriverEntry.isRelated : Relation → Bool
  | .before => d.before
  | .after => d.after

def State.related (s : State) (relation : Relation) (i j : Nat) : Bool :=
  j != i && s.has i fun di => s.has j fun dj =>
    dj.isRelated relation && di.fileName == dj.beforeAfterGuid

def DriverEntry.schedule : DriverEntry := { d with dependent := false, scheduled := true }

end

def State.link (s : State) (i : Nat) : State := { s.change i DriverEntry.schedule with
    scheduledQueue := s.scheduledQueue ++ [i]
    inserted := s.inserted ++ [i] }

def State.note (s : State) (pull : Pull) : State := { s with pulls := s.pulls ++ [pull] }

/-- A loop over mDiscoveredList. -/
def eachDriver (f : Nat → State → Option State) : List Nat → State → Option State
  | [], s => some s
  | j :: js, s => (f j s).bind (eachDriver f js)

/-- The body of the two loops of CoreInsertOnScheduledQueueWhileProcessingBeforeAndAfter. -/
def pullDriver (insert : Nat → State → Option State) (relation : Relation) (i j : Nat) (s : State) :
    Option State := if s.related relation i j = true ∧ s.has j (·.dependent) = true then
    insert j (s.note ⟨relation, i, j⟩)
  else some s

/-- CoreInsertOnScheduledQueueWhileProcessingBeforeAndAfter; none where the fuel does not suffice. -/
def coreInsert : Nat → Nat → State → Option State
  | 0, _, _ => none
  | fuel+1, i, s =>
    (eachDriver (pullDriver (coreInsert fuel) .before i) (List.range s.discoveredList.length) s).bind
      fun s =>
        eachDriver (pullDriver (coreInsert fuel) .after i) (List.range s.discoveredList.length)
          (s.link i)

def coreSchedule (s : State) (firmwareVolumeHandle : EfiHandle) (driverName : EfiGuid) :
    EfiStatus × State := match s.discoveredList.findIdx? fun d =>
    d.fvHandle == firmwareVolumeHandle && d.unrequested && driverName == d.fileName with
  | none => (.notFound, s)
  | some i => (.success, s.change i fun d => { d with unrequested := false, dependent := true })

def coreTrust (s : State) (firmwareVolumeHandle : EfiHandle) (driverName : EfiGuid) :
    EfiStatus × State := match s.discoveredList.findIdx? fun d =>
    d.fvHandle == firmwareVolumeHandle && d.untrusted && driverName == d.fileName with
  | none => (.notFound, s)
  | some i => (.success, { s.change i fun d => { d with untrusted := false, scheduled := true } with
        scheduledQueue := s.scheduledQueue ++ [i] })

/-- What happens: CoreLoadImage fails for the first driver of the queue, the driver is loaded where it has
to be and started, a driver calls a service, the queue is empty, a driver of the list is looked at (with
what reading its expression again gives, the value of the expression and fuel for the insertion), the end
of the list is reached, or the dispatcher is called again. -/
inductive Action
  | loadFails (securityViolation imageHandle : Bool)
  | start
  | schedule (firmwareVolumeHandle : EfiHandle) (driverName : EfiGuid)
  | trust (firmwareVolumeHandle : EfiHandle) (driverName : EfiGuid)
  | drained
  | look (depexSection : DepexSection) (evaluates : Bool) (fuel : Nat)
  | endOfList
  | dispatch
deriving DecidableEq, Repr

def State.retry (s : State) (i : Nat) (depexSection : DepexSection) : State :=
  if s.has i (·.depexProtocolError) = true then
    s.change i fun d => coreGetDepexSectionAndPreProccess d depexSection
  else s

/-- A round of the search of CoreDispatcher, for the driver at i. -/
def lookAt (s : State) (i : Nat) (readyToRun : Bool) (depexSection : DepexSection) (evaluates : Bool)
    (fuel : Nat) : Option State := let s := s.retry i depexSection
  if s.has i (·.dependent) = true ∧ s.has i (coreIsSchedulable · evaluates) = true then
    (coreInsert fuel i s).map fun s => { s with phase := .search (i+1) true }
  else some { s with phase := .search (i+1) readyToRun }

/-- The steps of CoreDispatcher and of the drivers that it starts. -/
def step (s : State) : Action → Option State
  | .loadFails securityViolation imageHandle =>
    match s.phase, s.scheduledQueue with
    | .drain, i :: rest =>
      if s.has i (fun d => d.imageHandle || d.isFvImage) = true then none
      else some { s.change i fun d => { d with
          untrusted := if securityViolation = true then true else d.untrusted
          initialized := if securityViolation = true then d.initialized else true
          scheduled := false
          imageHandle := imageHandle } with
        scheduledQueue := rest }
    | _, _ => none
  | .start =>
    match s.phase, s.scheduledQueue with
    | .drain, i :: rest =>
      some { s.change i fun d => { d with
          scheduled := false
          initialized := true
          imageHandle := d.imageHandle || !d.isFvImage } with
        scheduledQueue := rest
        started := s.started ++ [i] }
    | _, _ => none
  | .schedule firmwareVolumeHandle driverName => some (coreSchedule s firmwareVolumeHandle driverName).2
  | .trust firmwareVolumeHandle driverName => some (coreTrust s firmwareVolumeHandle driverName).2
  | .drained =>
    match s.phase, s.scheduledQueue with
    | .drain, [] => some { s with phase := .search 0 false }
    | _, _ => none
  | .look depexSection evaluates fuel =>
    match s.phase with
    | .search i readyToRun =>
      if i < s.discoveredList.length then lookAt s i readyToRun depexSection evaluates fuel
      else none
    | _ => none
  | .endOfList =>
    match s.phase with
    | .search i readyToRun =>
      if i < s.discoveredList.length then none
      else some { s with phase := if readyToRun = true then .drain else .returned }
    | _ => none
  | .dispatch =>
    match s.phase with
    | .returned => some { s with phase := .drain }
    | _ => none

end Liano.Dispatcher
