import Liano.Handle.Database

/-! OpenProtocol and CloseProtocol (Core/Dxe/Hand/Handle.c), and the calls that are made while a call has
released the lock to have a driver disconnected. -/
namespace Liano.Handle

/-- The handles that OpenProtocol checks for its attributes. -/
def checkAttributes (db : Database) (userHandle imageHandle controllerHandle : Nat) : OpenMode → Bool
  | .byChildController =>
    coreValidateHandle db imageHandle && coreValidateHandle db controllerHandle &&
      userHandle != controllerHandle
  | .byDriver | .byDriverExclusive =>
    coreValidateHandle db imageHandle && coreValidateHandle db controllerHandle
  | .exclusive => coreValidateHandle db imageHandle
  | .byHandleProtocol | .getProtocol | .testProtocol => true

def statusOf (allocated : Bool) : EfiStatus := if allocated then .success else .outOfResources

def openUnmatched (db : Database) (p : Nat) (prot : ProtocolInterface) (imageHandle controllerHandle : Nat)
    (attributes : OpenMode) (byDriver exclusive : Bool) : Outcome :=
  if attributes == .byDriver && (exclusive || byDriver) then .returns .accessDenied db
  else if attributes.isExclusive && exclusive then .returns .accessDenied db
  else if attributes.isExclusive && byDriver then
    match firstDriver prot.openList with
    | some data => .disconnects data.agentHandle db
    | none =>
      .returns (statusOf (addOpen db p prot imageHandle controllerHandle attributes).1)
        (addOpen db p prot imageHandle controllerHandle attributes).2
  else
    .returns (statusOf (addOpen db p prot imageHandle controllerHandle attributes).1)
      (addOpen db p prot imageHandle controllerHandle attributes).2

section
variable (db : Database) (userHandle : Nat) (protocol : Guid)

/-- CoreOpenProtocol, up to its first release of the lock for a driver. -/
def coreOpenProtocol (imageHandle controllerHandle : Nat) (attributes : OpenMode) : Outcome :=
  if !coreValidateHandle db userHandle then .returns .invalidParameter db
  else if !checkAttributes db userHandle imageHandle controllerHandle attributes then
    .returns .invalidParameter db
  else
    match coreGetProtocolInterface db userHandle protocol with
    | none => .returns .unsupported db
    | some p =>
      match db.prot p with
      | none => .returns .unsupported db
      | some prot =>
        match scanOpens imageHandle controllerHandle attributes false false [] prot.openList with
        | .alreadyStarted => .returns .alreadyStarted db
        | .counted openList => .returns .success (db.setOpens p prot openList prot.openListCount)
        | .noMatch byDriver exclusive =>
          openUnmatched db p prot imageHandle controllerHandle attributes byDriver exclusive

def OpenData.isOf (data : OpenData) (agentHandle controllerHandle : Nat) : Bool :=
  data.agentHandle == agentHandle && data.controllerHandle == controllerHandle

def coreCloseProtocol (agentHandle controllerHandle : Nat) : EfiStatus × Database :=
  if !coreValidateHandle db userHandle || !coreValidateHandle db agentHandle then (.invalidParameter, db)
  else if controllerHandle != 0 && !coreValidateHandle db controllerHandle then (.invalidParameter, db)
  else
    match coreGetProtocolInterface db userHandle protocol with
    | none => (.notFound, db)
    | some p =>
      match db.prot p with
      | none => (.notFound, db)
      | some prot =>
        (if prot.openList.any (·.isOf agentHandle controllerHandle) then .success else .notFound,
          db.setOpens p prot (prot.openList.filter fun data => !data.isOf agentHandle controllerHandle)
            (prot.openListCount -
              (prot.openList.filter fun data => data.isOf agentHandle controllerHandle).length))

/-- A call that has released the lock and waits for CoreDisconnectController, with the Prot it goes on
using. -/
inductive Frame
  | uninstalling (userHandle p : Nat) (protocol : Guid) (interface : Nat)
  | opening (userHandle p : Nat) (protocol : Guid) (interface imageHandle controllerHandle : Nat)
      (attributes : OpenMode)
deriving DecidableEq, Repr

structure Machine where
  db : Database
  frames : List Frame

/-- What happens: a call, by itself or by a driver that is being disconnected, or that
CoreDisconnectController returns to the innermost call that waits. -/
inductive Action
  | install (userHandle : Nat) (protocol : Guid) (interface : Nat)
  | uninstall (userHandle : Nat) (protocol : Guid) (interface : Nat)
  | openProtocol (userHandle : Nat) (protocol : Guid) (imageHandle controllerHandle : Nat)
      (attributes : OpenMode)
  | closeProtocol (userHandle : Nat) (protocol : Guid) (agentHandle controllerHandle : Nat)
  | resume (status : EfiStatus)
deriving DecidableEq, Repr

def Machine.settle (frames : List Frame) (frame : Frame) : Outcome → Machine
  | .returns _ db => ⟨db, frames⟩
  | .disconnects _ db => ⟨db, frame :: frames⟩

def uninstallFrame (interface : Nat) : Frame :=
  .uninstalling userHandle ((coreFindProtocolInterface db userHandle protocol interface).getD 0) protocol
    interface

def Database.interfaceAt (db : Database) (p : Nat) : Nat := match db.prot p with
  | none => 0
  | some prot => prot.interface

def openFrame (imageHandle controllerHandle : Nat)
    (attributes : OpenMode) : Frame :=
  .opening userHandle ((coreGetProtocolInterface db userHandle protocol).getD 0) protocol
    (db.interfaceAt ((coreGetProtocolInterface db userHandle protocol).getD 0)) imageHandle controllerHandle
    attributes

end

/-- The loop of CoreOpenProtocol over the drivers, and the new record behind it. -/
def openLoop (db : Database) (p : Nat) (prot : ProtocolInterface) (imageHandle controllerHandle : Nat)
    (attributes : OpenMode) : Outcome := match firstDriver prot.openList with
  | some data => .disconnects data.agentHandle db
  | none =>
    .returns (statusOf (addOpen db p prot imageHandle controllerHandle attributes).1)
      (addOpen db p prot imageHandle controllerHandle attributes).2

/-- A call goes on after CoreDisconnectController; none where it uses a Prot or a handle that has been freed.
Where the driver could not be disconnected it returns and does not look at them. -/
def resumeFrame (m : Machine) (frame : Frame) (frames : List Frame) (status : EfiStatus) : Option Machine :=
  if status.isError then some ⟨m.db, frames⟩
  else
    match frame with
    | .uninstalling userHandle p protocol interface =>
      match m.db.prot p with
      | none => none
      | some prot =>
        if coreValidateHandle m.db userHandle then
          some (Machine.settle frames frame (uninstallLoop m.db p prot userHandle protocol interface))
        else none
    | .opening _ p _ _ imageHandle controllerHandle attributes =>
      match m.db.prot p with
      | none => none
      | some prot =>
        some (Machine.settle frames frame (openLoop m.db p prot imageHandle controllerHandle attributes))

def step (dxeCore : Nat) (m : Machine) : Action → Option Machine
  | .install userHandle protocol interface =>
    some ⟨(coreInstallProtocolInterface dxeCore m.db userHandle protocol interface).2.2, m.frames⟩
  | .uninstall userHandle protocol interface =>
    some (Machine.settle m.frames (uninstallFrame m.db userHandle protocol interface)
      (coreUninstallProtocolInterface m.db userHandle protocol interface))
  | .openProtocol userHandle protocol imageHandle controllerHandle attributes =>
    some (Machine.settle m.frames (openFrame m.db userHandle protocol imageHandle controllerHandle attributes)
      (coreOpenProtocol m.db userHandle protocol imageHandle controllerHandle attributes))
  | .closeProtocol userHandle protocol agentHandle controllerHandle =>
    some ⟨(coreCloseProtocol m.db userHandle protocol agentHandle controllerHandle).2, m.frames⟩
  | .resume status =>
    match m.frames with
    | [] => some m
    | frame :: frames => resumeFrame m frame frames status

def run (dxeCore : Nat) : Machine → List Action → Option Machine
  | m, [] => some m
  | m, action :: actions => (step dxeCore m action).bind fun m' => run dxeCore m' actions

def Database.initial (pool : List Bool) : Database where
  handleList := []
  handle _ := none
  entries := []
  byProtocol _ := []
  prot _ := none
  key := 0
  next := 1
  pool := pool

end Liano.Handle
