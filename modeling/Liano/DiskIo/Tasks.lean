import Mathlib.Logic.Function.Basic

/-! The asynchronous requests of DiskIo2 (DiskIoDxe/DiskIo.c): the tasks in the queue of an instance, their
subtasks, and the events that touch them. A task is known by the number of the call that made it, and its
token is the one of that call. -/
namespace Liano.DiskIo

open Function (update)

/-- DISK_IO_SUBTASK, as far as the list of its task goes. -/
structure Subtask where
  link : Nat
  blocking : Bool
deriving DecidableEq, Repr

/-- DISK_IO2_TASK. The list of the subtasks is split at the link of the submit loop: the subtasks the block
layer has, and those that wait. -/
structure Task where
  token : Bool
  submitted : List Nat
  waiting : List Subtask
deriving DecidableEq, Repr

/-- IsListEmpty (&Task->Subtasks) -/
def Task.isEmpty (t : Task) : Bool := t.submitted.isEmpty && t.waiting.isEmpty

/-- An instance, and what its callers see. A freed task is none; the block layer keeps the requests in flight.
A fault is an ASSERT that fails or a freed task that is read. -/
structure Instance where
  tasks : Nat → Option Task
  taskQueue : List Nat
  nextCall : Nat
  creating : List Nat
  submitting : Option Nat
  inflight : Nat → List Nat
  signals : Nat → Nat
  returned : Nat → Option Bool
  fault : Bool

def Instance.initial : Instance :=
  ⟨fun _ => none, [], 0, [], none, fun _ => [], fun _ => 0, fun _ => none, false⟩

section
variable (d : Instance)

def Instance.active (n : Nat) : Prop := n ∈ d.creating ∨ d.submitting = some n

def Instance.completed (n : Nat) : Bool := match d.tasks n with
  | some t => t.isEmpty
  | none => false

def Instance.dangling (n : Nat) : Bool := (d.tasks n).isNone

/-- ASSERT (Task->Token == NULL) fails. -/
def Instance.tokenLeft (n : Nat) : Bool := match d.tasks n with
  | some t => t.isEmpty && t.token
  | none => false

/-- `DiskIo2RemoveCompletedTask` -/
def removeCompletedTask : Instance := { d with
    tasks := fun n => if n ∈ d.taskQueue ∧ d.completed n = true then none else d.tasks n
    taskQueue := d.taskQueue.filter fun n => !d.completed n
    fault := d.fault || d.taskQueue.any fun n => d.dangling n || d.tokenLeft n }

def beginCall (allocated : Bool) : Instance := if allocated then
    { d with
      tasks := update d.tasks d.nextCall (some ⟨true, [], []⟩)
      taskQueue := d.taskQueue ++ [d.nextCall]
      nextCall := d.nextCall+1
      creating := d.nextCall :: d.creating }
  else
    { d with
      nextCall := d.nextCall+1
      returned := update d.returned d.nextCall (some false) }

def numbered (blocking : List Bool) : List Subtask := blocking.zipIdx.map fun b => ⟨b.2, b.1⟩

/-- After `DiskIoCreateSubtaskList`. Where it fails the task is freed, and the queue is as it was. -/
def createSubtasks (n : Nat) : Option (List Bool) → Instance
  | some blocking =>
    { d with
      tasks := update d.tasks n ((d.tasks n).map fun t => { t with waiting := numbered blocking })
      creating := d.creating.filter fun m => m != n
      submitting := some n }
  | none =>
    { d with
      tasks := update d.tasks n none
      creating := d.creating.filter fun m => m != n
      returned := update d.returned n (some false) }

/-- The end of a call that failed: the subtasks that wait are destroyed, and without subtasks the task is
removed and freed. -/
def failCall (n : Nat) (t : Task) : Instance := if t.submitted.isEmpty then
    { d with
      tasks := update d.tasks n none
      taskQueue := d.taskQueue.filter fun m => m != n
      submitting := none
      returned := update d.returned n (some false) }
  else
    { d with
      tasks := update d.tasks n (some { t with waiting := [] })
      submitting := none
      returned := update d.returned n (some false) }

def submitSubtask (n : Nat) (t : Task) (s : Subtask) (rest : List Subtask) (ok : Bool) :
    Instance :=
  if !ok then failCall d n { t with waiting := rest }
  else if s.blocking then { d with tasks := update d.tasks n (some { t with waiting := rest }) }
  else
    { d with
      tasks := update d.tasks n
        (some { t with submitted := t.submitted ++ [s.link], waiting := rest })
      inflight := update d.inflight n (d.inflight n ++ [s.link]) }

def finishCall (n : Nat) (t : Task) : Instance :=
  if t.isEmpty then
    { d with
      tasks := update d.tasks n none
      taskQueue := d.taskQueue.filter fun m => m != n
      submitting := none
      signals := update d.signals n (d.signals n + if t.token then 1 else 0)
      returned := update d.returned n (some true) }
  else { d with submitting := none, returned := update d.returned n (some true) }

/-- `DiskIo2OnReadWriteComplete` of a live task. -/
def onComplete (n link : Nat) (t : Task) (ok : Bool) : Instance :=
  if (!ok || ({ t with submitted := t.submitted.filter fun m => m != link } : Task).isEmpty) && t.token then
    { d with
      tasks := update d.tasks n
        (some { t with token := false, submitted := t.submitted.filter fun m => m != link })
      inflight := update d.inflight n ((d.inflight n).filter fun m => m != link)
      signals := update d.signals n (d.signals n + 1) }
  else
    { d with
      tasks := update d.tasks n (some { t with submitted := t.submitted.filter fun m => m != link })
      inflight := update d.inflight n ((d.inflight n).filter fun m => m != link) }

/-- A completion of the block layer: its subtask belongs to a task that is live, or freed memory is read. -/
def completeSubtask (n link : Nat) (ok : Bool) : Instance :=
  match d.tasks n with
  | some t => onComplete d n link t ok
  | none => { d with fault := true }

def Instance.hasToken (n : Nat) : Bool :=
  match d.tasks n with
  | some t => t.token
  | none => false

/-- `DiskIo2Cancel` -/
def cancel : Instance :=
  { d with
    tasks := fun n => if n ∈ d.taskQueue then (d.tasks n).map fun t => { t with token := false } else d.tasks n
    signals := fun n => d.signals n + if n ∈ d.taskQueue ∧ d.hasToken n = true then 1 else 0
    fault := d.fault || d.taskQueue.any d.dangling }

/-- What happens at an instance. A call with a token begins, gets its subtasks, submits them one by one and
ends; a blocking call polls; the block layer completes a request; and requests are cancelled. -/
inductive Event
  | begin (allocated : Bool)
  | poll
  | create (n : Nat) (blocking : Option (List Bool))
  | submit (n : Nat) (t : Task) (s : Subtask) (rest : List Subtask) (ok : Bool)
  | finish (n : Nat) (t : Task)
  | complete (n link : Nat) (ok : Bool)
  | cancel

/-- When an event can happen. The submit loop runs at TPL_CALLBACK, and only completions come in between. -/
def Event.Enabled : Event → Prop
  | .begin _ => d.submitting = none
  | .poll => d.submitting = none
  | .create n _ => n ∈ d.creating ∧ d.submitting = none
  | .submit n t s rest _ => d.submitting = some n ∧ d.tasks n = some t ∧ t.waiting = s :: rest
  | .finish n t => d.submitting = some n ∧ d.tasks n = some t ∧ t.waiting = []
  | .complete n link _ => link ∈ d.inflight n
  | .cancel => d.submitting = none

def step : Event → Instance
  | .begin allocated => beginCall (removeCompletedTask d) allocated
  | .poll => removeCompletedTask d
  | .create n blocking => createSubtasks d n blocking
  | .submit n t s rest ok => submitSubtask d n t s rest ok
  | .finish n t => finishCall d n t
  | .complete n link ok => completeSubtask d n link ok
  | .cancel => cancel d

end

def runEvents : List Event → Instance → Instance
  | [], d => d
  | e :: es, d => runEvents es (step d e)

end Liano.DiskIo
