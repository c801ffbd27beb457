import PrecompiledHeaders.Merger
import PrecompiledHeaders.Progress
/-! The queue of tasks to be built. A pending key is pending once and is handed out in its newest
version; a key that is being built is not handed out again before that build ended; project tasks
wait for all system tasks. A task that is retracted while it is built keeps running, but its
result is void. -/
namespace PrecompiledHeaders

structure Pending where
  key : TaskKey
  task : Task
  deriving DecidableEq, Repr

structure Running where
  key : TaskKey
  scope : Scope
  members : List PartId
  retracted : Bool
  deriving DecidableEq, Repr

/-- What is known of a build when it ends. -/
structure Finished where
  scope : Scope
  retracted : Bool
  members : List PartId
  progress : Progress
  deriving DecidableEq, Repr

structure Claimed where
  key : TaskKey
  scope : Scope
  task : Task
  deriving DecidableEq, Repr

structure Queue where
  pending : PerScope (List Pending)
  running : List Running
  /-- Builds that ended but were not yet reported as such. -/
  unreported : Nat
  counter : ProgressCounter
  deriving DecidableEq, Repr

namespace Queue

def empty : Queue := ⟨⟨[], []⟩, [], 0, .zero⟩

instance : Inhabited Queue := ⟨empty⟩

def isRunning (q : Queue) (k : TaskKey) : Bool := q.running.any (·.key = k)

/-! ### Instructions from the merger -/

/-- A pending key takes the new task in its place. -/
def replaceTask (k : TaskKey) (task : Task) : List Pending → List Pending
  | [] => []
  | p :: ps => if p.key = k then { p with task := task } :: ps else p :: replaceTask k task ps

def addTask (scope : Scope) (ps : List Pending) (task : Task) : List Pending :=
  let k := task.key scope
  if ps.any (·.key = k) then replaceTask k task ps else ps ++ [⟨k, task⟩]

def addTotal (q : Queue) (n : Nat) : Queue :=
  if n = 0 then q else { q with counter := (q.counter.addTotal n).2 }

def removeTotal (q : Queue) (n : Nat) : Queue :=
  if n = 0 then q else { q with counter := (q.counter.removeTotal n).2 }

/-- With the number of entries that are new. -/
def add (q : Queue) (scope : Scope) (tasks : List Task) : Nat × Queue :=
  let before := q.pending.get scope
  let after := tasks.foldl (addTask scope) before
  let n := after.length - before.length
  (n, { q with pending := q.pending.set scope after }.addTotal n)

def setRunningMembers (k : TaskKey) (members : List PartId) (rs : List Running) : List Running :=
  rs.map fun r => if r.key = k then { r with members := members } else r

def setPendingMembers (k : TaskKey) (members : List PartId) (ps : List Pending) : List Pending :=
  ps.map fun p => if p.key = k then { p with task := { p.task with members := members } } else p

/-- New members for one key, wherever it stands. -/
def updateTask (scope : Scope) (q : Queue) (task : Task) : Queue :=
  let k := task.key scope
  { q with running := setRunningMembers k task.members q.running
           pending := q.pending.modify scope (setPendingMembers k task.members) }

def update (q : Queue) (scope : Scope) (tasks : List Task) : Queue :=
  tasks.foldl (updateTask scope) q

def retract (keys : List TaskKey) (rs : List Running) : List Running :=
  rs.map fun r => if r.key ∈ keys then { r with retracted := true } else r

/-- With the number of pending entries dropped. -/
def remove (q : Queue) (scope : Scope) (keys : List TaskKey) : Nat × Queue :=
  let before := q.pending.get scope
  let after := before.filter (·.key ∉ keys)
  let n := before.length - after.length
  (n, { q with pending := q.pending.set scope after
               running := retract keys q.running }.removeTotal n)

def apply (q : Queue) : Dispatch → Queue
  | .add scope tasks => (q.add scope tasks).2
  | .update scope tasks => q.update scope tasks
  | .remove scope keys => (q.remove scope keys).2

def applyAll (q : Queue) (ds : List Dispatch) : Queue := ds.foldl apply q

/-! ### Workers -/

/-- Project tasks wait while a system task is pending or running. -/
def projectBlocked (q : Queue) : Bool :=
  !q.pending.system.isEmpty || q.running.any (·.scope = .system)

def isBlocked (q : Queue) : Scope → Bool
  | .system => false
  | .project => q.projectBlocked

def claimable (q : Queue) (p : Pending) : Bool := !q.isRunning p.key

def hasClaimable (q : Queue) (scope : Scope) : Bool :=
  !q.isBlocked scope && (q.pending.get scope).any q.claimable

/-- The first claimable entry of the scope, now running. -/
def claim (q : Queue) (scope : Scope) : Option (Claimed × Queue) :=
  if q.isBlocked scope then none
  else
    match (q.pending.get scope).find? q.claimable with
    | none => none
    | some p =>
      some (⟨p.key, scope, p.task⟩,
        { q with pending := q.pending.modify scope (·.erase p)
                 running := q.running ++ [⟨p.key, scope, p.task.members, false⟩] })

/-- The end of a build. -/
def finish (q : Queue) (k : TaskKey) : Option (Finished × Queue) :=
  match q.running.find? (·.key = k) with
  | none => none
  | some r =>
    let (progress, counter) := q.counter.addProgress 1
    some (⟨r.scope, r.retracted, r.members, progress⟩,
      { q with running := q.running.filter (·.key ≠ k)
               unreported := q.unreported + 1
               counter := counter })

/-- One ended build was reported. -/
def reported (q : Queue) : Queue := { q with unreported := q.unreported - 1 }

/-! ### Views -/

def pendingKeys (q : Queue) (scope : Scope) : List TaskKey := (q.pending.get scope).map (·.key)

def runningCount (q : Queue) (scope : Scope) : Nat := q.running.countP (·.scope = scope)

def isIdle (q : Queue) : Bool :=
  q.pending.system.isEmpty && q.pending.project.isEmpty && q.running.isEmpty && q.unreported = 0

def progress (q : Queue) : Progress := q.counter.current

def describe (_ : Queue) : String := "QueueHandle \x7b .. \x7d"

end Queue
end PrecompiledHeaders
