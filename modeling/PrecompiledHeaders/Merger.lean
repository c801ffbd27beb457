import PrecompiledHeaders.Task
/-! Merging tasks across parts. The merger holds, for each scope, one task per merge key, in the
order in which keys came up; a part is a member of at most the task it was submitted with last.
What a call changed is told to the queue once, after the call, removals first. -/
namespace PrecompiledHeaders

/-- What the queue is told. -/
inductive Dispatch where
  /-- New or resubmitted tasks, to be built. -/
  | add (scope : Scope) (tasks : List Task)
  /-- Tasks that lost members and need no build. -/
  | update (scope : Scope) (tasks : List Task)
  /-- Tasks without members. -/
  | remove (scope : Scope) (keys : List TaskKey)
  deriving DecidableEq, Repr

/-- The keys touched so far, each once, in order of first touch. -/
structure Changes where
  added : List TaskKey
  updated : List TaskKey
  removed : List TaskKey
  deriving DecidableEq, Repr

namespace Changes

def none : Changes := ⟨[], [], []⟩

def pushNew (keys : List TaskKey) (k : TaskKey) : List TaskKey :=
  if k ∈ keys then keys else keys ++ [k]

def add (c : Changes) (k : TaskKey) : Changes := { c with added := pushNew c.added k }

/-- A task lost members: all of them, or some. -/
def shrink (c : Changes) (k : TaskKey) (isEmpty : Bool) : Changes :=
  if isEmpty then { c with removed := pushNew c.removed k }
  else { c with updated := pushNew c.updated k }

end Changes

abbrev Merger := PerScope (List Task)

namespace Merger

def empty : Merger := ⟨[], []⟩

/-- `ids` leave the tasks of which `leaves` holds. -/
def detach (scope : Scope) (ids : List PartId) (leaves : Task → Bool) :
    List Task → Changes → List Task × Changes
  | [], c => ([], c)
  | t :: ts, c =>
    if leaves t && t.concerns ids then
      let t := t.removeMembers ids
      let (ts, c) := detach scope ids leaves ts (c.shrink (t.key scope) t.members.isEmpty)
      (t :: ts, c)
    else
      let (ts, c) := detach scope ids leaves ts c
      (t :: ts, c)

def dropEmpty (ts : List Task) : List Task := ts.filter fun t => !t.members.isEmpty

/-- The task with an equal merge key takes over members and sources; without one, `task` is
appended. -/
def join (task : Task) : List Task → List Task
  | [] => [task]
  | t :: ts =>
    if t.mergeKey = task.mergeKey then (t.addMembers task.members).addSources task.sources :: ts
    else t :: join task ts

/-- Members that were under another key leave there before the task joins. -/
def mergeTask (scope : Scope) (task : Task) (ts : List Task) (c : Changes) : List Task × Changes :=
  let (ts, c) := detach scope task.members (fun t => t.mergeKey ≠ task.mergeKey) ts c
  (join task (dropEmpty ts), c.add (task.key scope))

/-- The current tasks under their keys. -/
def keyed (scope : Scope) (ts : List Task) : List (TaskKey × Task) :=
  ts.map fun t => (t.key scope, t)

/-- The dispatches for the changes of one scope, given the tasks after them. -/
def flush (scope : Scope) (ts : List Task) (c : Changes) : List Dispatch :=
  let current := keyed scope ts
  let removed := c.removed.filter fun k => (current.lookup k).isNone
  let updated := (c.updated.filter (· ∉ c.added)).filterMap (current.lookup ·)
  let added := c.added.filterMap (current.lookup ·)
  (if removed.isEmpty then [] else [.remove scope removed])
    ++ (if updated.isEmpty then [] else [.update scope updated])
    ++ (if added.isEmpty then [] else [.add scope added])

/-- `extra` is appended to the task's own toolchain arguments. -/
def withExtra (extra : List String) (t : Task) : Task :=
  { t with settings :=
    { t.settings with toolchainArguments := t.settings.toolchainArguments ++ extra } }

def mergeAll (scope : Scope) (extra : List String) :
    List TaskSet → List Task → Changes → List Task × Changes
  | [], ts, c => (ts, c)
  | set :: sets, ts, c =>
    let (ts, c) := mergeTask scope (withExtra extra (set.get scope)) ts c
    mergeAll scope extra sets ts c

def mergeScope (m : Merger) (sets : List TaskSet) (extra : List String) (scope : Scope) :
    List Task × List Dispatch :=
  let (ts, c) := mergeAll scope extra sets (m.get scope) .none
  (ts, flush scope ts c)

/-- The scopes do not meet. -/
def merge (m : Merger) (sets : List TaskSet) (extra : List String) : Merger × List Dispatch :=
  let (system, first) := m.mergeScope sets extra .system
  let (project, second) := m.mergeScope sets extra .project
  (⟨system, project⟩, first ++ second)

def removeScope (m : Merger) (ids : List PartId) (scope : Scope) : List Task × List Dispatch :=
  let (ts, c) := detach scope ids (fun _ => true) (m.get scope) .none
  (dropEmpty ts, flush scope (dropEmpty ts) c)

def remove (m : Merger) (ids : List PartId) : Merger × List Dispatch :=
  let (system, first) := m.removeScope ids .system
  let (project, second) := m.removeScope ids .project
  (⟨system, project⟩, first ++ second)

end Merger
end PrecompiledHeaders
