import PrecompiledHeaders.Task
/-! From a part and its dependency to the part's two tasks. Includes go to the scope of their
role; a macro goes to the scope of the include it was used by, found by the common order. -/
namespace PrecompiledHeaders

/-- What is known after some of the includes and macros. -/
structure Split where
  tasks : TaskSet
  seen : List FileId
  /-- The role of the first include with that order. -/
  roles : List (Nat × IncludeRole)

namespace Split

/-- A task without files; macros are added only as they turn out to be used. -/
def emptyTask (part : Part) : Task :=
  ⟨[part.id], [], [], [], { part.settings with macros := [] }⟩

def start (part : Part) : Split := ⟨⟨emptyTask part, emptyTask part⟩, [], []⟩

def addFile (e : IncludeEntry) (t : Task) : Task :=
  let t := t.addSources [e.file]
  if e.role.isTop then { t with includes := t.includes ++ [e.file] } else t

def withRole (roles : List (Nat × IncludeRole)) (e : IncludeEntry) : List (Nat × IncludeRole) :=
  if (roles.lookup e.order).isSome then roles else roles ++ [(e.order, e.role)]

/-- Only a file's first entry counts. -/
def addInclude (s : Split) (e : IncludeEntry) : Split :=
  if e.file ∈ s.seen then s
  else
    let tasks := match e.role.scope? with
      | some scope => s.tasks.modify scope (addFile e)
      | none => s.tasks
    ⟨tasks, e.file :: s.seen, withRole s.roles e⟩

/-- A used macro defines itself in the task only if the part gives it a value. -/
def addUsed (part : Part) (m : UsedMacro) (t : Task) : Task :=
  if t.usedMacros.any (·.name = m.name) then t
  else
    let t := { t with usedMacros := t.usedMacros ++ [m] }
    match part.settings.macroValue? m.name with
    | some value =>
      { t with settings :=
        { t.settings with macros := t.settings.macros ++ [⟨m.name, value, m.order⟩] } }
    | none => t

def scopeOf? (s : Split) (m : UsedMacro) : Option Scope :=
  (s.roles.lookup m.order).bind IncludeRole.scope?

def addMacro (part : Part) (s : Split) (m : UsedMacro) : Split :=
  match s.scopeOf? m with
  | some scope => { s with tasks := s.tasks.modify scope (addUsed part m) }
  | none => s

end Split

/-- The part's tasks. -/
def Part.tasks (part : Part) (d : Dependency) : TaskSet :=
  (d.usedMacros.foldl (Split.addMacro part)
    (d.includes.foldl Split.addInclude (Split.start part))).tasks

end PrecompiledHeaders
