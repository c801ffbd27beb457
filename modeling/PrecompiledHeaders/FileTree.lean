import PrecompiledHeaders.FilePath
import PrecompiledHeaders.Part
import PrecompiledHeaders.Text.Utf8
/-! A tree of files and directories in memory. Every directory has an identity of its own, and the
tree notes which names were touched in which directory, as a watch on directories would see it.
There are no links. -/
namespace PrecompiledHeaders

inductive OsFault where
  | notFound
  | exists
  | notDirectory
  | isDirectory
  | notEmpty
  | denied
  | notExecutable
  | nameTooLong
  /-- A name that holds the character NUL. -/
  | nulInName
  | nulInCommand
  deriving DecidableEq, Repr

def OsFault.text : OsFault → String
  | .notFound => "No such file or directory"
  | .exists => "File exists"
  | .notDirectory => "Not a directory"
  | .isDirectory => "Is a directory"
  | .notEmpty => "Directory not empty"
  | .denied => "Permission denied"
  | .notExecutable => "Exec format error"
  | .nameTooLong => "File name too long"
  | .nulInName => "file name contained an unexpected NUL byte"
  | .nulInCommand => "nul byte found in provided data"

/-- The number under which the operating system knows the fault. -/
def OsFault.code? : OsFault → Option Nat
  | .notFound => some 2
  | .notExecutable => some 8
  | .denied => some 13
  | .exists => some 17
  | .notDirectory => some 20
  | .isDirectory => some 21
  | .nameTooLong => some 36
  | .notEmpty => some 39
  | .nulInName | .nulInCommand => none

def OsFault.message (f : OsFault) : String :=
  match f.code? with
  | some n => f.text ++ s!" (os error {n})"
  | none => f.text

/-- The names on the way from the root. -/
abbrev Place := List String

inductive EntryKind where
  | file (content : List UInt8) (executable : Bool)
  | directory (identity : Nat)
  deriving DecidableEq, Repr

structure Entry where
  place : Place
  kind : EntryKind
  modified : Stamp
  deriving Repr

def Entry.isFile (e : Entry) : Bool :=
  match e.kind with
  | .file _ _ => true
  | .directory _ => false

structure FileTree where
  entries : List Entry
  clock : Stamp
  /-- How many directories there have been. -/
  identities : Nat
  /-- The names touched, with the directories they are in, oldest first. -/
  touched : List (Nat × String)

namespace FileTree

/-- The root alone. -/
def empty : FileTree := ⟨[⟨[], .directory 0, 0⟩], 1700000000000000000, 1, []⟩

instance : Inhabited FileTree := ⟨empty⟩

/-! ### Looking -/

def entry? (t : FileTree) (p : Place) : Option Entry := t.entries.find? (·.place = p)

def directory? (t : FileTree) (p : Place) : Option Nat :=
  match t.entry? p with
  | some ⟨_, .directory identity, _⟩ => some identity
  | _ => none

/-- The place that a path leads to; everything on the way has to be a directory. -/
def walk (t : FileTree) : Place → List FilePath.Component → Except OsFault Place
  | here, [] => .ok here
  | _, .root :: rest => walk t [] rest
  | here, .here :: rest => walk t here rest
  | here, .up :: rest =>
    if (t.directory? here).isSome then walk t here.dropLast rest else .error .notDirectory
  | here, .name n :: rest =>
    match t.entry? here with
    | some ⟨_, .directory _, _⟩ =>
      if 255 < n.utf8ByteSize then .error .nameTooLong else walk t (here ++ [n]) rest
    | some _ => .error .notDirectory
    | none => .error .notFound

/-- What ends in a separator has to be a directory, if it is there at all. -/
def locate (t : FileTree) (cwd : Place) (path : FilePath) : Except OsFault Place := do
  if path.text.toList.contains '\x00' then throw .nulInName
  if path.isEmpty then throw .notFound
  let p ← t.walk cwd path.components
  match t.entry? p with
  | some ⟨_, .file _ _, _⟩ =>
    if path.text.toList.getLast? = some '/' then throw .notDirectory else return p
  | _ => return p

def find? (t : FileTree) (cwd : Place) (path : FilePath) : Option Entry :=
  match t.locate cwd path with
  | .ok p => t.entry? p
  | .error _ => none

def read (t : FileTree) (p : Place) : Except OsFault (List UInt8) :=
  match t.entry? p with
  | some ⟨_, .file content _, _⟩ => .ok content
  | some _ => .error .isDirectory
  | none => .error .notFound

def isInside (p : Place) (e : Entry) : Bool := p.isPrefixOf e.place

def children (t : FileTree) (p : Place) : List Entry :=
  t.entries.filter fun e => e.place ≠ [] ∧ e.place.dropLast = p

/-- The paths of all files below a place, as seen from there, in order. -/
def filesBelow (t : FileTree) (p : Place) : List String :=
  let found := t.entries.filter fun e => e.isFile && isInside p e
  (found.map fun e => "/".intercalate (e.place.drop p.length)).mergeSort

def absolute (p : Place) : FilePath := ⟨"/" ++ "/".intercalate p⟩

/-! ### Changing -/

def tick (t : FileTree) : FileTree := { t with clock := t.clock + 1000000 }

/-- The last name of `p` is touched. -/
def note (t : FileTree) (p : Place) : FileTree :=
  match t.directory? p.dropLast, p.getLast? with
  | some identity, some name => { t with touched := t.touched ++ [(identity, name)] }
  | _, _ => t

def setEntry (t : FileTree) (e : Entry) : FileTree :=
  { t with entries := e :: t.entries.filter (·.place ≠ e.place) }

/-- The directory that holds `p` changes with its entries. -/
def stampParent (t : FileTree) (p : Place) : FileTree :=
  match t.entry? p.dropLast with
  | some e => t.setEntry { e with modified := t.clock }
  | none => t

/-- A file takes new content, and is made first where there is none. -/
def write (t : FileTree) (p : Place) (content : List UInt8) : Except OsFault FileTree :=
  let t := t.tick
  match t.entry? p with
  | some ⟨_, .file _ executable, _⟩ =>
    .ok ((t.setEntry ⟨p, .file content executable, t.clock⟩).note p)
  | some _ => .error .isDirectory
  | none =>
    match t.entry? p.dropLast with
    | some ⟨_, .directory _, _⟩ =>
      .ok (((t.setEntry ⟨p, .file content false, t.clock⟩).stampParent p).note p)
    | some _ => .error .notDirectory
    | none => .error .notFound

def append (t : FileTree) (p : Place) (content : List UInt8) : Except OsFault FileTree :=
  match t.read p with
  | .ok before => if content.isEmpty then .ok t else t.write p (before ++ content)
  | .error .notFound => t.write p content
  | .error f => .error f

def setExecutable (t : FileTree) (p : Place) : FileTree :=
  match t.entry? p with
  | some ⟨_, .file content _, m⟩ => (t.setEntry ⟨p, .file content true, m⟩).note p
  | _ => t

def setModified (t : FileTree) (p : Place) (stamp : Stamp) : Except OsFault FileTree :=
  match t.entry? p with
  | some e => .ok ((t.setEntry { e with modified := stamp }).note p)
  | none => .error .notFound

def makeDirectory (t : FileTree) (p : Place) : Except OsFault FileTree :=
  match t.entry? p with
  | some _ => .error .exists
  | none =>
    match t.entry? p.dropLast with
    | some ⟨_, .directory _, _⟩ =>
      let t := { t.tick with identities := t.identities + 1 }
      .ok (((t.setEntry ⟨p, .directory (t.identities - 1), t.clock⟩).stampParent p).note p)
    | some _ => .error .notDirectory
    | none => .error .notFound

/-- All directories on the way that are missing are made. -/
def makeDirectoriesFrom (t : FileTree) : Place → List FilePath.Component → Except OsFault FileTree
  | _, [] => .ok t
  | _, .root :: rest => makeDirectoriesFrom t [] rest
  | here, .here :: rest => makeDirectoriesFrom t here rest
  | here, .up :: rest => makeDirectoriesFrom t here.dropLast rest
  | here, .name n :: rest =>
    let p := here ++ [n]
    if 255 < n.utf8ByteSize then .error .nameTooLong
    else match t.entry? p with
      | some ⟨_, .directory _, _⟩ => makeDirectoriesFrom t p rest
      | some _ => if rest.isEmpty then .error .exists else .error .notDirectory
      | none =>
        match t.makeDirectory p with
        | .ok t => makeDirectoriesFrom t p rest
        | .error f => .error f

def makeDirectories (t : FileTree) (cwd : Place) (path : FilePath) : Except OsFault FileTree :=
  if path.text.toList.contains '\x00' then .error .nulInName
  else t.makeDirectoriesFrom cwd path.components

/-- The file at a path takes new content. A path that ends in a separator is no file's. -/
def create (t : FileTree) (cwd : Place) (path : FilePath) (content : List UInt8) :
    Except OsFault FileTree := do
  let p ← t.locate cwd path
  if path.text.toList.getLast? = some '/' then throw .isDirectory
  t.write p content

/-- The directories that hold a path are made. -/
def makeParents (t : FileTree) (cwd : Place) (path : FilePath) : Except OsFault FileTree :=
  t.makeDirectories cwd ((path.parent?).getD ⟨""⟩)

/-- A file with all directories on the way to it. -/
def put (t : FileTree) (cwd : Place) (path : FilePath) (content : List UInt8) :
    Except OsFault FileTree := do
  (← t.makeParents cwd path).create cwd path content

def removeEntry (t : FileTree) (p : Place) : FileTree :=
  let t := t.tick
  ({ t with entries := t.entries.filter (·.place ≠ p) }.stampParent p).note p

def removeFile (t : FileTree) (p : Place) : Except OsFault FileTree :=
  match t.entry? p with
  | some ⟨_, .file _ _, _⟩ => .ok (t.removeEntry p)
  | some _ => .error .isDirectory
  | none => .error .notFound

/-- An entry with all that is in it, deepest first. -/
def removeAll (t : FileTree) (p : Place) : FileTree :=
  let inside := (t.entries.filter (isInside p)).mergeSort
    fun a b => b.place.length ≤ a.place.length
  inside.foldl (fun t e => t.removeEntry e.place) t

/-- Whether what is at `p` can take the place of what is at `q`. -/
def mayReplace (t : FileTree) (p q : Place) : Except OsFault Unit :=
  match t.entry? p, t.entry? q with
  | none, _ => .error .notFound
  | some ⟨_, .file _ _, _⟩, some ⟨_, .directory _, _⟩ => .error .isDirectory
  | some ⟨_, .directory _, _⟩, some ⟨_, .file _ _, _⟩ => .error .notDirectory
  | some ⟨_, .directory _, _⟩, some ⟨_, .directory _, _⟩ =>
    if (t.children q).isEmpty then .ok () else .error .notEmpty
  | _, _ => .ok ()

/-- An entry, with all that is in it, moves to the place `q`; what was there goes away. -/
def rename (t : FileTree) (p q : Place) : Except OsFault FileTree := do
  t.mayReplace p q
  if p = q then return t
  match t.entry? q.dropLast with
  | some ⟨_, .directory _, _⟩ =>
    let kept := t.entries.filter fun e => !isInside q e
    let moved := kept.map fun e =>
      if isInside p e then { e with place := q ++ e.place.drop p.length } else e
    return ((({ t.tick with entries := moved }.stampParent p).stampParent q).note p).note q
  | some _ => throw .notDirectory
  | none => throw .notFound

end FileTree
end PrecompiledHeaders
