import PrecompiledHeaders.World
/-! Whether recorded time stamps still hold. Files are looked at in order, and none after the
first difference. -/
namespace PrecompiledHeaders.Freshness

variable {W : Type} [World W]

/-- The file's present time stamp; none for a missing file and for a number without a path. -/
def modified? (ws : Workspace W) (id : FileId) : Option Stamp :=
  (ws.files.path? id).bind fun p => World.modified? ws.world ⟨p⟩

def holds (ws : Workspace W) (s : FileStatus) : Bool := modified? ws s.file = s.modified

/-- An empty list says nothing about anything, so it is never up to date. -/
def isUpToDate (ws : Workspace W) (statuses : List FileStatus) : Bool :=
  !statuses.isEmpty && statuses.all (holds ws)

/-- How many files the file system is asked about for one file. -/
def cost (ws : Workspace W) (id : FileId) : Nat := if (ws.files.path? id).isSome then 1 else 0

/-- How many files the file system is asked about in deciding `isUpToDate`. -/
def lookups (ws : Workspace W) : List FileStatus → Nat
  | [] => 0
  | s :: rest => cost ws s.file + if holds ws s then lookups ws rest else 0

end PrecompiledHeaders.Freshness
