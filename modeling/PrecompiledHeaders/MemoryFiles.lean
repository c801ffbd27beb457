import PrecompiledHeaders.FilePath
import PrecompiledHeaders.Text.Utf8
/-! Files in memory under a logical clock: every write and every touch is one tick, and a file's
time stamp is the tick of its last change. There are no directories. -/
namespace PrecompiledHeaders

abbrev FileContent := Except Text.Utf8.Fault String

structure MemoryFile where
  path : FilePath
  content : FileContent
  modified : Nat

structure MemoryFiles where
  files : List MemoryFile
  clock : Nat

namespace MemoryFiles

def empty : MemoryFiles := ⟨[], 0⟩

instance : Inhabited MemoryFiles := ⟨empty⟩

def find? (m : MemoryFiles) (p : FilePath) : Option MemoryFile := m.files.find? (·.path.same p)

def contains (m : MemoryFiles) (p : FilePath) : Bool := (m.find? p).isSome

def erase (m : MemoryFiles) (p : FilePath) : MemoryFiles :=
  { m with files := m.files.filter (! ·.path.same p) }

def write (m : MemoryFiles) (p : FilePath) (content : FileContent) : MemoryFiles :=
  ⟨⟨p, content, m.clock + 1⟩ :: (m.erase p).files, m.clock + 1⟩

/-- The clock moves on for a missing file too. -/
def touch (m : MemoryFiles) (p : FilePath) : MemoryFiles :=
  ⟨m.files.map fun f => if f.path.same p then { f with modified := m.clock + 1 } else f,
    m.clock + 1⟩

end MemoryFiles
end PrecompiledHeaders
