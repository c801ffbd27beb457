import PrecompiledHeaders.Settings
import PrecompiledHeaders.FileTable
/-! Project parts: families of translation units that are compiled alike. -/
namespace PrecompiledHeaders

abbrev PartId := String

/-- A time stamp in nanoseconds or clock ticks; its meaning is the file system's. -/
abbrev Stamp := Int

structure Part where
  id : PartId
  settings : Settings
  headers : List FileId
  sources : List FileId
  deriving DecidableEq, Repr, Inhabited

namespace Part

/-- A part's own files: its headers, then its sources. -/
def ownFiles (p : Part) : List FileId := p.headers ++ p.sources

end Part
end PrecompiledHeaders
