import PrecompiledHeaders.World
/-! JSON documents in files. A missing document is no fault; one that cannot be read or decoded
is. -/
namespace PrecompiledHeaders.Document

variable {W : Type} [World W]

def load (w : W) (path : FilePath) (decode : Json → Option α) : Except Fault (Option α) :=
  if World.hasFile w path then
    match World.readText w path with
    | .error f => .error f.toFault
    | .ok text =>
      match (Json.read text).bind decode with
      | some a => .ok (some a)
      | none => .error (.other s!"parsing stored document {Text.quoted path.text}" ["malformed"])
  else .ok none

def save (w : W) (path : FilePath) (document : Json) : Except Fault Unit × W :=
  match World.writeText w path document.pretty with
  | (.ok (), w) => (.ok (), w)
  | (.error f, w) => (.error f.toFault, w)

end PrecompiledHeaders.Document
