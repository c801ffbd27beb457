import PrecompiledHeaders.Config
import PrecompiledHeaders.Fault
import PrecompiledHeaders.Text.Blank
/-! Which configurations make sense. The first rule that is broken is reported: tools first, then
the parts in order, each by its own rules in order. -/
namespace PrecompiledHeaders.Config

open Text (isAllBlank)

/-- A part by its own rules; `seen` holds the ids of earlier parts. -/
def partComplaint? (seen : List PartId) (e : PartEntry) : Option String :=
  if isAllBlank e.id then some "project part id must not be empty"
  else if e.id ∈ seen then some s!"duplicate project part id '{e.id}'"
  else if e.sources.isEmpty then some s!"project part '{e.id}' must list at least one source"
  else match e.macros.findIdx? (isAllBlank ·.name) with
    | some i =>
      some (s!"project part '{e.id}' has a macro without a name (entry " ++ toString (i + 1) ++ ")")
    | none => none

def partsComplaint? (seen : List PartId) : List PartEntry → Option String
  | [] => none
  | e :: rest =>
    match partComplaint? seen e with
    | some complaint => some complaint
    | none => partsComplaint? (e.id :: seen) rest

def complaint? (c : Config) : Option String :=
  if isAllBlank c.tools.scanner then
    some "[tools].scanner must name a dependency scanner command"
  else if isAllBlank c.tools.compiler then some "[tools].compiler must name a compiler command"
  else if c.parts.isEmpty then some "config must contain at least one [[project_part]] section"
  else partsComplaint? [] c.parts

/-- The configuration itself, if it makes sense. -/
def validate (c : Config) : Except Fault Config :=
  match c.complaint? with
  | some complaint => .error (.config complaint)
  | none => .ok c

end PrecompiledHeaders.Config
