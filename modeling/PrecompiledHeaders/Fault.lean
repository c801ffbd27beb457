import PrecompiledHeaders.FileTable
/-! What can go wrong, and the words for it. -/
namespace PrecompiledHeaders

inductive Fault where
  | config (complaint : String)
  | io (reason : String)
  | toml
  | json
  | collection (part : String) (reason : String)
  | buildFailed (key : String) (code : Int) (output : String)
  | unknownFile (id : FileId)
  /-- A failure told by its context; `causes` lead from it down to the first one. -/
  | other (context : String) (causes : List String)
  deriving DecidableEq, Repr

namespace Fault

def message : Fault → String
  | .config complaint => s!"Configuration error: {complaint}"
  | .io reason => s!"IO error: {reason}"
  | .toml => "TOML parsing error"
  | .json => "JSON error"
  | .collection part reason =>
    s!"Dependency collection failed for project part '{part}': {reason}"
  | .buildFailed key code output => s!"PCH build {key} failed with exit code {code}: {output}"
  | .unknownFile id => s!"Unknown file id: FileId({id.index})"
  | .other context _ => context

def causes : Fault → List String
  | .io reason => [reason]
  | .other _ causes => causes
  | _ => []

end Fault

/-- What went wrong without stopping anything. -/
inductive Trouble where
  | recordUnreadable (part : String)
  | recordUnsaved (part : String)
  | collectionFailed (part : String)
  | buildFailed (key : String)
  | headersUnrecorded (parts : List String)
  | directoryUnwatched (path : String)
  deriving DecidableEq, Repr

end PrecompiledHeaders
