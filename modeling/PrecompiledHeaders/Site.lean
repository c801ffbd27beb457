import PrecompiledHeaders.Config
import PrecompiledHeaders.Shell.Run
import PrecompiledHeaders.World
/-! A place to work in: a tree of files, the directory that relative paths start from, and the
tools that a configuration names. The scanner reads its request and writes its report as JSON; the
compiler gets arguments only, and is judged by how it ends. -/
namespace PrecompiledHeaders

structure Site where
  tree : FileTree
  cwd : Place
  tools : Config.Tools

namespace Site

/-- A bare system with an empty directory to work in. -/
def base : FileTree :=
  let directories := [["bin"], ["dev"], ["etc"], ["tmp"], ["usr"], ["usr", "bin"], ["tmp", "work"]]
  let files := [["dev", "null"], ["etc", "passwd"]]
  let t := directories.foldl
    (fun (t : FileTree) p => (t.makeDirectory p).toOption.getD t) FileTree.empty
  let t := files.foldl (fun (t : FileTree) p => (t.write p []).toOption.getD t) t
  { t with touched := [] }

def fresh : Site := ⟨base, ["tmp", "work"], .default⟩

instance : Inhabited Site := ⟨fresh⟩

/-! ### Files -/

def entry? (s : Site) (p : FilePath) : Option Entry := s.tree.find? s.cwd p

def readText (s : Site) (p : FilePath) : Except FileFault String :=
  match (do s.tree.read (← s.tree.locate s.cwd p)) with
  | .ok bytes =>
    match Text.Utf8.decode bytes with
    | .ok text => .ok text
    | .error _ => .error (.failed .reading p "stream did not contain valid UTF-8")
  | .error f => .error (.failed .reading p f.message)

/-- The directories on the way are made first. -/
def writeText (s : Site) (p : FilePath) (text : String) : Except FileFault Unit × Site :=
  let parent := (p.parent?).getD ⟨""⟩
  match s.tree.makeDirectories s.cwd parent with
  | .error f => (.error (.failed .creatingDirectory parent f.message), s)
  | .ok tree =>
    match tree.create s.cwd p (Text.Utf8.encode text) with
    | .error f => (.error (.failed .creatingFile p f.message), { s with tree := tree })
    | .ok tree => (.ok (), { s with tree := tree })

def removeFile (s : Site) (p : FilePath) : Except FileFault Unit × Site :=
  match (do s.tree.removeFile (← s.tree.locate s.cwd p)) with
  | .ok tree => (.ok (), { s with tree := tree })
  | .error f => (.error (.failed .removing p f.message), s)

/-- The one spelling of a place. -/
def canonical (s : Site) (p : FilePath) : Except FileFault FilePath :=
  match s.tree.locate s.cwd p with
  | .ok place =>
    if (s.tree.entry? place).isSome then .ok (FileTree.absolute place)
    else .error (.failed .canonicalizing p OsFault.notFound.message)
  | .error f => .error (.failed .canonicalizing p f.message)

/-- Times before the epoch, and those that do not fit, count as unknown. -/
def modified? (s : Site) (p : FilePath) : Option Stamp :=
  ((s.entry? p).map (·.modified)).filter fun t => 0 ≤ t ∧ t ≤ Int64.maxValue.toInt

def directory? (s : Site) (p : FilePath) : Option (FilePath × Nat) :=
  match s.entry? p with
  | some ⟨_, .directory identity, _⟩ => some ((FileTree.absolute s.cwd).join p, identity)
  | _ => none

/-! ### Tools -/

/-- The code that is told of a process. -/
def exitCode : Ending → Int
  | .exit n => n
  | .signal _ => -1

/-- What the scanner said, or why that is no report. -/
def report (part : PartId) (c : Shell.Completed) : Except Fault ScanReport :=
  if exitCode c.ending ≠ 0 then
    .error (.collection part s!"scanner exited with code {exitCode c.ending}")
  else match Text.Utf8.decode c.output with
    | .ok text =>
      match ScanReport.decode? text with
      | some r => .ok r
      | none => .error (.collection part "decoding scanner report")
    | .error _ => .error (.collection part "decoding scanner report")

def scan (s : Site) (r : ScanRequest) : Except Fault ScanReport × Site :=
  let request := Text.Utf8.encode r.toJson.compact
  match Shell.launch s.tree s.cwd s.tools.scanner s.tools.scannerArguments request with
  | .error f =>
    (.error (.collection r.part
      s!"spawning dependency scanner '{s.tools.scanner}': {f.message}"), s)
  | .ok c => (report r.part c, { s with tree := c.tree })

/-- The compiler's words, line by line, up to the first line that is no text. -/
def complaints (bytes : List UInt8) : String :=
  let pieces := bytes.splitOn 10
  let unended := (pieces.getLast?.filter (!·.isEmpty)).toList.map Text.Utf8.decode
  let ended := pieces.dropLast.map fun line =>
    Text.Utf8.decode (if line.getLast? = some 13 then line.dropLast else line)
  let texts := ((ended ++ unended).takeWhile (·.isOk)).filterMap (·.toOption)
  String.join (texts.map (· ++ "\n"))

def compile (s : Site) (j : Job) : Except Fault FilePath × Site :=
  match Shell.launch s.tree s.cwd s.tools.compiler j.commandLine [] with
  | .error f => (.error (.other s!"spawning pch compiler '{s.tools.compiler}'" [f.message]), s)
  | .ok c =>
    let s := { s with tree := c.tree }
    if exitCode c.ending = 0 then (.ok j.outputPath, s)
    else (.error (.buildFailed j.key.short (exitCode c.ending) (complaints c.errors)), s)

/-- The header is written before the compiler starts. -/
def build (s : Site) (j : Job) : Except Fault FilePath × Site :=
  match s.writeText j.headerPath j.header with
  | (.error f, s) => (.error f.toFault, s)
  | (.ok (), s) => s.compile j

instance : World Site where
  hasFile s p := (s.entry? p).isSome
  readText := readText
  writeText := writeText
  removeFile := removeFile
  modified? := modified?
  directory? := directory?
  scan := scan
  build := build

end Site
end PrecompiledHeaders
