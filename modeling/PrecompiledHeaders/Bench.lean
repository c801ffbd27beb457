import PrecompiledHeaders.MemoryFiles
import PrecompiledHeaders.World
/-! A bench to try the pipeline on: files in memory, a scanner with prepared answers and a
compiler that only leaves a mark. Both tools keep a list of what they were asked. -/
namespace PrecompiledHeaders

structure Bench where
  files : MemoryFiles
  /-- Parts without a prepared report have the empty one. -/
  reports : List (PartId × ScanReport)
  failingParts : List PartId
  failingIncludes : List FilePath
  /-- The compiler leaves its mark in the output file. -/
  writesOutput : Bool
  requests : List ScanRequest
  jobs : List Job

namespace Bench

def empty : Bench := ⟨.empty, [], [], [], true, [], []⟩

instance : Inhabited Bench := ⟨empty⟩

def setReport (b : Bench) (part : PartId) (r : ScanReport) : Bench :=
  { b with reports := (part, r) :: b.reports }

def failScans (b : Bench) (part : PartId) : Bench :=
  { b with failingParts := part :: b.failingParts }

def allowScans (b : Bench) (part : PartId) : Bench :=
  { b with failingParts := b.failingParts.filter (· ≠ part) }

def failIncluding (b : Bench) (p : FilePath) : Bench :=
  { b with failingIncludes := p :: b.failingIncludes }

def readText (b : Bench) (p : FilePath) : Except FileFault String :=
  match b.files.find? p with
  | some f => f.content.mapError .notText
  | none => .error (.missing p)

def removeFile (b : Bench) (p : FilePath) : Except FileFault Unit × Bench :=
  if b.files.contains p then (.ok (), { b with files := b.files.erase p })
  else (.error (.missing p), b)

def scan (b : Bench) (r : ScanRequest) : Except Fault ScanReport × Bench :=
  let answer :=
    if r.part ∈ b.failingParts then .error (.collection r.part "fake scanner failure")
    else .ok ((b.reports.lookup r.part).getD default)
  (answer, { b with requests := b.requests ++ [r] })

def fails (b : Bench) (j : Job) : Bool :=
  j.includes.any fun p => b.failingIncludes.any (·.same p)

def build (b : Bench) (j : Job) : Except Fault FilePath × Bench :=
  let b := { b with jobs := b.jobs ++ [j] }
  if b.fails j then (.error (.buildFailed j.key.short 1 "fake compiler error"), b)
  else if b.writesOutput then
    (.ok j.outputPath, { b with files := b.files.write j.outputPath (.ok "PCH") })
  else (.ok j.outputPath, b)

instance : World Bench where
  hasFile b p := b.files.contains p
  readText := readText
  writeText b p s := (.ok (), { b with files := b.files.write p (.ok s) })
  removeFile := removeFile
  modified? b p := (b.files.find? p).map fun f => (f.modified : Int)
  directory? _ _ := none
  scan := scan
  build := build

end Bench
end PrecompiledHeaders
