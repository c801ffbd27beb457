import PrecompiledHeaders.Bench
import Mathlib.Data.List.Basic
/-! Worlds that keep what is written and whose tools are functions of what they are asked. The
compiler writes to the header and the output of its job and nowhere else, the scanner writes
nowhere, and both leave their answers to other questions as they are. That a compiler writes its
output at all is not among the laws. -/
namespace PrecompiledHeaders

/-- A world with both tools laid open, and a log of what each was asked. -/
class Workshop (W : Type) extends World W where
  answer : W → ScanRequest → Except Fault ScanReport
  /-- Why the compiler would not do the job. -/
  refusal : W → Job → Option Fault
  requests : W → List ScanRequest
  jobs : W → List Job

section

variable {W : Type} [Workshop W]

/-- What can be seen of the file at a path. -/
def look (w : W) (p : FilePath) : Bool × Except FileFault String × Option Stamp :=
  (World.hasFile w p, World.readText w p, World.modified? w p)

/-- Nothing differs in `v` but files at `ps`. -/
structure Spares (ps : List FilePath) (w v : W) : Prop where
  look : ∀ q, (∀ p ∈ ps, ¬ p.same q) → look v q = look w q
  answer : Workshop.answer v = Workshop.answer w
  refusal : Workshop.refusal v = Workshop.refusal w

theorem Spares.refl (ps : List FilePath) (w : W) : Spares ps w w := ⟨fun _ _ => rfl, rfl, rfl⟩

theorem Spares.mono {ps qs : List FilePath} {w v : W} (h : Spares ps w v) (hs : ps ⊆ qs) :
    Spares qs w v :=
  ⟨fun q hq => h.look q fun p hp => hq p (hs hp), h.answer, h.refusal⟩

theorem Spares.trans {ps qs : List FilePath} {u v w : W} (h : Spares ps u v)
    (k : Spares qs v w) : Spares (ps ++ qs) u w := by
  refine ⟨fun q hq => ?_, k.answer.trans h.answer, k.refusal.trans h.refusal⟩
  rw [k.look q fun p hp => hq p (List.mem_append_right _ hp),
    h.look q fun p hp => hq p (List.mem_append_left _ hp)]

theorem Spares.join {ps : List FilePath} {u v w : W} (h : Spares ps u v) (k : Spares ps v w) :
    Spares ps u w :=
  (h.trans k).mono fun _ hp => (List.mem_append.mp hp).elim id id

theorem Spares.symm {ps : List FilePath} {w v : W} (h : Spares ps w v) : Spares ps v w :=
  ⟨fun q hq => (h.look q hq).symm, h.answer.symm, h.refusal.symm⟩

theorem Spares.hasFile {ps : List FilePath} {w v : W} (h : Spares ps w v) {q : FilePath}
    (hq : ∀ p ∈ ps, ¬ p.same q) : World.hasFile v q = World.hasFile w q :=
  congrArg (·.1) (h.look q hq)

theorem Spares.readText {ps : List FilePath} {w v : W} (h : Spares ps w v) {q : FilePath}
    (hq : ∀ p ∈ ps, ¬ p.same q) : World.readText v q = World.readText w q :=
  congrArg (·.2.1) (h.look q hq)

theorem Spares.modified? {ps : List FilePath} {w v : W} (h : Spares ps w v) {q : FilePath}
    (hq : ∀ p ∈ ps, ¬ p.same q) : World.modified? v q = World.modified? w q :=
  congrArg (·.2.2) (h.look q hq)

/-- Both tools have the same log. -/
def Quiet (w v : W) : Prop :=
  Workshop.requests v = Workshop.requests w ∧ Workshop.jobs v = Workshop.jobs w

theorem Quiet.refl (w : W) : Quiet w w := ⟨rfl, rfl⟩

theorem Quiet.trans {u v w : W} (h : Quiet u v) (k : Quiet v w) : Quiet u w :=
  ⟨k.1.trans h.1, k.2.trans h.2⟩

end

class LawfulWorkshop (W : Type) [Workshop W] : Prop where
  scan_result (w : W) (r : ScanRequest) : (World.scan w r).1 = Workshop.answer w r
  scan_spares (w : W) (r : ScanRequest) : Spares [] w (World.scan w r).2
  scan_requests (w : W) (r : ScanRequest) :
    Workshop.requests (World.scan w r).2 = Workshop.requests w ++ [r]
  scan_jobs (w : W) (r : ScanRequest) : Workshop.jobs (World.scan w r).2 = Workshop.jobs w
  write_result (w : W) (p : FilePath) (s : String) : (World.writeText w p s).1 = .ok ()
  write_spares (w : W) (p : FilePath) (s : String) : Spares [p] w (World.writeText w p s).2
  write_hasFile (w : W) (p : FilePath) (s : String) :
    World.hasFile (World.writeText w p s).2 p = true
  write_readText (w : W) (p : FilePath) (s : String) :
    World.readText (World.writeText w p s).2 p = .ok s
  write_quiet (w : W) (p : FilePath) (s : String) : Quiet w (World.writeText w p s).2
  build_result (w : W) (j : Job) : (World.build w j).1 =
    match Workshop.refusal w j with
    | some f => .error f
    | none => .ok j.outputPath
  build_spares (w : W) (j : Job) :
    Spares [j.headerPath, j.outputPath] w (World.build w j).2
  build_requests (w : W) (j : Job) :
    Workshop.requests (World.build w j).2 = Workshop.requests w
  build_jobs (w : W) (j : Job) : Workshop.jobs (World.build w j).2 = Workshop.jobs w ++ [j]

/-- A compiler that does its job leaves the output file behind. -/
def LeavesOutputs (W : Type) [Workshop W] : Prop :=
  ∀ (w : W) (j : Job), Workshop.refusal w j = none →
    World.hasFile (World.build w j).2 j.outputPath = true

/-! ### The bench -/

namespace MemoryFiles

theorem find?_write (m : MemoryFiles) (p q : FilePath) (content : FileContent) :
    (m.write p content).find? q =
      if p.same q then some ⟨p, content, m.clock + 1⟩ else m.find? q := by
  rw [write, find?, List.find?_cons]
  by_cases h : p.same q
  · simp [h]
  · simp only [h]
    rw [find?, erase, List.find?_filter]
    have hpred : (fun f : MemoryFile => !f.path.same p && f.path.same q) =
        fun f => f.path.same q := by
      funext f
      by_cases hf : f.path.same q
      · have hp : f.path.same p = false := by
          by_contra hp
          rw [Bool.not_eq_false] at hp
          have hpf : p.same f.path := by
            simp only [FilePath.same, decide_eq_true_eq] at hp ⊢
            exact hp.symm
          exact h (FilePath.same_trans hpf hf)
        simp [hf, hp]
      · simp [hf]
    simp [hpred]

theorem find?_write_self (m : MemoryFiles) (p : FilePath) (content : FileContent) :
    (m.write p content).find? p = some ⟨p, content, m.clock + 1⟩ := by
  rw [find?_write, if_pos (FilePath.same_refl p)]

theorem find?_write_of_not_same (m : MemoryFiles) {p q : FilePath} (content : FileContent)
    (h : ¬ p.same q) : (m.write p content).find? q = m.find? q := by
  rw [find?_write, if_neg h]

end MemoryFiles

/-- A bench whose compiler leaves its mark in the output file. -/
structure WritingBench where
  bench : Bench
  writes : bench.writesOutput = true

namespace WritingBench

theorem build_eq (b : WritingBench) (j : Job) : b.bench.build j =
    if b.bench.fails j then (.error (.buildFailed j.key.short 1 "fake compiler error"),
      { b.bench with jobs := b.bench.jobs ++ [j] })
    else (.ok j.outputPath, { b.bench with
      jobs := b.bench.jobs ++ [j]
      files := b.bench.files.write j.outputPath (.ok "PCH") }) := by
  show (if b.bench.fails j then _ else if b.bench.writesOutput then _ else _) = _
  by_cases h : b.bench.fails j
  · rw [if_pos h, if_pos h]
  · rw [if_neg h, if_neg h, if_pos b.writes]

theorem writes_build (b : WritingBench) (j : Job) : (b.bench.build j).2.writesOutput = true := by
  rw [build_eq]
  split <;> exact b.writes

theorem writes_removeFile (b : WritingBench) (p : FilePath) :
    (b.bench.removeFile p).2.writesOutput = true := by
  rw [Bench.removeFile]
  split <;> exact b.writes

instance : Workshop WritingBench where
  hasFile b p := World.hasFile b.bench p
  readText b p := World.readText b.bench p
  writeText b p s := ((World.writeText b.bench p s).1, ⟨(World.writeText b.bench p s).2, b.writes⟩)
  removeFile b p := ((b.bench.removeFile p).1, ⟨(b.bench.removeFile p).2, b.writes_removeFile p⟩)
  modified? b p := World.modified? b.bench p
  directory? b p := World.directory? b.bench p
  scan b r := ((b.bench.scan r).1, ⟨(b.bench.scan r).2, b.writes⟩)
  build b j := ((b.bench.build j).1, ⟨(b.bench.build j).2, b.writes_build j⟩)
  answer b r := (b.bench.scan r).1
  refusal b j :=
    if b.bench.fails j then some (.buildFailed j.key.short 1 "fake compiler error") else none
  requests b := b.bench.requests
  jobs b := b.bench.jobs

theorem look_eq {b c : WritingBench} {q : FilePath}
    (h : c.bench.files.find? q = b.bench.files.find? q) : look c q = look b q := by
  simp only [look, World.hasFile, World.readText, World.modified?, MemoryFiles.contains,
    Bench.readText, h]

instance : LawfulWorkshop WritingBench where
  scan_result _ _ := rfl
  scan_spares _ _ := ⟨fun _ _ => rfl, rfl, rfl⟩
  scan_requests _ _ := rfl
  scan_jobs _ _ := rfl
  write_result _ _ _ := rfl
  write_spares b p s := by
    refine ⟨fun q hq => look_eq ?_, rfl, rfl⟩
    exact MemoryFiles.find?_write_of_not_same _ _ (hq p List.mem_cons_self)
  write_hasFile b p s := by
    show ((b.bench.files.write p (.ok s)).find? p).isSome = true
    rw [MemoryFiles.find?_write_self]
    rfl
  write_readText b p s := by
    show Bench.readText { b.bench with files := b.bench.files.write p (.ok s) } p = .ok s
    rw [Bench.readText, MemoryFiles.find?_write_self]
    rfl
  write_quiet _ _ _ := ⟨rfl, rfl⟩
  build_result b j := by
    show (b.bench.build j).1 = match (if b.bench.fails j then some _ else none) with
      | some f => .error f
      | none => .ok j.outputPath
    rw [build_eq]
    split <;> rfl
  build_spares b j := by
    have hbuild : (World.build b j).2.bench = (b.bench.build j).2 := rfl
    rw [build_eq] at hbuild
    split at hbuild
    · exact ⟨fun q _ => look_eq (by rw [hbuild]), by simp [Workshop.answer, hbuild, Bench.scan],
        by simp [Workshop.refusal, hbuild, Bench.fails]⟩
    · refine ⟨fun q hq => look_eq ?_, by simp [Workshop.answer, hbuild, Bench.scan],
        by simp [Workshop.refusal, hbuild, Bench.fails]⟩
      rw [hbuild]
      exact MemoryFiles.find?_write_of_not_same _ _ (hq _ (by simp))
  build_requests b j := by
    show (b.bench.build j).2.requests = _
    rw [build_eq]
    split <;> rfl
  build_jobs b j := by
    show (b.bench.build j).2.jobs = _
    rw [build_eq]
    split <;> rfl

theorem bench_build {b : WritingBench} {j : Job} (h : b.bench.fails j = false) :
    (World.build b j).2.bench = { b.bench with
      jobs := b.bench.jobs ++ [j]
      files := b.bench.files.write j.outputPath (.ok "PCH") } := by
  show (b.bench.build j).2 = _
  rw [build_eq, h]
  rfl

theorem modified?_output {b : WritingBench} {j : Job} (h : b.bench.fails j = false) :
    World.modified? (World.build b j).2 j.outputPath = some ((b.bench.files.clock + 1 : Nat) : Int) := by
  show ((World.build b j).2.bench.files.find? j.outputPath).map _ = _
  rw [bench_build h, MemoryFiles.find?_write_self]
  rfl

theorem modified?_build {b : WritingBench} {j : Job} {p : FilePath} (h : ¬ j.outputPath.same p) :
    World.modified? (World.build b j).2 p = World.modified? b p := by
  show ((b.bench.build j).2.files.find? p).map _ = (b.bench.files.find? p).map _
  rw [build_eq]
  split
  · rfl
  · rw [MemoryFiles.find?_write_of_not_same _ _ h]

theorem leavesOutputs : LeavesOutputs WritingBench := by
  intro b j h
  have hok : b.bench.fails j = false := by
    by_contra hf
    rw [Bool.not_eq_false] at hf
    simp [Workshop.refusal, hf] at h
  show (((b.bench.build j).2.files).find? j.outputPath).isSome = true
  rw [build_eq, hok]
  simp [MemoryFiles.find?_write_self]

end WritingBench
end PrecompiledHeaders
