import PrecompiledHeaders.Proofs.Provider.Tracking
import PrecompiledHeaders.Proofs.UsedMacros
/-! What is made of a report. The files that the scan named are listed in order of use, each once and in
the role of its first use, and the part's own files are left out; macros likewise. How the scan lists
what it found does not matter, as far as its orders tell everything apart. -/
namespace PrecompiledHeaders

theorem FileTable.Resolves.nodup_iff {t : FileTable} {ids : List FileId} {ps : List String}
    (h : t.Resolves ids ps) : ids.Nodup ↔ ps.Nodup :=
  List.rel_nodup t.biUnique_path? h

namespace Collection

variable {W : Type} [World W] {ws : Workspace W} {overlay : Overlay} {part : Part} {known files : FileTable}
  {report : ScanReport} {w : W} {d : Dependency}

/-- The dependency that is made of a report about the part, with `known` for the files that had numbers
before and `files` for those that have numbers now. -/
structure Yields (part : Part) (known : FileTable) (report : ScanReport) (w : W) (d : Dependency)
    (files : FileTable) : Prop where
  distinct : (d.includes.map (·.file)).Nodup
  includesInOrder : d.includes.Pairwise (·.order ≤ ·.order)
  /-- The included files are those reported that are not the part's own. -/
  paths : ∀ x, (∃ e ∈ d.includes, files.path? e.file = some x) ↔
    (∃ i ∈ report.includes, i.path.text = x) ∧ x ∉ known.names part.ownFiles
  /-- Each has the role and the order of its first use. -/
  firstUse : ∀ e ∈ d.includes, ∃ i,
    leastOf? (·.order) (·.path.text) i.path.text report.includes = some i ∧
      files.path? e.file = some i.path.text ∧ e.role = i.role ∧ e.order = i.order
  macroNames : (d.usedMacros.map (·.name)).Nodup
  macrosInOrder : d.usedMacros.Pairwise (·.order ≤ ·.order)
  macros : ∀ name, name ∈ d.usedMacros.map (·.name) ↔ name ∈ report.usedMacros.map (·.name)
  firstMacroUse : ∀ m ∈ d.usedMacros,
    leastOf? (·.order) (·.name) m.name report.usedMacros = some m
  sources : d.sources = part.sources
  statusFiles : d.statuses.map (·.file) =
    keepFirst (fun id => id) [] (d.includes.map (·.file) ++ part.sources)
  stamps : ∀ s ∈ d.statuses, ∃ x, files.path? s.file = some x ∧ s.modified = World.modified? w ⟨x⟩

/-- What an included file is reported for first decides its role. -/
theorem leastOf?_of_mem_includesOf {own : List String} {i : ScannedInclude}
    (h : i ∈ Record.includesOf own report) :
    leastOf? (·.order) (·.path.text) i.path.text report.includes = some i := by
  have hown : i.path.text ∉ own := (Record.mem_includesOf.mp (List.mem_map_of_mem h)).2
  rw [Record.includesOf, mem_keepFirst_iff_find?, List.find?_filter] at h
  have hsame : (fun j : ScannedInclude => decide (decide (j.path.text ∉ own) = true ∧
      decide (j.path.text = i.path.text) = true)) = fun j => decide (j.path.text = i.path.text) := by
    funext j
    by_cases hj : j.path.text = i.path.text
    · simp [hj, hown]
    · simp [hj]
  rw [hsame, inOrder] at h
  rw [← find?_inOrder]
  exact h.2

theorem yields_of_named (hnamed : d.Named files part.id (part.recordOf known report w))
    (hsources : d.sources = part.sources)
    (hfiles : d.statuses.map (·.file) =
      keepFirst (fun id => id) [] (d.includes.map (·.file) ++ part.sources)) :
    Yields part known report w d files := by
  have hincludes : (part.recordOf known report w).includes =
      Record.includesOf (known.names part.ownFiles) report := rfl
  have hresolves := hnamed.resolves_includes
  have hmacros : d.usedMacros = UsedMacro.normalize report.usedMacros := hnamed.usedMacros.symm
  have hfirst : UsedMacro.FirstUses report.usedMacros d.usedMacros :=
    hmacros ▸ UsedMacro.firstUses_normalize report.usedMacros
  rw [hincludes] at hresolves
  constructor
  case distinct =>
    rw [hresolves.nodup_iff]
    exact nodup_map_keepFirst _ _ _
  case includesInOrder =>
    have horders : d.includes.map (·.order) =
        (Record.includesOf (known.names part.ownFiles) report).map (·.order) := by
      rw [← List.forall₂_eq_eq_eq]
      exact List.rel_map (fun _ _ hi => hi.order.symm) hnamed.includes
    have hsorted : (Record.includesOf (known.names part.ownFiles) report).Pairwise
        (·.order ≤ ·.order) :=
      (pairwise_inOrder _ _).sublist ((keepFirst_sublist _ _ _).trans List.filter_sublist)
    rw [← List.pairwise_map (f := IncludeEntry.order) (R := (· ≤ ·)), horders, List.pairwise_map]
    exact hsorted
  case paths =>
    intro x
    rw [← Record.mem_includesOf, hresolves.mem_iff]
    simp
  case firstUse =>
    intro e he
    obtain ⟨i, hi, hei, _⟩ := List.forall₂_same.mp
      (forall₂_meet hnamed.includes.flip hnamed.includes.flip) e he
    exact ⟨i, leastOf?_of_mem_includesOf hi, hei.path, hei.role.symm, hei.order.symm⟩
  case macroNames => exact hfirst.distinct
  case macrosInOrder => exact hfirst.ascending
  case macros => exact hfirst.names
  case firstMacroUse =>
    intro m hm
    rw [hmacros] at hm
    exact mem_keepFirst_inOrder.mp hm
  case sources => exact hsources
  case statusFiles => exact hfiles
  case stamps =>
    intro s hs
    obtain ⟨t, ht, hst⟩ := hnamed.exists_recorded hs
    exact ⟨t.path.text, hst.path, hst.modified.symm.trans (Record.mem_statuses_ofReport.mp ht).2⟩

theorem digestReport_yields (report : ScanReport) (w : W) (hk : part.Known known) :
    let ws := (digestReport ⟨w, known⟩ part (known.names part.ownFiles) report).2
    ws.world = w ∧ ws.files.Extends known ∧ Yields part known report w
      (digestReport ⟨w, known⟩ part (known.names part.ownFiles) report).1 ws.files := by
  refine ⟨rfl, (entries_spec _ _ _ _).1, ?_⟩
  apply yields_of_named
  · exact digestReport_named ⟨w, known⟩ _ report hk.2.resolves
  · rfl
  · rw [digestReport]
    simp [statuses, Function.comp_def, Dependency.referencedFiles]

/-- A part with known files whose scan answers is collected, and this is what comes of it. Another
answer that lists the same includes and the same macros in another way comes to the same dependency,
and to the same numbers for the files, if no two includes and no two macros have one order. -/
theorem collect_yields (ws : Workspace W) (overlay : Overlay) (part : Part)
    (hk : part.Known ws.files) (report : ScanReport) (w : W)
    (hscan : World.scan ws.world (part.asked ws.files overlay) = (.ok report, w)) :
    ∃ d files, collect ws overlay part = (.ok d, ⟨w, files⟩) ∧ files.Extends ws.files ∧
      Yields part ws.files report w d files ∧
      ((report.includes.map (·.order)).Nodup → (report.usedMacros.map (·.order)).Nodup →
        ∀ (v w' : W) (report' : ScanReport), report.includes.Perm report'.includes →
          report.usedMacros.Perm report'.usedMacros →
          World.scan v (part.asked ws.files overlay) = (.ok report', w') →
          (∀ x, World.modified? w' x = World.modified? w x) →
          collect ⟨v, ws.files⟩ overlay part = (.ok d, ⟨w', files⟩)) := by
  obtain ⟨_, hext, hyields⟩ := digestReport_yields report w hk
  refine ⟨_, _, collect_of_scan hk hscan, hext, hyields, ?_⟩
  intro hincludes hmacros v w' report' hperm hperm' hscan' hstamps
  have hinOrder : inOrder report'.includes = inOrder report.includes :=
    (inOrder_eq_of_perm hperm hincludes).symm
  have hnormal : UsedMacro.normalize report'.usedMacros = UsedMacro.normalize report.usedMacros := by
    rw [UsedMacro.normalize, UsedMacro.normalize, inOrder_eq_of_perm hperm' hmacros]
  have hother : collect ⟨v, ws.files⟩ overlay part = _ := collect_of_scan hk hscan'
  rw [hother, digestReport_congr hinOrder hnormal fun _ _ x _ => hstamps ⟨x⟩]
  rfl

/-- A header that is used twice, between them the part's own header and another one. -/
def twiceUsed : ScanReport where
  includes := [⟨⟨"/b.h"⟩, .systemInclude, 5⟩, ⟨⟨"/h.h"⟩, .userInclude, 1⟩,
    ⟨⟨"/c.h"⟩, .topProjectInclude, 3⟩, ⟨⟨"/b.h"⟩, .topSystemInclude, 2⟩]
  usedMacros := [⟨"M", 5⟩, ⟨"N", 3⟩, ⟨"M", 2⟩]

def twiceUsedBackwards : ScanReport :=
  ⟨twiceUsed.includes.reverse, twiceUsed.usedMacros.reverse⟩

def reporting (report : ScanReport) : WritingBench := ⟨Bench.empty.setReport "a" report, rfl⟩

/-- The header counts with its first use, the part's own header is left out, and the report read from
the other end comes to the same. -/
theorem collect_yields_twice : ∃ d files,
    (∃ w, collect ⟨reporting twiceUsed, headerSpace.files⟩ [] headerPart = (.ok d, ⟨w, files⟩)) ∧
    (∃ w, collect ⟨reporting twiceUsedBackwards, headerSpace.files⟩ [] headerPart =
      (.ok d, ⟨w, files⟩)) ∧
    (∃ e ∈ d.includes, files.path? e.file = some "/b.h" ∧ e.role = .topSystemInclude ∧ e.order = 2) ∧
    ∀ e ∈ d.includes, files.path? e.file ≠ some "/h.h" := by
  have hscan : ∀ report, ∃ w, World.scan (reporting report) (headerPart.asked headerSpace.files []) =
      (.ok report, w) ∧ ∀ x, World.modified? w x = none := by
    intro report
    exact ⟨_, rfl, fun x => rfl⟩
  obtain ⟨w, hanswer, hstamps⟩ := hscan twiceUsed
  obtain ⟨w', hanswer', hstamps'⟩ := hscan twiceUsedBackwards
  obtain ⟨d, files, hcollect, _, hyields, hagain⟩ := collect_yields
    ⟨reporting twiceUsed, headerSpace.files⟩ [] headerPart headerPart_known twiceUsed w hanswer
  have hbackwards := hagain (by decide) (by decide) _ w' twiceUsedBackwards
    (List.reverse_perm _).symm (List.reverse_perm _).symm hanswer' fun x => by rw [hstamps, hstamps']
  have hown : headerSpace.files.names headerPart.ownFiles = ["/h.h", "/a.cpp"] := rfl
  refine ⟨d, files, ⟨w, hcollect⟩, ⟨w', hbackwards⟩, ?_, fun e he hpath => ?_⟩
  · obtain ⟨e, he, hpath⟩ := (hyields.paths "/b.h").mpr
      ⟨⟨⟨⟨"/b.h"⟩, .systemInclude, 5⟩, List.mem_cons_self, rfl⟩, by rw [hown]; decide⟩
    obtain ⟨i, hleast, hi, hrole, horder⟩ := hyields.firstUse e he
    have hname : i.path.text = "/b.h" := Option.some.inj (hi.symm.trans hpath)
    have hfirst : leastOf? (·.order) (·.path.text) "/b.h" twiceUsed.includes =
        some ⟨⟨"/b.h"⟩, .topSystemInclude, 2⟩ := by decide
    rw [hname, hfirst] at hleast
    obtain rfl := Option.some.inj hleast
    exact ⟨e, he, hpath, hrole, horder⟩
  · have hnot := ((hyields.paths "/h.h").mp ⟨e, he, hpath⟩).2
    rw [hown] at hnot
    exact hnot List.mem_cons_self

end Collection
end PrecompiledHeaders
