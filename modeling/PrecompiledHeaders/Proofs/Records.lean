import PrecompiledHeaders.Collection
import PrecompiledHeaders.Proofs.Collecting
import PrecompiledHeaders.Proofs.FirstMentions
import PrecompiledHeaders.Proofs.Renumbering
import PrecompiledHeaders.Proofs.WireFormat
/-! Records of dependencies. A record names files by path, and what it says does not depend on how
they are numbered: it is what the report says, it is read back as it was written, and dependencies
with one record are alike. -/
namespace PrecompiledHeaders

/-! ### Written records -/

theorem UsedMacro.ofJson?_toJson {m : UsedMacro} (h : m.order < UInt32.size) :
    UsedMacro.ofJson? m.toJson = some m := ofJson?_form h (.refl _)

theorem ScannedInclude.ofJson?_toJson {i : ScannedInclude} (h : i.order < UInt32.size) :
    ScannedInclude.ofJson? i.toJson = some i := ofJson?_form h (.refl _)

/-- The stamp is as wide as the documents keep it. -/
def RecordedStatus.Fits (s : RecordedStatus) : Prop :=
  ∀ t, s.modified = some t → Int64.minValue.toInt ≤ t ∧ t ≤ Int64.maxValue.toInt

theorem RecordedStatus.ofJson?_toJson {s : RecordedStatus} (h : s.Fits) :
    RecordedStatus.ofJson? s.toJson = some s := by
  have hnames : ["path", "last_modified"].eraseDups = ["path", "last_modified"] := by decide
  have hstamp : Json.option? Json.int64? (.ofOption .int s.modified) = some s.modified := by
    cases hm : s.modified with
    | none => rfl
    | some t =>
      have hwide : Json.int64? (.int t) = some t := if_pos (h t hm)
      rw [Json.ofOption, Json.option?, hwide]
      · rfl
      · exact fun hnull => by cases hnull
  simp [ofJson?, toJson, Json.fields?, Json.Fields.required, Json.Fields.optional, hnames,
    List.lookup_cons, hstamp, FilePath.ofJson?_toJson]

namespace Record

/-- All numbers are as wide as the documents keep them. -/
structure Fits (r : Record) : Prop where
  includes : ∀ i ∈ r.includes, i.order < UInt32.size
  usedMacros : ∀ m ∈ r.usedMacros, m.order < UInt32.size
  statuses : ∀ s ∈ r.statuses, s.Fits

theorem ofJson?_toJson {r : Record} (h : r.Fits) : ofJson? r.toJson = some r := by
  have hnames : ["project_part", "includes", "used_macros", "source_files",
      "file_statuses"].eraseDups =
    ["project_part", "includes", "used_macros", "source_files", "file_statuses"] := by decide
  have hincludes := Json.list?_map fun i hi => ScannedInclude.ofJson?_toJson (h.includes i hi)
  have hmacros := Json.list?_map fun m hm => UsedMacro.ofJson?_toJson (h.usedMacros m hm)
  have hsources := Json.list?_map (l := r.sources) fun p _ => FilePath.ofJson?_toJson p
  have hstatuses := Json.list?_map fun s hs => RecordedStatus.ofJson?_toJson (h.statuses s hs)
  simp [ofJson?, toJson, Json.fields?, Json.Fields.required, hnames, List.lookup_cons, Json.text?,
    hincludes, hmacros, hsources, hstatuses]

theorem plain_toJson (r : Record) : r.toJson.Plain := by
  have hstatus : ∀ s : RecordedStatus, s.toJson.Plain := by
    rintro ⟨path, _ | t⟩ <;>
      simp [RecordedStatus.toJson, Json.ofOption, FilePath.toJson, Json.Plain]
  simp [toJson, ScannedInclude.toJson, UsedMacro.toJson, FilePath.toJson, Json.ofNat, hstatus]

end Record

/-! ### Dependencies by name -/

section

open FileTable (Same biUnique_same)

/-- The entry is the one that the record has. -/
structure IncludeEntry.Named (files : FileTable) (e : IncludeEntry) (i : ScannedInclude) : Prop where
  path : files.path? e.file = some i.path.text
  role : i.role = e.role
  order : i.order = e.order

structure FileStatus.Named (files : FileTable) (s : FileStatus) (r : RecordedStatus) : Prop where
  path : files.path? s.file = some r.path.text
  modified : r.modified = s.modified

/-- `r` is the record of `d`. -/
structure Dependency.Named (files : FileTable) (part : PartId) (d : Dependency) (r : Record) :
    Prop where
  part : r.part = part
  includes : List.Forall₂ (IncludeEntry.Named files) d.includes r.includes
  usedMacros : r.usedMacros = d.usedMacros
  sources : files.Resolves d.sources (r.sources.map (·.text))
  statuses : List.Forall₂ (FileStatus.Named files) d.statuses r.statuses

variable {t u : FileTable} {part part' : PartId} {d e : Dependency} {r : Record}

theorem Dependency.Named.extends (h : d.Named t part r) (hu : u.Extends t) : d.Named u part r :=
  ⟨h.part, h.includes.imp fun _ _ hi => ⟨hu.path? hi.path, hi.role, hi.order⟩, h.usedMacros,
    hu.resolves h.sources, h.statuses.imp fun _ _ hs => ⟨hu.path? hs.path, hs.modified⟩⟩

theorem Dependency.Named.alike (h : d.Named t part r) (k : e.Named u part' r) :
    Dependency.Alike t u d e := by
  refine ⟨?_, k.usedMacros.symm.trans h.usedMacros⟩
  have hk := k.includes
  have hh := h.includes
  generalize d.includes = es at hh
  generalize e.includes = fs at hk
  generalize r.includes = is at hh hk
  induction hh generalizing fs with
  | nil =>
    obtain rfl := List.forall₂_nil_right_iff.mp hk
    exact .nil
  | cons hi _ ih =>
    obtain ⟨f, rest, hf, hrest, rfl⟩ := List.forall₂_cons_right_iff.mp hk
    exact .cons ⟨⟨_, hi.path, hf.path⟩, hf.role.symm.trans hi.role, hf.order.symm.trans hi.order⟩
      (ih rest hrest)

theorem Record.ofDependency_of_named (h : d.Named t part r) :
    Record.ofDependency part d t = .ok r := by
  have hmap : ∀ {α β : Type} {R : α → β → Prop} {f : α → Except Fault β} {as : List α}
      {bs : List β}, (∀ a b, R a b → f a = .ok b) → List.Forall₂ R as bs →
      as.mapM f = .ok bs := by
    intro α β R f as bs hf hs
    induction hs with
    | nil => rfl
    | cons hab _ ih =>
      rw [List.mapM_cons, hf _ _ hab, ih]
      rfl
  have hpath : ∀ {id : FileId} {p : FilePath}, t.path? id = some p.text →
      Record.pathOf t id = .ok p := by
    intro id p hp
    rw [Record.pathOf, hp]
  have hincludes : d.includes.mapM (Record.includeOf t) = .ok r.includes := by
    refine hmap (fun e i hi => ?_) h.includes
    rw [Record.includeOf, hpath hi.path]
    exact congrArg Except.ok (ScannedInclude.mk.injEq .. ▸ ⟨rfl, hi.role.symm, hi.order.symm⟩)
  have hstatuses : d.statuses.mapM (Record.statusOf t) = .ok r.statuses := by
    refine hmap (fun s rs hs => ?_) h.statuses
    rw [Record.statusOf, hpath hs.path]
    exact congrArg Except.ok (RecordedStatus.mk.injEq .. ▸ ⟨rfl, hs.modified.symm⟩)
  have hsources : d.sources.mapM (Record.pathOf t) = .ok r.sources :=
    hmap (fun _ _ hp => hpath hp)
      ((List.forall₂_map_right_iff (R := fun id p => t.path? id = some p)).mp h.sources)
  rw [Record.ofDependency, hincludes, hstatuses, hsources, ← h.part, ← h.usedMacros]
  rfl

/-! ### Reports -/

theorem FileTable.biUnique_path? (t : FileTable) :
    Relator.BiUnique fun (id : FileId) (p : String) => t.path? id = some p :=
  ⟨fun _ _ _ hi hj => path?_inj hi hj, fun _ _ _ hp hq => Option.some.inj (hp.symm.trans hq)⟩

namespace Record

variable {W : Type} [World W]

/-- The included files, each once, without the part's own. -/
def includesOf (own : List String) (report : ScanReport) : List ScannedInclude :=
  keepFirst (·.path.text) []
    ((Collection.inOrder report.includes).filter (·.path.text ∉ own))

/-- The record of a part with these own files and sources, when `report` is what its scan says. -/
def ofReport (part : PartId) (own sources : List String) (report : ScanReport) (w : W) : Record :=
  let includes := includesOf own report
  { part := part
    includes := includes
    usedMacros := UsedMacro.normalize report.usedMacros
    sources := sources.map FilePath.mk
    statuses := (keepFirst (fun p : String => p) [] (includes.map (·.path.text) ++ sources)).map
      fun p => ⟨⟨p⟩, World.modified? w ⟨p⟩⟩ }

end Record

theorem Collection.entries_named (own : List String) (files : FileTable) {seen : List FileId}
    {paths : List String} (hs : files.Resolves seen paths) (is : List ScannedInclude) :
    List.Forall₂ (IncludeEntry.Named (entries own files seen is).2) (entries own files seen is).1
      (keepFirst (·.path.text) paths (is.filter (·.path.text ∉ own))) := by
  induction is generalizing files seen paths with
  | nil => exact .nil
  | cons i is ih =>
    rw [entries, List.filter_cons]
    by_cases hown : i.path.text ∈ own
    · rw [if_pos hown, if_neg (by simpa using hown)]
      exact ih files hs
    · rw [if_neg hown, if_pos (by simpa using hown), keepFirst]
      have hext := files.intern_extends i.path.text
      have hnew := files.path?_intern i.path.text
      have hmem := List.rel_mem (FileTable.biUnique_path? (files.intern i.path.text).2) hnew
        (hext.resolves hs)
      dsimp only
      by_cases hseen : (files.intern i.path.text).1 ∈ seen
      · rw [if_pos hseen, if_pos (hmem.mp hseen)]
        exact ih _ (hext.resolves hs)
      · rw [if_neg hseen, if_neg (mt hmem.mpr hseen)]
        refine .cons ⟨?_, rfl, rfl⟩ (ih _ (.cons hnew (hext.resolves hs)))
        exact (entries_spec own _ _ is).1.path? hnew

theorem Collection.digestReport_named {W : Type} [World W] (ws : Workspace W) {part : Part}
    (own : List String) {sources : List String} (report : ScanReport)
    (hs : ws.files.Resolves part.sources sources) :
    (digestReport ws part own report).1.Named (digestReport ws part own report).2.files part.id
      (Record.ofReport part.id own sources report ws.world) := by
  have hext := (entries_spec own ws.files [] (inOrder report.includes)).1
  have hincludes := entries_named own ws.files List.Forall₂.nil (inOrder report.includes)
  rw [digestReport]
  generalize entries own ws.files [] (inOrder report.includes) = out at hext hincludes
  obtain ⟨includes, files⟩ := out
  dsimp only at hext hincludes ⊢
  have hsources := hext.resolves hs
  refine ⟨rfl, hincludes, rfl, ?_, ?_⟩
  · simpa [Record.ofReport, Function.comp_def] using hsources
  · have hfiles : files.Resolves (includes.map (·.file))
        ((Record.includesOf own report).map (·.path.text)) :=
      List.rel_map (fun _ _ hi => hi.path) hincludes
    have hkept := rel_keepFirst (FileTable.biUnique_path? files) .nil
      (List.rel_append hfiles hsources)
    refine List.rel_map (fun id p hp => ⟨hp, ?_⟩) hkept
    rw [show files.path? id = some p from hp]
    rfl

theorem Dependency.Named.resolves_includes (h : d.Named t part r) :
    t.Resolves (d.includes.map (·.file)) (r.includes.map (·.path.text)) :=
  List.rel_map (fun _ _ hi => hi.path) h.includes

/-- A dependency reads the files that its record names. -/
theorem Dependency.Named.resolves (h : d.Named t part r) :
    t.Resolves d.referencedFiles (r.includes.map (·.path.text) ++ r.sources.map (·.text)) :=
  List.rel_append h.resolves_includes h.sources

/-- Every file that is read has a status, and nothing else has. -/
theorem Record.mem_statuses_ofReport {W : Type} [World W] {own sources : List String}
    {report : ScanReport} {w : W} {s : RecordedStatus} :
    s ∈ (ofReport part own sources report w).statuses ↔
      s.path.text ∈ (ofReport part own sources report w).includes.map (·.path.text) ++
          (ofReport part own sources report w).sources.map (·.text) ∧
        s.modified = World.modified? w s.path := by
  have hsources : (ofReport part own sources report w).sources.map (·.text) = sources := by
    simp [ofReport, Function.comp_def]
  rw [hsources]
  simp only [ofReport, List.mem_map, mem_keepFirst]
  constructor
  · rintro ⟨q, ⟨hq, _⟩, rfl⟩
    exact ⟨hq, rfl⟩
  · rintro ⟨hpath, hs⟩
    exact ⟨s.path.text, ⟨hpath, List.not_mem_nil⟩, by rw [← hs]⟩

/-! ### Records read back -/

namespace Record

theorem internIncludes_named (files : FileTable) (is : List ScannedInclude) :
    List.Forall₂ (IncludeEntry.Named (internIncludes files is).2) (internIncludes files is).1 is := by
  induction is generalizing files with
  | nil => exact .nil
  | cons i is ih =>
    exact .cons ⟨(internIncludes_spec _ is).1.path? (files.path?_intern _), rfl, rfl⟩ (ih _)

theorem internStatuses_named (files : FileTable) (ss : List RecordedStatus) :
    List.Forall₂ (FileStatus.Named (internStatuses files ss).2) (internStatuses files ss).1 ss := by
  induction ss generalizing files with
  | nil => exact .nil
  | cons s ss ih =>
    exact .cons ⟨(internStatuses_extends _ ss).path? (files.path?_intern _), rfl⟩ (ih _)

/-- The dependency that is read from a record has this record. -/
theorem toDependency_named (r : Record) (files : FileTable) :
    (r.toDependency files).1.Named (r.toDependency files).2 r.part r := by
  have hincludes := internIncludes_named files r.includes
  rw [toDependency]
  generalize internIncludes files r.includes = out at hincludes
  obtain ⟨includes, files₁⟩ := out
  have hsources := FileTable.resolves_internAll files₁ (r.sources.map (·.text))
  have hext := FileTable.internAll_extends files₁ (r.sources.map (·.text))
  dsimp only at hincludes ⊢
  generalize files₁.internAll (r.sources.map (·.text)) = out at hsources hext
  obtain ⟨sources, files₂⟩ := out
  have hstatuses := internStatuses_named files₂ r.statuses
  have hext' := internStatuses_extends files₂ r.statuses
  dsimp only at hsources hext ⊢
  generalize internStatuses files₂ r.statuses = out at hstatuses hext'
  obtain ⟨statuses, files₃⟩ := out
  exact ⟨rfl, hincludes.imp fun _ _ hi => ⟨(hext.trans hext').path? hi.path, hi.role, hi.order⟩, rfl,
    hext'.resolves hsources, hstatuses⟩

/-- The files that the record names have the stamps that it gives them. -/
def Current {W : Type} [World W] (w : W) (r : Record) : Prop :=
  ∀ s ∈ r.statuses, World.modified? w s.path = s.modified

end Record

/-- Dependencies are as fresh as their records. -/
theorem Dependency.Named.isUpToDate {W : Type} [World W] {ws : Workspace W}
    (h : d.Named ws.files part r) (hc : r.Current ws.world) (hne : r.statuses ≠ []) :
    Freshness.isUpToDate ws d.statuses = true := by
  have hall : ∀ s ∈ d.statuses, Freshness.holds ws s = true := by
    have hstatuses := h.statuses
    rw [Record.Current] at hc
    generalize d.statuses = ss at hstatuses
    generalize r.statuses = rs at hstatuses hc
    intro s hs
    induction hstatuses with
    | nil => exact absurd hs List.not_mem_nil
    | cons hsr _ ih =>
      obtain ⟨hfirst, hrest⟩ := List.forall_mem_cons.mp hc
      rcases List.mem_cons.mp hs with rfl | hs
      · rw [Freshness.holds, Freshness.modified?, hsr.path]
        exact decide_eq_true (hfirst.trans hsr.modified)
      · exact ih hrest hs
  have hne' : d.statuses ≠ [] := fun hnil =>
    hne (List.forall₂_nil_left_iff.mp (hnil ▸ h.statuses))
  rw [Freshness.isUpToDate, List.all_eq_true.mpr hall, Bool.and_true, Bool.not_eq_true',
    List.isEmpty_eq_false_iff]
  exact hne'

end

end PrecompiledHeaders
