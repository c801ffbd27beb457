import PrecompiledHeaders.Proofs.Provider.Staleness
/-! Which files are tracked. A part is scanned again when one of its sources has changed, or a file
that its scan named and that is not the part's own; its own headers are not looked at. -/
namespace PrecompiledHeaders

/-- The files whose changes are noticed: the sources, and what the scan names besides the part's own
files. -/
def Part.Tracks (part : Part) (files : FileTable) (report : ScanReport) (x : String) : Prop :=
  x ∈ files.names part.sources ∨
    (∃ i ∈ report.includes, i.path.text = x) ∧ x ∉ files.names part.ownFiles

section

variable {W : Type} [World W] {part : Part} {files known : FileTable} {report : ScanReport} {w : W}
  {d : Dependency}

theorem Record.mem_includesOf {own : List String} {x : String} :
    x ∈ (includesOf own report).map (·.path.text) ↔
      (∃ i ∈ report.includes, i.path.text = x) ∧ x ∉ own := by
  rw [includesOf, mem_map_keepFirst, List.mem_map]
  simp only [List.mem_filter, Collection.inOrder, List.mem_mergeSort, decide_eq_true_eq,
    List.not_mem_nil, not_false_eq_true, and_true]
  constructor
  · rintro ⟨i, ⟨hi, hown⟩, rfl⟩
    exact ⟨⟨i, hi, rfl⟩, hown⟩
  · rintro ⟨⟨i, hi, rfl⟩, hown⟩
    exact ⟨i, ⟨hi, hown⟩, rfl⟩

theorem Record.includesOf_subset (own : List String) (report : ScanReport) :
    includesOf own report ⊆ report.includes := fun _ hi =>
  List.mem_mergeSort.mp (List.mem_filter.mp ((keepFirst_sublist _ _ _).subset hi)).1

/-- The files that the dependency reads are the tracked ones. -/
theorem Dependency.Named.tracks (h : d.Named files part.id (part.recordOf known report w))
    {x : String} : part.Tracks known report x ↔ ∃ f ∈ d.referencedFiles, files.path? f = some x := by
  have hnamed : part.Tracks known report x ↔
      x ∈ (part.recordOf known report w).includes.map (·.path.text) ++
        (part.recordOf known report w).sources.map (·.text) := by
    have hsources : (part.recordOf known report w).sources.map (·.text) =
        known.names part.sources := by simp [Part.recordOf, Record.ofReport, Function.comp_def]
    have hincludes : (part.recordOf known report w).includes =
        Record.includesOf (known.names part.ownFiles) report := rfl
    rw [List.mem_append, hsources, hincludes, Record.mem_includesOf, Part.Tracks, or_comm]
  rw [hnamed]
  exact h.resolves.mem_iff

theorem Dependency.Named.statuses_ne_nil (h : d.Named files part.id (part.recordOf known report w))
    {x : String} (hx : part.Tracks known report x) : d.statuses ≠ [] := by
  obtain ⟨f, hf, _⟩ := h.tracks.mp hx
  obtain ⟨s, hs, _⟩ := h.status_of_referenced hf
  exact List.ne_nil_of_mem hs

/-- The dependency is fresh as long as the tracked files have the time stamps of the scan. -/
theorem Dependency.Named.unchanged_iff_tracked
    (h : d.Named files part.id (part.recordOf known report w)) {v : W} :
    d.Unchanged ⟨v, files⟩ ↔
      ∀ x, part.Tracks known report x → World.modified? v ⟨x⟩ = World.modified? w ⟨x⟩ := by
  constructor
  · intro hu x hx
    obtain ⟨f, hf, hpath⟩ := h.tracks.mp hx
    obtain ⟨s, hs, rfl, hmodified⟩ := h.status_of_referenced hf
    have hnow := (hu s hs).trans hmodified
    simpa [Freshness.modified?, hpath] using hnow
  · intro hall s hs
    have hf := h.referenced_of_status hs
    obtain ⟨t, ht, hnamed⟩ := h.exists_recorded hs
    have htracked := hall t.path.text (h.tracks.mpr ⟨_, hf, hnamed.path⟩)
    rw [Freshness.modified?, hnamed.path, ← hnamed.modified, (Record.mem_statuses_ofReport.mp ht).2]
    exact htracked

end

/-- An event marks the part if it names a tracked file. -/
theorem Provider.mem_affected_internAll {W : Type} [World W] {p : Provider} {part : Part}
    {files known : FileTable} {report : ScanReport} {w : W} {key : String} {d : Dependency}
    (hk : p.known[part.id]? = some ⟨key, d⟩)
    (hnamed : d.Named files part.id (part.recordOf known report w)) {texts : List String} :
    part.id ∈ p.affected (files.internAll texts).1 ↔ ∃ x ∈ texts, part.Tracks known report x := by
  have hext := files.internAll_extends texts
  have hids := files.resolves_internAll texts
  rw [Provider.mem_affected hk]
  constructor
  · rintro ⟨f, hf, hmem⟩
    obtain ⟨x, hpath⟩ := FileTable.knows_iff.mpr ⟨_, hnamed.resolves⟩ f hf
    exact ⟨x, hids.mem_iff.mpr ⟨f, hmem, hext.path? hpath⟩, hnamed.tracks.mpr ⟨f, hf, hpath⟩⟩
  · rintro ⟨x, hx, htracked⟩
    obtain ⟨f, hf, hpath⟩ := hnamed.tracks.mp htracked
    obtain ⟨f', hf', hpath'⟩ := hids.mem_iff.mp hx
    obtain rfl := FileTable.path?_inj (hext.path? hpath) hpath'
    exact ⟨f, hf, hf'⟩

namespace Pipeline

variable {W : Type} [World W]

/-- The parts that are known to read one of the files. -/
def hitBy (p : Pipeline W) (paths : List FilePath) : List PartId :=
  p.provider.affected (paths.filterMap fun path => p.workspace.files.id? path.text)

/-- These parts are to be scanned whatever the time stamps say. -/
def mark (p : Pipeline W) (ids : List PartId) : Pipeline W :=
  { p with provider := { p.provider with forced := Task.appendNew p.provider.forced ids } }

theorem resubmit_of_mem {p : Pipeline W} {ids : List PartId} {part : Part}
    (h : part ∈ ids.filterMap (p.parts[·]?)) :
    p.resubmit ids = p.submit (ids.filterMap (p.parts[·]?)) := by
  rw [resubmit]
  split
  · rename_i hnil
    rw [hnil] at h
    cases h
  · rfl

theorem handle_filesChanged (p : Pipeline W) (paths : List FilePath) :
    p.handle (.filesChanged paths) = (p.mark (p.hitBy paths)).resubmit (p.hitBy paths) := by
  rw [handle]
  cases hids : paths.filterMap fun path => p.workspace.files.id? path.text with
  | nil =>
    have hnone : p.hitBy paths = [] := by
      rw [hitBy, hids, Provider.affected, List.map_eq_nil_iff, List.filter_eq_nil_iff]
      intro e _
      simp [Provider.mentions]
    rw [hnone]
    rfl
  | cons id ids =>
    rw [hitBy, hids]
    rfl

omit [World W] in
theorem mem_hitBy {p : Pipeline W} {paths : List FilePath} {id : PartId} {k : KnownDependency}
    (hk : p.provider.known[id]? = some k) :
    id ∈ p.hitBy paths ↔ ∃ path ∈ paths, ∃ f ∈ k.dependency.referencedFiles,
      p.workspace.files.path? f = some path.text := by
  rw [hitBy, Provider.mem_affected hk]
  simp only [List.mem_filterMap, FileTable.id?_eq_some]
  constructor
  · rintro ⟨f, hf, path, hpath, hname⟩
    exact ⟨path, hpath, f, hf, hname⟩
  · rintro ⟨path, hpath, f, hf, hname⟩
    exact ⟨f, hf, path, hpath, hname⟩

end Pipeline

section

variable {W : Type} [Workshop W] [LawfulWorkshop W] {store : RecordStore} {ws : Workspace W}
  {part : Part} {report : ScanReport} {d : Dependency} {s' : Desk W}

/-- A known part is scanned again if a tracked file has another time stamp than at the scan `v`, and is
left alone if none has. -/
theorem Provider.create_tracked {p : Provider} {known : FileTable} {v : W}
    (hk : part.Known ws.files) (hs : p.Sane ws.files)
    (hknown : p.known[part.id]? = some ⟨part.keyIn ws.files, d⟩) (hunforced : part.id ∉ p.forced)
    (hnamed : d.Named ws.files part.id (part.recordOf known report v)) :
    ∃ e p' ws', p.create ws part = (.ok e, p', ws') ∧
      ((∃ x, part.Tracks known report x ∧
          World.modified? ws.world ⟨x⟩ ≠ World.modified? v ⟨x⟩) →
        Workshop.requests ws'.world = Workshop.requests ws.world ++
          [part.asked ws.files p.overlay]) ∧
      ((∃ x, part.Tracks known report x) →
        (∀ x, part.Tracks known report x →
          World.modified? ws.world ⟨x⟩ = World.modified? v ⟨x⟩) → e = d ∧ ws' = ws) := by
  have hretrieve : p.retrieve ws part = (some d, ws.files) := retrieve_known hknown
  by_cases hu : d.Unchanged ws
  · by_cases hsome : ∃ x, part.Tracks known report x
    · obtain ⟨x, hx⟩ := hsome
      obtain ⟨p', hcreate, _⟩ :=
        create_kept hk hs hretrieve hunforced hu (hnamed.statuses_ne_nil hx)
      refine ⟨d, p', ws, hcreate, fun ⟨y, hy, hchanged⟩ => ?_, fun _ _ => ⟨rfl, rfl⟩⟩
      exact absurd (hnamed.unchanged_iff_tracked.mp hu y hy) hchanged
    · -- nothing is tracked, so there is nothing to show
      obtain ⟨e, p', ws', hcreate, _⟩ := create_cases hk hs
      exact ⟨e, p', ws', hcreate, fun ⟨x, hx, _⟩ => absurd ⟨x, hx⟩ hsome,
        fun htracked => absurd htracked hsome⟩
  · obtain ⟨e, p', ws', hcreate, hrequests, _⟩ := create_stale hk hs hretrieve hu
    refine ⟨e, p', ws', hcreate, fun _ => hrequests, fun _ hsame => ?_⟩
    exact absurd (hnamed.unchanged_iff_tracked.mpr hsame) hu

omit [LawfulWorkshop W] in
/-- A change event marks a known part and hands it in again if it names a tracked file, and leaves it
alone otherwise. -/
theorem Pipeline.handle_tracked {q : Pipeline W} {key : String} {known : FileTable} {v : W}
    (hknown : q.provider.known[part.id]? = some ⟨key, d⟩)
    (hpart : q.parts[part.id]? = some part)
    (hnamed : d.Named q.workspace.files part.id (part.recordOf known report v))
    (paths : List FilePath) :
    ((∃ path ∈ paths, part.Tracks known report path.text) →
      part.id ∈ (q.mark (q.hitBy paths)).provider.forced ∧
        ∃ parts, part ∈ parts ∧ q.handle (.filesChanged paths) =
          (q.mark (q.hitBy paths)).submit parts) ∧
    ((∀ path ∈ paths, ¬ part.Tracks known report path.text) → part.id ∉ q.hitBy paths) := by
  have hhit : part.id ∈ q.hitBy paths ↔ ∃ path ∈ paths, part.Tracks known report path.text := by
    rw [mem_hitBy hknown]
    exact exists_congr fun path => and_congr_right fun _ => hnamed.tracks.symm
  refine ⟨fun htracked => ?_, fun hnone hmem => ?_⟩
  · have hmem := hhit.mpr htracked
    have hresubmit : part ∈ (q.hitBy paths).filterMap (q.parts[·]?) :=
      List.mem_filterMap.mpr ⟨part.id, hmem, hpart⟩
    refine ⟨Task.mem_appendNew.mpr (Or.inr hmem), _, hresubmit, ?_⟩
    rw [q.handle_filesChanged, resubmit_of_mem (p := q.mark (q.hitBy paths)) hresubmit]
    rfl
  · obtain ⟨path, hpath, htracked⟩ := hhit.mp hmem
    exact hnone path hpath htracked

/-- After a part was collected, its next creation scans it if a tracked file has another time stamp,
whatever else has changed, and does not if no tracked file has. A change event marks and resubmits
the part if it names a tracked file, and does not otherwise. -/
theorem tracked_files (before : List (Call W))
    (hbefore : (Desk.mk (.start store) ws).Along Desk.Orderly before) :
    let s := (Desk.mk (Provider.start store) ws).after before
    Workshop.answer s.workspace.world (part.asked s.workspace.files s.provider.overlay) = .ok report →
    s.provider.create s.workspace part = (.ok d, s'.provider, s'.workspace) →
    Workshop.requests s'.workspace.world = Workshop.requests s.workspace.world ++
      [part.asked s.workspace.files s.provider.overlay] →
    (∀ w : W, ∃ e p ws',
      s'.provider.create ⟨w, s'.workspace.files⟩ part = (.ok e, p, ws') ∧
      ((∃ x, part.Tracks s.workspace.files report x ∧
          World.modified? w ⟨x⟩ ≠ World.modified? s.workspace.world ⟨x⟩) →
        Workshop.requests ws'.world = Workshop.requests w ++
          [part.asked s'.workspace.files s'.provider.overlay]) ∧
      ((∃ x, part.Tracks s.workspace.files report x) →
        (∀ x, part.Tracks s.workspace.files report x →
          World.modified? w ⟨x⟩ = World.modified? s.workspace.world ⟨x⟩) →
        e = d ∧ ws' = ⟨w, s'.workspace.files⟩)) ∧
    ∀ (q : Pipeline W) (paths : List FilePath), q.provider = s'.provider →
      q.workspace.files = s'.workspace.files → q.parts[part.id]? = some part →
      q.handle (.filesChanged paths) = (q.mark (q.hitBy paths)).resubmit (q.hitBy paths) ∧
      ((∃ path ∈ paths, part.Tracks s.workspace.files report path.text) →
        part.id ∈ (q.mark (q.hitBy paths)).provider.forced ∧
          ∃ parts, part ∈ parts ∧ q.handle (.filesChanged paths) =
            (q.mark (q.hitBy paths)).submit parts) ∧
      ((∀ path ∈ paths, ¬ part.Tracks s.workspace.files report path.text) →
        part.id ∉ q.hitBy paths) := by
  intro s hanswer hcreate hrequests
  have hs : s.provider.Sane s.workspace.files :=
    Desk.sane_after (s := ⟨.start store, ws⟩) (Provider.sane_start store ws.files) hbefore
  obtain ⟨hk, hforward, hsettled, hnamed, _, _⟩ :=
    Provider.gathered hs hanswer hcreate hrequests
  have hknown : s'.provider.known[part.id]? = some ⟨part.keyIn s'.workspace.files, d⟩ := by
    rw [hsettled.known, Std.TreeMap.getElem?_insert_self, Part.keyIn_extends hk hforward.files]
  have hunforced : part.id ∉ s'.provider.forced := by
    rw [hsettled.forced]
    simp
  refine ⟨fun w => ?_, fun q paths hprovider hfiles hpart => ⟨q.handle_filesChanged paths, ?_⟩⟩
  · exact Provider.create_tracked (hk.extends hforward.files) (hforward.sane hs) hknown hunforced
      hnamed
  · exact Pipeline.handle_tracked (hprovider ▸ hknown) hpart (hfiles ▸ hnamed) paths

end

/-- A part with one header and one source file. -/
def headerPart : Part := ⟨"a", .default, [⟨0⟩], [⟨1⟩]⟩

/-- What the source file includes is the part's own header. -/
def headerReport : ScanReport := ⟨[⟨⟨"/h.h"⟩, .userInclude, 1⟩], []⟩

def headerSpace : Workspace WritingBench :=
  ⟨⟨Bench.empty.setReport "a" headerReport, rfl⟩, ⟨["/h.h", "/a.cpp"], by decide⟩⟩

theorem headerPart_tracks {x : String} :
    headerPart.Tracks headerSpace.files headerReport x ↔ x = "/a.cpp" := by
  have hsources : headerSpace.files.names headerPart.sources = ["/a.cpp"] := rfl
  have hown : headerSpace.files.names headerPart.ownFiles = ["/h.h", "/a.cpp"] := rfl
  rw [Part.Tracks, hsources, hown]
  simp only [List.mem_cons, List.not_mem_nil, or_false, not_or]
  constructor
  · rintro (hx | ⟨⟨i, hi, rfl⟩, hne, _⟩)
    · exact hx
    · rw [List.mem_singleton.mp hi] at hne
      exact absurd rfl hne
  · exact Or.inl

theorem headerPart_known : headerPart.Known headerSpace.files :=
  ⟨fun f hf => ⟨"/h.h", by rw [List.mem_singleton.mp hf]; rfl⟩,
    fun f hf => ⟨"/a.cpp", by rw [List.mem_singleton.mp hf]; rfl⟩⟩

/-- The part is not scanned again when its header is written, although the scan named it, and is when
its source file is written. -/
theorem tracked_files_header : ∃ d p ws,
    (Provider.start (.memory {})).create headerSpace headerPart = (.ok d, p, ws) ∧
    (let w := (World.writeText ws.world ⟨"/h.h"⟩ "").2;
      World.modified? w ⟨"/h.h"⟩ ≠ World.modified? ws.world ⟨"/h.h"⟩ ∧
      ∃ p', p.create ⟨w, ws.files⟩ headerPart = (.ok d, p', ⟨w, ws.files⟩)) ∧
    (let w := (World.writeText ws.world ⟨"/a.cpp"⟩ "").2;
      ∃ e p' ws', p.create ⟨w, ws.files⟩ headerPart = (.ok e, p', ws') ∧
        Workshop.requests ws'.world = Workshop.requests w ++
          [headerPart.asked ws.files p.overlay]) := by
  have hanswer : Workshop.answer headerSpace.world
      (headerPart.asked headerSpace.files (Provider.start (.memory {})).overlay) =
        .ok headerReport := rfl
  obtain ⟨d, p, ws, hcreate, hgathered⟩ :=
    Provider.gather headerPart_known (Provider.sane_start (.memory {}) _) rfl hanswer
  obtain ⟨hcreated, _⟩ := @tracked_files _ _ _ (.memory {}) headerSpace headerPart headerReport d
    ⟨p, ws⟩ [] trivial hanswer hcreate hgathered.requests
  have hthen : ∀ x, World.modified? ws.world ⟨x⟩ = World.modified? headerSpace.world ⟨x⟩ :=
    fun x => hgathered.forward.spares.modified? fun _ hp => absurd hp List.not_mem_nil
  have hnone : ∀ x, World.modified? headerSpace.world ⟨x⟩ = none := fun _ => rfl
  have hchanged : ∀ x : FilePath, World.modified? (World.writeText ws.world x "").2 x ≠ none := by
    intro x
    have hwritten : World.modified? (World.writeText ws.world x "").2 x =
        ((ws.world.bench.files.write x (.ok "")).find? x).map fun f => (f.modified : Int) := rfl
    rw [hwritten, MemoryFiles.find?_write_self]
    exact Option.some_ne_none _
  refine ⟨d, p, ws, hcreate, ⟨?_, ?_⟩, ?_⟩
  · rw [hthen, hnone]
    exact hchanged _
  · obtain ⟨e, p', ws', hagain, _, hkept⟩ := hcreated (World.writeText ws.world ⟨"/h.h"⟩ "").2
    obtain ⟨rfl, rfl⟩ := hkept ⟨_, headerPart_tracks.mpr rfl⟩ fun x hx => by
      obtain rfl := headerPart_tracks.mp hx
      refine Eq.trans ?_ (hthen _)
      exact (LawfulWorkshop.write_spares ws.world _ _).modified? fun y hy => by
        rw [List.mem_singleton.mp hy]
        decide +kernel
    exact ⟨p', hagain⟩
  · obtain ⟨e, p', ws', hagain, hscanned, _⟩ :=
      hcreated (World.writeText ws.world ⟨"/a.cpp"⟩ "").2
    exact ⟨e, p', ws', hagain, hscanned ⟨_, headerPart_tracks.mpr rfl, fun hsame =>
      hchanged _ (hsame.trans (hnone _))⟩⟩

end PrecompiledHeaders
