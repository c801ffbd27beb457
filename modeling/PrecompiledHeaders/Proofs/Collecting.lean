import PrecompiledHeaders.Pipeline
import PrecompiledHeaders.Proofs.FileTable
import PrecompiledHeaders.Proofs.Holdings
/-! Collecting the tasks of parts. With known files this never fails, it writes nothing but the
records of the parts, it runs no compiler, and every file that a task names is known afterwards. -/
namespace PrecompiledHeaders

variable {W : Type} [Workshop W]

def Dependency.Known (files : FileTable) (d : Dependency) : Prop := files.Knows d.referencedFiles

theorem Dependency.Known.extends {t u : FileTable} {d : Dependency} (h : d.Known t)
    (hu : u.Extends t) : d.Known u := hu.knows h

def Part.Known (files : FileTable) (part : Part) : Prop :=
  files.Knows part.headers ∧ files.Knows part.sources

theorem Part.Known.extends {t u : FileTable} {part : Part} (h : part.Known t) (hu : u.Extends t) :
    part.Known u := ⟨hu.knows h.1, hu.knows h.2⟩

/-! ### Reports -/

namespace Collection

theorem entries_spec (own : List String) (files : FileTable) (seen : List FileId)
    (is : List ScannedInclude) : (entries own files seen is).2.Extends files ∧
      (entries own files seen is).2.Knows ((entries own files seen is).1.map (·.file)) := by
  induction is generalizing files seen with
  | nil => exact ⟨FileTable.Extends.refl _, fun _ h => absurd h List.not_mem_nil⟩
  | cons i is ih =>
    rw [entries]
    split
    · exact ih files seen
    · obtain ⟨hext, hknown⟩ := ih (files.intern i.path.text).2 seen
      obtain ⟨hext', hknown'⟩ := ih (files.intern i.path.text).2
        ((files.intern i.path.text).1 :: seen)
      dsimp only
      split
      · exact ⟨(files.intern_extends _).trans hext, hknown⟩
      · refine ⟨(files.intern_extends _).trans hext', ?_⟩
        rw [List.map_cons, FileTable.Knows, List.forall_mem_cons]
        exact ⟨⟨_, hext'.path? (files.path?_intern _)⟩, hknown'⟩

/-- Numbers are given out, and the dependency names only files with numbers. -/
theorem digestReport_spec (ws : Workspace W) {part : Part} (own : List String) (r : ScanReport)
    (hk : ws.files.Knows part.sources) :
    (digestReport ws part own r).2.world = ws.world ∧
      (digestReport ws part own r).2.files.Extends ws.files ∧
      (digestReport ws part own r).1.Known (digestReport ws part own r).2.files := by
  obtain ⟨hext, hknown⟩ := entries_spec own ws.files [] (inOrder r.includes)
  exact ⟨rfl, hext, hknown.append (hext.knows hk)⟩

variable [LawfulWorkshop W]

/-- A scan that answers is digested, and one that fails leaves nothing behind. -/
theorem collect_spec (ws : Workspace W) (overlay : Overlay) {part : Part}
    (hk : part.Known ws.files) : ∃ sources own, ws.files.Resolves part.sources sources ∧
      ws.files.Resolves part.ownFiles own ∧
      collect ws overlay part =
        match Workshop.answer ws.world (request part sources overlay) with
        | .error f => (.error f,
            { ws with world := (World.scan ws.world (request part sources overlay)).2 })
        | .ok report =>
          let (d, ws) := digestReport { ws with
            world := (World.scan ws.world (request part sources overlay)).2 } part own report
          (.ok d, ws) := by
  obtain ⟨sources, hsources⟩ := FileTable.knows_iff.mp hk.2
  obtain ⟨own, hown⟩ := FileTable.knows_iff.mp (hk.1.append hk.2)
  refine ⟨sources, own, hsources, hown, ?_⟩
  have hanswer := LawfulWorkshop.scan_result ws.world (request part sources overlay)
  rw [collect, FileTable.resolveAll_eq_ok.mpr hsources]
  dsimp only
  rw [show ws.files.resolveAll part.ownFiles = .ok own from FileTable.resolveAll_eq_ok.mpr hown]
  dsimp only
  rw [← hanswer]
  split <;> rename_i hs <;> rw [hs]

end Collection

/-! ### Records -/

theorem Part.recordKey_eq_ok {files : FileTable} {part : Part} (h : part.Known files) :
    ∃ headers sources, files.Resolves part.headers headers ∧ files.Resolves part.sources sources ∧
      part.recordKey files =
        .ok (digestText (Part.keyJson part.id headers sources part.settings).compact) := by
  obtain ⟨headers, hh⟩ := FileTable.knows_iff.mp h.1
  obtain ⟨sources, hs⟩ := FileTable.knows_iff.mp h.2
  refine ⟨headers, sources, hh, hs, ?_⟩
  rw [Part.recordKey, FileTable.resolveAll_eq_ok.mpr hh]
  dsimp only
  rw [FileTable.resolveAll_eq_ok.mpr hs]

theorem Part.recordKey_unknown {files : FileTable} {part : Part} (h : ¬ part.Known files) :
    ∃ f, part.recordKey files = .error f := by
  rw [Part.recordKey]
  cases hh : files.resolveAll part.headers with
  | error id => exact ⟨_, rfl⟩
  | ok headers =>
    cases hs : files.resolveAll part.sources with
    | error id => exact ⟨_, rfl⟩
    | ok sources =>
      exact absurd ⟨FileTable.knows_iff.mpr ⟨_, FileTable.resolveAll_eq_ok.mp hh⟩,
        FileTable.knows_iff.mpr ⟨_, FileTable.resolveAll_eq_ok.mp hs⟩⟩ h

theorem Part.recordKey_extends {t u : FileTable} {part : Part} (h : part.Known t)
    (hu : u.Extends t) : part.recordKey u = part.recordKey t := by
  obtain ⟨headers, sources, hh, hs, he⟩ := Part.recordKey_eq_ok h
  obtain ⟨headers', sources', hh', hs', he'⟩ := Part.recordKey_eq_ok (h.extends hu)
  rw [he, he', (hu.resolves hh).unique hh', (hu.resolves hs).unique hs']

namespace Record

theorem internIncludes_spec (files : FileTable) (is : List ScannedInclude) :
    (internIncludes files is).2.Extends files ∧
      (internIncludes files is).2.Knows ((internIncludes files is).1.map (·.file)) := by
  induction is generalizing files with
  | nil => exact ⟨FileTable.Extends.refl _, fun _ h => absurd h List.not_mem_nil⟩
  | cons i is ih =>
    obtain ⟨hext, hknown⟩ := ih (files.intern i.path.text).2
    refine ⟨(files.intern_extends _).trans hext, ?_⟩
    rw [internIncludes, List.map_cons, FileTable.Knows, List.forall_mem_cons]
    exact ⟨⟨_, hext.path? (files.path?_intern _)⟩, hknown⟩

theorem internStatuses_extends (files : FileTable) (ss : List RecordedStatus) :
    (internStatuses files ss).2.Extends files := by
  induction ss generalizing files with
  | nil => exact FileTable.Extends.refl _
  | cons s ss ih => exact (files.intern_extends _).trans (ih (files.intern s.path.text).2)

theorem toDependency_spec (r : Record) (files : FileTable) :
    (r.toDependency files).2.Extends files ∧
      (r.toDependency files).1.Known (r.toDependency files).2 := by
  obtain ⟨hext₁, hknown₁⟩ := internIncludes_spec files r.includes
  have hext₂ := FileTable.internAll_extends (internIncludes files r.includes).2
    (r.sources.map (·.text))
  have hknown₂ := FileTable.knows_iff.mpr ⟨_, FileTable.resolves_internAll
    (internIncludes files r.includes).2 (r.sources.map (·.text))⟩
  have hext₃ := internStatuses_extends
    ((internIncludes files r.includes).2.internAll (r.sources.map (·.text))).2 r.statuses
  exact ⟨hext₁.trans (hext₂.trans hext₃),
    ((hext₂.trans hext₃).knows hknown₁).append (hext₃.knows hknown₂)⟩

end Record

namespace RecordStore

def root? : RecordStore → Option FilePath
  | .memory _ => none
  | .files root => some root

/-- The file in which the record under this key is kept. -/
def documents (s : RecordStore) (key : String) : List FilePath :=
  s.root?.toList.map (pathFor · key)

theorem documents_congr {s s' : RecordStore} (h : s'.root? = s.root?) (key : String) :
    s'.documents key = s.documents key := by
  rw [documents, documents, h]

theorem save_spec [LawfulWorkshop W] (s : RecordStore) (w : W) (key : String) (r : Record) :
    (s.save w key r).1 = .ok () ∧ (s.save w key r).2.1.root? = s.root? ∧
      Spares (s.documents key) w (s.save w key r).2.2 ∧ Quiet w (s.save w key r).2.2 := by
  cases s with
  | memory records => exact ⟨rfl, rfl, Spares.refl _ _, Quiet.refl _⟩
  | files root =>
    rw [save, Document.save_result]
    exact ⟨rfl, rfl, LawfulWorkshop.write_spares _ _ _, LawfulWorkshop.write_quiet _ _ _⟩

end RecordStore

/-! ### The provider -/

namespace Provider

/-- What is remembered names only files with numbers. -/
def Sane (files : FileTable) (p : Provider) : Prop :=
  ∀ (id : PartId) (k : KnownDependency), p.known[id]? = some k → k.dependency.Known files

theorem sane_start (store : RecordStore) (files : FileTable) : (start store).Sane files := by
  intro id k hk
  simp [start] at hk

theorem Sane.extends {t u : FileTable} {p : Provider} (h : p.Sane t) (hu : u.Extends t) :
    p.Sane u := fun id k hk => (h id k hk).extends hu

theorem Sane.remember {files : FileTable} {p : Provider} (h : p.Sane files) (id : PartId)
    (key : String) {d : Dependency} (hd : d.Known files) : (p.remember id key d).Sane files := by
  intro id' k hk
  rw [Provider.remember, Std.TreeMap.getElem?_insert] at hk
  split at hk
  · obtain rfl := Option.some.inj hk
    exact hd
  · exact h id' k hk

/-- What a step of the provider does to its surroundings, `ps` being the records it may write. -/
structure Forward (ps : List FilePath) (p : Provider) (ws : Workspace W) (p' : Provider)
    (ws' : Workspace W) : Prop where
  files : ws'.files.Extends ws.files
  spares : Spares ps ws.world ws'.world
  jobs : Workshop.jobs ws'.world = Workshop.jobs ws.world
  root : p'.store.root? = p.store.root?
  sane : p.Sane ws.files → p'.Sane ws'.files

variable {p p' p'' : Provider} {ws ws' ws'' : Workspace W} {ps qs : List FilePath}

theorem Forward.trans (h : Forward ps p ws p' ws') (k : Forward qs p' ws' p'' ws'') :
    Forward (ps ++ qs) p ws p'' ws'' :=
  ⟨h.files.trans k.files, h.spares.trans k.spares, k.jobs.trans h.jobs, k.root.trans h.root,
    fun hs => k.sane (h.sane hs)⟩

theorem Forward.mono (h : Forward ps p ws p' ws') (hs : ps ⊆ qs) : Forward qs p ws p' ws' :=
  ⟨h.files, h.spares.mono hs, h.jobs, h.root, h.sane⟩

/-- A step that only gives out numbers, and remembers nothing new. -/
theorem forward_files (hf : ws'.files.Extends ws.files) (hw : ws'.world = ws.world)
    (hs : p'.store = p.store) (hk : p'.known = p.known) : Forward ps p ws p' ws' := by
  refine ⟨hf, hw ▸ Spares.refl _ _, by rw [hw], by rw [hs], fun h id k hid => ?_⟩
  rw [hk] at hid
  exact (h id k hid).extends hf

omit [Workshop W] in
theorem loadStored_spec [World W] (p : Provider) (ws : Workspace W) (part : PartId) (key : String) :
    ∃ o p' ws', p.loadStored ws part key = (o, p', ws') ∧ ws'.files.Extends ws.files ∧
      ws'.world = ws.world ∧ p'.store = p.store ∧ p'.known = p.known ∧
      ∀ d, o = some d → d.Known ws'.files := by
  rw [loadStored]
  split
  · exact ⟨_, _, _, rfl, FileTable.Extends.refl _, rfl, rfl, rfl, fun _ h => by cases h⟩
  · exact ⟨_, _, _, rfl, FileTable.Extends.refl _, rfl, rfl, rfl, fun _ h => by cases h⟩
  · rename_i r _
    obtain ⟨hext, hknown⟩ := r.toDependency_spec ws.files
    refine ⟨_, _, _, rfl, hext, rfl, rfl, rfl, fun d h => ?_⟩
    obtain rfl := Option.some.inj h
    exact hknown

theorem cached_spec (p : Provider) (ws : Workspace W) (part : PartId) (key : String)
    (hs : p.Sane ws.files) : ∃ o p' ws', p.cached ws part key = (o, p', ws') ∧
      ws'.files.Extends ws.files ∧ ws'.world = ws.world ∧ p'.store = p.store ∧
      p'.known = p.known ∧ ∀ d, o = some d → d.Known ws'.files := by
  rw [cached]
  split
  · rename_i k hk
    split
    · refine ⟨_, _, _, rfl, FileTable.Extends.refl _, rfl, rfl, rfl, fun d h => ?_⟩
      obtain rfl := Option.some.inj h
      exact hs _ k hk
    · exact loadStored_spec p ws part key
  · exact loadStored_spec p ws part key

variable [LawfulWorkshop W]

theorem saveRecord_spec (p : Provider) (ws : Workspace W) (part : PartId) (key : String)
    (d : Dependency) : ∃ p' ws', p.saveRecord ws part key d = (p', ws') ∧
      ws'.files = ws.files ∧ Spares (p.store.documents key) ws.world ws'.world ∧
      Quiet ws.world ws'.world ∧ p'.store.root? = p.store.root? ∧ p'.known = p.known := by
  rw [saveRecord]
  split
  · exact ⟨_, _, rfl, rfl, Spares.refl _ _, Quiet.refl _, rfl, rfl⟩
  · rename_i r _
    obtain ⟨hres, hroot, hspares, hquiet⟩ := p.store.save_spec ws.world key r
    split <;> rename_i hsave <;> rw [hsave] at hres hroot hspares hquiet
    · exact ⟨_, _, rfl, rfl, hspares, hquiet, hroot, rfl⟩
    · cases hres

theorem recollect_spec (p : Provider) (ws : Workspace W) {part : Part} (key : String)
    (old : Option Dependency) (hk : part.Known ws.files)
    (hold : ∀ d, old = some d → d.Known ws.files) :
    ∃ d p' ws', p.recollect ws part key old = (d, p', ws') ∧ d.Known ws'.files ∧
      Forward (p.store.documents key) p ws p' ws' := by
  obtain ⟨sources, own, _, _, hcollect⟩ := Collection.collect_spec ws p.overlay hk
  have hscan := LawfulWorkshop.scan_spares ws.world
    (Collection.request part sources p.overlay)
  have hjobs := LawfulWorkshop.scan_jobs ws.world (Collection.request part sources p.overlay)
  rw [recollect, hcollect]
  cases Workshop.answer ws.world (Collection.request part sources p.overlay) with
  | error f =>
    have hd : (old.getD .empty).Known ws.files := by
      cases old with
      | none => exact fun _ h => absurd h List.not_mem_nil
      | some d => exact hold d rfl
    refine ⟨_, _, _, rfl, hd, FileTable.Extends.refl _, hscan.mono (by simp), hjobs, rfl,
      fun hs => ?_⟩
    exact Sane.remember (p := p.note _) hs part.id key hd
  | ok report =>
    obtain ⟨hworld, hext, hknown⟩ := Collection.digestReport_spec
      { ws with world := (World.scan ws.world (Collection.request part sources p.overlay)).2 }
      own report hk.2
    dsimp only at hworld hext hknown ⊢
    generalize Collection.digestReport
      { ws with world := (World.scan ws.world (Collection.request part sources p.overlay)).2 }
      part own report = out at hworld hext hknown ⊢
    obtain ⟨d, ws₁⟩ := out
    dsimp only at hworld hext hknown ⊢
    obtain ⟨p₂, ws₂, hsave, hfiles, hspares, hquiet, hroot, hsame⟩ :=
      saveRecord_spec { p with lookups := p.lookups + d.statuses.length } ws₁ part.id key d
    rw [hsave]
    have hknown₂ : d.Known ws₂.files := hfiles ▸ hknown
    refine ⟨_, _, _, rfl, hknown₂, hfiles ▸ hext, ?_, ?_, hroot, fun hs => ?_⟩
    · rw [hworld] at hspares
      exact (hscan.mono (List.nil_subset _)).join hspares
    · rw [hquiet.2, hworld, hjobs]
    · refine Sane.remember ?_ part.id key hknown₂
      intro id k hid
      rw [hsame] at hid
      exact (hs id k hid).extends (hfiles ▸ hext)

/-- A part with known files always gets a dependency, and at most its own record is written. -/
theorem create_spec (p : Provider) (ws : Workspace W) {part : Part} {key : String}
    (hk : part.Known ws.files) (hs : p.Sane ws.files) (hkey : part.recordKey ws.files = .ok key) :
    ∃ d p' ws', p.create ws part = (.ok d, p', ws') ∧ d.Known ws'.files ∧
      Forward (p.store.documents key) p ws p' ws' := by
  rw [create, hkey]
  dsimp only
  obtain ⟨o, p₁, ws₁, hcached, hext, hworld, hstore, hsame, ho⟩ :=
    cached_spec { p with forced := p.forced.filter (· ≠ part.id) } ws part.id key hs
  rw [hcached]
  have hfirst : Forward [] p ws p₁ ws₁ := forward_files hext hworld hstore hsame
  have hagain : ∀ (q : Provider) (old : Option Dependency), q.store = p₁.store →
      q.known = p₁.known → (∀ d, old = some d → d.Known ws₁.files) →
      ∃ d p' ws', q.recollect ws₁ part key old = (d, p', ws') ∧ d.Known ws'.files ∧
        Forward (p.store.documents key) p ws p' ws' := by
    intro q old hq hq' hold
    obtain ⟨d, p', ws', he, hd, hf⟩ := recollect_spec q ws₁ key old (hk.extends hext) hold
    refine ⟨d, p', ws', he, hd, ?_⟩
    have hq₁ : Forward [] p₁ ws₁ q ws₁ := forward_files (FileTable.Extends.refl _) rfl hq hq'
    have hdocs : q.store.documents key = p.store.documents key := by rw [hq, hstore]
    rw [hdocs] at hf
    exact (hfirst.trans (hq₁.trans hf)).mono (by simp)
  cases o with
  | none =>
    obtain ⟨d, p', ws', he, hd, hf⟩ := hagain p₁ none rfl rfl fun _ h => by cases h
    dsimp only
    rw [he]
    exact ⟨d, p', ws', rfl, hd, hf⟩
  | some d₀ =>
    have hd₀ := ho d₀ rfl
    dsimp only
    split
    · obtain ⟨d, p', ws', he, hd, hf⟩ := hagain p₁ (some d₀) rfl rfl ho
      rw [he]
      exact ⟨d, p', ws', rfl, hd, hf⟩
    · split
      · refine ⟨_, _, _, rfl, hd₀, ?_⟩
        have hremember : Forward [] p₁ ws₁ (Provider.remember { p₁ with
            lookups := p₁.lookups + Freshness.lookups ws₁ d₀.statuses } part.id key d₀) ws₁ :=
          ⟨FileTable.Extends.refl _, Spares.refl _ _, rfl, rfl,
            fun hsane => Sane.remember (p := { p₁ with lookups := _ }) hsane part.id key hd₀⟩
        exact (hfirst.trans hremember).mono (List.nil_subset _)
      · obtain ⟨d, p', ws', he, hd, hf⟩ := hagain { p₁ with
            lookups := p₁.lookups + Freshness.lookups ws₁ d₀.statuses } (some d₀) rfl rfl ho
        rw [he]
        exact ⟨d, p', ws', rfl, hd, hf⟩

end Provider
end PrecompiledHeaders
