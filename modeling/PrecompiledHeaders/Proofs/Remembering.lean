import PrecompiledHeaders.Proofs.Building
import PrecompiledHeaders.Proofs.Records
/-! What the provider remembers of a part. A part that was scanned is found again, by its number in
the same run and by its record in a later one, and is not scanned again as long as the files it
reads keep their time stamps. -/
namespace PrecompiledHeaders

/-! ### Keys of records -/

namespace Part

def keyText (part : Part) (files : FileTable) : String :=
  (keyJson part.id (files.names part.headers) (files.names part.sources) part.settings).compact

/-- The key under which the record of a part with known files is kept. -/
def keyIn (part : Part) (files : FileTable) : String := digestText (part.keyText files)

variable {t u : FileTable} {p q : Part}

theorem recordKey_of_known (h : p.Known t) : p.recordKey t = .ok (p.keyIn t) := by
  obtain ⟨headers, sources, hh, hs, hkey⟩ := recordKey_eq_ok h
  rw [hkey, keyIn, keyText, hh.names, hs.names]

theorem keyText_extends (h : p.Known t) (hu : u.Extends t) : p.keyText u = p.keyText t := by
  rw [keyText, keyText, hu.names h.1, hu.names h.2]

theorem keyIn_extends (h : p.Known t) (hu : u.Extends t) : p.keyIn u = p.keyIn t := by
  rw [keyIn, keyIn, keyText_extends h hu]

theorem keyIn_alike (h : Part.Alike t u p q) : q.keyIn u = p.keyIn t := by
  rw [keyIn, keyIn, keyText, keyText, h.id, h.settings, FileTable.names_of_same h.headers,
    FileTable.names_of_same h.sources]

theorem Alike.known (h : Part.Alike t u p q) : q.Known u :=
  ⟨FileTable.knows_of_same h.headers, FileTable.knows_of_same h.sources⟩

/-- The text under a key tells everything of its part but the numbers of its files. -/
theorem keyText_injective (h : p.keyText t = q.keyText u) :
    p.id = q.id ∧ p.settings = q.settings ∧ t.names p.headers = u.names q.headers ∧
      t.names p.sources = u.names q.sources := by
  have hplain : ∀ (id : PartId) (hs ss : List String) (x : Settings),
      (keyJson id hs ss x).Plain := by
    intro id hs ss x
    simp [keyJson, Settings.toolchainField, Settings.macrosField, Settings.pathFields,
      Settings.languageFields, Json.ofTexts, Json.ofNat, MacroDefinition.toJson, SearchPath.toJson,
      Extensions.toJson]
  have hjson := Json.compact_injective (hplain _ _ _ _) (hplain _ _ _ _) h
  have htext : Function.Injective Json.text := fun _ _ ht => Json.text.inj ht
  simp only [keyJson, Settings.pathFields, Settings.languageFields, List.cons_append,
    List.nil_append, Json.object.injEq, List.cons.injEq, and_true] at hjson
  obtain ⟨hid, ht, hm, hsp, hpp, hheaders, hsources, hl, hv, he⟩ := hjson
  have hof : ∀ {xs ys : List String} {k : String}, (k, Json.ofTexts xs) = (k, Json.ofTexts ys) →
      xs = ys := fun hxy =>
    List.map_injective_iff.mpr htext (Json.list.inj (Prod.mk.inj hxy).2)
  exact ⟨htext (Prod.mk.inj hid).2, Settings.eq_of_fields ht hm
    (by simp only [Settings.pathFields, hsp, hpp])
    (by simp only [Settings.languageFields, hl, hv, he]), hof hheaders, hof hsources⟩

/-- The text under a key names its part. -/
theorem id_eq_of_keyText (h : p.keyText t = q.keyText u) : p.id = q.id := (keyText_injective h).1

theorem alike_of_keyText (hp : p.Known t) (hq : q.Known u) (h : p.keyText t = q.keyText u) :
    Part.Alike t u p q := by
  obtain ⟨hid, hsettings, hheaders, hsources⟩ := keyText_injective h
  exact ⟨hid.symm, hsettings.symm, hp.1.resolves.same (hheaders ▸ hq.1.resolves),
    hp.2.resolves.same (hsources ▸ hq.2.resolves)⟩

/-- Different parts have different keys, as far as these digests tell them apart. -/
theorem id_eq_of_keyIn (h : p.keyIn t = q.keyIn u) {inputs : List (List UInt8)}
    (ha : Apart inputs) (hp : Text.Utf8.encode (p.keyText t) ∈ inputs)
    (hq : Text.Utf8.encode (q.keyText u) ∈ inputs) : p.id = q.id :=
  id_eq_of_keyText (Text.Utf8.encode_injective (ha _ hp _ hq h))

theorem length_keyIn (p : Part) (t : FileTable) : (p.keyIn t).toList.length = 64 := length_digest _

theorem slash_not_mem_keyIn (p : Part) (t : FileTable) : '/' ∉ (p.keyIn t).toList :=
  slash_not_mem_digest _

end Part

/-! ### Record stores -/

namespace RecordStore

variable {W : Type} [Workshop W]

theorem load_congr {s : RecordStore} {v w : W} {key : String}
    (h : ∀ d ∈ s.documents key, look v d = look w d) : s.load v key = s.load w key := by
  cases s with
  | memory records => rfl
  | files root => exact Document.load_congr _ (h _ (by simp [documents, root?]))

theorem not_same_of_ne {s : RecordStore} {k k' : String} (hk : '/' ∉ k.toList)
    (hk' : '/' ∉ k'.toList) (hne : k ≠ k') :
    ∀ d ∈ s.documents k, ∀ d' ∈ s.documents k', ¬ d.same d' := by
  cases s with
  | memory records => exact fun d hd => absurd hd List.not_mem_nil
  | files root =>
    intro d hd d' hd'
    obtain rfl := List.mem_singleton.mp hd
    obtain rfl := List.mem_singleton.mp hd'
    refine FilePath.not_same_of_ends (ends_pathFor root hk) (ends_pathFor root hk') ?_
    exact fun h => hne (String.append_left_inj _ |>.mp h)

variable [LawfulWorkshop W]

theorem load_save (s : RecordStore) (w : W) (key : String) {r : Record} (hr : r.Fits) :
    (s.save w key r).2.1.load (s.save w key r).2.2 key = .ok (some r) := by
  cases s with
  | memory records => simp [save, load]
  | files root =>
    rw [save, Document.save_result]
    exact Document.load_saved r.plain_toJson (Record.ofJson?_toJson hr) rfl

theorem load_save_of_ne (s : RecordStore) (w : W) {k key : String} (r : Record)
    (hk : '/' ∉ k.toList) (hkey : '/' ∉ key.toList) (hne : k ≠ key) :
    (s.save w key r).2.1.load (s.save w key r).2.2 k = s.load w k := by
  obtain ⟨_, _, hspares, _⟩ := s.save_spec w key r
  have hlook : ∀ d ∈ s.documents k, look (s.save w key r).2.2 d = look w d := fun d hd =>
    hspares.look d fun d' hd' => not_same_of_ne hkey hk hne.symm d' hd' d hd
  rw [← load_congr hlook]
  cases s with
  | memory records =>
    simp only [save, load, Except.ok.injEq]
    rw [Std.TreeMap.getElem?_insert, if_neg (by simpa using hne.symm)]
  | files root => rfl

end RecordStore

/-! ### Creating dependencies -/

/-- What is asked about a part with known files. -/
def Part.asked (part : Part) (files : FileTable) (overlay : Overlay) : ScanRequest :=
  Collection.request part (files.names part.sources) overlay

/-- The record of a part when `report` is what its scan says. -/
def Part.recordOf {W : Type} [World W] (part : Part) (files : FileTable) (report : ScanReport)
    (w : W) : Record :=
  Record.ofReport part.id (files.names part.ownFiles) (files.names part.sources) report w

theorem Part.asked_extends {t u : FileTable} {part : Part} (h : part.Known t) (hu : u.Extends t)
    (overlay : Overlay) : part.asked u overlay = part.asked t overlay := by
  rw [asked, asked, hu.names h.2]

theorem Part.recordOf_extends {W : Type} [World W] {t u : FileTable} {part : Part}
    (h : part.Known t) (hu : u.Extends t) (report : ScanReport) (w : W) :
    part.recordOf u report w = part.recordOf t report w := by
  rw [recordOf, recordOf, ownFiles, hu.names (h.1.append h.2), hu.names h.2]

theorem Part.asked_alike {t u : FileTable} {p q : Part} (h : Part.Alike t u p q)
    (overlay : Overlay) : q.asked u overlay = p.asked t overlay := by
  rw [asked, asked, Collection.request, Collection.request, h.id, h.settings,
    FileTable.names_of_same h.sources]

theorem Part.recordOf_alike {W : Type} [World W] {t u : FileTable} {p q : Part}
    (h : Part.Alike t u p q) (report : ScanReport) (w : W) :
    q.recordOf u report w = p.recordOf t report w := by
  rw [recordOf, recordOf, h.id, FileTable.names_of_same h.sources, ownFiles, ownFiles,
    FileTable.names_of_same (List.rel_append h.headers h.sources)]

/-- The record does not change with files that the part does not read. -/
theorem Part.recordOf_of_current {W : Type} [World W] {files : FileTable} {part : Part}
    {report : ScanReport} {v w : W} (h : (part.recordOf files report v).Current w) :
    part.recordOf files report w = part.recordOf files report v := by
  have hstatuses : (part.recordOf files report w).statuses =
      (part.recordOf files report v).statuses := by
    refine List.map_congr_left fun q hq => ?_
    have hstamp : World.modified? w ⟨q⟩ = World.modified? v ⟨q⟩ :=
      h ⟨⟨q⟩, World.modified? v ⟨q⟩⟩ (List.mem_map_of_mem hq)
    rw [hstamp]
  exact Record.mk.injEq .. ▸ ⟨rfl, rfl, rfl, rfl, hstatuses⟩

namespace Collection

variable {W : Type} [World W] {ws : Workspace W} {overlay : Overlay} {part : Part} {files : FileTable}
  {report report' : ScanReport} {own : List String} {v w : W}

/-- A scan that answers is digested. -/
theorem collect_of_scan (hk : part.Known ws.files)
    (hscan : World.scan ws.world (part.asked ws.files overlay) = (.ok report, w)) :
    collect ws overlay part =
      (.ok (digestReport ⟨w, ws.files⟩ part (ws.files.names part.ownFiles) report).1,
        (digestReport ⟨w, ws.files⟩ part (ws.files.names part.ownFiles) report).2) := by
  rw [collect, hk.2.resolveAll]
  dsimp only
  rw [show ws.files.resolveAll part.ownFiles = .ok (ws.files.names part.ownFiles) from
    (hk.1.append hk.2).resolveAll]
  dsimp only
  rw [Part.asked] at hscan
  rw [hscan]

theorem collect_of_failed_scan (hk : part.Known ws.files) {fault : Fault}
    (hscan : World.scan ws.world (part.asked ws.files overlay) = (.error fault, w)) :
    collect ws overlay part = (.error fault, ⟨w, ws.files⟩) := by
  rw [collect, hk.2.resolveAll]
  dsimp only
  rw [show ws.files.resolveAll part.ownFiles = .ok (ws.files.names part.ownFiles) from
    (hk.1.append hk.2).resolveAll]
  dsimp only
  rw [Part.asked] at hscan
  rw [hscan]

/-- What can be collected has no unknown file. -/
theorem known_of_collect {d : Dependency} (h : (collect ws overlay part).1 = .ok d) :
    part.Known ws.files := by
  rw [collect] at h
  cases hsources : ws.files.resolveAll part.sources with
  | error id =>
    rw [hsources] at h
    cases h
  | ok sources =>
    cases hown : ws.files.resolveAll part.ownFiles with
    | error id =>
      simp only [hsources, hown] at h
      cases h
    | ok own =>
      have hknows := FileTable.knows_iff.mpr ⟨own, FileTable.resolveAll_eq_ok.mp hown⟩
      exact ⟨hknows.mono (List.subset_append_left _ _), hknows.mono (List.subset_append_right _ _)⟩

/-- Only the sorted lists of a report are looked at, and of the files that are read the time stamps. -/
theorem digestReport_congr (hincludes : inOrder report'.includes = inOrder report.includes)
    (hmacros : UsedMacro.normalize report'.usedMacros = UsedMacro.normalize report.usedMacros)
    (hstamps : ∀ id ∈ (digestReport ⟨v, files⟩ part own report).1.referencedFiles, ∀ path,
      (digestReport ⟨v, files⟩ part own report).2.files.path? id = some path →
        World.modified? w ⟨path⟩ = World.modified? v ⟨path⟩) :
    digestReport ⟨w, files⟩ part own report' =
      ((digestReport ⟨v, files⟩ part own report).1,
        ⟨w, (digestReport ⟨v, files⟩ part own report).2.files⟩) := by
  rw [digestReport] at hstamps
  rw [digestReport, digestReport, hincludes, hmacros]
  dsimp only [Dependency.referencedFiles] at hstamps ⊢
  simp only [statuses]
  rw [List.map_congr_left fun id hid => ?_]
  have hread := (keepFirst_sublist _ _ _).mem hid
  cases hpath : (entries own files [] (inOrder report.includes)).2.path? id with
  | none => rfl
  | some path => simp only [Option.bind_some, hstamps id hread path hpath]

end Collection

namespace Provider

variable {W : Type} [Workshop W]

/-- The dependency `d` of `part`, with record `r`, was created, for which the scanner was asked
`more`. -/
structure Created (p : Provider) (ws : Workspace W) (part : Part) (r : Record)
    (more : List ScanRequest) (d : Dependency) (p' : Provider) (ws' : Workspace W) : Prop where
  create : p.create ws part = (.ok d, p', ws')
  named : d.Named ws'.files part.id r
  known : p'.known = p.known.insert part.id ⟨part.keyIn ws.files, d⟩
  forced : p'.forced = p.forced.filter (· ≠ part.id)
  overlay : p'.overlay = p.overlay
  others : ∀ k, '/' ∉ k.toList → k ≠ part.keyIn ws.files →
    p'.store.load ws'.world k = p.store.load ws.world k
  requests : Workshop.requests ws'.world = Workshop.requests ws.world ++ more

/-- The provider has the dependency of this part, by its number or by its record. -/
structure Keeps (p : Provider) (ws : Workspace W) (part : Part) (r : Record) : Prop where
  owner : r.part = part.id
  unforced : part.id ∉ p.forced
  found : match p.known[part.id]? with
    | some k => k.key = part.keyIn ws.files ∧ k.dependency.Named ws.files part.id r
    | none => p.store.load ws.world (part.keyIn ws.files) = .ok (some r)

variable {p : Provider} {ws : Workspace W} {part : Part} {r : Record}

theorem Keeps.cached (h : p.Keeps ws part r) (forced : List PartId) :
    ∃ d files, Provider.cached { p with forced := forced } ws part.id (part.keyIn ws.files) =
        (some d, { p with forced := forced }, { ws with files := files }) ∧
      files.Extends ws.files ∧ d.Named files part.id r := by
  have hfound := h.found
  rw [Provider.cached]
  split at hfound
  · rename_i k hk
    obtain ⟨hkey, hnamed⟩ := hfound
    refine ⟨k.dependency, ws.files, ?_, FileTable.Extends.refl _, hnamed⟩
    rw [show ({ p with forced := forced } : Provider).known[part.id]? = some k from hk]
    exact if_pos hkey
  · rename_i hk
    refine ⟨_, _, ?_, (r.toDependency_spec ws.files).1, h.owner ▸ r.toDependency_named ws.files⟩
    rw [show ({ p with forced := forced } : Provider).known[part.id]? = none from hk]
    dsimp only
    rw [loadStored, show ({ p with forced := forced } : Provider).store.load ws.world
      (part.keyIn ws.files) = .ok (some r) from hfound]

/-- A part that is kept, and whose files are as they were, is not scanned again. -/
theorem Keeps.create (h : p.Keeps ws part r) (hk : part.Known ws.files)
    (hc : r.Current ws.world) (hne : r.statuses ≠ []) :
    ∃ d p' ws', Created p ws part r [] d p' ws' ∧ ws'.world = ws.world ∧ p'.store = p.store := by
  obtain ⟨d, files, hcached, hext, hnamed⟩ := h.cached (p.forced.filter (· ≠ part.id))
  have hfresh : Freshness.isUpToDate { ws with files := files } d.statuses = true :=
    Dependency.Named.isUpToDate hnamed hc hne
  have hcreate : p.create ws part = (.ok d, Provider.remember { p with
      forced := p.forced.filter (· ≠ part.id)
      lookups := p.lookups + Freshness.lookups { ws with files := files } d.statuses }
      part.id (part.keyIn ws.files) d, { ws with files := files }) := by
    rw [Provider.create, Part.recordKey_of_known hk]
    dsimp only
    rw [hcached]
    simp only [h.unforced, decide_false, Bool.false_eq_true, if_false, hfresh, if_true]
  exact ⟨d, _, _, ⟨hcreate, hnamed, rfl, rfl, rfl, fun _ _ _ => rfl, (List.append_nil _).symm⟩, rfl,
    rfl⟩

/-! ### Scans -/

variable [LawfulWorkshop W]

/-- What a scan leaves behind: the dependency is remembered, and its record is stored. -/
structure Scanned (p : Provider) (ws : Workspace W) (part : Part) (r : Record) (d : Dependency)
    (p' : Provider) (ws' : Workspace W) : Prop where
  named : d.Named ws'.files part.id r
  known : p'.known = p.known.insert part.id ⟨part.keyIn ws.files, d⟩
  forced : p'.forced = p.forced
  overlay : p'.overlay = p.overlay
  stored : r.Fits → p'.store.load ws'.world (part.keyIn ws.files) = .ok (some r)
  others : ∀ k, '/' ∉ k.toList → k ≠ part.keyIn ws.files →
    p'.store.load ws'.world k = p.store.load ws.world k
  requests : Workshop.requests ws'.world =
    Workshop.requests ws.world ++ [part.asked ws.files p.overlay]

/-- A scan that answers gives the dependency that the record describes, and changes no file. -/
theorem collect_named (ws : Workspace W) (overlay : Overlay) {part : Part}
    (hk : part.Known ws.files) {report : ScanReport}
    (ha : Workshop.answer ws.world (part.asked ws.files overlay) = .ok report) :
    ∃ d ws', Collection.collect ws overlay part = (.ok d, ws') ∧
      ws'.world = (World.scan ws.world (part.asked ws.files overlay)).2 ∧
      ws'.files.Extends ws.files ∧
      d.Named ws'.files part.id (part.recordOf ws.files report ws.world) := by
  obtain ⟨sources, own, hsources, hown, hcollect⟩ := Collection.collect_spec ws overlay hk
  have hasked : Collection.request part sources overlay = part.asked ws.files overlay := by
    rw [Part.asked, hsources.names]
  rw [hasked, ha] at hcollect
  obtain ⟨hworld, hext, _⟩ := Collection.digestReport_spec { ws with
    world := (World.scan ws.world (part.asked ws.files overlay)).2 } own report hk.2
  refine ⟨_, _, hcollect, hworld, hext, ?_⟩
  have hdigest := Collection.digestReport_named
    { ws with world := (World.scan ws.world (part.asked ws.files overlay)).2 } own report hsources
  -- a scan changes no file, so the record is that of the time before
  have hstamps : ∀ q : String, World.modified? (World.scan ws.world
      (part.asked ws.files overlay)).2 ⟨q⟩ = World.modified? ws.world ⟨q⟩ := fun q =>
    (LawfulWorkshop.scan_spares ws.world _).modified? fun _ hp => absurd hp List.not_mem_nil
  rw [Part.recordOf, hsources.names, show ws.files.names part.ownFiles = own from hown.names]
  simp only [Record.ofReport, hstamps] at hdigest ⊢
  exact hdigest

theorem recollect_scanned (p : Provider) {ws : Workspace W} (hk : part.Known ws.files)
    {report : ScanReport}
    (ha : Workshop.answer ws.world (part.asked ws.files p.overlay) = .ok report)
    (old : Option Dependency) :
    ∃ d p' ws', p.recollect ws part (part.keyIn ws.files) old = (d, p', ws') ∧
      Scanned p ws part (part.recordOf ws.files report ws.world) d p' ws' := by
  obtain ⟨d, ws₁, hcollect, hworld, _, hnamed⟩ := collect_named ws p.overlay hk ha
  have hload : ∀ k, p.store.load ws₁.world k = p.store.load ws.world k := fun k => by
    rw [hworld]
    exact RecordStore.load_congr fun d _ => (LawfulWorkshop.scan_spares ws.world _).look d
      fun _ hp => absurd hp List.not_mem_nil
  have hrequests := LawfulWorkshop.scan_requests ws.world (part.asked ws.files p.overlay)
  rw [← hworld] at hrequests
  rw [recollect, hcollect]
  dsimp only
  generalize part.recordOf ws.files report ws.world = r at *
  rw [saveRecord, Record.ofDependency_of_named hnamed]
  dsimp only
  obtain ⟨hres, _, _, hquiet⟩ := p.store.save_spec ws₁.world (part.keyIn ws.files) r
  have hstored := p.store.load_save ws₁.world (part.keyIn ws.files) (r := r)
  have hothers := fun k hk hne => p.store.load_save_of_ne ws₁.world (k := k) r hk
    (part.slash_not_mem_keyIn ws.files) hne
  generalize p.store.save ws₁.world (part.keyIn ws.files) r = put at *
  obtain ⟨result, store, w⟩ := put
  dsimp only at *
  subst hres
  exact ⟨d, _, _, rfl, hnamed, rfl, rfl, rfl, hstored, fun k hk hne =>
    (hothers k hk hne).trans (hload k), hquiet.1.trans hrequests⟩

omit [LawfulWorkshop W] in
theorem Scanned.created {q p' : Provider} {ws₁ ws' : Workspace W} {d : Dependency}
    (h : Scanned q ws₁ part r d p' ws') (hk : part.Known ws.files) (hext : ws₁.files.Extends ws.files)
    (hworld : ws₁.world = ws.world) (hq : q.known = p.known ∧ q.overlay = p.overlay ∧
      q.store = p.store ∧ q.forced = p.forced.filter (· ≠ part.id))
    (hcreate : p.create ws part = (.ok d, p', ws')) :
    Created p ws part r [part.asked ws.files p.overlay] d p' ws' ∧
      (r.Fits → p'.store.load ws'.world (part.keyIn ws.files) = .ok (some r)) := by
  obtain ⟨hknown, hoverlay, hstore, hforced⟩ := hq
  have hkey := Part.keyIn_extends hk hext
  have hothers := h.others
  have hrequests := h.requests
  rw [hkey, hstore, hworld] at hothers
  rw [Part.asked_extends hk hext, hoverlay, hworld] at hrequests
  exact ⟨⟨hcreate, h.named, by rw [h.known, hknown, hkey], h.forced.trans hforced,
    h.overlay.trans hoverlay, hothers, hrequests⟩, hkey ▸ h.stored⟩

/-- A part that nothing is known of is scanned. -/
theorem create_new (hk : part.Known ws.files) (hnone : p.known[part.id]? = none)
    (hload : p.store.load ws.world (part.keyIn ws.files) = .ok none) {report : ScanReport}
    (ha : Workshop.answer ws.world (part.asked ws.files p.overlay) = .ok report) :
    ∃ d p' ws', Created p ws part (part.recordOf ws.files report ws.world)
        [part.asked ws.files p.overlay] d p' ws' ∧
      ((part.recordOf ws.files report ws.world).Fits → p'.store.load ws'.world
        (part.keyIn ws.files) = .ok (some (part.recordOf ws.files report ws.world))) := by
  let q : Provider := { p with forced := p.forced.filter (· ≠ part.id) }
  obtain ⟨d, p', ws', hrecollect, hscanned⟩ := recollect_scanned q hk ha none
  have hcached : q.cached ws part.id (part.keyIn ws.files) = (none, q, ws) := by
    rw [cached, show q.known[part.id]? = none from hnone]
    dsimp only
    rw [loadStored, show q.store.load ws.world (part.keyIn ws.files) = .ok none from hload]
  refine ⟨d, p', ws', hscanned.created (p := p) hk (FileTable.Extends.refl _) rfl
    ⟨rfl, rfl, rfl, rfl⟩ ?_⟩
  rw [Provider.create, Part.recordKey_of_known hk]
  dsimp only
  rw [hcached]
  dsimp only
  rw [hrecollect]

/-- A part that is kept, but reads no file, is scanned again. -/
theorem Keeps.create_bare (h : p.Keeps ws part r) (hk : part.Known ws.files)
    (hbare : r.statuses = []) {report : ScanReport}
    (ha : Workshop.answer ws.world (part.asked ws.files p.overlay) = .ok report)
    (hr : part.recordOf ws.files report ws.world = r) :
    ∃ d p' ws', Created p ws part r [part.asked ws.files p.overlay] d p' ws' := by
  obtain ⟨d₀, files, hcached, hext, hnamed⟩ := h.cached (p.forced.filter (· ≠ part.id))
  have hstale : Freshness.isUpToDate { ws with files := files } d₀.statuses = false := by
    have hempty : d₀.statuses = [] := List.forall₂_nil_right_iff.mp (hbare ▸ hnamed.statuses)
    rw [hempty]
    rfl
  let q : Provider := { p with
    forced := p.forced.filter (· ≠ part.id)
    lookups := p.lookups + Freshness.lookups { ws with files := files } d₀.statuses }
  have hasked : Workshop.answer ws.world (part.asked files q.overlay) = .ok report := by
    rw [Part.asked_extends hk hext]
    exact ha
  obtain ⟨d, p', ws', hrecollect, hscanned⟩ :=
    @recollect_scanned _ _ _ _ q { ws with files := files } (hk.extends hext) report hasked (some d₀)
  rw [Part.recordOf_extends hk hext, hr] at hscanned
  refine ⟨d, p', ws', (hscanned.created (p := p) hk hext rfl ⟨rfl, rfl, rfl, rfl⟩ ?_).1⟩
  rw [Provider.create, Part.recordKey_of_known hk]
  dsimp only
  rw [hcached]
  simp only [h.unforced, decide_false, Bool.false_eq_true, if_false, hstale]
  rw [← Part.keyIn_extends hk hext]
  exact congrArg (fun out : Dependency × Provider × Workspace W => (Except.ok out.1, out.2.1, out.2.2))
    hrecollect

/-- A part that a provider with its records in memory knows nothing of is collected. -/
theorem create_collected {W : Type} [World W] {p : Provider} {ws ws₁ : Workspace W} {part : Part}
    {d : Dependency} {records : TextMap Record} (hk : part.Known ws.files)
    (hstore : p.store = .memory records) (hknown : p.known[part.id]? = none)
    (hrecord : records[part.keyIn ws.files]? = none)
    (hcollect : Collection.collect ws p.overlay part = (.ok d, ws₁)) :
    ∃ p', p.create ws part = (.ok d, p', ws₁) ∧ p'.overlay = p.overlay ∧
      p'.known = p.known.insert part.id ⟨part.keyIn ws.files, d⟩ ∧
      ∃ records', p'.store = .memory records' ∧
        ∀ k, k ≠ part.keyIn ws.files → records'[k]? = records[k]? := by
  rw [Provider.create, Part.recordKey_of_known hk]
  simp only [cached, hknown, loadStored, hstore, RecordStore.load, hrecord, recollect, hcollect,
    saveRecord]
  cases Record.ofDependency part.id d ws₁.files with
  | error f => exact ⟨_, rfl, rfl, rfl, records, rfl, fun k _ => rfl⟩
  | ok r =>
    refine ⟨_, rfl, rfl, rfl, records.insert (part.keyIn ws.files) r, rfl, fun k hk => ?_⟩
    rw [Std.TreeMap.getElem?_insert, if_neg fun he => hk (Std.LawfulEqCmp.eq_of_compare he).symm]

end Provider
end PrecompiledHeaders
