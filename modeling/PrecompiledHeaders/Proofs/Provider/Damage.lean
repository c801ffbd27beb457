import PrecompiledHeaders.Proofs.Provider.Tracking
/-! Damaged records. A record that is no text, no JSON, or the JSON of something else counts as none:
its part is scanned as if there had never been a record, and what the scan says takes its place. Shown
for two worlds that differ in nothing but that one file. -/
namespace PrecompiledHeaders

section

variable {W : Type} [Workshop W]

/-- The worlds differ in nothing but the file at `path`, and the tools were asked the same. -/
structure AllBut (path : FilePath) (v w : W) : Prop where
  spares : Spares [path] v w
  quiet : Quiet v w

variable [LawfulWorkshop W] {path : FilePath} {v w : W}

theorem AllBut.scan (h : AllBut path v w) (r : ScanRequest) :
    (World.scan w r).1 = (World.scan v r).1 ∧ AllBut path (World.scan v r).2 (World.scan w r).2 := by
  refine ⟨?_, ?_, ?_, ?_⟩
  · rw [LawfulWorkshop.scan_result, LawfulWorkshop.scan_result, h.spares.answer]
  · exact (((LawfulWorkshop.scan_spares v r).symm.trans h.spares).trans
      (LawfulWorkshop.scan_spares w r)).mono (by simp)
  · rw [LawfulWorkshop.scan_requests, LawfulWorkshop.scan_requests, h.quiet.1]
  · rw [LawfulWorkshop.scan_jobs, LawfulWorkshop.scan_jobs, h.quiet.2]

theorem AllBut.write (h : AllBut path v w) (text : String) :
    AllBut path (World.writeText v path text).2 (World.writeText w path text).2 := by
  refine ⟨(((LawfulWorkshop.write_spares v path text).symm.trans h.spares).trans
    (LawfulWorkshop.write_spares w path text)).mono (by simp), ?_, ?_⟩
  · rw [(LawfulWorkshop.write_quiet w path text).1, (LawfulWorkshop.write_quiet v path text).1,
      h.quiet.1]
  · rw [(LawfulWorkshop.write_quiet w path text).2, (LawfulWorkshop.write_quiet v path text).2,
      h.quiet.2]

end

theorem RecordStore.load_of_damaged {W : Type} [World W] {root : FilePath} {key : String} {w : W}
    (h : ∀ text, World.readText w (pathFor root key) = .ok text →
      (Json.read text).bind Record.ofJson? = none) (r : Record) :
    (RecordStore.files root).load w key ≠ .ok (some r) := by
  intro hr
  rw [load, Document.load] at hr
  split at hr
  · cases htext : World.readText w (pathFor root key) with
    | error f =>
      rw [htext] at hr
      cases hr
    | ok text =>
      simp only [htext, h text htext] at hr
      cases hr
  · cases hr

namespace Provider

variable {W : Type} [Workshop W] {p q : Provider} {ws : Workspace W} {part : Part} {files : FileTable}
  {root : FilePath} {key : String} {v w : W}

/-- The same but for what was logged, and for the file at `path`. -/
structure AsGood (path : FilePath) (out out' : α × Provider × Workspace W) : Prop where
  result : out'.1 = out.1
  provider : out'.2.1 = { out.2.1 with troubles := out'.2.1.troubles }
  files : out'.2.2.files = out.2.2.files
  world : AllBut path out.2.2.world out'.2.2.world

/-- Without a dependency in memory or on file the part is collected, with nothing to fall back on. -/
theorem create_of_unread (hk : part.Known files)
    (hbare : ∀ k, p.known[part.id]? = some k → k.key ≠ part.keyIn files)
    (hload : ∀ r, p.store.load v (part.keyIn files) ≠ .ok (some r)) :
    ∃ troubles, p.create ⟨v, files⟩ part =
      let out := Provider.recollect { p with
        forced := p.forced.filter (· ≠ part.id), troubles := troubles } ⟨v, files⟩ part
          (part.keyIn files) none
      (.ok out.1, out.2) := by
  let unmarked : Provider := { p with forced := p.forced.filter (· ≠ part.id) }
  have hloaded : ∃ troubles, unmarked.loadStored ⟨v, files⟩ part.id (part.keyIn files) =
      (none, { unmarked with troubles := troubles }, ⟨v, files⟩) := by
    rw [loadStored]
    cases hl : unmarked.store.load v (part.keyIn files) with
    | error f => exact ⟨_, rfl⟩
    | ok found =>
      cases found with
      | none => exact ⟨p.troubles, rfl⟩
      | some r => exact absurd hl (hload r)
  have hcached : unmarked.cached ⟨v, files⟩ part.id (part.keyIn files) =
      unmarked.loadStored ⟨v, files⟩ part.id (part.keyIn files) := by
    rw [cached]
    cases hknown : unmarked.known[part.id]? with
    | none => rfl
    | some k => exact if_neg (hbare k hknown)
  obtain ⟨troubles, hloaded⟩ := hloaded
  have hkey : part.recordKey files = .ok (part.keyIn files) := Part.recordKey_of_known hk
  refine ⟨troubles, ?_⟩
  rw [Provider.create, hkey]
  dsimp only
  rw [show Provider.cached { p with forced := p.forced.filter (· ≠ part.id) } ⟨v, files⟩ part.id
    (part.keyIn files) = _ from hcached.trans hloaded]

variable [LawfulWorkshop W]

/-- A scan that answers leaves its dependency in memory, and the record in its file. -/
theorem recollect_of_scan (hstore : p.store = .files root) (hk : part.Known files)
    {report : ScanReport} (hscan : World.scan v (part.asked files p.overlay) = (.ok report, w))
    (key : String) (old : Option Dependency) :
    let made := Collection.digestReport ⟨w, files⟩ part (files.names part.ownFiles) report
    ∃ r, Record.ofDependency part.id made.1 made.2.files = .ok r ∧
      p.recollect ⟨v, files⟩ part key old = (made.1,
        { p with
          known := p.known.insert part.id ⟨key, made.1⟩
          lookups := p.lookups + made.1.statuses.length },
        ⟨(World.writeText w (RecordStore.pathFor root key) r.toJson.pretty).2, made.2.files⟩) := by
  intro made
  have hrecord := Record.ofDependency_of_named
    (Collection.digestReport_named ⟨w, files⟩ (files.names part.ownFiles) report hk.2.resolves)
  have hcollect : Collection.collect ⟨v, files⟩ p.overlay part = (.ok made.1, made.2) :=
    Collection.collect_of_scan hk hscan
  refine ⟨_, hrecord, ?_⟩
  rw [recollect, hcollect]
  dsimp only
  rw [saveRecord, hrecord]
  obtain ⟨store, overlay, known, forced, lookups, troubles⟩ := p
  obtain rfl := hstore
  dsimp only
  rw [RecordStore.save, Document.save_result]
  rfl

/-- Two collections with nothing to fall back on, in worlds that differ in the part's record alone. -/
theorem recollect_allBut (hstore : p.store = .files root) (hk : part.Known files)
    (hq : q = { p with troubles := q.troubles }) (h : AllBut (RecordStore.pathFor root key) v w)
    (hread : ∀ f ∈ (p.recollect ⟨v, files⟩ part key none).1.referencedFiles, ∀ path,
      (p.recollect ⟨v, files⟩ part key none).2.2.files.path? f = some path →
        ¬ (RecordStore.pathFor root key).same ⟨path⟩) :
    AsGood (RecordStore.pathFor root key) (p.recollect ⟨v, files⟩ part key none)
      (q.recollect ⟨w, files⟩ part key none) ∧
    ∀ d, (Collection.collect ⟨v, files⟩ p.overlay part).1 = .ok d →
      (p.recollect ⟨v, files⟩ part key none).1 = d ∧
      ∃ r, Record.ofDependency part.id d (p.recollect ⟨v, files⟩ part key none).2.2.files = .ok r ∧
        World.readText (p.recollect ⟨v, files⟩ part key none).2.2.world
          (RecordStore.pathFor root key) = .ok r.toJson.pretty ∧
        World.readText (q.recollect ⟨w, files⟩ part key none).2.2.world
          (RecordStore.pathFor root key) = .ok r.toJson.pretty := by
  have hoverlay : q.overlay = p.overlay := by rw [hq]
  have hstore' : q.store = .files root := by rw [hq]; exact hstore
  obtain ⟨hsame, hscanned⟩ := h.scan (part.asked files p.overlay)
  cases hv : World.scan v (part.asked files p.overlay) with
  | mk answer v₁ =>
  cases hw : World.scan w (part.asked files p.overlay) with
  | mk answer' w₁ =>
  rw [hv, hw] at hsame hscanned
  obtain rfl : answer' = answer := hsame
  cases answer' with
  | error fault =>
    have hcollect : ∀ {u u₁ : W}, World.scan u (part.asked files p.overlay) = (.error fault, u₁) →
        Collection.collect ⟨u, files⟩ p.overlay part = (.error fault, ⟨u₁, files⟩) :=
      fun hscan => Collection.collect_of_failed_scan hk hscan
    refine ⟨?_, fun d hd => ?_⟩
    · rw [recollect, recollect, hoverlay, hcollect hv, hcollect hw, hq]
      exact ⟨rfl, rfl, rfl, hscanned⟩
    · rw [hcollect hv] at hd
      cases hd
  | ok report =>
    obtain ⟨r, hr, hout⟩ := recollect_of_scan hstore hk hv key none
    obtain ⟨r', hr', hout'⟩ := recollect_of_scan hstore' hk (hoverlay ▸ hw) key none
    have hcollect : Collection.collect ⟨v, files⟩ p.overlay part = _ :=
      Collection.collect_of_scan hk hv
    dsimp only at hr hout hcollect
    rw [hout] at hread ⊢
    have hmade : Collection.digestReport ⟨w₁, files⟩ part (files.names part.ownFiles) report =
        ((Collection.digestReport ⟨v₁, files⟩ part (files.names part.ownFiles) report).1, ⟨w₁,
          (Collection.digestReport ⟨v₁, files⟩ part (files.names part.ownFiles) report).2.files⟩) :=
      Collection.digestReport_congr rfl rfl fun f hf path hpath =>
        hscanned.spares.modified? fun x hx => List.mem_singleton.mp hx ▸ hread f hf path hpath
    rw [hmade] at hr' hout'
    generalize Collection.digestReport ⟨v₁, files⟩ part (files.names part.ownFiles) report = made
      at hr hr' hout hout' hcollect ⊢
    obtain rfl := Except.ok.inj (hr'.symm.trans hr)
    rw [hout']
    refine ⟨⟨rfl, ?_, rfl, hscanned.write _⟩, fun d hd => ?_⟩
    · dsimp only
      rw [hq]
    · rw [hcollect] at hd
      obtain rfl := Except.ok.inj hd
      exact ⟨rfl, r', hr, LawfulWorkshop.write_readText _ _ _, LawfulWorkshop.write_readText _ _ _⟩

/-- A part that nothing is remembered of under the key of its record is created from a record that
cannot be read, or that is not the JSON of a record, as from none: with the same dependency, the same
numbers for files, and the same questions to the scanner; and what is remembered, which parts are
marked and which files there are is the same afterwards. If the part could be collected its record is
the same, too, and is that of the dependency. -/
theorem damaged_record (p : Provider) (part : Part) (files : FileTable) (root : FilePath)
    (hstore : p.store = .files root)
    (hbare : ∀ k, p.known[part.id]? = some k → k.key ≠ part.keyIn files) (v w : W) :
    let path := RecordStore.pathFor root (part.keyIn files)
    let out := p.create ⟨v, files⟩ part
    let out' := p.create ⟨w, files⟩ part
    World.hasFile v path = false →
    (∀ text, World.readText w path = .ok text → (Json.read text).bind Record.ofJson? = none) →
    AllBut path v w →
    (∀ d, out.1 = .ok d → ∀ f ∈ d.referencedFiles, ∀ x, out.2.2.files.path? f = some x →
      ¬ path.same ⟨x⟩) →
    AsGood path out out' ∧
    ∀ d, (Collection.collect ⟨v, files⟩ p.overlay part).1 = .ok d →
      out.1 = .ok d ∧ ∃ r, Record.ofDependency part.id d out.2.2.files = .ok r ∧
        World.readText out.2.2.world path = .ok r.toJson.pretty ∧
        World.readText out'.2.2.world path = .ok r.toJson.pretty := by
  intro path out out' hnone hdamaged h hread
  by_cases hk : part.Known files
  · have hloadv : ∀ r, p.store.load v (part.keyIn files) ≠ .ok (some r) := by
      intro r hr
      rw [hstore, RecordStore.load, Document.load, if_neg (by simpa [path] using hnone)] at hr
      cases hr
    have hloadw : ∀ r, p.store.load w (part.keyIn files) ≠ .ok (some r) := fun r =>
      hstore ▸ RecordStore.load_of_damaged hdamaged r
    obtain ⟨troubles, hcreate⟩ := create_of_unread hk hbare hloadv
    obtain ⟨troubles', hcreate'⟩ := create_of_unread hk hbare hloadw
    simp only [out, out', hcreate, hcreate'] at hread ⊢
    obtain ⟨hgood, hcontent⟩ := @recollect_allBut _ _
      { p with forced := p.forced.filter (· ≠ part.id), troubles := troubles }
      { p with forced := p.forced.filter (· ≠ part.id), troubles := troubles' }
      _ _ _ _ _ _ _ hstore hk rfl h (hread _ rfl)
    refine ⟨⟨congrArg Except.ok hgood.result, hgood.provider, hgood.files, hgood.world⟩, ?_⟩
    intro d hd
    exact (hcontent d hd).imp_left (congrArg Except.ok)
  · obtain ⟨f, hkey⟩ := Part.recordKey_unknown hk
    have herror : ∀ u : W, p.create ⟨u, files⟩ part = (.error f, p, ⟨u, files⟩) := by
      intro u
      rw [Provider.create, hkey]
    refine ⟨?_, fun d hd => absurd (Collection.known_of_collect hd) hk⟩
    simp only [out, out', herror]
    exact ⟨rfl, rfl, rfl, h⟩

end Provider

/-! A file with other text where the record would be. -/

def headerRecord : FilePath := RecordStore.pathFor ⟨"/d"⟩ (headerPart.keyIn headerSpace.files)

def garbled : WritingBench where
  bench := { headerSpace.world.bench with
    files := headerSpace.world.bench.files.write headerRecord (.ok "no record") }
  writes := headerSpace.world.writes

theorem allBut_garbled : AllBut headerRecord headerSpace.world garbled := by
  refine ⟨⟨fun q hq => WritingBench.look_eq ?_, rfl, rfl⟩, rfl, rfl⟩
  exact MemoryFiles.find?_write_of_not_same _ _ (hq _ List.mem_cons_self)

/-- The part is scanned, and the record takes the place of the other text. -/
theorem damaged_record_garbled :
    let p := Provider.start (.files ⟨"/d"⟩)
    World.readText garbled headerRecord = .ok "no record" ∧
    (p.create ⟨garbled, headerSpace.files⟩ headerPart).1 = (p.create headerSpace headerPart).1 ∧
    Workshop.requests (p.create ⟨garbled, headerSpace.files⟩ headerPart).2.2.world =
      [headerPart.asked headerSpace.files []] ∧
    ∃ text, World.readText (p.create ⟨garbled, headerSpace.files⟩ headerPart).2.2.world
      headerRecord = .ok text ∧ text ≠ "no record" := by
  intro p
  have htext : World.readText garbled headerRecord = .ok "no record" :=
    LawfulWorkshop.write_readText headerSpace.world headerRecord "no record"
  have hanswer : Workshop.answer headerSpace.world
      (headerPart.asked headerSpace.files p.overlay) = .ok headerReport := rfl
  have hnone : World.hasFile headerSpace.world headerRecord = false := rfl
  have hload : (p.retrieve headerSpace headerPart).1 = none := rfl
  obtain ⟨d, q, ws, hcreate, hgathered⟩ :=
    Provider.gather headerPart_known (Provider.sane_start _ _) hload hanswer
  have hends : headerRecord.Ends (headerPart.keyIn headerSpace.files ++ ".json") :=
    ends_pathFor _ (headerPart.slash_not_mem_keyIn _)
  have hsource : (FilePath.mk "/a.cpp").components.getLast? = some (.name "a.cpp") := by decide
  have hlong : ∀ key : String, key.toList.length = 64 → key ++ ".json" ≠ "a.cpp" := by
    intro key hkey hname
    have hlength := congrArg (fun s : String => s.toList.length) hname
    simp only [String.toList_append, List.length_append, hkey] at hlength
    revert hlength
    decide
  have hread : ∀ e, (p.create headerSpace headerPart).1 = .ok e → ∀ f ∈ e.referencedFiles, ∀ x,
      (p.create headerSpace headerPart).2.2.files.path? f = some x → ¬ headerRecord.same ⟨x⟩ := by
    intro e he f hf x hx
    rw [hcreate] at he hx
    obtain rfl := Except.ok.inj he
    obtain rfl := headerPart_tracks.mp (hgathered.named.tracks.mpr ⟨f, hf, hx⟩)
    exact FilePath.not_same_of_ends hends hsource (hlong _ (headerPart.length_keyIn _))
  obtain ⟨hgood, hcontent⟩ := Provider.damaged_record p headerPart headerSpace.files ⟨"/d"⟩ rfl
    (fun k hk => by cases hk) headerSpace.world garbled hnone
    (fun text ht => by obtain rfl := Except.ok.inj (ht.symm.trans htext); decide)
    allBut_garbled hread
  obtain ⟨e, _, hcollect, _⟩ := Provider.collect_named headerSpace p.overlay headerPart_known hanswer
  obtain ⟨-, r, -, -, hwritten⟩ := hcontent e (congrArg Prod.fst hcollect)
  refine ⟨htext, hgood.result, ?_, _, hwritten, fun hsame => ?_⟩
  · rw [hgood.world.quiet.1, hcreate]
    exact hgathered.requests
  · have hjson := Json.read_pretty r.plain_toJson
    rw [hsame, show Json.read "no record" = none by decide] at hjson
    cases hjson

end PrecompiledHeaders
