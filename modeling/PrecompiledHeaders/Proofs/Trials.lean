import PrecompiledHeaders.Proofs.DigestValues
import PrecompiledHeaders.Proofs.Pipeline.Rounds
import PrecompiledHeaders.Proofs.Pipeline.Twins
import PrecompiledHeaders.Proofs.Remembering
/-! Trials. A pipeline on a bench is taken through its steps, so that what holds of every pipeline can
be tried on it. Parts have no files of their own, and include one or two headers each. -/
namespace PrecompiledHeaders

open Merger (headerTask)
open Pipeline (NotesPlans fullRound bareRound)

/-- A bench with these files, last changed in this order. -/
def trialBench (paths : List String) (reports : List (PartId × ScanReport))
    (failing : List FilePath) : WritingBench where
  bench := { Bench.empty with
    files := paths.foldl (fun m p => m.write ⟨p⟩ (.ok "")) .empty
    reports := reports
    failingIncludes := failing }
  writes := rfl

theorem refuses_nothing {b : WritingBench} (h : b.bench.failingIncludes = []) (j : Job) :
    Workshop.refusal b j = none := by
  have hfails : b.bench.fails j = false := List.any_eq_false.mpr fun _ _ => by simp [h]
  exact if_neg (by simp [hfails])

/-- A pipeline with one worker for each scope that keeps everything in memory. -/
def trial (b : WritingBench) : Pipeline WritingBench :=
  .start ⟨b, .empty⟩ ⟨"/p"⟩ (.memory {}) (.memory .empty) [.system, .project] false false

/-- A part without files of its own. -/
def plainPart (id : PartId) : Part := ⟨id, .default, [], []⟩

/-- One header that the source files of a part include, and nothing else. -/
def includeOnly (path : String) : ScanReport := ⟨[⟨⟨path⟩, .topSystemInclude, 1⟩], []⟩

/-- A system header and a project header that the source files of a part include. -/
def includeBoth (system project : String) : ScanReport :=
  ⟨[⟨⟨system⟩, .topSystemInclude, 1⟩, ⟨⟨project⟩, .topProjectInclude, 2⟩], []⟩

/-- A task without anything to build. -/
def bareTask (members : List PartId) : Task := ⟨members, [], [], [], .default⟩

theorem plainPart_known (id : PartId) (files : FileTable) : (plainPart id).Known files :=
  ⟨fun _ hf => absurd hf List.not_mem_nil, fun _ hf => absurd hf List.not_mem_nil⟩

def filesA : FileTable := ⟨["/a.h"], by decide⟩

/-- Where what is built for `/a.h` goes. -/
def borrowed : String := "/p/system-f00e6eab96427c74-a4107ff4b5b5a01a.pch"

/-! ### Texts and their digests -/

/-- What it takes an evaluation to see: the digests of the texts that the trials come to. -/
structure Evaluated : Prop where
  keyA : digest (Text.Utf8.encode (Task.keyText .system (headerTask ["a"] 0).mergeKey)) =
    "f00e6eab96427c74d91c2cac12bd76a455cbc5e31a7975a2db6eec856bd8f3ca"
  keyB : digest (Text.Utf8.encode (Task.keyText .system (headerTask ["b"] 1).mergeKey)) =
    "761ffb2ece2ae78e5de64d868089023b966a4f978f816d5c7b778a7b176be15a"
  keyC : digest (Text.Utf8.encode (Task.keyText .system (headerTask ["b"] 2).mergeKey)) =
    "ed3ea260ee5e7846fd45b8e6d52430407daa95c689f5120f4c5f434886cd5643"
  keyShared : digest (Text.Utf8.encode (Task.keyText .project (headerTask ["a", "b"] 1).mergeKey)) =
    "1f75f7a169acb404ba462ea5e10adffbb3ae902082181d4d6fba4f8435f3ddec"
  bareKey : digest (Text.Utf8.encode (Task.keyText .project (bareTask []).mergeKey)) =
    "996a42631fb256b59ff96a866041d67e1c094cc823f98a8764c00c9099c07f21"
  contentA : digestText (Task.contentJson .system ["/a.h"] .default).compact =
    "ce179cb3c392cebd8d0462c1cbf56273e4e5a644557aedda180be6f4bcdc1336"
  contentC : digestText (Task.contentJson .system ["/c.h"] .default).compact =
    "df75c605bd3480bda30426b5da6e4e02706644d2b0b84e0f0627fc0d510b7d66"
  contentShared : digestText (Task.contentJson .project ["/b.h"] .default).compact =
    "1196991c7363ae20d536afed56a51fe2c39c7c9d2bc114e822733d63ea7cdeb1"
  printA : digest (Text.Utf8.encode
      "ce179cb3c392cebd8d0462c1cbf56273e4e5a644557aedda180be6f4bcdc1336" ++
      (Text.Utf8.encode "/a.h" ++ Build.stampBytes 1) ++ Text.Utf8.encode "no-base") =
    "a4107ff4b5b5a01ac6bd9d030a0df8f200f072cd1b93311f742bf0cd6f42a48e"
  printC : digest (Text.Utf8.encode
      "df75c605bd3480bda30426b5da6e4e02706644d2b0b84e0f0627fc0d510b7d66" ++
      (Text.Utf8.encode "/c.h" ++ Build.stampBytes 3) ++ Text.Utf8.encode "no-base") =
    "31fdeaa5013c3146a80d96f28dd2e53ba9264a97781b5ead7f9ab47b691ae188"
  printShared : digest (Text.Utf8.encode
      "1196991c7363ae20d536afed56a51fe2c39c7c9d2bc114e822733d63ea7cdeb1" ++
      (Text.Utf8.encode "/b.h" ++ Build.stampBytes 2) ++
      (Text.Utf8.encode "base" ++ (Text.Utf8.encode borrowed ++ Build.stampBytes 4))) =
    "e6fb627d968df78b113ffe36180c1ba91f06cc99f534dc172cca23e0036230de"
  contentBorrowed : digestText (Task.contentJson .system [borrowed] .default).compact =
    "28cce9506ae162a1b2e19200c99efb1aefc87ed02138b77b6abbd50d165e30c9"
  printBuilt : digest (Text.Utf8.encode
      "28cce9506ae162a1b2e19200c99efb1aefc87ed02138b77b6abbd50d165e30c9" ++
      (Text.Utf8.encode borrowed ++ Build.stampBytes 2) ++ Text.Utf8.encode "no-base") =
    "56ab443737b940dbd96a81baac5ae502e707d6f3c179756f1127fe37b05520f5"
  printMissing : digest (Text.Utf8.encode
      "28cce9506ae162a1b2e19200c99efb1aefc87ed02138b77b6abbd50d165e30c9" ++
      (Text.Utf8.encode borrowed ++ Text.Utf8.encode "missing") ++ Text.Utf8.encode "no-base") =
    "d69c6bb8e07da8cb5cfd011a906f8df1a4271aec660506e64a278994febc50d3"
  parts : ["a", "b", "c"].map (fun id => digest (Text.Utf8.encode ((plainPart id).keyText .empty))) =
    ["31ac09c81760bec91d838e95304ad0f3b24644afecafa311815254acb5549bfc",
      "f2e96ee9ba355438b12585cc5628564c4be4fb5dbe2bb8f4b57949015ffa2391",
      "029501c4f9a55e54ee9eec4d99962017df599244e2429b98847c80a31743d5d0"]

theorem evaluated : Evaluated where
  keyA := by
    rw [Task.keyText, encode_append_compact, digest_eq_digestNat]
    decide +kernel
  keyB := by
    rw [Task.keyText, encode_append_compact, digest_eq_digestNat]
    decide +kernel
  keyC := by
    rw [Task.keyText, encode_append_compact, digest_eq_digestNat]
    decide +kernel
  keyShared := by
    rw [Task.keyText, encode_append_compact, digest_eq_digestNat]
    decide +kernel
  bareKey := by
    rw [Task.keyText, encode_append_compact, digest_eq_digestNat]
    decide +kernel
  contentA := by
    rw [digestText, encode_compact, digest_eq_digestNat]
    decide +kernel
  contentC := by
    rw [digestText, encode_compact, digest_eq_digestNat]
    decide +kernel
  contentShared := by
    rw [digestText, encode_compact, digest_eq_digestNat]
    decide +kernel
  printA := by
    rw [digest_eq_digestNat]
    decide +kernel
  printC := by
    rw [digest_eq_digestNat]
    decide +kernel
  printShared := by
    rw [digest_eq_digestNat]
    decide +kernel
  contentBorrowed := by
    rw [digestText, encode_compact, digest_eq_digestNat]
    decide +kernel
  printBuilt := by
    rw [digest_eq_digestNat]
    decide +kernel
  printMissing := by
    rw [digest_eq_digestNat]
    decide +kernel
  parts := by
    simp only [Part.keyText, encode_compact, digest_eq_digestNat]
    decide +kernel

theorem bareKey_eq (members : List PartId) :
    digest (Text.Utf8.encode (Task.keyText .project (bareTask members).mergeKey)) =
      "996a42631fb256b59ff96a866041d67e1c094cc823f98a8764c00c9099c07f21" := by
  have hbare : (bareTask members).mergeKey = (bareTask []).mergeKey := rfl
  rw [hbare, evaluated.bareKey]

theorem print_header {W : Type} [World W] {files : FileTable} {w : W} {n : Nat} {path : String}
    (hpath : files.path? ⟨n⟩ = some path) (s : Scope) (members : List PartId) (base : Option FilePath) :
    Build.print files w s (headerTask members n) base =
      digest (Text.Utf8.encode (digestText (Task.contentJson s [path] .default).compact) ++
        Build.fileBytes w ⟨path⟩ ++ Build.baseBytes w base) := by
  have hnames : files.names [⟨n⟩] = [path] := by simp [FileTable.names, hpath]
  rw [Build.print, Build.input, Task.contentText, headerTask, hnames, Build.fingerprintBytes,
    List.flatMap_cons, List.flatMap_nil, List.append_nil]

/-- What is digested for a task with one header are its content and all that tells whether it was built
before. -/
theorem digested_header {W : Type} [World W] {files : FileTable} {w : W} {n : Nat} {path : String}
    (hpath : files.path? ⟨n⟩ = some path) (s : Scope) (members : List PartId) (base : Option FilePath) :
    (Build.digested files w s (headerTask members n) base).map digest =
      [digestText (Task.contentJson s [path] .default).compact,
        Build.print files w s (headerTask members n) base] := by
  have hcontent : (headerTask members n).contentText s files =
      (Task.contentJson s [path] .default).compact := by
    rw [Task.contentText, headerTask, FileTable.names, List.filterMap_cons, hpath]
    rfl
  rw [Build.digested, List.map_cons, List.map_cons, List.map_nil, hcontent, ← digestText,
    ← Build.print]

theorem headerTask_known {members : List PartId} {n : Nat} {files : FileTable} {path : String}
    (hpath : files.path? ⟨n⟩ = some path) : (headerTask members n).Known files := by
  intro f hf
  obtain rfl : f = ⟨n⟩ := by simpa [headerTask] using hf
  exact ⟨path, hpath⟩

theorem print_a {W : Type} [World W] {files : FileTable} {w : W}
    (hpath : files.path? ⟨0⟩ = some "/a.h") (hstamp : World.modified? w ⟨"/a.h"⟩ = some 1) :
    Build.print files w .system (headerTask ["a"] 0) none =
      "a4107ff4b5b5a01ac6bd9d030a0df8f200f072cd1b93311f742bf0cd6f42a48e" := by
  rw [print_header hpath, evaluated.contentA, Build.fileBytes, hstamp]
  exact evaluated.printA

/-- Parts without files have keys of their own, whatever files there are. -/
theorem keyIn_ne {i j : PartId} (hi : i ∈ ["a", "b", "c"]) (hj : j ∈ ["a", "b", "c"]) (hne : i ≠ j)
    (files files' : FileTable) : (plainPart i).keyIn files ≠ (plainPart j).keyIn files' := by
  have hnodup : (["a", "b", "c"].map fun id =>
      digest (Text.Utf8.encode ((plainPart id).keyText .empty))).Nodup := by
    rw [evaluated.parts]
    decide
  exact fun hkey => hne (List.inj_on_of_nodup_map hnodup hi hj hkey)

/-! ### Collecting -/

/-- The bench after the scan of a part. -/
def scanned (b : WritingBench) (id : PartId) : WritingBench :=
  (World.scan b (Collection.request (plainPart id) [] [])).2

section

variable {ws : Workspace WritingBench} {id : PartId} {files : FileTable} {n : Nat}

theorem scan_plain {report : ScanReport} (hreport : ws.world.bench.reports.lookup id = some report)
    (hok : id ∉ ws.world.bench.failingParts) :
    World.scan ws.world (Collection.request (plainPart id) [] []) =
      (.ok report, scanned ws.world id) := by
  refine Prod.ext ?_ rfl
  show (ws.world.bench.scan _).1 = _
  simp [Bench.scan, Collection.request, plainPart, hok, hreport]

theorem collect_plain {path : String}
    (hreport : ws.world.bench.reports.lookup id = some (includeOnly path))
    (hok : id ∉ ws.world.bench.failingParts) (hintern : ws.files.intern path = (⟨n⟩, files)) :
    ∃ stamp, Collection.collect ws [] (plainPart id) =
      (.ok ⟨[⟨⟨n⟩, .topSystemInclude, 1⟩], [], [], [⟨⟨n⟩, stamp⟩]⟩,
        ⟨scanned ws.world id, files⟩) := by
  refine ⟨(files.path? ⟨n⟩).bind fun p => World.modified? (scanned ws.world id) ⟨p⟩, ?_⟩
  simp only [Collection.collect, plainPart, FileTable.resolveAll, Part.ownFiles, List.append_nil]
  rw [← plainPart, scan_plain hreport hok]
  simp [Collection.digestReport, includeOnly, Collection.inOrder, Collection.entries, hintern,
    Collection.statuses, keepFirst, Dependency.referencedFiles, UsedMacro.normalize, plainPart]

theorem inOrder_both (system project : String) :
    Collection.inOrder (includeBoth system project).includes = (includeBoth system project).includes :=
  List.mergeSort_of_pairwise (by simp [includeBoth])

theorem collect_both {system project : String} {m : Nat} {files' : FileTable}
    (hreport : ws.world.bench.reports.lookup id = some (includeBoth system project))
    (hok : id ∉ ws.world.bench.failingParts) (hintern : ws.files.intern system = (⟨n⟩, files))
    (hintern' : files.intern project = (⟨m⟩, files')) (hne : m ≠ n) :
    ∃ statuses, Collection.collect ws [] (plainPart id) =
      (.ok ⟨[⟨⟨n⟩, .topSystemInclude, 1⟩, ⟨⟨m⟩, .topProjectInclude, 2⟩], [], [], statuses⟩,
        ⟨scanned ws.world id, files'⟩) := by
  simp only [Collection.collect, plainPart, FileTable.resolveAll, Part.ownFiles, List.append_nil]
  rw [← plainPart, scan_plain hreport hok]
  simp only [Collection.digestReport, inOrder_both]
  simp [includeBoth, Collection.entries, hintern, hintern', hne, UsedMacro.normalize, keepFirst,
    plainPart]

end

/-- The provider has nothing of the part. -/
structure Provider.Unaware (p : Provider) (id : PartId) : Prop where
  overlay : p.overlay = []
  known : p.known[id]? = none
  stored : ∃ records, p.store = .memory records ∧ records[(plainPart id).keyIn .empty]? = none

theorem Provider.unaware_start (id : PartId) : (Provider.start (.memory {})).Unaware id :=
  ⟨rfl, rfl, _, rfl, rfl⟩

/-- What is collected for one part is not taken for what another one comes to. -/
theorem Provider.Unaware.create {W : Type} [World W] {p : Provider} {ws ws₁ : Workspace W} {id : PartId}
    {d : Dependency} (h : p.Unaware id)
    (hcollect : Collection.collect ws [] (plainPart id) = (.ok d, ws₁)) :
    ∃ p', p.create ws (plainPart id) = (.ok d, p', ws₁) ∧
      ∀ other, other ≠ id → (plainPart other).keyIn .empty ≠ (plainPart id).keyIn .empty →
        p.Unaware other → p'.Unaware other := by
  obtain ⟨hoverlay, hknown, records, hstore, hrecord⟩ := h
  obtain ⟨p', hcreate, hoverlay', hknown', records', hstore', hothers⟩ :=
    Provider.create_collected (plainPart_known id ws.files) hstore hknown hrecord
      (by rw [hoverlay]; exact hcollect)
  refine ⟨p', hcreate, fun other hne hkey hother => ⟨hoverlay'.trans hoverlay, ?_, records', hstore', ?_⟩⟩
  · have hapart : ¬ compare (plainPart id).id other = .eq :=
      fun he => hne (Std.LawfulEqCmp.eq_of_compare he).symm
    rw [hknown', Std.TreeMap.getElem?_insert, if_neg hapart]
    exact hother.known
  · obtain ⟨_, _, others, hstored, hnone⟩ := hother
    obtain rfl := RecordStore.memory.inj (hstore.symm.trans hstored)
    exact (hothers _ hkey).trans hnone

/-- Two parts are collected, one after the other. -/
theorem collect_two {W : Type} [World W] {p : Provider} {ws ws₁ ws₂ : Workspace W} {d e : Dependency}
    (h : ∀ id, p.Unaware id) (ha : Collection.collect ws [] (plainPart "a") = (.ok d, ws₁))
    (hb : Collection.collect ws₁ [] (plainPart "b") = (.ok e, ws₂)) : ∃ q,
    Pipeline.collectTasks p ws [plainPart "a", plainPart "b"] =
      (.ok [(plainPart "a").tasks d, (plainPart "b").tasks e], q, ws₂) ∧ q.Unaware "c" := by
  have hapart : ∀ {i j : PartId}, i ∈ ["a", "b", "c"] → j ∈ ["a", "b", "c"] → i ≠ j →
      (plainPart i).keyIn .empty ≠ (plainPart j).keyIn .empty := fun hi hj hne =>
    keyIn_ne hi hj hne _ _
  obtain ⟨p₁, hcreateA, hlater⟩ := (h "a").create ha
  have hfresh := hlater "b" (by decide) (hapart (by decide) (by decide) (by decide)) (h "b")
  obtain ⟨p₂, hcreateB, hlast⟩ := hfresh.create hb
  refine ⟨p₂, ?_, hlast "c" (by decide) (hapart (by decide) (by decide) (by decide))
    (hlater "c" (by decide) (hapart (by decide) (by decide) (by decide)) (h "c"))⟩
  rw [Pipeline.collectTasks, hcreateA]
  dsimp only
  rw [Pipeline.collectTasks, hcreateB]
  rfl

/-! ### Rounds -/

/-- A quiet pipeline in this workspace, with this index in memory and these tasks pending. -/
structure Poised (p : Pipeline WritingBench) (ws : Workspace WritingBench) (x : ArtifactIndex)
    (pending : PerScope (List Pending)) : Prop where
  workspace : p.workspace = ws
  artifacts : p.artifacts = .memory x
  dir : p.pchDir = ⟨"/p"⟩
  exits : p.exitWhenIdle = false
  workers : p.workers = [⟨.system, .idle⟩, ⟨.project, .idle⟩]
  quiet : p.Quiet
  pending : p.queue.pending = pending

theorem poised_trial (b : WritingBench) : Poised (trial b) ⟨b, .empty⟩ .empty ⟨[], []⟩ :=
  ⟨rfl, rfl, rfl, rfl, rfl, ⟨rfl, rfl, rfl, rfl, rfl⟩, rfl⟩

namespace Poised

variable {p : Pipeline WritingBench} {ws : Workspace WritingBench} {x : ArtifactIndex}
  {pending : PerScope (List Pending)} {i : Nat} {s : Scope} {t : Task} {rest : List Pending}

theorem within (h : Poised p ws x pending) (w : WritingBench) :
    Poised (p.within w) ⟨w, ws.files⟩ x pending :=
  ⟨congrArg (fun ws : Workspace WritingBench => { ws with world := w }) h.workspace, h.artifacts,
    h.dir, h.exits, h.workers, ⟨h.quiet.opened, h.quiet.live, h.quiet.inbox, h.quiet.running,
    h.quiet.unreported⟩, h.pending⟩

theorem isIdle (h : Poised p ws x ⟨[], []⟩) : p.queue.isIdle = true := by
  rw [Queue.isIdle, h.pending, h.quiet.running, h.quiet.unreported]
  rfl

theorem header? (h : Poised p ws x pending) {part : PartId} {path : FilePath}
    (hx : x.holdings.header part s = some path) :
    p.artifacts.header? p.workspace.world part s = .ok (some path) := by
  rw [h.artifacts]
  exact congrArg Except.ok hx

/-- Once parts are taken up, what the merger makes of them is pending. -/
theorem took (h : Poised p ws x ⟨[], []⟩) {parts : List Part} {sets : List TaskSet}
    {provider : Provider} {ws' : Workspace WritingBench} {m : Merger} {ts us : List Task}
    {q : Pipeline WritingBench} (htook : p.Took parts [] sets provider ws' q)
    (hmerge : p.merger.merge sets [] = (m, [.add .system ts, .add .project us]))
    (hts : (ts.map (·.key .system)).Nodup) (hus : (us.map (·.key .project)).Nodup) :
    q.merger = m ∧
      Poised q ws' x ⟨ts.map fun t => ⟨t.key .system, t⟩, us.map fun t => ⟨t.key .project, t⟩⟩ := by
  obtain ⟨hworkspace, hartifacts, hdir, hexits, hworkers, hquiet, hpending⟩ := h
  have hqueue := htook.queue
  have hmerger := htook.merger
  rw [hmerge] at hqueue hmerger
  exact ⟨hmerger, htook.workspace, htook.artifacts.trans hartifacts, htook.dir.trans hdir,
    htook.exits.trans hexits, htook.workers.trans hworkers, htook.quiet,
    (congrArg Queue.pending hqueue).trans (Queue.pending_adds hpending hts hus)⟩

theorem builds (h : Poised p ws x pending) {base : Option FilePath} {content : String} {job : Job}
    (hw : ([⟨.system, .idle⟩, ⟨.project, .idle⟩] : List Worker)[i]? = some ⟨s, .idle⟩)
    (hp : pending.get s = ⟨t.key s, t⟩ :: rest) (hs : s = .project → pending.system = [])
    (ht : t.Known ws.files) (hi : t.includes ≠ []) (hbase : x.holdings.base s t = base)
    (hprint : Build.print ws.files ws.world s t base = content)
    (hnew : x.holdings.artifact content = none)
    (hjob : Build.jobFor ⟨"/p"⟩ (t.key s) s t (ws.files.names t.includes) content base = job) :
    let q := p.after (fullRound i s)
    let outcome := Workshop.verdict ws.world job
    (∀ {α : Type} {f : Pipeline WritingBench → Step → List α} {g}, NotesPlans f g →
      p.noted f (fullRound i s) = g ws ⟨t.key s, s, t⟩ base) ∧
    q.notices.map Notice.gist = p.notices.map Notice.gist ++ [(s, t.members, outcome)] ∧
    Poised q ⟨(World.build ws.world job).2, ws.files⟩
      ((x.entered content outcome).recorded t.members s outcome) (pending.set s rest) := by
  obtain ⟨rfl, hartifacts, hdir, hexits, hworkers, hquiet, rfl⟩ := h
  rw [← hdir] at hjob
  obtain ⟨hnext, hnoted, hnotices, hworkspace', hartifacts'⟩ :=
    hquiet.builds hexits hartifacts (hworkers ▸ hw) hp hs ht hi hbase hprint hnew
  rw [hjob] at hnotices hworkspace' hartifacts'
  exact ⟨hnoted, hnotices, hworkspace', hartifacts', hnext.dir.trans hdir, hnext.exits.trans hexits,
    hnext.workers.trans hworkers, hnext.quiet, hnext.pending⟩

theorem passes_over (h : Poised p ws x pending)
    (hw : ([⟨.system, .idle⟩, ⟨.project, .idle⟩] : List Worker)[i]? = some ⟨s, .idle⟩)
    (hp : pending.get s = ⟨t.key s, t⟩ :: rest) (hs : s = .project → pending.system = [])
    (hi : t.includes = []) :
    let q := p.after (bareRound i s)
    (∀ {α : Type} {f : Pipeline WritingBench → Step → List α} {g}, NotesPlans f g →
      p.noted f (bareRound i s) = []) ∧
    q.notices.map Notice.gist = p.notices.map Notice.gist ++ [(s, t.members, .empty)] ∧
    Poised q ws (x.deleteHeaders t.members s) (pending.set s rest) := by
  obtain ⟨rfl, hartifacts, hdir, hexits, hworkers, hquiet, rfl⟩ := h
  obtain ⟨hnext, hnoted, hnotices, hworkspace', hartifacts'⟩ :=
    hquiet.passes_over hexits hartifacts (hworkers ▸ hw) hp hs hi
  exact ⟨hnoted, hnotices, hworkspace', hartifacts', hnext.dir.trans hdir, hnext.exits.trans hexits,
    hnext.workers.trans hworkers, hnext.quiet, hnext.pending⟩

end Poised

/-! ### Two parts that share a project header -/

/-- The first two of three parts share a project header, the first one and the last one share a system
header. -/
def trioBench (failing : List FilePath) : WritingBench :=
  trialBench ["/a.h", "/b.h", "/c.h"]
    [("a", includeBoth "/a.h" "/b.h"), ("b", includeBoth "/c.h" "/b.h"), ("c", includeOnly "/a.h")]
    failing

/-- The files of the parts, in the order in which they come up. -/
def trioFiles : FileTable := ⟨["/a.h", "/b.h", "/c.h"], by decide⟩

/-- The job for the first part. -/
def lendingJob : Job := Build.jobFor ⟨"/p"⟩
  ⟨"f00e6eab96427c74d91c2cac12bd76a455cbc5e31a7975a2db6eec856bd8f3ca"⟩ .system (headerTask ["a"] 0)
  ["/a.h"] "a4107ff4b5b5a01ac6bd9d030a0df8f200f072cd1b93311f742bf0cd6f42a48e" none

/-- The job for the second part alone. -/
def ownJob : Job := Build.jobFor ⟨"/p"⟩
  ⟨"ed3ea260ee5e7846fd45b8e6d52430407daa95c689f5120f4c5f434886cd5643"⟩ .system (headerTask ["b"] 2)
  ["/c.h"] "31fdeaa5013c3146a80d96f28dd2e53ba9264a97781b5ead7f9ab47b691ae188" none

/-- The job for both parts, upon the system header of the first one. -/
def sharedJob : Job := Build.jobFor ⟨"/p"⟩
  ⟨"1f75f7a169acb404ba462ea5e10adffbb3ae902082181d4d6fba4f8435f3ddec"⟩ .project
  (headerTask ["a", "b"] 1) ["/b.h"]
  "e6fb627d968df78b113ffe36180c1ba91f06cc99f534dc172cca23e0036230de" (some ⟨borrowed⟩)

section

variable (failing : List FilePath)

/-! The bench, and what there is in the index, after the scans and after each job. -/

def trioScanned : WritingBench := scanned (scanned (trioBench failing) "a") "b"

def trioLent : WritingBench := (World.build (trioScanned failing) lendingJob).2

def trioOwned : WritingBench := (World.build (trioLent failing) ownJob).2

def trioShared : WritingBench := (World.build (trioOwned failing) sharedJob).2

theorem jobs_trioShared : Workshop.jobs (trioShared failing) =
    Workshop.jobs (trioScanned failing) ++ [lendingJob, ownJob, sharedJob] := by
  rw [trioShared, LawfulWorkshop.build_jobs, trioOwned, LawfulWorkshop.build_jobs, trioLent,
    LawfulWorkshop.build_jobs, List.append_assoc, List.append_assoc]
  rfl

def lentIndex : ArtifactIndex :=
  let outcome := Workshop.verdict (trioScanned failing) lendingJob
  (ArtifactIndex.empty.entered
    "a4107ff4b5b5a01ac6bd9d030a0df8f200f072cd1b93311f742bf0cd6f42a48e" outcome).recorded
      ["a"] .system outcome

def ownedIndex : ArtifactIndex :=
  let outcome := Workshop.verdict (trioLent failing) ownJob
  ((lentIndex failing).entered
    "31fdeaa5013c3146a80d96f28dd2e53ba9264a97781b5ead7f9ab47b691ae188" outcome).recorded
      ["b"] .system outcome

def sharedIndex : ArtifactIndex :=
  let outcome := Workshop.verdict (trioOwned failing) sharedJob
  ((ownedIndex failing).entered
    "e6fb627d968df78b113ffe36180c1ba91f06cc99f534dc172cca23e0036230de" outcome).recorded
      ["a", "b"] .project outcome

/-- When files were written last, what was not built before the second job and the last one, and that
the first job left something to build upon. -/
structure Lends : Prop where
  stampA : World.modified? (trioScanned failing) ⟨"/a.h"⟩ = some 1
  stampB : World.modified? (trioOwned failing) ⟨"/b.h"⟩ = some 2
  stampC : World.modified? (trioLent failing) ⟨"/c.h"⟩ = some 3
  stampLent : World.modified? (trioOwned failing) ⟨borrowed⟩ = some 4
  newOwn : (lentIndex failing).holdings.artifact
    "31fdeaa5013c3146a80d96f28dd2e53ba9264a97781b5ead7f9ab47b691ae188" = none
  newShared : (ownedIndex failing).holdings.artifact
    "e6fb627d968df78b113ffe36180c1ba91f06cc99f534dc172cca23e0036230de" = none
  base : (ownedIndex failing).holdings.base .project (headerTask ["a", "b"] 1) = some ⟨borrowed⟩

end

/-- What it takes an evaluation to see: where the headers go, which is not where the files of the parts
are. -/
structure Placed : Prop where
  lending : lendingJob.outputPath = ⟨borrowed⟩
  own : ownJob.outputPath = ⟨"/p/system-ed3ea260ee5e7846-31fdeaa5013c3146.pch"⟩
  shared : sharedJob.outputPath = ⟨"/p/project-1f75f7a169acb404-e6fb627d968df78b.pch"⟩
  beside : ∀ p ∈ [⟨"/b.h"⟩, ⟨"/c.h"⟩], ¬ (⟨borrowed⟩ : FilePath).same p
  besideOwn : ∀ p ∈ [⟨"/b.h"⟩, ⟨borrowed⟩],
    ¬ (⟨"/p/system-ed3ea260ee5e7846-31fdeaa5013c3146.pch"⟩ : FilePath).same p
  stamps : [(⟨"/a.h"⟩ : FilePath), ⟨"/b.h"⟩, ⟨"/c.h"⟩].map (World.modified? (trioBench [])) =
    [some 1, some 2, some 3]

theorem placed : Placed := by
  constructor <;> decide +kernel

/-- The project header is built upon the first system header if the compiler can do with the first
part. -/
theorem lends_of_not_fails {failing : List FilePath}
    (hok : (trioScanned failing).bench.fails lendingJob = false) : Lends failing := by
  have hheader : (Workshop.verdict (trioScanned failing) lendingJob).header? = some ⟨borrowed⟩ := by
    simp [Workshop.verdict, Workshop.refusal, hok, Outcome.header?, placed.lending]
  have hscanned : ∀ p, World.modified? (trioScanned failing) p = World.modified? (trioBench []) p :=
    fun _ => rfl
  have hstamps := placed.stamps
  simp only [List.map_cons, List.map_nil, List.cons.injEq, and_true] at hstamps
  obtain ⟨hstampA, hstampB, hstampC⟩ := hstamps
  have hlent : ∀ p ∈ [⟨"/b.h"⟩, ⟨"/c.h"⟩], ¬ lendingJob.outputPath.same p := by
    rw [placed.lending]
    exact placed.beside
  have hown : ∀ p ∈ [⟨"/b.h"⟩, ⟨borrowed⟩], ¬ ownJob.outputPath.same p := by
    rw [placed.own]
    exact placed.besideOwn
  have hnone : ∀ content, ArtifactIndex.empty.holdings.artifact content = none := fun _ => rfl
  constructor
  case stampA => exact (hscanned _).trans hstampA
  case stampB =>
    rw [trioOwned, WritingBench.modified?_build (hown _ (by simp)), trioLent,
      WritingBench.modified?_build (hlent _ (by simp)), hscanned, hstampB]
  case stampC => rw [trioLent, WritingBench.modified?_build (hlent _ (by simp)), hscanned, hstampC]
  case stampLent =>
    have houtput := WritingBench.modified?_output hok
    rw [placed.lending] at houtput
    rw [trioOwned, WritingBench.modified?_build (hown _ (by simp)), trioLent, houtput]
    rfl
  case newOwn => simp [lentIndex, Build.artifact_entered, hnone]
  case newShared => simp [ownedIndex, lentIndex, Build.artifact_entered, hnone]
  case base => simp [ownedIndex, lentIndex, Holdings.base, Holdings.assign, headerTask, hheader]

theorem lends : Lends [] := lends_of_not_fails rfl

theorem collect_first (failing : List FilePath) : ∃ provider,
    Pipeline.collectTasks (trial (trioBench failing)).provider (trial (trioBench failing)).workspace
      [plainPart "a", plainPart "b"] =
    (.ok [⟨headerTask ["a"] 0, headerTask ["a"] 1⟩, ⟨headerTask ["b"] 2, headerTask ["b"] 1⟩],
      provider, ⟨trioScanned failing, trioFiles⟩) ∧ provider.Unaware "c" := by
  let files : FileTable := ⟨["/a.h", "/b.h"], by decide⟩
  obtain ⟨_, hcollectA⟩ := @collect_both ⟨trioBench failing, .empty⟩ "a" filesA 0 "/a.h" "/b.h" 1 files
    rfl List.not_mem_nil rfl rfl (by decide)
  obtain ⟨_, hcollectB⟩ := @collect_both ⟨scanned (trioBench failing) "a", files⟩ "b" trioFiles 2 "/c.h"
    "/b.h" 1 trioFiles rfl List.not_mem_nil rfl rfl (by decide)
  exact collect_two Provider.unaware_start hcollectA hcollectB

theorem keys_apart : (headerTask ["a"] 0).key .system ≠ (headerTask ["b"] 2).key .system := by
  rw [Task.key, Task.key, digestText, digestText, evaluated.keyA, evaluated.keyC]
  decide

/-- Two parts with system headers of their own and one project header are merged. -/
theorem merge_two {n m : Nat} (hne : (headerTask ["a"] n).key .system ≠ (headerTask ["b"] m).key .system) :
    Merger.empty.merge
      [⟨headerTask ["a"] n, headerTask ["a"] 1⟩, ⟨headerTask ["b"] m, headerTask ["b"] 1⟩] [] =
    (⟨[headerTask ["a"] n, headerTask ["b"] m], [headerTask ["a", "b"] 1]⟩,
     [.add .system [headerTask ["a"] n, headerTask ["b"] m],
      .add .project [headerTask ["a", "b"] 1]]) := by
  have hsystem := @Merger.mergeScope_apart ⟨headerTask ["a"] n, headerTask ["a"] 1⟩
    ⟨headerTask ["b"] m, headerTask ["b"] 1⟩ .system hne (List.cons_ne_nil _ _)
    (by simp [headerTask, PerScope.get])
  have hproject : Merger.empty.mergeScope
      [⟨headerTask ["a"] n, headerTask ["a"] 1⟩, ⟨headerTask ["b"] m, headerTask ["b"] 1⟩] []
      .project = ([headerTask ["a", "b"] 1], [.add .project [headerTask ["a", "b"] 1]]) := by
    have hboth := @Workflow.mergeAll_pair ⟨headerTask ["a"] 1, headerTask ["a"] 1⟩
      ⟨headerTask ["b"] 1, headerTask ["b"] 1⟩ (fun scope => by cases scope <;> rfl)
      (fun scope => by cases scope <;> decide) .project
    change Merger.mergeAll .project [] [⟨headerTask ["a"] n, headerTask ["a"] 1⟩,
      ⟨headerTask ["b"] m, headerTask ["b"] 1⟩] [] .none = _ at hboth
    rw [Merger.mergeScope, show Merger.empty.get .project = [] from rfl, hboth]
    exact Prod.ext rfl (Workflow.flush_single .project (headerTask ["a", "b"] 1))
  rw [Merger.merge, hsystem, hproject]
  rfl

/-- Both parts are handed in. -/
def duo (failing : List FilePath) : Pipeline WritingBench :=
  (trial (trioBench failing)).handle (.addParts [plainPart "a", plainPart "b"] [])

/-- What is pending when the first two parts were handed in. -/
def firstPending : PerScope (List Pending) :=
  ⟨[headerTask ["a"] 0, headerTask ["b"] 2].map fun t => ⟨t.key .system, t⟩,
    [headerTask ["a", "b"] 1].map fun t => ⟨t.key .project, t⟩⟩

theorem poised_duo (failing : List FilePath) :
    (duo failing).merger = ⟨[headerTask ["a"] 0, headerTask ["b"] 2], [headerTask ["a", "b"] 1]⟩ ∧
    (duo failing).notices = [] ∧ (duo failing).provider.Unaware "c" ∧
    Poised (duo failing) ⟨trioScanned failing, trioFiles⟩ .empty firstPending := by
  obtain ⟨provider, hcollect, hunaware⟩ := collect_first failing
  have hstart := poised_trial (trioBench failing)
  have htook := hstart.quiet.takes [] hcollect
  obtain ⟨hmerger, hpoised⟩ :=
    hstart.took htook (merge_two keys_apart) (by simpa using keys_apart) (by simp)
  exact ⟨hmerger, htook.notices, htook.provider ▸ hunaware, hpoised⟩

def firstSteps : List Step := fullRound 0 .system ++ (fullRound 0 .system ++ fullRound 1 .project)

section

variable {failing : List FilePath} (h : Lends failing)

include h

theorem Lends.print_lending : Build.print trioFiles (trioScanned failing) .system (headerTask ["a"] 0)
    none = "a4107ff4b5b5a01ac6bd9d030a0df8f200f072cd1b93311f742bf0cd6f42a48e" :=
  print_a rfl h.stampA

theorem Lends.print_own : Build.print trioFiles (trioLent failing) .system (headerTask ["b"] 2) none =
    "31fdeaa5013c3146a80d96f28dd2e53ba9264a97781b5ead7f9ab47b691ae188" := by
  have hpath : trioFiles.path? ⟨2⟩ = some "/c.h" := rfl
  rw [print_header hpath, evaluated.contentC, Build.fileBytes, h.stampC]
  exact evaluated.printC

theorem Lends.print_shared :
    Build.print trioFiles (trioOwned failing) .project (headerTask ["a", "b"] 1) (some ⟨borrowed⟩) =
      "e6fb627d968df78b113ffe36180c1ba91f06cc99f534dc172cca23e0036230de" := by
  have hpath : trioFiles.path? ⟨1⟩ = some "/b.h" := rfl
  rw [print_header hpath, evaluated.contentShared, Build.fileBytes, h.stampB, Build.baseBytes,
    Build.fileBytes, h.stampLent]
  exact evaluated.printShared

/-- One system header after the other is built, and then the project header upon the first one. -/
theorem Lends.first_steps {p : Pipeline WritingBench}
    (hp : Poised p ⟨trioScanned failing, trioFiles⟩ .empty firstPending) :
    (∀ {α : Type} {f : Pipeline WritingBench → Step → List α} {g}, NotesPlans f g →
      p.noted f firstSteps =
        g ⟨trioScanned failing, trioFiles⟩ ⟨(headerTask ["a"] 0).key .system, .system, headerTask ["a"] 0⟩
          none ++
        (g ⟨trioLent failing, trioFiles⟩ ⟨(headerTask ["b"] 2).key .system, .system, headerTask ["b"] 2⟩
          none ++
        g ⟨trioOwned failing, trioFiles⟩ ⟨(headerTask ["a", "b"] 1).key .project, .project,
          headerTask ["a", "b"] 1⟩ (some ⟨borrowed⟩))) ∧
    (p.after firstSteps).notices.map Notice.gist = p.notices.map Notice.gist ++
      [(.system, ["a"], Workshop.verdict (trioScanned failing) lendingJob),
       (.system, ["b"], Workshop.verdict (trioLent failing) ownJob),
       (.project, ["a", "b"], Workshop.verdict (trioOwned failing) sharedJob)] ∧
    Poised (p.after firstSteps) ⟨trioShared failing, trioFiles⟩ (sharedIndex failing) ⟨[], []⟩ := by
  obtain ⟨hnotedA, hnoticesA, hA⟩ := hp.builds (i := 0) (s := .system) rfl rfl
    (fun hs => by cases hs) (headerTask_known rfl) (by decide) rfl h.print_lending rfl
    (show _ = lendingJob by rw [Task.key, digestText, evaluated.keyA]; rfl)
  change Poised _ ⟨trioLent failing, trioFiles⟩ (lentIndex failing) _ at hA
  obtain ⟨hnotedB, hnoticesB, hB⟩ := hA.builds (i := 0) (s := .system) rfl rfl
    (fun hs => by cases hs) (headerTask_known rfl) (by decide) rfl h.print_own h.newOwn
    (show _ = ownJob by rw [Task.key, digestText, evaluated.keyC]; rfl)
  change Poised _ ⟨trioOwned failing, trioFiles⟩ (ownedIndex failing) _ at hB
  obtain ⟨hnoted, hnotices, hboth⟩ := hB.builds (i := 1) (s := .project) rfl rfl
    (fun _ => rfl) (headerTask_known rfl) (by decide) h.base h.print_shared h.newShared
    (show _ = sharedJob by rw [Task.key, digestText, evaluated.keyShared]; rfl)
  rw [firstSteps, Pipeline.after_append, Pipeline.after_append]
  refine ⟨fun hf => ?_, ?_, hboth⟩
  · rw [Pipeline.noted_append, Pipeline.noted_append, hnotedA hf, hnotedB hf, hnoted hf]
    rfl
  · rw [hnotices, hnoticesB, hnoticesA, List.append_assoc, List.append_assoc]
    rfl

/-- What is digested all along. -/
theorem Lends.digested {p : Pipeline WritingBench}
    (hp : Poised p ⟨trioScanned failing, trioFiles⟩ .empty firstPending) :
    (p.digested firstSteps).map digest =
      ["ce179cb3c392cebd8d0462c1cbf56273e4e5a644557aedda180be6f4bcdc1336",
        "a4107ff4b5b5a01ac6bd9d030a0df8f200f072cd1b93311f742bf0cd6f42a48e",
        "df75c605bd3480bda30426b5da6e4e02706644d2b0b84e0f0627fc0d510b7d66",
        "31fdeaa5013c3146a80d96f28dd2e53ba9264a97781b5ead7f9ab47b691ae188",
        "1196991c7363ae20d536afed56a51fe2c39c7c9d2bc114e822733d63ea7cdeb1",
        "e6fb627d968df78b113ffe36180c1ba91f06cc99f534dc172cca23e0036230de"] := by
  obtain ⟨hnoted, _⟩ := h.first_steps hp
  have hpath : ∀ n, trioFiles.path? ⟨n⟩ = ["/a.h", "/b.h", "/c.h"][n]? := fun _ => rfl
  rw [← Pipeline.noted_digests, hnoted Pipeline.notesPlans_digests, List.map_append, List.map_append,
    digested_header (hpath 0), digested_header (hpath 2), digested_header (hpath 1), h.print_lending,
    h.print_own, h.print_shared, evaluated.contentA, evaluated.contentC, evaluated.contentShared]
  rfl

end

end PrecompiledHeaders
