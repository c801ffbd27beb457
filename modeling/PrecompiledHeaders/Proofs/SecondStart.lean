import PrecompiledHeaders.Proofs.FirstBatch
import PrecompiledHeaders.Proofs.Merger.Settled
import PrecompiledHeaders.Proofs.Pipeline.Recalling
import PrecompiledHeaders.Proofs.Pipeline.Warm
/-! The same parts once more. After a first batch in which everything was built, the same parts are
handed in again, to the same pipeline or to another one over the same stores. As long as the files
that the parts read are as they were, nothing is scanned that reads a file, and nothing is built. -/
namespace PrecompiledHeaders

variable {W : Type} [Workshop W] {p q : Pipeline W} {outcome : Scope → Task → Outcome}
  {h : Holdings} {made : List Job} {s : Scope} {t t' : Task}

/-- With a compiler that does all jobs, a task with includes has the output of a job. -/
theorem Outturn.job_of_includes (hr : Outturn p q outcome h made)
    (hbuild : ∀ j, Workshop.refusal p.workspace.world j = none) (ht : t ∈ q.merger.get s)
    (hi : t.includes ≠ []) : ∃ v : W,
      Spares (p.artifacts.documents ++ made.flatMap Job.paths) p.workspace.world v ∧
      (∀ x, h.base s t = some x → World.modified? v x = World.modified? q.workspace.world x) ∧
      ∃ j ∈ made, h.artifact (Build.print p.workspace.files v s t (h.base s t)) =
        some j.outputPath ∧ ∀ i ∈ t.members, h.header i s = some j.outputPath := by
  obtain ⟨v, hv, hstamp, hj, ho, hart⟩ := hr.built s t ht hi
  refine ⟨v, hv, hstamp, _, hj, hart (hbuild _), fun i hmem => ?_⟩
  rw [hr.headers s t ht i hmem, ho, Workshop.verdict, hbuild]
  rfl

/-- What a project task is built upon is the output of a job. -/
theorem Outturn.job_of_base (hr : Outturn p q outcome h made)
    (hbuild : ∀ j, Workshop.refusal p.workspace.world j = none) {x : FilePath}
    (hx : h.base s t = some x) : ∃ j ∈ made, x = j.outputPath := by
  cases s with
  | system => cases hx
  | project =>
    obtain ⟨i, _, hi⟩ := Option.bind_eq_some_iff.mp hx
    by_cases hsome : ∃ u ∈ q.merger.get .system, i ∈ u.members
    · obtain ⟨u, hu, hmem⟩ := hsome
      by_cases hincludes : u.includes = []
      · rw [hr.headers .system u hu i hmem, hr.empty .system u hu hincludes] at hi
        cases hi
      · obtain ⟨_, _, _, j, hj, _, hheaders⟩ := hr.job_of_includes hbuild hu hincludes
        exact ⟨j, hj, Option.some.inj (hi.symm.trans (hheaders i hmem))⟩
    · rw [hr.bare .system i fun u hu hmem => hsome ⟨u, hu, hmem⟩] at hi
      cases hi

/-- Outputs of jobs are not where the store or the records are. -/
theorem Outturn.not_same_output (hr : Outturn p q outcome h made) {j : Job} (hj : j ∈ made)
    {d : FilePath} {name : String} (hd : d.Ends (name ++ ".json")) : ¬ d.same j.outputPath := by
  obtain ⟨_, _, _, _, _, _, print, hends⟩ := hr.jobs j hj
  exact FilePath.not_same_of_ends hd hends outputName_ne_json.symm

theorem Build.input_alike {files files' : FileTable} {w : W} {base : Option FilePath}
    (ha : Task.Alike files files' t t') : input files' w s t' base = input files w s t base := by
  rw [input, input, Task.contentText, Task.contentText, FileTable.names_of_same ha.includes,
    FileTable.names_of_same ha.sources, ha.settings]

theorem Outturn.not_same_paths (hr : Outturn p q outcome h made) {d : FilePath} {name : String}
    (hd : d.Ends (name ++ ".json")) : ∀ y ∈ made.flatMap Job.paths, ¬ y.same d := by
  intro y hy
  obtain ⟨j, hj, hy⟩ := List.mem_flatMap.mp hy
  obtain ⟨_, _, _, _, _, hheader, print, houtput⟩ := hr.jobs j hj
  exact Job.not_same_json ⟨hheader, houtput⟩ hd y hy

/-- A task alike to one of a first batch is ready, as long as the files that it reads and the
outputs are as they were. -/
theorem Outturn.ready (hr : Outturn p q outcome h made) (hleaves : LeavesOutputs W)
    (hbuild : ∀ j, Workshop.refusal p.workspace.world j = none) (ht : t ∈ q.merger.get s)
    {files : FileTable}
    (ha : Task.Alike p.workspace.files files t t') {w : W} {others : List FilePath}
    (hw : Spares others q.workspace.world w)
    (hsources : ∀ x ∈ p.workspace.files.names t.sources,
      ∀ y ∈ p.artifacts.documents ++ made.flatMap Job.paths ++ others, ¬ y.same ⟨x⟩)
    (houtputs : ∀ y ∈ others, ∀ j ∈ made, ¬ y.same j.outputPath) :
    ∃ o, Build.Ready files p.artifacts.documents w h s t' o := by
  by_cases hi : t.includes = []
  · have hi' : t'.includes = [] := by
      have hincludes := ha.includes
      rw [hi] at hincludes
      exact List.forall₂_nil_left_iff.mp hincludes
    refine ⟨_, .empty hi' fun i hmem => ?_⟩
    rw [ha.members] at hmem
    rw [hr.headers s t ht i hmem, hr.empty s t ht hi]
    rfl
  · obtain ⟨v, hv, hstamp, j, hj, hart, hheaders⟩ := hr.job_of_includes hbuild ht hi
    have hi' : t'.includes ≠ [] := by
      intro hnil
      have hincludes := ha.includes
      rw [hnil] at hincludes
      exact hi (List.forall₂_nil_right_iff.mp hincludes)
    have hbase : h.base s t' = h.base s t := by
      cases s with
      | system => rfl
      | project => rw [Holdings.base, Holdings.base, ha.members]
    -- the state of all that is digested is what it was when the task was built
    have hinput : ∀ u : W, Spares p.artifacts.documents w u →
        Build.input files u s t' (h.base s t') =
          Build.input p.workspace.files v s t (h.base s t) := by
      intro u hu
      have hall := (hr.spares.trans hw).trans hu
      rw [hbase, Build.input_alike ha]
      refine Build.input_congr (fun x hx => ?_) fun x hx => ?_
      · have hnot := hsources x hx
        rw [hall.modified? fun y hy => hnot y (by simp only [List.mem_append] at hy ⊢; tauto),
          hv.modified? fun y hy => hnot y (List.mem_append_left _ hy)]
      · obtain ⟨j', hj', rfl⟩ := hr.job_of_base hbuild hx
        rw [hu.modified? fun d hd => hr.not_same_output hj' (ArtifactStore.ends_of_mem_documents hd),
          hw.modified? fun y hy => houtputs y hy j' hj', hstamp _ hx]
    have hfile : ∀ u : W, Spares p.artifacts.documents w u → World.hasFile u j.outputPath = true := by
      intro u hu
      rw [hu.hasFile fun d hd => hr.not_same_output hj (ArtifactStore.ends_of_mem_documents hd),
        hw.hasFile fun y hy => houtputs y hy j hj]
      exact hr.outputs hleaves hbuild j hj
    have hnow := hinput w (Spares.refl _ _)
    have hkept : ∀ u : W, Spares p.artifacts.documents w u →
        Build.input files u s t' (h.base s t') = Build.input files w s t' (h.base s t') ∧
          World.hasFile u j.outputPath = true := fun u hu =>
      ⟨(hinput u hu).trans hnow.symm, hfile u hu⟩
    refine ⟨_, .built hi' ?_ ?_ (fun i hmem => ?_) hkept⟩
    · exact (FileTable.knows_of_same ha.includes).append (FileTable.knows_of_same ha.sources)
    · rw [Build.print, hnow]
      exact hart
    · rw [ha.members] at hmem
      exact hheaders i hmem

/-! ### The first time -/

open Pipeline (Collected Submitted Recorded Recalled KeysApart)

/-- The part is known, and no file is read for it. -/
def Provider.ReadsNothing (p : Provider) (id : PartId) : Prop :=
  ∃ k, p.known[id]? = some k ∧ k.dependency.referencedFiles = []

theorem Provider.mem_dependencyFiles {p : Provider} {id : PartId} {k : KnownDependency}
    (hk : p.known[id]? = some k) {f : FileId} (hf : f ∈ k.dependency.referencedFiles) :
    f ∈ p.dependencyFiles := by
  refine mem_keepFirst.mpr ⟨List.mem_mergeSort.mpr (List.mem_flatMap.mpr ⟨(id, k), ?_, hf⟩),
    List.not_mem_nil⟩
  exact Std.TreeMap.mem_toList_iff_getElem?_eq_some.mpr hk

/-- Where the records of the parts are. -/
def Pipeline.records (p : Pipeline W) (parts : List Part) : List FilePath :=
  p.provider.records p.workspace.files parts

/-- The pipeline `o` has taken up these parts after their scans, and nothing but records was
written. -/
structure Pipeline.Started (o p : Pipeline W) (parts : List Part) (sets : List TaskSet) : Prop where
  spares : Spares (p.records parts) o.workspace.world p.workspace.world
  unforced : p.provider.forced = []
  overlay : p.provider.overlay = []
  known : ∀ part ∈ parts, part.Known p.workspace.files
  sane : p.provider.Sane p.workspace.files
  recorded : List.Forall₂ (fun part set => ∃ report v d,
    Recorded (p.records parts) o.workspace.world p.provider p.workspace part set report v d) parts sets

section

variable [LawfulWorkshop W] {ws : Workspace W} {dir : FilePath} {records : RecordStore}
  {artifacts : ArtifactStore} {workers : List Scope} {exits watches : Bool} {parts : List Part}
  {extra : List String} {sets : List TaskSet}

theorem Pipeline.started (hs : Submitted (start ws dir records artifacts workers exits watches)
      parts extra sets p) (hknown : ∀ part ∈ parts, part.Known ws.files)
    (hkeys : KeysApart ws.files parts) (hempty : ∀ key, records.load ws.world key = .ok none)
    (hscan : ∀ part ∈ parts, ∃ report, Workshop.answer ws.world (part.asked ws.files []) =
      .ok report) :
    Started (start ws dir records artifacts workers exits watches) p parts sets := by
  let o := start ws dir records artifacts workers exits watches
  obtain ⟨sets', p', ws', hcollect, hforced, hoverlay, _, hrecorded, _, _⟩ :=
    collectTasks_first (p := o.provider) hknown (Provider.sane_start records ws.files) hkeys
      ⟨rfl, rfl⟩ (fun part _ => ⟨by simp [o, start, Provider.start], hempty _⟩) hscan
      (Spares.refl (o.provider.records ws.files parts) _) (List.Subset.refl _)
  have heq := hs.collect.symm.trans hcollect
  obtain ⟨hsets, hrest⟩ := Prod.mk.inj heq
  obtain ⟨hp', hws'⟩ := Prod.mk.inj hrest
  obtain rfl := Except.ok.inj hsets
  subst hp' hws'
  have hdocs : p.records parts = o.provider.records ws.files parts :=
    Provider.records_congr hs.forward.root hs.forward.files hknown
  rw [← hdocs] at hrecorded
  have hspares := hs.forward.spares
  change Spares (o.provider.records ws.files parts) _ _ at hspares
  rw [← hdocs] at hspares
  exact ⟨hspares, hforced, hoverlay, fun part hpart => (hknown part hpart).extends hs.forward.files,
    hs.forward.sane (Provider.sane_start records ws.files), hrecorded⟩

end

/-! ### The second time -/

/-- A pipeline that can take up the same parts once more: the one that is through with them, or a
new one over the same stores, in which files may have other numbers. Files at `changed` may have
changed meanwhile. -/
inductive Pipeline.Again (q : Pipeline W) (parts : List Part) (changed : List FilePath) :
    Pipeline W → List Part → Prop where
  | same {w : W} (live : q.coordinator = .running) (spares : Spares changed q.workspace.world w) :
      Again q parts changed { q with workspace := { q.workspace with world := w } } parts
  | anew {w : W} {files : FileTable} {dir : FilePath} {workers : List Scope} {exits watches : Bool}
      {parts' : List Part} (spares : Spares changed q.workspace.world w)
      (alike : List.Forall₂ (Part.Alike q.workspace.files files) parts parts') :
      Again q parts changed
        (start ⟨w, files⟩ dir q.provider.store q.artifacts workers exits watches) parts'

/-- Files that matter were left alone: what the parts read is not written by anybody, and what the
pipeline wrote is not among the files that changed meanwhile. -/
structure Pipeline.Undisturbed (p : Pipeline W) (parts : List Part) (made : List Job)
    (changed : List FilePath) : Prop where
  read : ∀ x ∈ p.workspace.files.names p.provider.dependencyFiles,
    ∀ y ∈ p.records parts ++ p.artifacts.documents ++ made.flatMap Job.paths ++ changed,
      ¬ y.same ⟨x⟩
  written : ∀ y ∈ changed,
    ∀ d ∈ p.records parts ++ p.artifacts.documents ++ made.map Job.outputPath, ¬ y.same d

variable {o r₀ : Pipeline W} {parts parts' : List Part} {sets : List TaskSet}
  {changed : List FilePath} {part part' : Part} {set : TaskSet} {report : ScanReport} {v : W}
  {d : Dependency}

theorem Pipeline.Again.spares (ha : Again q parts changed r₀ parts') :
    Spares changed q.workspace.world r₀.workspace.world := by
  cases ha with
  | same live spares => exact spares
  | anew spares alike => exact spares

/-- Nothing else was written since before the first time. -/
theorem Pipeline.Again.spares_since (ha : Again q parts changed r₀ parts')
    (hs : Started o p parts sets) (hr : Outturn p q outcome h made) :
    Spares (p.records parts ++ p.artifacts.documents ++ made.flatMap Job.paths ++ changed)
      o.workspace.world r₀.workspace.world := by
  have hall := (hs.spares.trans hr.spares).trans ha.spares
  simpa only [List.append_assoc] using hall

theorem Pipeline.Recorded.read {docs : List FilePath} {w : W} (hrec : Recorded docs w p.provider
      p.workspace part set report v d) {s : RecordedStatus}
    (hs : s ∈ (part.recordOf p.workspace.files report v).statuses) :
    s.path.text ∈ p.workspace.files.names p.provider.dependencyFiles := by
  have hnamed : s.path.text ∈ p.workspace.files.names d.referencedFiles := by
    rw [hrec.named.resolves.names]
    exact (Record.mem_statuses_ofReport.mp hs).1
  obtain ⟨f, hf, hp⟩ := List.mem_filterMap.mp hnamed
  exact List.mem_filterMap.mpr ⟨f, Provider.mem_dependencyFiles hrec.known hf, hp⟩

/-- Files that a part reads have their stamps. -/
theorem Pipeline.Recorded.current (hrec : Recorded (p.records parts) o.workspace.world p.provider
      p.workspace part set report v d) (hu : p.Undisturbed parts made changed) {w : W}
    (hw : Spares (p.records parts ++ p.artifacts.documents ++ made.flatMap Job.paths ++ changed)
      o.workspace.world w) : (part.recordOf p.workspace.files report v).Current w := by
  intro s hs
  have hnot := hu.read _ (hrec.read hs)
  rw [(Record.mem_statuses_ofReport.mp hs).2, hw.modified? hnot,
    hrec.spares.modified? fun y hy => hnot y (by
      simp only [List.mem_append]
      tauto)]

/-- A part that was scanned without any file read for it. -/
theorem Pipeline.Recorded.readsNothing {docs : List FilePath} {w : W} (hrec : Recorded docs w
      p.provider p.workspace part set report v d)
    (hnil : (part.recordOf p.workspace.files report v).statuses = []) :
    p.provider.ReadsNothing part.id := by
  have hresolves := hrec.named.resolves
  have hnone : (part.recordOf p.workspace.files report v).includes.map (·.path.text) ++
      (part.recordOf p.workspace.files report v).sources.map (·.text) = [] := by
    refine List.eq_nil_iff_forall_not_mem.mpr fun x hx => ?_
    have hmem : (⟨⟨x⟩, World.modified? v ⟨x⟩⟩ : RecordedStatus) ∈
        (part.recordOf p.workspace.files report v).statuses :=
      Record.mem_statuses_ofReport.mpr ⟨hx, rfl⟩
    rw [hnil] at hmem
    exact List.not_mem_nil hmem
  rw [hnone] at hresolves
  exact ⟨_, hrec.known, List.forall₂_nil_right_iff.mp hresolves⟩

/-- What was recorded the first time is found the second time. -/
theorem Pipeline.Recorded.recalled (hrec : Recorded (p.records parts) o.workspace.world p.provider
      p.workspace part set report v d) (hpart : part ∈ parts) (hs : Started o p parts sets)
    (hr : Outturn p q outcome h made) (ha : Again q parts changed r₀ parts')
    (hu : p.Undisturbed parts made changed)
    (hfits : (part.recordOf p.workspace.files report o.workspace.world).Fits)
    (halike : Part.Alike q.workspace.files r₀.workspace.files part part') :
    Recalled p.workspace.files (p.records parts) p.provider.ReadsNothing r₀.provider r₀.workspace
      part' set part d (part.recordOf p.workspace.files report v) := by
  have hspares := ha.spares_since hs hr
  have hsame := Part.recordOf_of_current (hrec.current hu (Spares.refl _ _))
  rw [hsame] at hfits
  have hknown := hs.known part hpart
  rw [hr.files] at halike
  refine ⟨halike, hrec.named, hrec.tasks, ⟨halike.id.symm, ?_, ?_⟩, ?_⟩
  · cases ha with
    | same =>
      show part'.id ∉ q.provider.forced
      rw [hr.provider, hs.unforced]
      exact List.not_mem_nil
    | anew => exact List.not_mem_nil
  · rw [Part.keyIn_alike halike, halike.id]
    cases ha with
    | same =>
      rw [hr.provider, hrec.known, hr.files]
      exact ⟨rfl, hrec.named⟩
    | @anew w files dir workers exits watches _ spares =>
      have hnone : (Provider.start q.provider.store).known[part.id]? = none := by
        simp [Provider.start]
      rw [show (start ⟨w, files⟩ dir q.provider.store q.artifacts workers exits
        watches).provider.known[part.id]? = none from hnone]
      show q.provider.store.load w (part.keyIn p.workspace.files) = .ok (some _)
      rw [hr.provider, ← hrec.stored hfits]
      refine RecordStore.load_congr fun y hy => ?_
      have hrecord : y ∈ p.records parts := Provider.documents_subset_records hknown hpart hy
      obtain ⟨bytes, hends⟩ := Provider.ends_of_mem_records hs.known hrecord
      rw [spares.look y fun z hz => hu.written z hz y (by
        simp only [List.mem_append]
        tauto)]
      refine hr.spares.look y fun z hz => ?_
      rcases List.mem_append.mp hz with hz | hz
      · exact FilePath.not_same_of_ends (ArtifactStore.ends_of_mem_documents hz) hends
          (digest_json_ne_artifacts bytes).symm
      · exact hr.not_same_paths hends z hz
  · by_cases hnil : (part.recordOf p.workspace.files report v).statuses = []
    · refine Or.inr ⟨hnil, halike.id ▸ hrec.readsNothing hnil, report, v, ?_,
        Part.recordOf_alike halike report v⟩
      rw [Part.asked_alike halike, hspares.answer]
      exact hrec.answer
    · refine Or.inl ⟨hnil, hrec.current hu hspares, fun s hmem y hy => ?_⟩
      refine hu.read _ (hrec.read hmem) y ?_
      simp only [List.mem_append]
      tauto

/-- All that the second time starts from. -/
structure Pipeline.Renewed (p : Pipeline W) (parts : List Part) (r₀ : Pipeline W)
    (parts' : List Part) : Prop where
  alike : List.Forall₂ (Part.Alike p.workspace.files r₀.workspace.files) parts parts'
  records : r₀.records parts' = p.records parts
  sane : r₀.provider.Sane r₀.workspace.files
  overlay : r₀.provider.overlay = []
  calm : r₀.coordinator = .running ∧ r₀.closing = false ∧ r₀.inbox = [] ∧
    (∀ w ∈ r₀.workers, w.stage = .idle) ∧ r₀.queue.isIdle = true

omit [Workshop W] in
theorem Pipeline.records_alike (hroot : r₀.provider.store.root? =
      p.provider.store.root?) (hk : ∀ part ∈ parts, part.Known p.workspace.files)
    (ha : List.Forall₂ (Part.Alike p.workspace.files r₀.workspace.files) parts parts') :
    r₀.records parts' = p.records parts := by
  induction ha with
  | nil => rfl
  | cons hfirst _ ih =>
    obtain ⟨hpart, hrest⟩ := List.forall_mem_cons.mp hk
    rw [Pipeline.records, Pipeline.records, Provider.records_cons hpart,
      Provider.records_cons hfirst.known, Part.keyIn_alike hfirst, ← Pipeline.records,
      ← Pipeline.records, ih hrest, RecordStore.documents_congr hroot]

theorem Pipeline.Again.renewed (ha : Again q parts changed r₀ parts') (hs : Started o p parts sets)
    (hr : Outturn p q outcome h made) (hidle : q.queue.isIdle = true) :
    Renewed p parts r₀ parts' := by
  obtain ⟨hclosing, hinbox, hworkers⟩ := hr.calm
  have hroot : r₀.provider.store.root? = p.provider.store.root? := by
    cases ha with
    | same => exact congrArg (·.store.root?) hr.provider
    | anew => exact congrArg (·.store.root?) hr.provider
  cases ha with
  | same live =>
    have halike : List.Forall₂ (Part.Alike p.workspace.files q.workspace.files) parts parts := by
      rw [hr.files]
      exact List.forall₂_same.mpr fun part hpart =>
        Part.alike_refl (hs.known part hpart).1 (hs.known part hpart).2
    refine ⟨halike, records_alike hroot hs.known halike, ?_, ?_, live, hclosing, hinbox, hworkers,
      hidle⟩
    · show q.provider.Sane q.workspace.files
      rw [hr.provider, hr.files]
      exact hs.sane
    · show q.provider.overlay = []
      rw [hr.provider]
      exact hs.overlay
  | anew _ alike =>
    rw [hr.files] at alike
    refine ⟨alike, records_alike hroot hs.known alike, Provider.sane_start _ _, rfl, rfl, rfl, rfl,
      fun w hw => ?_, rfl⟩
    obtain ⟨scope, _, rfl⟩ := List.mem_map.mp hw
    rfl

section

variable [LawfulWorkshop W]

/-- The second time nothing is scanned that reads a file, and the tasks are alike. -/
theorem Pipeline.Again.submitted (ha : Again q parts changed r₀ parts')
    (hs : Started o p parts sets) (hr : Outturn p q outcome h made) (hidle : q.queue.isIdle = true)
    (hu : p.Undisturbed parts made changed) (hkeys : KeysApart p.workspace.files parts)
    (hfits : ∀ part ∈ parts, ∀ report,
      Workshop.answer o.workspace.world (part.asked p.workspace.files []) = .ok report →
      (part.recordOf p.workspace.files report o.workspace.world).Fits) (extra : List String) :
    ∃ sets' more, let r := r₀.handle (.addParts parts' extra)
      Submitted r₀ parts' extra sets' r ∧
      List.Forall₂ (TaskSet.Alike p.workspace.files r.workspace.files) sets sets' ∧
      Workshop.requests r.workspace.world = Workshop.requests r₀.workspace.world ++ more ∧
      ∀ request ∈ more, ∃ part ∈ parts, request.part = part.id ∧ p.provider.ReadsNothing part.id := by
  have hn := ha.renewed hs hr hidle
  have hold := List.forall₂_same.mp (forall₂_meet hn.alike hn.alike)
  have hknown : ∀ part ∈ parts', part.Known r₀.workspace.files := by
    intro part' hpart'
    obtain ⟨part, _, halike, _⟩ := hold part' hpart'
    exact halike.known
  have hkeys' : KeysApart r₀.workspace.files parts' := by
    refine ⟨?_, fun part' hpart' other' hother' hkey => ?_⟩
    · have hids : parts.map (·.id) = parts'.map (·.id) :=
        List.forall₂_eq_eq_eq ▸ List.rel_map (fun _ _ halike => halike.id.symm) hn.alike
      exact hids ▸ hkeys.1
    · obtain ⟨part, hpart, halike, _⟩ := hold part' hpart'
      obtain ⟨other, hother, halike', _⟩ := hold other' hother'
      rw [Part.keyIn_alike halike, Part.keyIn_alike halike'] at hkey
      rw [halike.id, halike'.id]
      exact hkeys.2 part hpart other hother hkey
  have hrecalled : List.Forall₂ (fun part set => ∃ old d rec, Recalled p.workspace.files
      (p.records parts) p.provider.ReadsNothing r₀.provider r₀.workspace part set old d rec)
      parts' sets := by
    refine (forall₂_meet hs.recorded hn.alike).imp ?_
    rintro part' set ⟨part, hpart, halike, report, v, d, hrec⟩
    refine ⟨part, d, _, hrec.recalled hpart hs hr ha hu (hfits part hpart report hrec.answer) ?_⟩
    rw [hr.files]
    exact halike
  obtain ⟨sets', p', ws', more, hcollect, _, hsets, hrequests, hmore⟩ :=
    collectTasks_again hknown hn.sane hkeys' hn.overlay
      (show r₀.records parts' ⊆ p.records parts by rw [hn.records]; exact List.Subset.refl _)
      hrecalled
  obtain ⟨sets'', hsubmitted⟩ := Pipeline.submitted extra hknown hn.sane
  obtain ⟨hsets'', hrest⟩ := Prod.mk.inj (hsubmitted.collect.symm.trans hcollect)
  obtain ⟨hp', hws'⟩ := Prod.mk.inj hrest
  obtain rfl := Except.ok.inj hsets''
  subst hp' hws'
  refine ⟨sets'', more, hsubmitted, hsets, hrequests, fun request hmem => ?_⟩
  obtain ⟨part', hpart', hid, hnothing⟩ := hmore request hmem
  obtain ⟨part, hpart, halike, _⟩ := hold part' hpart'
  rw [halike.id] at hid hnothing
  exact ⟨part, hpart, hid, hnothing⟩

omit [Workshop W] [LawfulWorkshop W] in
/-- A task that a call leaves merged was handed in with it, if the call was the first one. -/
theorem Merger.submitted_of_first {extra : List String} (hw : (MergerCall.merge sets extra).WellFormed)
    (hd : (MergerCall.merge sets extra).Separate)
    (ht : t ∈ (Merger.empty.merge sets extra).1.get s) :
    ∃ u ∈ (MergerCall.merge sets extra).submitted s, u.mergeKey = t.mergeKey := by
  obtain ⟨u, rest, hfilter, _⟩ := (grouped_merge hw hd).2.folds t ht
  have hmem : u ∈ ((MergerCall.merge sets extra).submitted s).filter (·.mergeKey = t.mergeKey) := by
    rw [hfilter]
    exact List.mem_cons_self
  exact ⟨u, (List.mem_filter.mp hmem).1, of_decide_eq_true (List.mem_filter.mp hmem).2⟩

omit [LawfulWorkshop W] in
/-- The same pipeline merges the same tasks once more. -/
theorem Pipeline.merger_again (hr : Outturn p q outcome h made) {w : W} {extra : List String}
    {sets' : List TaskSet} {r : Pipeline W}
    (hp : Collected p.workspace.files parts sets ∧ p.merger = (Merger.empty.merge sets extra).1)
    (hids : (parts.map (·.id)).Nodup)
    (hs : Submitted { q with workspace := { q.workspace with world := w } } parts extra sets' r)
    (hsets : List.Forall₂ (TaskSet.Alike p.workspace.files r.workspace.files) sets sets') :
    sets = sets' ∧ r.merger = p.merger := by
  have hext : r.workspace.files.Extends p.workspace.files := hr.files ▸ hs.forward.files
  obtain rfl : sets = sets' := by
    exact List.forall₂_eq_eq_eq ▸ hsets.imp fun _ _ hab => (TaskSet.Alike.eq hab hext).symm
  refine ⟨rfl, ?_⟩
  have hmerged : r.merger = (q.merger.merge sets extra).1 := by rw [hs.shape]
  have hsettled := Merger.call_settles .empty (hp.1.wellFormed extra) (hp.1.separate extra hids)
  have hagain := congrArg Prod.fst (Merger.call_of_settled hsettled)
  rw [hmerged, hr.merger, hp.2]
  exact hagain

omit [LawfulWorkshop W] in
/-- The second time the same tasks are merged, and a call that hands in all of them is admissible. -/
theorem Pipeline.Again.merged (ha : Again q parts changed r₀ parts') (hr : Outturn p q outcome h made)
    {extra : List String} {sets' : List TaskSet} {r : Pipeline W}
    (hp : Collected p.workspace.files parts sets ∧ p.merger = (Merger.empty.merge sets extra).1)
    (hids : (parts.map (·.id)).Nodup ∧ (parts'.map (·.id)).Nodup)
    (hs : Submitted r₀ parts' extra sets' r)
    (hsets : List.Forall₂ (TaskSet.Alike p.workspace.files r.workspace.files) sets sets')
    (hc : CollisionFree r.merger.keyTexts) :
    ∃ calls, Admissible (calls ++ [.merge sets' extra]) ∧ r₀.merger = Merger.after calls ∧
      r.merger = Merger.after (calls ++ [.merge sets' extra]) ∧
      (∀ s, List.Forall₂ (Task.Alike p.workspace.files r.workspace.files) (p.merger.get s)
        (r.merger.get s)) ∧
      ∀ s, ∀ t ∈ r.merger.get s, ∃ u ∈ (MergerCall.merge sets' extra).submitted s,
        u.mergeKey = t.mergeKey := by
  obtain ⟨hcollected, hmerger⟩ := hp
  have hw := hcollected.wellFormed extra
  have hd := hcollected.separate extra hids.1
  have hw' := hs.collected.wellFormed extra
  have hd' := hs.collected.separate extra hids.2
  have hmerged : r.merger = (r₀.merger.merge sets' extra).1 := by rw [hs.shape]
  cases ha with
  | same =>
    have hext : r.workspace.files.Extends p.workspace.files := hr.files ▸ hs.forward.files
    obtain ⟨rfl, hagain⟩ := merger_again hr ⟨hcollected, hmerger⟩ hids.1 hs hsets
    rw [hmerger] at hagain
    have hone := admissible_merge hw hd (hagain ▸ hc)
    refine ⟨[.merge sets extra], ⟨?_, ?_⟩, ?_, ?_, fun s => ?_, fun s t ht => ?_⟩
    · simpa using hw
    · refine hone.keys.mono ?_
      simp
    · exact hr.merger.trans hmerger
    · rw [Merger.after_append, hmerged]
      exact congrArg (fun m : Merger => (m.merge sets extra).1) (hr.merger.trans hmerger)
    · rw [hmerger, hagain]
      refine List.forall₂_same.mpr fun t ht => ?_
      have hknown := hcollected.known_merged extra hids.1 t ht
      exact Task.alike_of_extends hext (hknown.mono (List.subset_append_left _ _))
        (hknown.mono (List.subset_append_right _ _))
    · rw [hagain] at ht
      exact Merger.submitted_of_first hw hd ht
  | anew =>
    have hfirst : r.merger = (Merger.empty.merge sets' extra).1 := hmerged
    refine ⟨[], admissible_merge hw' hd' (hfirst ▸ hc), rfl, hfirst, fun s => ?_, fun s t ht => ?_⟩
    · rw [hmerger, hfirst]
      exact Merger.alike_merge hsets s hw hd hw' hd'
    · rw [hfirst] at ht
      exact Merger.submitted_of_first hw' hd' ht

omit [LawfulWorkshop W] in
/-- The second time begins a batch in which every task is ready. -/
theorem Pipeline.Again.idles (ha : Again q parts changed r₀ parts') (hstart : Started o p parts sets)
    (hr : Outturn p q outcome h made) (hleaves : LeavesOutputs W)
    (hbuild : ∀ j, Workshop.refusal p.workspace.world j = none)
    (hidle : q.queue.isIdle = true) (hu : p.Undisturbed parts made changed) {extra : List String}
    {sets' : List TaskSet} {r : Pipeline W} (hs : Submitted r₀ parts' extra sets' r)
    {calls : List MergerCall} (hcalls : Admissible (calls ++ [.merge sets' extra]))
    (hm : r₀.merger = Merger.after calls)
    (hm' : r.merger = Merger.after (calls ++ [.merge sets' extra]))
    (halike : ∀ s, List.Forall₂ (Task.Alike p.workspace.files r.workspace.files) (p.merger.get s)
      (r.merger.get s))
    (hall : ∀ s, ∀ t ∈ r.merger.get s, ∃ u ∈ (MergerCall.merge sets' extra).submitted s,
      u.mergeKey = t.mergeKey)
    (hsources : ∀ s, ∀ t ∈ p.merger.get s, p.workspace.files.names t.sources ⊆
      p.workspace.files.names p.provider.dependencyFiles) :
    Idles r.merger r₀.notices r h r ∧ ∀ s, ∀ t ∈ r.merger.get s,
      ∃ o, Build.Ready r.workspace.files r.artifacts.documents r.workspace.world h s t o := by
  have hn := ha.renewed hstart hr hidle
  obtain ⟨hlive, hopen, hinbox, hworkers, hidle₀⟩ := hn.calm
  have hart : r.artifacts = q.artifacts := by
    rw [hs.shape]
    cases ha <;> rfl
  -- since the first time, only files at `changed` and records have changed
  have hspares : Spares (changed ++ p.records parts) q.workspace.world r.workspace.world := by
    have hrecords := hs.forward.spares
    rw [show r₀.provider.records r₀.workspace.files parts' = p.records parts from hn.records]
      at hrecords
    exact ha.spares.trans hrecords
  refine ⟨Idles.start ?_ ?_ ?_, fun s t' ht' => ?_⟩
  · rw [hm']
    refine Batch.start hcalls hm hidle₀ hworkers hinbox hlive hopen (fun s t ht => ?_) ?_
    · exact hall s t (hm' ▸ ht)
    · rw [hs.shape]
      rfl
  · rw [hart]
    refine hr.shows.spared hspares fun y hy d hd => ?_
    rcases List.mem_append.mp hy with hy | hy
    · refine hu.written y hy d ?_
      rw [hr.documents] at hd
      simp only [List.mem_append]
      tauto
    · exact Provider.records_beside hstart.known _ y hy d hd
  · rw [hs.shape]
    exact hworkers
  · obtain ⟨t, ht, hta, _⟩ :=
      List.forall₂_same.mp (forall₂_meet (halike s) (halike s)) t' ht'
    rw [hart, hr.documents]
    refine hr.ready hleaves hbuild (hr.merger ▸ ht) hta hspares (fun x hx y hy => ?_) fun y hy j hj => ?_
    · refine hu.read x (hsources s t ht hx) y ?_
      simp only [List.mem_append] at hy ⊢
      tauto
    · rcases List.mem_append.mp hy with hy | hy
      · refine hu.written y hy _ ?_
        simp only [List.mem_append]
        exact Or.inr (List.mem_map_of_mem hj)
      · obtain ⟨bytes, hy'⟩ := Provider.ends_of_mem_records hstart.known hy
        exact hr.not_same_output hj hy'

omit [LawfulWorkshop W] in
/-- Sources of tasks are files that parts read. -/
theorem Pipeline.Started.sources (hs : Started o p parts sets) {extra : List String}
    (hp : Collected p.workspace.files parts sets ∧ p.merger = (Merger.empty.merge sets extra).1)
    (hids : (parts.map (·.id)).Nodup) (ht : t ∈ p.merger.get s) :
    p.workspace.files.names t.sources ⊆ p.workspace.files.names p.provider.dependencyFiles := by
  obtain ⟨hcollected, hmerger⟩ := hp
  rw [hmerger] at ht
  have hgrouped : Merger.Grouped ((MergerCall.merge sets extra).submitted s)
      ((Merger.empty.merge sets extra).1.get s) :=
    (Merger.grouped_merge (hcollected.wellFormed extra) (hcollected.separate extra hids)).2
  have hsub : t.sources ⊆ p.provider.dependencyFiles := by
    refine hgrouped.forall_of_absorb (P := fun t => t.sources ⊆ p.provider.dependencyFiles)
      (fun u hu => ?_) (fun t u ht hu _ f hf => ?_) ht
    · obtain ⟨set, hset, rfl⟩ := List.mem_map.mp hu
      obtain ⟨part, _, ⟨_, _, d, hrec⟩, _⟩ :=
        List.forall₂_same.mp (forall₂_meet hs.recorded hs.recorded) set hset
      intro f hf
      rw [show (Merger.withExtra extra (set.get s)).sources = ((part.tasks d).get s).sources from by
        rw [hrec.tasks]; rfl] at hf
      have hread := (Part.tasks_within part d s).2 (List.mem_append_right _ hf)
      exact Provider.mem_dependencyFiles hrec.known (List.mem_append_left _ hread)
    · exact (Task.mem_appendNew.mp hf).elim (@ht f) (@hu f)
  intro x hx
  obtain ⟨f, hf, hp⟩ := List.mem_filterMap.mp hx
  exact List.mem_filterMap.mpr ⟨f, hsub hf, hp⟩

/-- What the same parts come to when `r₀` has taken them up again, which left `z` in the end: no part
is scanned for which a file is read, no compiler is run, every task with includes is announced as
built by using its artifact again, and the store holds what it held, so all headers are where they
were. -/
structure Pipeline.Repeated (p r₀ z : Pipeline W) (parts : List Part) (h : Holdings)
    (again : Scope → Task → Outcome) : Prop where
  requests : ∃ more, Workshop.requests z.workspace.world =
      Workshop.requests r₀.workspace.world ++ more ∧
    ∀ request ∈ more, ∃ part ∈ parts, request.part = part.id ∧ p.provider.ReadsNothing part.id
  jobs : Workshop.jobs z.workspace.world = Workshop.jobs r₀.workspace.world
  shows : z.artifacts.Shows z.workspace.world h
  tasks : ∀ s, List.Forall₂ (Task.Alike p.workspace.files z.workspace.files) (p.merger.get s)
    (z.merger.get s)
  notices : ∀ s, ((z.notices.filter (·.scope = s)).map Notice.gist).Perm
    ((r₀.notices.filter (·.scope = s)).map Notice.gist ++
      (z.merger.get s).map fun t => (s, t.members, again s t))
  empty : ∀ s, ∀ t ∈ z.merger.get s, t.includes = [] → again s t = .empty
  reused : ∀ s, ∀ t ∈ z.merger.get s, t.includes ≠ [] → ∃ path, again s t = .built path true ∧
    ∀ i ∈ t.members, h.header i s = some path

theorem Pipeline.Again.repeated (ha : Again q parts changed r₀ parts') (hs : Started o p parts sets)
    (hr : Outturn p q outcome h made) (hleaves : LeavesOutputs W)
    (hbuild : ∀ j, Workshop.refusal p.workspace.world j = none)
    (hidle : q.queue.isIdle = true) (hu : p.Undisturbed parts made changed)
    (hkeys : KeysApart p.workspace.files parts)
    (hfits : ∀ part ∈ parts, ∀ report,
      Workshop.answer o.workspace.world (part.asked p.workspace.files []) = .ok report →
      (part.recordOf p.workspace.files report o.workspace.world).Fits) {extra : List String}
    (hp : Collected p.workspace.files parts sets ∧ p.merger = (Merger.empty.merge sets extra).1)
    (others : List Step) :
    let r := r₀.handle (.addParts parts' extra)
    CollisionFree r.merger.keyTexts → (r.after others).queue.isIdle = true →
    ∃ again, Repeated p r₀ (r.after others) parts h again := by
  intro r hc hend
  obtain ⟨sets', more, hsubmitted, hsets, hrequests, hmore⟩ :=
    ha.submitted hs hr hidle hu hkeys hfits extra
  have hids : (parts'.map (·.id)).Nodup := by
    have hsame : parts.map (·.id) = parts'.map (·.id) := List.forall₂_eq_eq_eq ▸
      List.rel_map (fun _ _ halike => halike.id.symm) (ha.renewed hs hr hidle).alike
    exact hsame ▸ hkeys.1
  obtain ⟨calls, hcalls, hbefore, hafter, halike, hall⟩ :=
    ha.merged hr hp ⟨hkeys.1, hids⟩ hsubmitted hsets hc
  obtain ⟨hidles, hready⟩ := ha.idles hs hr hleaves hbuild hidle hu hsubmitted hcalls hbefore hafter halike
    hall fun s t ht => hs.sources hp hkeys.1 ht
  have hdistinct : r.merger.Distinct := hafter ▸ Merger.distinct_after hcalls
  have hnotices : (r₀.handle (.addParts parts' extra)).notices = r₀.notices := by
    rw [hsubmitted.shape]
  rw [← hnotices] at hidles
  have hz := hidles.after hdistinct hready others
  obtain ⟨again, hreused⟩ := Reused.of_idles hz hdistinct hend
  obtain ⟨_, _, hwarm⟩ := hz
  have hfiles : (r.after others).workspace.files = r.workspace.files := hwarm.files
  refine ⟨again, ⟨more, ?_, hmore⟩, ?_, hreused.shows, fun s => ?_, ?_, fun s t ht hi => ?_,
    fun s t ht hi => ?_⟩
  · exact hreused.quiet.1.trans hrequests
  · exact hreused.quiet.2.trans hsubmitted.forward.jobs
  · rw [hreused.merger, hfiles]
    exact halike s
  · rw [← hnotices]
    exact hreused.notices
  · have hready := hreused.ready s t ht
    generalize again s t = result at hready ⊢
    cases hready with
    | empty => rfl
    | built includes => exact absurd hi includes
  · have hready := hreused.ready s t ht
    generalize again s t = result at hready ⊢
    cases hready with
    | empty includes => exact absurd includes hi
    | built _ _ _ headers => exact ⟨_, rfl, headers⟩

variable {ws : Workspace W} {dir : FilePath} {records : RecordStore} {artifacts : ArtifactStore}
  {workers : List Scope} {exits watches : Bool}

/-- A fresh pipeline `o` has taken up its first batch, and all that the scans said can be recorded. -/
structure Pipeline.Repeatable (o p : Pipeline W) (parts : List Part) (extra : List String)
    (sets : List TaskSet) : Prop where
  begun : Begun o p parts extra sets
  started : Started o p parts sets
  keys : KeysApart p.workspace.files parts
  fits : ∀ part ∈ parts, ∀ report,
    Workshop.answer o.workspace.world (part.asked p.workspace.files []) = .ok report →
    (part.recordOf p.workspace.files report o.workspace.world).Fits

theorem Pipeline.repeatable (extra : List String) (hids : (parts.map (·.id)).Nodup)
    (hknown : ∀ part ∈ parts, part.Known ws.files) (hempty : artifacts.Shows ws.world .empty)
    (hrecords : ∀ key, records.load ws.world key = .ok none)
    (hscan : ∀ part ∈ parts, ∃ report,
      Workshop.answer ws.world (part.asked ws.files []) = .ok report ∧
        (part.recordOf ws.files report ws.world).Fits) :
    let o := start ws dir records artifacts workers exits watches
    let p := o.handle (.addParts parts extra)
    Apart (parts.map (fun part => Text.Utf8.encode (part.keyText ws.files)) ++
      p.merger.keyTexts.map Text.Utf8.encode) → ∃ sets, Repeatable o p parts extra sets := by
  intro o p hapart
  obtain ⟨sets, hbegun⟩ := begun extra hids hknown hempty
    (hapart.collisionFree (List.subset_append_right _ _))
  have hkeys : KeysApart ws.files parts :=
    keysApart_of_apart hids hapart (List.subset_append_left _ _)
  have hext : p.workspace.files.Extends ws.files := hbegun.submitted.forward.files
  refine ⟨sets, hbegun, ?_, hkeys.extends hext hknown, fun part hpart report hreport => ?_⟩
  · exact started hbegun.submitted hknown hkeys hrecords fun part hpart =>
      (hscan part hpart).imp fun _ hreport => hreport.1
  · obtain ⟨report', hreport', hfits⟩ := hscan part hpart
    rw [Part.asked_extends (hknown part hpart) hext] at hreport
    obtain rfl := Except.ok.inj (hreport'.symm.trans hreport)
    rw [Part.recordOf_extends (hknown part hpart) hext]
    exact hfits

/-- A warm second start. After a first batch in which every scan and every build went well, and every
build left its output behind, the same parts are handed in again, to the same pipeline or to a new one
over the same stores, and no file that they read has changed. Then no part is scanned for which a file
is read, no compiler is run, every task with includes is announced as built by using its artifact
again, and all headers are where they were. -/
theorem second_start (extra : List String) (steps : List Step) (hids : (parts.map (·.id)).Nodup)
    (hknown : ∀ part ∈ parts, part.Known ws.files) (hempty : artifacts.Shows ws.world .empty)
    (hrecords : ∀ key, records.load ws.world key = .ok none)
    (hscan : ∀ part ∈ parts, ∃ report,
      Workshop.answer ws.world (part.asked ws.files []) = .ok report ∧
        (part.recordOf ws.files report ws.world).Fits)
    (hleaves : LeavesOutputs W) (hbuild : ∀ j, Workshop.refusal ws.world j = none) :
    let p := (Pipeline.start ws dir records artifacts workers exits watches).handle
      (.addParts parts extra)
    let q := p.after steps
    Apart (parts.map (fun part => Text.Utf8.encode (part.keyText ws.files)) ++ p.inputs steps) →
    q.queue.isIdle = true →
    ∃ outcome h made, Outturn p q outcome h made ∧
      ∀ (changed : List FilePath) (r₀ : Pipeline W) (parts' : List Part) (others : List Step),
        q.Again parts changed r₀ parts' → p.Undisturbed parts made changed →
        let r := r₀.handle (.addParts parts' extra)
        CollisionFree r.merger.keyTexts → (r.after others).queue.isIdle = true →
        ∃ again, p.Repeated r₀ (r.after others) parts h again := by
  intro p q hapart hidle
  have hinputs : p.inputs steps ⊆
      parts.map (fun part => Text.Utf8.encode (part.keyText ws.files)) ++ p.inputs steps :=
    List.subset_append_right _ _
  obtain ⟨sets, hp⟩ := Pipeline.repeatable extra hids hknown hempty hrecords hscan
    (hapart.mono (List.append_subset.mpr ⟨List.subset_append_left _ _,
      List.Subset.trans (List.subset_append_left _ _) hinputs⟩))
  obtain ⟨outcome, h, made, hout⟩ := hp.begun.ready.outturn (hapart.mono hinputs) hidle
  refine ⟨outcome, h, made, hout, fun changed r₀ parts' others hagain hundisturbed => ?_⟩
  refine hagain.repeated hp.started hout hleaves (fun j => ?_) hidle hundisturbed hp.keys hp.fits
    ⟨hp.begun.submitted.collected, hp.begun.merger⟩ others
  rw [hp.begun.submitted.forward.spares.refusal]
  exact hbuild j

end

/-! ### Another pipeline over the same stores -/

open Merger (headerTask)

def duoParts : List Part := [plainPart "a", plainPart "b"]

/-- Other numbers for the same files. -/
def renumberedFiles : FileTable := ⟨["/c.h", "/b.h", "/a.h"], by decide⟩

/-- A new pipeline over the stores that the two parts left, in which their headers have other numbers.
Meanwhile somebody wrote to a file that no part reads. -/
def successor : Pipeline WritingBench :=
  let q := (duo []).after firstSteps
  .start ⟨(World.writeText q.workspace.world ⟨"/d.h"⟩ "").2, renumberedFiles⟩ ⟨"/p"⟩ q.provider.store
    q.artifacts [.system, .project] false false

theorem again_successor :
    ((duo []).after firstSteps).Again duoParts [⟨"/d.h"⟩] successor duoParts := by
  refine .anew (LawfulWorkshop.write_spares _ _ _) (List.forall₂_same.mpr fun part hpart => ?_)
  simp only [duoParts, List.mem_cons, List.not_mem_nil, or_false] at hpart
  rcases hpart with rfl | rfl <;> exact ⟨rfl, rfl, .nil, .nil⟩

/-- No file that the two parts read is written by anybody. -/
theorem duo_undisturbed {outcome : Scope → Task → Outcome} {h : Holdings} {made : List Job}
    (hout : Outturn (duo []) ((duo []).after firstSteps) outcome h made) :
    (duo []).Undisturbed duoParts made [⟨"/d.h"⟩] := by
  obtain ⟨_, _, hunaware, hpoised⟩ := poised_duo []
  obtain ⟨records, hstore, _⟩ := hunaware.stored
  have hnone : (duo []).records duoParts = [] := by
    refine List.flatMap_eq_nil_iff.mpr fun part _ => ?_
    rw [hstore]
    split <;> rfl
  have hdocs : (duo []).artifacts.documents = [] := by
    rw [hpoised.artifacts]
    rfl
  constructor
  · rw [hnone, hdocs, hpoised.workspace]
    intro x hx y hy
    obtain ⟨f, _, hpath⟩ := List.mem_filterMap.mp hx
    have hown : x ∈ ["/a.h", "/b.h", "/c.h"] := List.mem_of_getElem? hpath
    rcases List.mem_append.mp hy with hmade | hchanged
    · exact hout.beside (neverMade_trial x (List.mem_append_left ["/d.h"] hown)) y hmade
    · obtain rfl := List.mem_singleton.mp hchanged
      have hapart : ∀ x ∈ ["/a.h", "/b.h", "/c.h"], ¬ (⟨"/d.h"⟩ : FilePath).same ⟨x⟩ := by
        decide +kernel
      exact hapart x hown
  · rw [hnone, hdocs]
    intro y hy path hpath hsame
    obtain rfl := List.mem_singleton.mp hy
    obtain ⟨j, hj, rfl⟩ := List.mem_map.mp hpath
    exact hout.beside (neverMade_trial "/d.h" (by simp)) j.outputPath
      (List.mem_flatMap.mpr ⟨j, hj, by simp [Job.paths]⟩) (FilePath.same_symm hsame)

theorem recordOf_both {id : PartId} {system project : String} (hne : system ≠ project)
    (files : FileTable) (w : WritingBench) :
    (plainPart id).recordOf files (includeBoth system project) w =
      ⟨id, (includeBoth system project).includes, [], [],
        [⟨⟨system⟩, World.modified? w ⟨system⟩⟩, ⟨⟨project⟩, World.modified? w ⟨project⟩⟩]⟩ := by
  have hincludes : Record.includesOf (files.names (plainPart id).ownFiles) (includeBoth system project) =
      (includeBoth system project).includes := by
    rw [Record.includesOf, inOrder_both]
    simp [includeBoth, plainPart, Part.ownFiles, FileTable.names, keepFirst, hne.symm]
  simp only [Part.recordOf, Record.ofReport, hincludes]
  simp [includeBoth, plainPart, FileTable.names, keepFirst, UsedMacro.normalize, hne.symm]

theorem duo_scans : ∀ part ∈ duoParts, ∃ report,
    Workshop.answer (trioBench []) (part.asked .empty []) = .ok report ∧
      (part.recordOf .empty report (trioBench [])).Fits := by
  have hfits : ∀ (id : PartId) (system project : String), system ≠ project →
      (∀ path ∈ [system, project], World.modified? (trioBench []) ⟨path⟩ ∈ [some 1, some 2, some 3]) →
      ((plainPart id).recordOf .empty (includeBoth system project) (trioBench [])).Fits := by
    intro id system project hne hstamps
    rw [recordOf_both hne]
    refine ⟨by simp [includeBoth, UInt32.size], by simp, fun s hs t ht => ?_⟩
    obtain ⟨path, hpath, rfl⟩ : ∃ path ∈ [system, project],
        s = ⟨⟨path⟩, World.modified? (trioBench []) ⟨path⟩⟩ := by simpa using hs
    have hmem := hstamps path hpath
    rw [show World.modified? (trioBench []) ⟨path⟩ = some t from ht] at hmem
    simp only [List.mem_cons, Option.some.injEq, List.not_mem_nil, or_false] at hmem
    rcases hmem with rfl | rfl | rfl <;> decide
  intro part hpart
  simp only [duoParts, List.mem_cons, List.not_mem_nil, or_false] at hpart
  rcases hpart with rfl | rfl
  · exact ⟨_, rfl, hfits "a" "/a.h" "/b.h" (by decide) (by decide +kernel)⟩
  · exact ⟨_, rfl, hfits "b" "/c.h" "/b.h" (by decide) (by decide +kernel)⟩

theorem duo_apart : Apart (duoParts.map (fun part => Text.Utf8.encode (part.keyText .empty)) ++
    (duo []).inputs firstSteps) := by
  obtain ⟨hmerger, _, _, hpoised⟩ := poised_duo []
  have hparts : (duoParts.map fun part => Text.Utf8.encode (part.keyText .empty)).map digest = _ :=
    congrArg (List.take 2) evaluated.parts
  refine apart_of_nodup ?_
  rw [List.map_append, hparts, lends.inputs hmerger hpoised]
  decide

/-- A task with one header has another number in another table. -/
theorem alike_headerTask {t u : FileTable} {n m : Nat} {path : String} (ht : t.path? ⟨n⟩ = some path)
    (hu : u.path? ⟨m⟩ = some path) (members : List PartId) :
    Task.Alike t u (headerTask members n) (headerTask members m) :=
  ⟨rfl, .cons ⟨path, ht, hu⟩ .nil, .cons ⟨path, ht, hu⟩ .nil, rfl, rfl⟩

/-- The tasks of the two parts in the other pipeline. -/
theorem renumbered_sets {files : FileTable} (hfiles : files.Extends renumberedFiles)
    {sets : List TaskSet} (h : List.Forall₂ (TaskSet.Alike trioFiles files)
      [⟨headerTask ["a"] 0, headerTask ["a"] 1⟩, ⟨headerTask ["b"] 2, headerTask ["b"] 1⟩] sets) :
    sets = [⟨headerTask ["a"] 2, headerTask ["a"] 1⟩, ⟨headerTask ["b"] 0, headerTask ["b"] 1⟩] := by
  have hunique : Relator.RightUnique (TaskSet.Alike trioFiles files) := fun a b c hb hc =>
    congrArg₂ PerScope.mk ((hb .system).unique (hc .system)) ((hb .project).unique (hc .project))
  refine hunique.forall₂ h (.cons (fun s => ?_) (.cons (fun s => ?_) .nil)) <;> cases s
  · exact alike_headerTask rfl (hfiles.path? (show _ = some "/a.h" from rfl)) _
  · exact alike_headerTask rfl (hfiles.path? (show _ = some "/b.h" from rfl)) _
  · exact alike_headerTask rfl (hfiles.path? (show _ = some "/c.h" from rfl)) _
  · exact alike_headerTask rfl (hfiles.path? (show _ = some "/b.h" from rfl)) _

theorem duoParts_known (files : FileTable) : ∀ part ∈ duoParts, part.Known files := by
  intro part hpart
  simp only [duoParts, List.mem_cons, List.not_mem_nil, or_false] at hpart
  rcases hpart with rfl | rfl <;> exact plainPart_known _ _

theorem duo_repeatable : Pipeline.Repeatable (trial (trioBench [])) (duo []) duoParts []
    [⟨headerTask ["a"] 0, headerTask ["a"] 1⟩, ⟨headerTask ["b"] 2, headerTask ["b"] 1⟩] := by
  have hapart : Apart (duoParts.map (fun part => Text.Utf8.encode (part.keyText .empty)) ++
      (duo []).merger.keyTexts.map Text.Utf8.encode) := duo_apart.mono (List.append_subset.mpr
    ⟨List.subset_append_left _ _, fun x hx => List.mem_append_right _ (List.mem_append_left _ hx)⟩)
  obtain ⟨sets, hp⟩ : ∃ sets, Pipeline.Repeatable (trial (trioBench [])) (duo []) duoParts [] sets :=
    Pipeline.repeatable [] (by decide) (duoParts_known _) (ArtifactStore.shows_memory_empty _)
      (fun _ => rfl) duo_scans hapart
  obtain ⟨provider, hcollect, _⟩ := collect_first []
  obtain rfl := Except.ok.inj (congrArg Prod.fst (hp.begun.submitted.collect.symm.trans hcollect))
  exact hp

/-- What the other pipeline makes of the two parts. -/
theorem successor_merges {outcome : Scope → Task → Outcome} {h : Holdings} {made : List Job}
    (hout : Outturn (duo []) ((duo []).after firstSteps) outcome h made) :
    let r := successor.handle (.addParts duoParts [])
    r.merger = ⟨[headerTask ["a"] 2, headerTask ["b"] 0], [headerTask ["a", "b"] 1]⟩ ∧ r.Quiet ∧
      r.workers = [⟨.system, .idle⟩, ⟨.project, .idle⟩] := by
  intro r
  obtain ⟨_, _, _, hpoised⟩ := poised_duo []
  have hp := duo_repeatable
  obtain ⟨sets, _, hsubmitted, hsets, _⟩ := again_successor.submitted hp.started hout
    (lends.first_steps hpoised).2.2.isIdle (duo_undisturbed hout) hp.keys hp.fits []
  rw [hpoised.workspace] at hsets
  obtain rfl := renumbered_sets hsubmitted.forward.files hsets
  have hkeys : (headerTask ["a"] 2).key .system ≠ (headerTask ["b"] 0).key .system :=
    keys_apart.symm
  exact ⟨(congrArg Pipeline.merger hsubmitted.shape).trans (congrArg Prod.fst (merge_two hkeys)),
    hsubmitted.quiet ⟨rfl, rfl, rfl, rfl, rfl⟩, congrArg Pipeline.workers hsubmitted.shape⟩

/-- The two parts are handed in to the other pipeline, in which their system headers have changed
numbers. -/
theorem second_start_renumbered : ∃ outcome h made others again,
    Outturn (duo []) ((duo []).after firstSteps) outcome h made ∧
    (duo []).merger.system = [headerTask ["a"] 0, headerTask ["b"] 2] ∧
    (successor.handle (.addParts duoParts [])).merger.system =
      [headerTask ["a"] 2, headerTask ["b"] 0] ∧
    ((successor.handle (.addParts duoParts [])).after others).queue.isIdle = true ∧
    (duo []).Repeated successor ((successor.handle (.addParts duoParts [])).after others) duoParts h
      again := by
  obtain ⟨hstart, _, _, hpoised⟩ := poised_duo []
  obtain ⟨outcome, h, made, hout, hagain⟩ := @second_start _ _ _ _ ⟨trioBench [], .empty⟩ ⟨"/p"⟩
    (.memory {}) (.memory .empty) [.system, .project] false false [] firstSteps (by decide)
    (duoParts_known _) (ArtifactStore.shows_memory_empty _) (fun _ => rfl) duo_scans
    WritingBench.leavesOutputs (refuses_nothing rfl) duo_apart (lends.first_steps hpoised).2.2.isIdle
  change Outturn (duo []) ((duo []).after firstSteps) outcome h made at hout
  obtain ⟨hmerger, hquiet, hworkers⟩ := successor_merges hout
  have hcollision : CollisionFree (successor.handle (.addParts duoParts [])).merger.keyTexts := by
    have hdigests : ([Task.keyText .system (headerTask ["a"] 2).mergeKey,
        Task.keyText .system (headerTask ["b"] 0).mergeKey,
        Task.keyText .project (headerTask ["a", "b"] 1).mergeKey].map digestText).Nodup := by
      have hfirst : digestText (Task.keyText .system (headerTask ["a"] 2).mergeKey) = _ := evaluated.keyC
      have hlast : digestText (Task.keyText .system (headerTask ["b"] 0).mergeKey) = _ := evaluated.keyA
      have hshared : digestText (Task.keyText .project (headerTask ["a", "b"] 1).mergeKey) = _ :=
        evaluated.keyShared
      simp only [List.map_cons, List.map_nil, hfirst, hlast, hshared]
      decide
    rw [hmerger]
    exact List.inj_on_of_nodup_map hdigests
  obtain ⟨others, hidle⟩ := hquiet.gets_idle fun s => by
    rw [hworkers]
    cases s
    · exact ⟨0, rfl⟩
    · exact ⟨1, rfl⟩
  obtain ⟨again, hrepeated⟩ :=
    hagain _ _ _ others again_successor (duo_undisturbed hout) hcollision hidle
  exact ⟨outcome, h, made, others, again, hout, congrArg PerScope.system hstart,
    congrArg PerScope.system hmerger, hidle, hrepeated⟩

end PrecompiledHeaders
