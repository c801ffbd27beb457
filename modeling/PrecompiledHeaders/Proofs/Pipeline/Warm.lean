import PrecompiledHeaders.Proofs.Pipeline.Making
/-! A batch with nothing to do. If the store has the artifact of every task, and every member has it
as its header, then no compiler is run, and the store holds what it held. -/
namespace PrecompiledHeaders

open Pipeline (onHand)

variable {W : Type} [Workshop W]

/-- What a build of the task would come to without a compiler: there is nothing to build, or the
artifact is there. Its members have their headers already, and writing to `docs` changes nothing of
this. -/
inductive Build.Ready (files : FileTable) (docs : List FilePath) (w : W) (h : Holdings) (s : Scope)
    (t : Task) : Outcome → Prop where
  | empty (includes : t.includes = []) (headers : ∀ i ∈ t.members, h.header i s = none) :
      Ready files docs w h s t .empty
  | built {path : FilePath} (includes : t.includes ≠ []) (known : t.Known files)
      (artifact : h.artifact (Build.print files w s t (h.base s t)) = some path)
      (headers : ∀ i ∈ t.members, h.header i s = some path)
      (kept : ∀ v : W, Spares docs w v →
        Build.input files v s t (h.base s t) = Build.input files w s t (h.base s t) ∧
          World.hasFile v path = true) :
      Ready files docs w h s t (.built path true)

variable {o p p' : Pipeline W} {h : Holdings} {s : Scope} {t : Task} {outcome : Outcome}
  {docs : List FilePath} {w v : W} {done : List Completed} {m : Merger} {before : List Notice}
  {i : Nat} {worker : Worker} {stage : Stage}

/-- The members have what they would get. -/
theorem Build.Ready.assign {files : FileTable} (hr : Build.Ready files docs w h s t outcome) :
    h.assign t.members s outcome.header? = h := by
  have hheaders : ∀ i ∈ t.members, h.header i s = outcome.header? := by
    cases hr with
    | empty _ headers => exact headers
    | built _ _ _ headers _ => exact headers
  ext1
  · rfl
  · funext i s'
    by_cases hi : i ∈ t.members ∧ s' = s
    · obtain ⟨hi, rfl⟩ := hi
      rw [Holdings.header_assign_of_mem _ hi, hheaders i hi]
    · exact Holdings.header_assign_of_not _ (fun hmem hs => hi ⟨hmem, hs⟩) _

theorem Build.Ready.plan {ws : Workspace W} {store : ArtifactStore}
    (hr : Build.Ready ws.files docs w h s t outcome) (hi : t.includes ≠ [])
    (hs : store.Shows ws.world h) (hw : Spares docs w ws.world) (dir : FilePath) :
    Build.plan dir store ws (t.key s) s t (h.base s t) = .settled outcome := by
  cases hr with
  | empty includes _ => exact absurd includes hi
  | @built path _ known artifact _ kept =>
    obtain ⟨hinput, hfile⟩ := kept ws.world hw
    have hready : Build.ready? ws.files ws.world h s t (h.base s t) = some path := by
      rw [Build.ready?, Build.print_congr hinput, artifact, Option.filter_some, if_pos hfile]
    rw [Build.plan_spec hs dir s known, hready]

/-- The batch that began at `o` has changed nothing: the store holds `h` as before. -/
structure Warm (o : Pipeline W) (h : Holdings) (p : Pipeline W) (done : List Completed) : Prop where
  files : p.workspace.files = o.workspace.files
  documents : p.artifacts.documents = o.artifacts.documents
  shows : p.artifacts.Shows p.workspace.world h
  spares : Spares o.artifacts.documents o.workspace.world p.workspace.world
  quiet : Quiet o.workspace.world p.workspace.world
  based : ∀ x ∈ p.based, x.1.task.includes ≠ [] ∧ x.2 = h.base x.1.scope x.1.task
  compiles : p.compiles = []
  settled : ∀ e ∈ p.ended ++ done,
    Build.Ready o.workspace.files o.artifacts.documents o.workspace.world h e.scope e.task e.outcome

namespace Warm

theorem start (hs : o.artifacts.Shows o.workspace.world h) (hw : ∀ w ∈ o.workers, w.stage = .idle) :
    Warm o h o [] := by
  have hnone : ∀ {α : Type} (f : Stage → Option α), f .idle = none → onHand f o.workers = [] :=
    fun f hf => List.filterMap_eq_nil_iff.mpr fun w hmem => by rw [hw w hmem, hf]
  refine ⟨rfl, rfl, hs, Spares.refl _ _, Quiet.refl _, fun x hx => ?_, hnone _ rfl, fun e he => ?_⟩
  · rw [Pipeline.based, hnone _ rfl] at hx
    exact absurd hx List.not_mem_nil
  · rw [Pipeline.ended, hnone _ rfl] at he
    exact absurd he List.not_mem_nil

theorem congr (hm : Warm o h p done) (hp : p'.workspace = p.workspace ∧
    p'.artifacts = p.artifacts ∧ p'.workers = p.workers) : Warm o h p' done := by
  obtain ⟨hws, hart, hworkers⟩ := hp
  have hbased : p'.based = p.based := congrArg (onHand Stage.based?) hworkers
  have hcompiles : p'.compiles = p.compiles := congrArg (onHand Stage.compiles?) hworkers
  have hended : p'.ended = p.ended := congrArg (onHand Stage.completed?) hworkers
  constructor
  · rw [hws]; exact hm.files
  · rw [hart]; exact hm.documents
  · rw [hws, hart]; exact hm.shows
  · rw [hws]; exact hm.spares
  · rw [hws]; exact hm.quiet
  · rw [hbased]; exact hm.based
  · rw [hcompiles]; exact hm.compiles
  · rw [hended]; exact hm.settled

/-- A worker goes on to a stage in which no compiler runs. -/
theorem restage (hm : Warm o h p done) (hw : p.workers[i]? = some worker)
    (hp : p'.workspace = p.workspace ∧ p'.artifacts = p.artifacts ∧
      p'.workers = (p.setStage i stage).workers)
    (hbased : ∀ x, stage.based? = some x → x.1.task.includes ≠ [] ∧ x.2 = h.base x.1.scope x.1.task)
    (hcompiles : stage.compiles? = none)
    (hended : ∀ e, stage.completed? = some e → Build.Ready o.workspace.files o.artifacts.documents
      o.workspace.world h e.scope e.task e.outcome) : Warm o h p' done := by
  obtain ⟨hws, hart, hworkers⟩ := hp
  obtain ⟨hbsub, _, _⟩ := Pipeline.onHand_setStage hw stage Stage.based?
  obtain ⟨hsub, _, _⟩ := Pipeline.onHand_setStage hw stage Stage.compiles?
  obtain ⟨hesub, _, _⟩ := Pipeline.onHand_setStage hw stage Stage.completed?
  refine ⟨?_, ?_, ?_, ?_, ?_, fun x hx => ?_, ?_, fun e hmem => ?_⟩
  · rw [hws]; exact hm.files
  · rw [hart]; exact hm.documents
  · rw [hws, hart]; exact hm.shows
  · rw [hws]; exact hm.spares
  · rw [hws]; exact hm.quiet
  · rw [Pipeline.based, hworkers] at hx
    exact (hbsub x hx).elim (hbased x) (hm.based x)
  · refine List.eq_nil_iff_forall_not_mem.mpr fun x hx => ?_
    rw [Pipeline.compiles, hworkers] at hx
    rcases hsub x hx with hx | hx
    · rw [hcompiles] at hx
      cases hx
    · change x ∈ p.compiles at hx
      rw [hm.compiles] at hx
      exact List.not_mem_nil hx
  · rcases List.mem_append.mp hmem with hmem | hmem
    · rw [Pipeline.ended, hworkers] at hmem
      exact (hesub e hmem).elim (hended e) fun he => hm.settled e (List.mem_append_left _ he)
    · exact hm.settled e (List.mem_append_right _ hmem)

/-- The end of a build is recorded, which gives the members what they have. -/
theorem finish (hm : Warm o h p done) {c : Claimed}
    (hw : p.workers[i]? = some ⟨s, .ended c outcome⟩) {store : ArtifactStore}
    (hput : p.artifacts.Put p.workspace.world (.ok (), store, v)
      (h.assign c.task.members c.scope outcome.header?))
    (hp : p'.workspace = { p.workspace with world := v } ∧ p'.artifacts = store ∧
      p'.workers = (p.setStage i stage).workers)
    (hstage : stage.based? = none ∧ stage.compiles? = none ∧ stage.completed? = none) :
    Warm o h p' (done ++ [⟨c.scope, c.task, outcome⟩]) := by
  obtain ⟨_, hdocs, hshows, hspares, hquiet⟩ := hput
  obtain ⟨hws, hart, hworkers⟩ := hp
  dsimp only at hdocs hshows hspares hquiet
  have hmine : ⟨c.scope, c.task, outcome⟩ ∈ p.ended :=
    List.mem_filterMap.mpr ⟨_, List.mem_of_getElem? hw, rfl⟩
  have hready := hm.settled _ (List.mem_append_left _ hmine)
  rw [hready.assign] at hshows
  rw [hm.documents] at hspares
  have hrecorded : Warm o h { p with workspace := { p.workspace with world := v }
                                     artifacts := store } done :=
    ⟨hm.files, hdocs.trans hm.documents, hshows, hm.spares.join hspares, hm.quiet.trans hquiet,
      hm.based, hm.compiles, hm.settled⟩
  have hnext : Warm o h p' done := by
    refine hrecorded.restage hw ⟨hws, hart, hworkers⟩ (fun x hx => ?_) hstage.2.1 fun e he => ?_
    · rw [hstage.1] at hx
      cases hx
    · rw [hstage.2.2] at he
      cases he
  refine ⟨hnext.files, hnext.documents, hnext.shows, hnext.spares, hnext.quiet, hnext.based,
    hnext.compiles, fun e hmem => ?_⟩
  rw [← List.append_assoc] at hmem
  rcases List.mem_append.mp hmem with hmem | hmem
  · exact hnext.settled e hmem
  · exact List.mem_singleton.mp hmem ▸ hready

end Warm

/-! ### Whole runs -/

namespace Pipeline

variable [LawfulWorkshop W]

/-- The accounts of a batch that changes nothing. -/
def Idles (m : Merger) (before : List Notice) (o : Pipeline W) (h : Holdings) (p : Pipeline W) :
    Prop := ∃ done, Batch m before p done ∧ Warm o h p done

omit [LawfulWorkshop W] in
theorem Idles.start (hb : Batch m before o []) (hs : o.artifacts.Shows o.workspace.world h)
    (hw : ∀ w ∈ o.workers, w.stage = .idle) : Idles m before o h o :=
  ⟨[], hb, Warm.start hs hw⟩

theorem Idles.works (hi : Idles m before o h p) (hd : m.Distinct)
    (hready : ∀ s, ∀ t ∈ m.get s, ∃ outcome, Build.Ready o.workspace.files o.artifacts.documents
      o.workspace.world h s t outcome) (hworks : Works p i p') : Idles m before o h p' := by
  obtain ⟨done, hb, hm⟩ := hi
  cases hworks with
  | claim worker opened claim =>
    rename_i scope claimed queue
    have hqueue : Warm o h { p with queue := queue } done := hm.congr ⟨rfl, rfl, rfl⟩
    exact ⟨done, hb.claim worker claim, hqueue.restage worker ⟨rfl, rfl, rfl⟩
      (fun x hx => by cases hx) rfl fun _ hx => by cases hx⟩
  | look worker =>
    rename_i scope claimed
    have hheld : claimed ∈ p.held := List.mem_filterMap.mpr ⟨_, List.mem_of_getElem? worker, rfl⟩
    refine ⟨done, hb.goesOn worker rfl (Stage.claimed?_footed _ _), ?_⟩
    obtain ⟨outcome, hr⟩ := hready _ _ (hb.held_mem hheld)
    by_cases hi : claimed.task.includes = []
    · obtain rfl : outcome = .empty := by
        cases hr with
        | empty => rfl
        | built includes => exact absurd hi includes
      rw [Build.footing_empty _ _ _ hi]
      refine hm.restage worker ⟨rfl, rfl, rfl⟩ (fun x hx => by cases hx) rfl fun x hx => ?_
      obtain rfl := Option.some.inj hx
      exact hr
    · rw [Build.footing_spec hm.shows _ hi]
      refine hm.restage worker ⟨rfl, rfl, rfl⟩ (fun x hx => ?_) rfl fun x hx => by cases hx
      obtain rfl := Option.some.inj hx
      exact ⟨hi, rfl⟩
  | plan worker =>
    rename_i scope claimed base waits
    have hx : (claimed, base) ∈ p.based :=
      List.mem_filterMap.mpr ⟨_, List.mem_of_getElem? worker, rfl⟩
    have hheld : claimed ∈ p.held := held_of_based hx
    refine ⟨done, hb.goesOn worker rfl (Stage.claimed?_planned _ _ _), ?_⟩
    obtain ⟨outcome, hr⟩ := hready _ _ (hb.held_mem hheld)
    obtain ⟨hi, hbase⟩ := hm.based _ hx
    dsimp only at hi hbase
    have hplan : Build.plan p.pchDir p.artifacts p.workspace claimed.key claimed.scope claimed.task
        base = .settled outcome := by
      rw [hb.claims _ hheld, hbase]
      exact (hm.files ▸ hr).plan hi hm.shows hm.spares p.pchDir
    rw [hplan]
    refine hm.restage worker ⟨rfl, rfl, rfl⟩ (fun x hx => by cases hx) rfl fun x hx => ?_
    obtain rfl := Option.some.inj hx
    exact hr
  | compile worker =>
    rename_i scope claimed job print waits
    have hmem : (claimed, job, print) ∈ p.compiles :=
      List.mem_filterMap.mpr ⟨_, List.mem_of_getElem? worker, rfl⟩
    rw [hm.compiles] at hmem
    exact absurd hmem List.not_mem_nil
  | finish worker =>
    rename_i scope claimed outcome
    obtain ⟨store, v, stage, hput, hp, hstage, hb'⟩ := finished_spec hb hd hm.shows worker
    exact ⟨done ++ [⟨claimed.scope, claimed.task, outcome⟩], hb', hm.finish worker hput hp.2 hstage⟩
  | notify worker =>
    exact ⟨done, hb.notify worker,
      hm.restage worker ⟨rfl, rfl, rfl⟩ (fun x hx => by cases hx) rfl fun _ hx => by cases hx⟩
  | report worker =>
    have hsend : ∀ event, (p.send event).2 = { p with inbox := (p.send event).2.inbox } := by
      intro event
      rw [Pipeline.send]
      split <;> rfl
    refine ⟨done, hb.report worker, ?_⟩
    rw [hsend]
    exact hm.restage worker ⟨rfl, rfl, rfl⟩ (fun x hx => by cases hx) rfl fun _ hx => by cases hx

theorem Idles.after (hi : Idles m before o h p) (hd : m.Distinct)
    (hready : ∀ s, ∀ t ∈ m.get s, ∃ outcome, Build.Ready o.workspace.files o.artifacts.documents
      o.workspace.world h s t outcome) (steps : List Step) : Idles m before o h (p.after steps) := by
  refine after_induction (P := fun _ _ => True) ?_ ?_ hi (along_of_forall (fun _ _ => trivial) p steps)
  · rintro q q' ⟨done, hb, hm⟩ hc
    obtain ⟨hb', hws, hart, _, _, hworkers⟩ := hb.coordinate hc
    exact ⟨done, hb', hm.congr ⟨hws, hart, hworkers⟩⟩
  · intro q q' i waits permitted hq _ hw
    exact hq.works hd hready hw

end Pipeline

/-- What became of the merged tasks of `o`, at `q`, when all were done without a compiler. -/
structure Reused (o q : Pipeline W) (h : Holdings) (outcome : Scope → Task → Outcome) : Prop where
  merger : q.merger = o.merger
  shows : q.artifacts.Shows q.workspace.world h
  quiet : Quiet o.workspace.world q.workspace.world
  notices : ∀ s, ((q.notices.filter (·.scope = s)).map Notice.gist).Perm
    ((o.notices.filter (·.scope = s)).map Notice.gist ++
      (q.merger.get s).map fun t => (s, t.members, outcome s t))
  ready : ∀ s, ∀ t ∈ q.merger.get s, Build.Ready o.workspace.files o.artifacts.documents
    o.workspace.world h s t (outcome s t)

theorem Reused.of_idles {q : Pipeline W} (hi : Pipeline.Idles o.merger o.notices o h q)
    (hd : o.merger.Distinct) (hidle : q.queue.isIdle = true) : ∃ outcome, Reused o q h outcome := by
  obtain ⟨done, hb, hm⟩ := hi
  obtain ⟨hdone, hnotices⟩ := hb.told hd hidle
  rw [← hb.merger] at hdone hnotices
  refine ⟨outcomeIn done, hb.merger, hm.shows, hm.quiet, hnotices, fun s t ht => ?_⟩
  obtain ⟨e, he, rfl, rfl, ho⟩ := hdone s t ht
  rw [ho]
  exact hm.settled e (List.mem_append_right _ he)

end PrecompiledHeaders
