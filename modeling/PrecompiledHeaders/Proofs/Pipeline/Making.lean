import PrecompiledHeaders.Proofs.Building
import PrecompiledHeaders.Proofs.Pipeline.Batch
/-! What a first batch leaves behind. The store is empty when the batch begins, and no two tasks of
it give artifacts of one name, so every task with includes is compiled once. What a project task is
built upon is settled before any project task is taken up. -/
namespace PrecompiledHeaders

open Pipeline (onHand)

namespace Stage

def based? : Stage → Option (Claimed × Option FilePath)
  | .based c base => some (c, base)
  | _ => none

def compiles? : Stage → Option (Claimed × Job × String)
  | .compiling c job print _ => some (c, job, print)
  | _ => none

def completed? : Stage → Option Completed
  | .ended c outcome => some ⟨c.scope, c.task, outcome⟩
  | _ => none

end Stage

namespace Pipeline

section

variable {W : Type}

/-- Tasks that are to be planned, with the header to build upon. -/
def based (p : Pipeline W) : List (Claimed × Option FilePath) := onHand Stage.based? p.workers

def compiles (p : Pipeline W) : List (Claimed × Job × String) := onHand Stage.compiles? p.workers

/-- Builds that ended, but not for the queue. -/
def ended (p : Pipeline W) : List Completed := onHand Stage.completed? p.workers

theorem onHand_setStage {p : Pipeline W} {i : Nat} {w : Worker} (hw : p.workers[i]? = some w)
    (stage : Stage) {α : Type} (f : Stage → Option α) :
    (∀ x ∈ onHand f (p.setStage i stage).workers, f stage = some x ∨ x ∈ onHand f p.workers) ∧
      (∀ x ∈ onHand f p.workers, f w.stage = some x ∨ x ∈ onHand f (p.setStage i stage).workers) ∧
      ∀ x, f stage = some x → x ∈ onHand f (p.setStage i stage).workers := by
  obtain ⟨others, hperm, _⟩ := exchange hw stage
  obtain ⟨hold, hnew⟩ := hperm f
  refine ⟨fun x hx => ?_, fun x hx => ?_, fun x hx => ?_⟩
  · rcases List.mem_append.mp (hnew.subset hx) with hx | hx
    · exact Or.inl (Option.mem_toList.mp hx)
    · exact Or.inr (hold.mem_iff.mpr (List.mem_append_right _ hx))
  · rcases List.mem_append.mp (hold.subset hx) with hx | hx
    · exact Or.inl (Option.mem_toList.mp hx)
    · exact Or.inr (hnew.mem_iff.mpr (List.mem_append_right _ hx))
  · exact hnew.mem_iff.mpr (List.mem_append_left _ (Option.mem_toList.mpr hx))

/-- What has ended is not forgotten when another worker's stage changes. -/
theorem ended_subset_setStage {p : Pipeline W} {i : Nat} {w : Worker} (hw : p.workers[i]? = some w)
    (hnone : w.stage.completed? = none) (stage : Stage) (done : List Completed) :
    p.ended ++ done ⊆ (p.setStage i stage).ended ++ done := by
  refine List.append_subset.mpr ⟨fun e he => ?_, List.subset_append_right _ _⟩
  obtain ⟨_, hkept, _⟩ := onHand_setStage hw stage Stage.completed?
  refine List.mem_append_left _ ((hkept e he).resolve_left fun hsome => ?_)
  rw [hnone] at hsome
  cases hsome

/-- When the end of a build is recorded, it goes over from its worker to what is done. -/
theorem mem_ended_finish {p : Pipeline W} {i : Nat} {w : Worker} (hw : p.workers[i]? = some w)
    {e : Completed} (he : w.stage.completed? = some e) {stage : Stage}
    (hnone : stage.completed? = none) (done : List Completed) (x : Completed) :
    x ∈ (p.setStage i stage).ended ++ (done ++ [e]) ↔ x ∈ p.ended ++ done := by
  obtain ⟨hsub, hkept, _⟩ := onHand_setStage hw stage Stage.completed?
  have hmine : e ∈ p.ended := List.mem_filterMap.mpr ⟨w, List.mem_of_getElem? hw, he⟩
  simp only [List.mem_append, List.mem_singleton]
  constructor
  · rintro (hx | hx | rfl)
    · refine Or.inl ((hsub x hx).resolve_left fun hsome => ?_)
      rw [hnone] at hsome
      cases hsome
    · exact Or.inr hx
    · exact Or.inl hmine
  · rintro (hx | hx)
    · rcases hkept x hx with hsome | hx
      · exact Or.inr (Or.inr (Option.some.inj (hsome.symm.trans he)))
      · exact Or.inl hx
    · exact Or.inr (Or.inl hx)

theorem held_of_based {p : Pipeline W} {x : Claimed × Option FilePath} (hx : x ∈ p.based) :
    x.1 ∈ p.held := by
  obtain ⟨w, hw, hs⟩ := List.mem_filterMap.mp hx
  refine List.mem_filterMap.mpr ⟨w, hw, ?_⟩
  cases hstage : w.stage <;> rw [hstage] at hs <;> cases hs
  rfl

theorem held_of_compiles {p : Pipeline W} {x : Claimed × Job × String} (hx : x ∈ p.compiles) :
    x.1 ∈ p.held := by
  obtain ⟨w, hw, hs⟩ := List.mem_filterMap.mp hx
  refine List.mem_filterMap.mpr ⟨w, hw, ?_⟩
  cases hstage : w.stage <;> rw [hstage] at hs <;> cases hs
  rfl

theorem held_of_ended {p : Pipeline W} {e : Completed} (he : e ∈ p.ended) :
    ∃ c ∈ p.held, c.scope = e.scope ∧ c.task = e.task := by
  obtain ⟨w, hw, hs⟩ := List.mem_filterMap.mp he
  cases hstage : w.stage <;> rw [hstage] at hs <;> cases hs
  rename_i claimed outcome
  refine ⟨claimed, List.mem_filterMap.mpr ⟨w, hw, ?_⟩, rfl, rfl⟩
  rw [hstage]
  rfl

end

variable {W : Type} [World W]

/-- What a step digests: a worker does that when it plans a build. -/
def digests (p : Pipeline W) : Step → List (List UInt8)
  | .coordinate => []
  | .work i _ _ =>
    match p.workers[i]? with
    | some ⟨_, .based c base⟩ =>
      Build.digested p.workspace.files p.workspace.world c.scope c.task base
    | _ => []

/-- What a run digests. -/
def digested (p : Pipeline W) : List Step → List (List UInt8)
  | [] => []
  | s :: steps => p.digests s ++ (p.step s).digested steps

theorem digested_append (p : Pipeline W) (steps others : List Step) :
    p.digested (steps ++ others) = p.digested steps ++ (p.after steps).digested others := by
  induction steps generalizing p with
  | nil => rfl
  | cons step steps ih =>
    rw [List.cons_append, digested, digested, ih, List.append_assoc]
    rfl

theorem along_digested {p : Pipeline W} {steps : List Step} {inputs : List (List UInt8)}
    (h : p.digested steps ⊆ inputs) : Along (fun q s => q.digests s ⊆ inputs) p steps := by
  induction steps generalizing p with
  | nil => trivial
  | cons s steps ih =>
    obtain ⟨hfirst, hrest⟩ := List.append_subset.mp h
    exact ⟨hfirst, ih hrest⟩

end Pipeline

section

variable {W : Type} {m : Merger} {before : List Notice} {p : Pipeline W} {done : List Completed}

/-- Project tasks are in hands or done only when no system task is in hands any more. -/
theorem Batch.project_of_live (hb : Batch m before p done) {c : Claimed} (hc : c ∈ p.held)
    (hlive : .project ∈ p.held.map (·.scope) ∨ .project ∈ done.map (·.scope)) :
    c.scope = .project := by
  cases hs : c.scope with
  | project => rfl
  | system => exact absurd (hs ▸ List.mem_map_of_mem hc) (hb.gated hlive).2

theorem Pipeline.live_of_held {c : Claimed} (hc : c ∈ p.held) (hs : c.scope = .project) :
    .project ∈ p.held.map (·.scope) ∨ .project ∈ done.map (·.scope) :=
  Or.inl (hs ▸ List.mem_map_of_mem (f := Claimed.scope) hc)

theorem Pipeline.live_of_ended {e : Completed} (he : e ∈ p.ended ++ done) (hs : e.scope = .project) :
    .project ∈ p.held.map (·.scope) ∨ .project ∈ done.map (·.scope) := by
  rcases List.mem_append.mp he with he | he
  · obtain ⟨c, hc, hcs, _⟩ := Pipeline.held_of_ended he
    exact Or.inl ((hcs.trans hs) ▸ List.mem_map_of_mem (f := Claimed.scope) hc)
  · exact Or.inr (hs ▸ List.mem_map_of_mem (f := Completed.scope) he)

theorem Batch.ended_mem (hb : Batch m before p done) {e : Completed} (he : e ∈ p.ended ++ done) :
    e.task ∈ m.get e.scope := by
  rcases List.mem_append.mp he with he | he
  · obtain ⟨c, hc, hs, ht⟩ := Pipeline.held_of_ended he
    exact hs ▸ ht ▸ hb.held_mem hc
  · exact hb.done_mem he

/-- A task that a worker is not through with has not ended. -/
theorem Batch.key_ne_of_held (hb : Batch m before p done) (hd : m.Distinct) {i : Nat} {w : Worker}
    {c : Claimed} (hw : p.workers[i]? = some w) (hmine : w.stage.claimed? = some c)
    (hopen : w.stage.completed? = none) {e : Completed} (he : e ∈ p.ended ++ done) :
    c.task.key c.scope ≠ e.task.key e.scope := by
  obtain ⟨others, hperm, _⟩ := Pipeline.exchange hw .idle
  obtain ⟨hclaimed, _⟩ := hperm Stage.claimed?
  obtain ⟨hcompleted, _⟩ := hperm Stage.completed?
  rw [hmine] at hclaimed
  rw [hopen] at hcompleted
  have hheld : p.held.Perm (c :: onHand Stage.claimed? others) := hclaimed
  have hc : c ∈ p.held := hheld.mem_iff.mpr List.mem_cons_self
  rw [← hb.claims c hc]
  intro hk
  rcases List.mem_append.mp he with he | he
  · obtain ⟨w', hmem, hs⟩ := List.mem_filterMap.mp (hcompleted.subset he)
    cases hstage : w'.stage <;> rw [hstage] at hs <;> cases hs
    rename_i c' outcome _
    have hc' : c' ∈ onHand Stage.claimed? others :=
      List.mem_filterMap.mpr ⟨w', hmem, by rw [hstage]; rfl⟩
    refine hb.key_ne hd hheld c' hc' ?_
    rw [hk, hb.claims c' (hheld.mem_iff.mpr (List.mem_cons_of_mem _ hc'))]
  · rw [hb.claims c hc] at hk
    obtain ⟨hs, ht⟩ := hd.keys _ _ _ _ (hb.held_mem hc) (hb.done_mem he) hk
    have hn := (List.nodup_append.mp (hb.tasks_nodup hd c.scope)).2.2
    refine hn c.task (List.mem_append_right _ (List.mem_map_of_mem (List.mem_filter.mpr ⟨hc, ?_⟩)))
      e.task (List.mem_map_of_mem (List.mem_filter.mpr ⟨he, ?_⟩)) ht
    · simp
    · simp [hs]

end

section

variable {W : Type} [Workshop W]

/-! ### Drafts -/

/-- The job for a task and the name of its artifact, drawn up at some time since `o` upon the base
that the task has; the base did not change since. -/
def Drafted (o : Pipeline W) (inputs : List (List UInt8)) (w : W) (h : Holdings) (made : List Job)
    (s : Scope) (t : Task) (j : Job) (print : String) : Prop :=
  ∃ v : W, Spares (o.artifacts.documents ++ made.flatMap Job.paths) o.workspace.world v ∧
    Build.digested o.workspace.files v s t (h.base s t) ⊆ inputs ∧
    (∀ p, h.base s t = some p → World.modified? v p = World.modified? w p) ∧
    j = Build.job o.pchDir o.workspace.files v s t (h.base s t) ∧
    print = Build.print o.workspace.files v s t (h.base s t)

variable {o : Pipeline W} {inputs : List (List UInt8)} {w w' : W} {h h' : Holdings}
  {made made' : List Job} {s s' : Scope} {t t' : Task} {j j' : Job} {print print' : String}

theorem Drafted.mono (hd : Drafted o inputs w h made s t j print) (hmade : made ⊆ made')
    (hbase : h'.base s t = h.base s t)
    (hstamp : ∀ p, h.base s t = some p → World.modified? w' p = World.modified? w p) :
    Drafted o inputs w' h' made' s t j print := by
  obtain ⟨v, hv, hin, hsame, hj, hprint⟩ := hd
  refine ⟨v, hv.mono ?_, ?_, ?_, ?_, ?_⟩
  · refine List.append_subset.mpr ⟨List.subset_append_left _ _, fun p hp => ?_⟩
    obtain ⟨j, hj, hp⟩ := List.mem_flatMap.mp hp
    exact List.mem_append_right _ (List.mem_flatMap.mpr ⟨j, hmade hj, hp⟩)
  · rw [hbase]; exact hin
  · rw [hbase]; exact fun p hp => (hsame p hp).trans (hstamp p hp).symm
  · rw [hbase]; exact hj
  · rw [hbase]; exact hprint

theorem Drafted.ends (hd : Drafted o inputs w h made s t j print) :
    j.headerPath.Ends (Build.headerName s (t.key s)) ∧
      j.outputPath.Ends (Build.outputName s (t.key s) print) := by
  obtain ⟨v, _, _, _, rfl, rfl⟩ := hd
  exact Build.ends_job _ _ _ _ _ _

theorem Drafted.key (hd : Drafted o inputs w h made s t j print) : j.key = t.key s := by
  obtain ⟨v, _, _, _, rfl, _⟩ := hd
  rfl

theorem Drafted.outputPath (hd : Drafted o inputs w h made s t j print) :
    j.outputPath = o.pchDir / Build.outputName s (t.key s) print := by
  obtain ⟨v, _, _, _, rfl, rfl⟩ := hd
  rfl

/-- No other output is where a job writes. -/
theorem Drafted.not_same_output (hd : Drafted o inputs w h made s t j print)
    (hd' : Drafted o inputs w h made s' t' j' print')
    (hname : Build.outputName s (t.key s) print ≠ Build.outputName s' (t'.key s') print') :
    ∀ p ∈ j.paths, ¬ p.same j'.outputPath :=
  Job.forall_mem_paths.mpr
    ⟨FilePath.not_same_of_ends hd.ends.1 hd'.ends.2 headerName_ne_outputName,
      FilePath.not_same_of_ends hd.ends.2 hd'.ends.2 hname⟩

/-- One name, one task. -/
theorem Drafted.same (hd : Drafted o inputs w h made s t j print)
    (hd' : Drafted o inputs w h made s' t' j' print) (ha : Apart inputs)
    (ht : t.Known o.workspace.files) (ht' : t'.Known o.workspace.files) :
    s = s' ∧ t.mergeKey = t'.mergeKey := by
  obtain ⟨v, _, hin, _, _, hp⟩ := hd
  obtain ⟨v', _, hin', _, _, hp'⟩ := hd'
  exact Build.print_inj ha hin hin' ht ht' (hp.symm.trans hp')

/-! ### Builds that ended -/

/-- How the build of a task came out: there was nothing to do, or its job was done. -/
inductive Settled (o : Pipeline W) (inputs : List (List UInt8)) (w : W) (h : Holdings)
    (made : List Job) (e : Completed) : Prop where
  | empty (includes : e.task.includes = []) (outcome : e.outcome = .empty)
  | built {j : Job} {print : String} (includes : e.task.includes ≠ [])
      (drafted : Drafted o inputs w h made e.scope e.task j print) (job : j ∈ made)
      (outcome : e.outcome = Workshop.verdict o.workspace.world j)
      (artifact : Workshop.refusal o.workspace.world j = none →
        h.artifact print = some j.outputPath)

theorem Settled.mono {e : Completed} (he : Settled o inputs w h made e) (hmade : made ⊆ made')
    (hbase : h'.base e.scope e.task = h.base e.scope e.task)
    (hstamp : ∀ p, h.base e.scope e.task = some p → World.modified? w' p = World.modified? w p)
    (hart : ∀ k p, h.artifact k = some p → h'.artifact k = some p) :
    Settled o inputs w' h' made' e := by
  cases he with
  | empty includes outcome => exact .empty includes outcome
  | built includes drafted job outcome artifact =>
    exact .built includes (drafted.mono hmade hbase hstamp) (hmade job) outcome
      fun hr => hart _ _ (artifact hr)

/-- What the batch that began at `o` has made: `made` are the jobs done, and the store holds `h`. -/
structure Made (o : Pipeline W) (inputs : List (List UInt8)) (p : Pipeline W)
    (done : List Completed) (h : Holdings) (made : List Job) : Prop where
  dir : p.pchDir = o.pchDir
  files : p.workspace.files = o.workspace.files
  documents : p.artifacts.documents = o.artifacts.documents
  shows : p.artifacts.Shows p.workspace.world h
  spares : Spares (o.artifacts.documents ++ made.flatMap Job.paths) o.workspace.world
    p.workspace.world
  log : Workshop.jobs p.workspace.world = Workshop.jobs o.workspace.world ++ made
  based : ∀ x ∈ p.based, x.1.task.includes ≠ [] ∧ x.2 = h.base x.1.scope x.1.task
  compiles : ∀ x ∈ p.compiles, x.1.task.includes ≠ [] ∧
    Drafted o inputs p.workspace.world h made x.1.scope x.1.task x.2.1 x.2.2
  settled : ∀ e ∈ p.ended ++ done, Settled o inputs p.workspace.world h made e
  once : (made.map Job.key).Nodup
  jobs : ∀ j ∈ made, ∃ e ∈ p.ended ++ done, e.task.includes ≠ [] ∧
    e.outcome = Workshop.verdict o.workspace.world j ∧
    ∃ print, Drafted o inputs p.workspace.world h made e.scope e.task j print
  artifacts : ∀ print path, h.artifact print = some path → ∃ e ∈ p.ended ++ done, ∃ j,
    Drafted o inputs p.workspace.world h made e.scope e.task j print ∧ path = j.outputPath
  headers : ∀ e ∈ done, ∀ i ∈ e.task.members, h.header i e.scope = e.outcome.header?
  bare : ∀ i s, (∀ e ∈ done, e.scope = s → i ∉ e.task.members) → h.header i s = none
  outputs : LeavesOutputs W → (∀ j, Workshop.refusal o.workspace.world j = none) →
    ∀ j ∈ made, World.hasFile p.workspace.world j.outputPath = true

namespace Made

variable {p p' : Pipeline W} {done : List Completed} {m : Merger} {before : List Notice} {i : Nat}
  {worker : Worker} {stage : Stage}

theorem start (hs : o.artifacts.Shows o.workspace.world .empty)
    (hw : ∀ w ∈ o.workers, w.stage = .idle) : Made o inputs o [] .empty [] := by
  have hnone : ∀ {α : Type} (f : Stage → Option α), f .idle = none → onHand f o.workers = [] :=
    fun f hf => List.filterMap_eq_nil_iff.mpr fun w hmem => by rw [hw w hmem, hf]
  have hbased : o.based = [] := hnone _ rfl
  have hcompiles : o.compiles = [] := hnone _ rfl
  have hended : o.ended = [] := hnone _ rfl
  refine ⟨rfl, rfl, rfl, hs, Spares.refl _ _, by simp, ?_, ?_, ?_, List.nodup_nil, ?_, ?_, ?_, ?_, ?_⟩
  · exact fun x hx => absurd (hbased ▸ hx) List.not_mem_nil
  · exact fun x hx => absurd (hcompiles ▸ hx) List.not_mem_nil
  · intro e he
    rw [hended] at he
    exact absurd he List.not_mem_nil
  · exact fun j hj => absurd hj List.not_mem_nil
  · exact fun print path hp => by cases hp
  · exact fun e he => absurd he List.not_mem_nil
  · exact fun i s _ => rfl
  · exact fun _ _ j hj => absurd hj List.not_mem_nil

theorem congr (hm : Made o inputs p done h made) (hp : p'.pchDir = p.pchDir ∧
    p'.workspace = p.workspace ∧ p'.artifacts = p.artifacts ∧ p'.workers = p.workers) :
    Made o inputs p' done h made := by
  obtain ⟨hdir, hws, hart, hworkers⟩ := hp
  have hbased : p'.based = p.based := congrArg (onHand Stage.based?) hworkers
  have hcompiles : p'.compiles = p.compiles := congrArg (onHand Stage.compiles?) hworkers
  have hended : p'.ended = p.ended := congrArg (onHand Stage.completed?) hworkers
  constructor
  · exact hdir.trans hm.dir
  · rw [hws]; exact hm.files
  · rw [hart]; exact hm.documents
  · rw [hws, hart]; exact hm.shows
  · rw [hws]; exact hm.spares
  · rw [hws]; exact hm.log
  · rw [hbased]; exact hm.based
  · rw [hcompiles, hws]; exact hm.compiles
  · rw [hended, hws]; exact hm.settled
  · exact hm.once
  · rw [hended, hws]; exact hm.jobs
  · rw [hended, hws]; exact hm.artifacts
  · exact hm.headers
  · exact hm.bare
  · rw [hws]; exact hm.outputs

/-- The header that a project task is built upon was made by a system job. -/
theorem base_ends (hm : Made o inputs p done h made) {path : FilePath}
    (hb : h.base s t = some path) :
    s = .project ∧ ∃ k print, path.Ends (Build.outputName .system k print) := by
  cases s with
  | system => cases hb
  | project =>
    refine ⟨rfl, ?_⟩
    obtain ⟨i, _, hi⟩ := Option.bind_eq_some_iff.mp hb
    obtain ⟨e, he, hscope, hmem⟩ : ∃ e ∈ done, e.scope = .system ∧ i ∈ e.task.members := by
      by_contra hnone
      have hbare := hm.bare i .system fun e he hs hmem => hnone ⟨e, he, hs, hmem⟩
      rw [hbare] at hi
      cases hi
    have hheader := hm.headers e he i hmem
    rw [hscope, hi] at hheader
    cases hm.settled e (List.mem_append_right _ he) with
    | empty _ outcome =>
      rw [outcome] at hheader
      cases hheader
    | built _ drafted _ outcome _ =>
      rw [outcome, Workshop.verdict] at hheader
      split at hheader
      · cases hheader
      · obtain rfl := Option.some.inj hheader
        rw [hscope] at drafted
        exact ⟨_, _, drafted.ends.2⟩

/-- What happens while project tasks are built leaves their bases as they are. -/
theorem stamp_kept (hm : Made o inputs p done h made) {ps : List FilePath}
    (hs : Spares ps p.workspace.world w') (hps : s = .project → ∀ q ∈ ps, q.NeverBase) :
    ∀ path, h.base s t = some path → World.modified? w' path =
      World.modified? p.workspace.world path := by
  intro path hb
  obtain ⟨hscope, k, print, hends⟩ := hm.base_ends hb
  refine hs.modified? fun q hq => ?_
  obtain ⟨name, hname, hne⟩ := hps hscope q hq
  exact FilePath.not_same_of_ends hname hends (hne k print)

/-- A worker's stage changes, and nothing else. -/
theorem restage (hm : Made o inputs p done h made) (hw : p.workers[i]? = some worker)
    (he : worker.stage.completed? = none)
    (hp : p'.pchDir = p.pchDir ∧ p'.workspace = p.workspace ∧ p'.artifacts = p.artifacts ∧
      p'.workers = (p.setStage i stage).workers)
    (hbased : ∀ x, stage.based? = some x → x.1.task.includes ≠ [] ∧ x.2 = h.base x.1.scope x.1.task)
    (hcompiles : ∀ x, stage.compiles? = some x → x.1.task.includes ≠ [] ∧
      Drafted o inputs p.workspace.world h made x.1.scope x.1.task x.2.1 x.2.2)
    (hended : ∀ e, stage.completed? = some e → Settled o inputs p.workspace.world h made e) :
    Made o inputs p' done h made := by
  obtain ⟨hdir, hws, hart, hworkers⟩ := hp
  obtain ⟨hbsub, _, _⟩ := Pipeline.onHand_setStage hw stage Stage.based?
  obtain ⟨hsub, _, _⟩ := Pipeline.onHand_setStage hw stage Stage.compiles?
  obtain ⟨hesub, _, _⟩ := Pipeline.onHand_setStage hw stage Stage.completed?
  have hended' : p'.ended = (p.setStage i stage).ended :=
    congrArg (onHand Stage.completed?) hworkers
  have hkeep : p.ended ++ done ⊆ p'.ended ++ done :=
    hended' ▸ Pipeline.ended_subset_setStage hw he stage done
  refine ⟨hdir.trans hm.dir, ?_, ?_, ?_, ?_, ?_, fun x hx => ?_, fun x hx => ?_, fun e hmem => ?_,
    hm.once, fun j hj => ?_, fun k path hk => ?_, hm.headers, hm.bare, ?_⟩
  · rw [hws]; exact hm.files
  · rw [hart]; exact hm.documents
  · rw [hws, hart]; exact hm.shows
  · rw [hws]; exact hm.spares
  · rw [hws]; exact hm.log
  · rw [Pipeline.based, hworkers] at hx
    exact (hbsub x hx).elim (hbased x) (hm.based x)
  · rw [hws]
    rw [Pipeline.compiles, hworkers] at hx
    exact (hsub x hx).elim (hcompiles x) (hm.compiles x)
  · rw [hws]
    rcases List.mem_append.mp hmem with hmem | hmem
    · rw [hended'] at hmem
      exact (hesub e hmem).elim (hended e) fun h => hm.settled e (List.mem_append_left _ h)
    · exact hm.settled e (List.mem_append_right _ hmem)
  · rw [hws]
    obtain ⟨e, hmem, hrest⟩ := hm.jobs j hj
    exact ⟨e, hkeep hmem, hrest⟩
  · rw [hws]
    obtain ⟨e, hmem, hrest⟩ := hm.artifacts k path hk
    exact ⟨e, hkeep hmem, hrest⟩
  · rw [hws]; exact hm.outputs

/-- There is nothing to build, or the task is built upon the base that it has. -/
theorem look (hm : Made o inputs p done h made) {c : Claimed}
    (hw : p.workers[i]? = some ⟨s, .claimed c⟩) :
    Made o inputs (p.setStage i (.footed c
      (Build.footing p.artifacts p.workspace.world c.scope c.task))) done h made := by
  by_cases hi : c.task.includes = []
  · rw [Build.footing_empty _ _ _ hi]
    refine hm.restage hw rfl ⟨rfl, rfl, rfl, rfl⟩ (fun x hx => by cases hx)
      (fun x hx => by cases hx) fun x hx => ?_
    obtain rfl := Option.some.inj hx
    exact .empty hi rfl
  · rw [Build.footing_spec hm.shows _ hi]
    refine hm.restage hw rfl ⟨rfl, rfl, rfl, rfl⟩ (fun x hx => ?_) (fun x hx => by cases hx)
      fun x hx => by cases hx
    obtain rfl := Option.some.inj hx
    exact ⟨hi, rfl⟩

/-- A task that a worker is not through with has no artifact yet. -/
theorem ready?_eq_none (hm : Made o inputs p done h made) (hb : Batch m before p done)
    (hd : m.Distinct) (ha : Apart inputs) (hk : ∀ s, ∀ t ∈ m.get s, t.Known o.workspace.files)
    {c : Claimed} (hw : p.workers[i]? = some worker) (hmine : worker.stage.claimed? = some c)
    (hopen : worker.stage.completed? = none) {base : Option FilePath}
    (hin : Build.digested o.workspace.files p.workspace.world c.scope c.task base ⊆ inputs) :
    Build.ready? o.workspace.files p.workspace.world h c.scope c.task base = none := by
  have hheld : c ∈ p.held := List.mem_filterMap.mpr ⟨worker, List.mem_of_getElem? hw, hmine⟩
  rw [Build.ready?]
  cases hart : h.artifact (Build.print o.workspace.files p.workspace.world c.scope c.task base) with
  | none => rfl
  | some path =>
    obtain ⟨d, hmem, j, ⟨v, _, hin', _, _, hprint⟩, _⟩ := hm.artifacts _ path hart
    obtain ⟨hs, hkey⟩ := Build.print_inj ha hin hin' (hk _ _ (hb.held_mem hheld))
      (hk _ _ (hb.ended_mem hmem)) hprint
    have hkeys : c.task.key c.scope = d.task.key d.scope := by rw [Task.key, Task.key, hkey, hs]
    exact absurd hkeys (hb.key_ne_of_held hd hw hmine hopen hmem)

/-- The job of a task is drafted upon the base that was looked up. -/
theorem plan (hm : Made o inputs p done h made) (hb : Batch m before p done) (hd : m.Distinct)
    (ha : Apart inputs) (hk : ∀ s, ∀ t ∈ m.get s, t.Known o.workspace.files) {c : Claimed}
    {base : Option FilePath} {waits : Bool} (hw : p.workers[i]? = some ⟨s, .based c base⟩)
    (hin : Build.digested p.workspace.files p.workspace.world c.scope c.task base ⊆ inputs) :
    Made o inputs (p.setStage i (.planned c waits
      (Build.plan p.pchDir p.artifacts p.workspace c.key c.scope c.task base))) done h made := by
  have hx : (c, base) ∈ p.based := List.mem_filterMap.mpr ⟨_, List.mem_of_getElem? hw, rfl⟩
  have hheld : c ∈ p.held := Pipeline.held_of_based hx
  obtain ⟨hi, hbase⟩ := hm.based _ hx
  dsimp only at hi hbase
  rw [hm.files] at hin
  have hplan : Build.plan p.pchDir p.artifacts p.workspace c.key c.scope c.task base =
      .compile (Build.job o.pchDir o.workspace.files p.workspace.world c.scope c.task base)
        (Build.print o.workspace.files p.workspace.world c.scope c.task base) := by
    rw [hb.claims c hheld, Build.plan_spec hm.shows _ _ (hm.files ▸ hk _ _ (hb.held_mem hheld)),
      hm.files, hm.dir, hm.ready?_eq_none hb hd ha hk hw rfl rfl hin]
  rw [hplan]
  refine hm.restage hw rfl ⟨rfl, rfl, rfl, rfl⟩ (fun x hx => by cases hx) (fun x hx => ?_)
    fun x hx => by cases hx
  obtain rfl := Option.some.inj hx
  subst hbase
  exact ⟨hi, p.workspace.world, hm.spares, hin, fun _ _ => rfl, rfl, rfl⟩

/-! ### A drafted job is done -/

/-- What is written for a job in hands does not touch the bases of live tasks. -/
theorem stamp_compiled (hm : Made o inputs p done h made) (hb : Batch m before p done) {c : Claimed}
    (hheld : c ∈ p.held)
    (hdraft : Drafted o inputs p.workspace.world h made c.scope c.task j print)
    (hs : Spares (o.artifacts.documents ++ j.paths) p.workspace.world w')
    (hlive : s = .project → .project ∈ p.held.map (·.scope) ∨ .project ∈ done.map (·.scope)) :
    ∀ path, h.base s t = some path → World.modified? w' path =
      World.modified? p.workspace.world path := by
  refine hm.stamp_kept hs fun hscope q hq => ?_
  rcases List.mem_append.mp hq with hq | hq
  · exact ArtifactStore.neverBase hq
  · -- while system tasks are in hands, no project task is live
    have hproject := hb.project_of_live hheld (hlive hscope)
    rw [hproject] at hdraft
    exact Job.neverBase hdraft.ends q hq

/-- The artifacts on record stay: where the new one has the name of an old one, both are of one
task, and their outputs are at one place. -/
theorem artifact_kept (hm : Made o inputs p done h made) (hb : Batch m before p done)
    (ha : Apart inputs) (hk : ∀ s, ∀ t ∈ m.get s, t.Known o.workspace.files) {c : Claimed}
    (hheld : c ∈ p.held)
    (hdraft : Drafted o inputs p.workspace.world h made c.scope c.task j print) {k : String}
    {path : FilePath} (hpath : h.artifact k = some path) :
    (Build.entered h print (Workshop.verdict o.workspace.world j)).artifact k = some path := by
  rw [Build.artifact_entered]
  split
  · rename_i hnew
    obtain ⟨rfl, -⟩ := hnew
    obtain ⟨e, hmem, j₂, hdraft₂, rfl⟩ := hm.artifacts k path hpath
    obtain ⟨hs, hkey⟩ :=
      hdraft.same hdraft₂ ha (hk _ _ (hb.held_mem hheld)) (hk _ _ (hb.ended_mem hmem))
    have hkeys : c.task.key c.scope = e.task.key e.scope := by rw [Task.key, Task.key, hkey, hs]
    rw [hdraft.outputPath, hdraft₂.outputPath, hkeys, hs]
  · exact hpath

theorem once_append (hm : Made o inputs p done h made) (hb : Batch m before p done)
    (hd : m.Distinct) {c : Claimed} {waits : Bool}
    (hw : p.workers[i]? = some ⟨s, .compiling c j print waits⟩)
    (hdraft : Drafted o inputs p.workspace.world h made c.scope c.task j print) :
    ((made ++ [j]).map Job.key).Nodup := by
  rw [List.map_append, List.nodup_append]
  refine ⟨hm.once, List.nodup_singleton _, ?_⟩
  rintro k hk _ hj rfl
  obtain ⟨j', hj', rfl⟩ := List.mem_map.mp hk
  obtain ⟨e, hmem, _, _, print', hdraft'⟩ := hm.jobs j' hj'
  refine hb.key_ne_of_held hd hw rfl rfl hmem ?_
  rw [← hdraft'.key, List.mem_singleton.mp hj]
  exact hdraft.key.symm

variable [LawfulWorkshop W]

omit [LawfulWorkshop W] in
/-- The outputs that were there are still there beside the new one. -/
theorem outputs_append (hm : Made o inputs p done h made) {c : Claimed}
    (hdraft : Drafted o inputs p.workspace.world h made c.scope c.task j print)
    (hs : Spares (o.artifacts.documents ++ j.paths) p.workspace.world w')
    (hleaves : LeavesOutputs W) (hall : ∀ j, Workshop.refusal o.workspace.world j = none)
    (hself : World.hasFile w' j.outputPath = true) :
    ∀ j' ∈ made ++ [j], World.hasFile w' j'.outputPath = true := by
  intro j' hj'
  rcases List.mem_append.mp hj' with hj' | hj'
  · obtain ⟨e, _, _, _, print', hdraft'⟩ := hm.jobs j' hj'
    by_cases hname : Build.outputName c.scope (c.task.key c.scope) print =
        Build.outputName e.scope (e.task.key e.scope) print'
    · rw [hdraft'.outputPath, ← hname, ← hdraft.outputPath]
      exact hself
    · refine (hs.hasFile fun q hq => ?_).trans (hm.outputs hleaves hall j' hj')
      rcases List.mem_append.mp hq with hq | hq
      · exact FilePath.not_same_of_ends (ArtifactStore.ends_of_mem_documents hq) hdraft'.ends.2
          outputName_ne_json.symm
      · exact hdraft.not_same_output hdraft' hname q hq
  · obtain rfl := List.mem_singleton.mp hj'
    exact hself

/-- A drafted job is done. -/
theorem compile (hm : Made o inputs p done h made) (hb : Batch m before p done) (hd : m.Distinct)
    (ha : Apart inputs) (hk : ∀ s, ∀ t ∈ m.get s, t.Known o.workspace.files) {c : Claimed}
    {waits : Bool} (hw : p.workers[i]? = some ⟨s, .compiling c j print waits⟩) :
    Made o inputs (p.compile i c j print) done
      (Build.entered h print (Workshop.verdict o.workspace.world j)) (made ++ [j]) := by
  have hx : (c, j, print) ∈ p.compiles :=
    List.mem_filterMap.mpr ⟨_, List.mem_of_getElem? hw, rfl⟩
  have hheld : c ∈ p.held := Pipeline.held_of_compiles hx
  obtain ⟨hi, hdraft⟩ := hm.compiles _ hx
  dsimp only at hi hdraft
  have hcompiled := Build.compile_spec hm.shows print (Job.beside hdraft.ends _)
  have hverdict : Workshop.verdict p.workspace.world j = Workshop.verdict o.workspace.world j := by
    rw [Workshop.verdict, Workshop.verdict, hm.spares.refusal]
  rw [Pipeline.compile]
  generalize Build.compile p.artifacts p.workspace.world j print = out at hcompiled
  obtain ⟨outcome, store, v⟩ := out
  obtain ⟨houtcome, hdocs, hshows, hspares, hlog, houtput⟩ := hcompiled
  dsimp only at houtcome hdocs hshows hspares hlog houtput ⊢
  rw [hverdict] at houtcome hshows
  rw [hm.documents] at hspares
  subst houtcome
  have hgrow : made ⊆ made ++ [j] := List.subset_append_left _ _
  have hold : ∀ {s' t' j' print'}, (s' = .project → .project ∈ p.held.map (·.scope) ∨
      .project ∈ done.map (·.scope)) → Drafted o inputs p.workspace.world h made s' t' j' print' →
      Drafted o inputs v (Build.entered h print (Workshop.verdict o.workspace.world j))
        (made ++ [j]) s' t' j' print' := fun hlive hd' =>
    hd'.mono hgrow (Build.base_entered h print _ _ _) (hm.stamp_compiled hb hheld hdraft hspares hlive)
  have hdraft' := hold (fun hs => Pipeline.live_of_held hheld hs) hdraft
  have hkeep := Pipeline.ended_subset_setStage hw rfl
    (.ended c (Workshop.verdict o.workspace.world j)) done
  obtain ⟨hbsub, _, _⟩ := Pipeline.onHand_setStage hw
    (.ended c (Workshop.verdict o.workspace.world j)) Stage.based?
  obtain ⟨hsub, _, _⟩ := Pipeline.onHand_setStage hw
    (.ended c (Workshop.verdict o.workspace.world j)) Stage.compiles?
  obtain ⟨hesub, _, henew⟩ := Pipeline.onHand_setStage hw
    (.ended c (Workshop.verdict o.workspace.world j)) Stage.completed?
  have hlast := List.mem_append_left done (henew _ rfl)
  refine ⟨hm.dir, hm.files, hdocs.trans hm.documents, hshows, ?_, ?_, fun x hmem => ?_,
    fun x hmem => ?_, fun e hmem => ?_, hm.once_append hb hd hw hdraft, fun j' hj' => ?_,
    fun k path hpath => ?_, ?_, ?_, fun hleaves hall => ?_⟩
  · refine (hm.spares.trans hspares).mono ?_
    simp only [List.flatMap_append, List.flatMap_cons, List.flatMap_nil, List.append_nil]
    grind
  · rw [← List.append_assoc, ← hm.log]
    exact hlog
  · rw [Build.base_entered]
    exact hm.based x ((hbsub x hmem).resolve_left fun hsome => by cases hsome)
  · have hmem' := (hsub x hmem).resolve_left fun hsome => by cases hsome
    obtain ⟨hne, hd'⟩ := hm.compiles x hmem'
    exact ⟨hne, hold (fun hs => Pipeline.live_of_held (Pipeline.held_of_compiles hmem') hs) hd'⟩
  · have hcases : e = ⟨c.scope, c.task, Workshop.verdict o.workspace.world j⟩ ∨
        e ∈ p.ended ++ done := by
      rcases List.mem_append.mp hmem with hmem | hmem
      · exact (hesub e hmem).imp (fun hsome => (Option.some.inj hsome).symm)
          (List.mem_append_left _)
      · exact Or.inr (List.mem_append_right _ hmem)
    rcases hcases with rfl | hmem'
    · refine .built hi hdraft' (List.mem_append_right _ List.mem_cons_self) rfl fun hr => ?_
      rw [Build.artifact_entered, if_pos ⟨rfl, hr⟩]
    · exact (hm.settled e hmem').mono hgrow (Build.base_entered h print _ _ _)
        (hm.stamp_compiled hb hheld hdraft hspares fun hs => Pipeline.live_of_ended hmem' hs)
        fun k path => hm.artifact_kept hb ha hk hheld hdraft
  · rcases List.mem_append.mp hj' with hj' | hj'
    · obtain ⟨e, hmem, hne, hout, print', hd'⟩ := hm.jobs j' hj'
      exact ⟨e, hkeep hmem, hne, hout, print',
        hold (fun hs => Pipeline.live_of_ended hmem hs) hd'⟩
    · obtain rfl := List.mem_singleton.mp hj'
      exact ⟨_, hlast, hi, rfl, print, hdraft'⟩
  · rw [Build.artifact_entered] at hpath
    split at hpath
    · rename_i hnew
      obtain ⟨rfl, -⟩ := hnew
      exact ⟨_, hlast, j, hdraft', (Option.some.inj hpath).symm⟩
    · obtain ⟨e, hmem, j', hd', hpath'⟩ := hm.artifacts k path hpath
      exact ⟨e, hkeep hmem, j', hold (fun hs => Pipeline.live_of_ended hmem hs) hd', hpath'⟩
  · rw [Build.header_entered]
    exact hm.headers
  · rw [Build.header_entered]
    exact hm.bare
  · refine hm.outputs_append hdraft hspares hleaves hall (houtput hleaves ?_)
    rw [hm.spares.refusal]
    exact hall j

omit [Workshop W] [LawfulWorkshop W] in
/-- A system task ends before any project task is live, so what ends gives no header that a live task
is built upon. -/
theorem base_assign (hb : Batch m before p done) {c : Claimed} (hheld : c ∈ p.held)
    (header : Option FilePath)
    (hlive : s = .project → .project ∈ p.held.map (·.scope) ∨ .project ∈ done.map (·.scope)) :
    (h.assign c.task.members c.scope header).base s t = h.base s t := by
  cases s with
  | system => rfl
  | project =>
    have hproject := hb.project_of_live hheld (hlive rfl)
    refine Option.bind_congr fun i _ => ?_
    exact Holdings.header_assign_of_not _ (fun _ hs => by rw [hproject] at hs; cases hs) _

omit [LawfulWorkshop W] in
/-- The end of a build is recorded with all members of its task. -/
theorem finish (hm : Made o inputs p done h made) (hb : Batch m before p done) {c : Claimed}
    {outcome : Outcome} (hw : p.workers[i]? = some ⟨s, .ended c outcome⟩)
    (hdisjoint : ∀ e ∈ done, e.scope = c.scope → ∀ i ∈ c.task.members, i ∉ e.task.members)
    {store : ArtifactStore} {v : W}
    (hput : p.artifacts.Put p.workspace.world (.ok (), store, v)
      (h.assign c.task.members c.scope outcome.header?))
    (hp : p'.pchDir = p.pchDir ∧ p'.workspace = { p.workspace with world := v } ∧
      p'.artifacts = store ∧ p'.workers = (p.setStage i stage).workers)
    (hstage : stage.based? = none ∧ stage.compiles? = none ∧ stage.completed? = none) :
    Made o inputs p' (done ++ [⟨c.scope, c.task, outcome⟩])
      (h.assign c.task.members c.scope outcome.header?) made := by
  obtain ⟨hdir, hws, hart, hworkers⟩ := hp
  obtain ⟨_, hdocs, hshows, hspares, hquiet⟩ := hput
  dsimp only at hdocs hshows hspares hquiet
  rw [hm.documents] at hspares
  have hheld : c ∈ p.held := List.mem_filterMap.mpr ⟨_, List.mem_of_getElem? hw, rfl⟩
  have hstamp : ∀ s' t', ∀ path, h.base s' t' = some path → World.modified? v path =
      World.modified? p.workspace.world path := fun s' t' =>
    hm.stamp_kept hspares fun _ q hq => ArtifactStore.neverBase hq
  obtain ⟨hbsub, _, _⟩ := Pipeline.onHand_setStage hw stage Stage.based?
  obtain ⟨hsub, _, _⟩ := Pipeline.onHand_setStage hw stage Stage.compiles?
  have hended : ∀ e, e ∈ p'.ended ++ (done ++ [⟨c.scope, c.task, outcome⟩]) ↔
      e ∈ p.ended ++ done := by
    rw [Pipeline.ended, hworkers]
    exact Pipeline.mem_ended_finish hw rfl hstage.2.2 done
  have hdraft : ∀ e ∈ p.ended ++ done, ∀ j' print', Drafted o inputs p.workspace.world h made
      e.scope e.task j' print' → Drafted o inputs v (h.assign c.task.members c.scope
        outcome.header?) made e.scope e.task j' print' := fun e hmem j' print' hd' =>
    hd'.mono (List.Subset.refl _)
      (base_assign hb hheld _ fun hs => Pipeline.live_of_ended hmem hs) (hstamp _ _)
  refine ⟨hdir.trans hm.dir, ?_, ?_, ?_, ?_, ?_, fun x hx => ?_, fun x hx => ?_,
    fun e hmem => ?_, hm.once, fun j' hj' => ?_, fun k path hpath => ?_, fun e hmem i hi => ?_,
    fun i s' hnone => ?_, fun hleaves hall j' hj' => ?_⟩
  · rw [hws]; exact hm.files
  · rw [hart]; exact hdocs.trans hm.documents
  · rw [hart, hws]; exact hshows
  · rw [hws]
    exact (hm.spares.trans hspares).mono (by simp)
  · rw [hws]; exact hquiet.2.trans hm.log
  · rw [Pipeline.based, hworkers] at hx
    have hx' := (hbsub x hx).resolve_left fun hsome => by rw [hstage.1] at hsome; cases hsome
    obtain ⟨hne, hbase⟩ := hm.based x hx'
    refine ⟨hne, hbase.trans (base_assign hb hheld _ fun hs => ?_).symm⟩
    exact Pipeline.live_of_held (Pipeline.held_of_based hx') hs
  · rw [hws]
    rw [Pipeline.compiles, hworkers] at hx
    have hx' := (hsub x hx).resolve_left fun hsome => by rw [hstage.2.1] at hsome; cases hsome
    obtain ⟨hne, hd'⟩ := hm.compiles x hx'
    exact ⟨hne, hd'.mono (List.Subset.refl _)
      (base_assign hb hheld _ fun hs => Pipeline.live_of_held (Pipeline.held_of_compiles hx') hs) (hstamp _ _)⟩
  · rw [hws]
    have hmem' := (hended e).mp hmem
    exact (hm.settled e hmem').mono (List.Subset.refl _)
      (base_assign hb hheld _ fun hs => Pipeline.live_of_ended hmem' hs) (hstamp _ _) fun _ _ h => h
  · rw [hws]
    obtain ⟨e, hmem, hne, hout, print', hd'⟩ := hm.jobs j' hj'
    exact ⟨e, (hended e).mpr hmem, hne, hout, print', hdraft e hmem _ _ hd'⟩
  · rw [hws]
    obtain ⟨e, hmem, j', hd', hpath'⟩ := hm.artifacts k path hpath
    exact ⟨e, (hended e).mpr hmem, j', hdraft e hmem _ _ hd', hpath'⟩
  · rcases List.mem_append.mp hmem with hmem | hmem
    · rw [Holdings.header_assign_of_not]
      · exact hm.headers e hmem i hi
      · exact fun hic hs => hdisjoint e hmem hs i hic hi
    · obtain rfl := List.mem_singleton.mp hmem
      exact Holdings.header_assign_of_mem _ hi _ _
  · rw [Holdings.header_assign_of_not]
    · exact hm.bare i s' fun e hmem => hnone e (List.mem_append_left _ hmem)
    · intro hic hs
      exact hnone _ (List.mem_append_right _ List.mem_cons_self) hs.symm hic
  · rw [hws]
    obtain ⟨e, _, _, _, print', hd'⟩ := hm.jobs j' hj'
    refine (hspares.hasFile fun q hq => ?_).trans (hm.outputs hleaves hall j' hj')
    exact FilePath.not_same_of_ends (ArtifactStore.ends_of_mem_documents hq) hd'.ends.2
      outputName_ne_json.symm

end Made

/-! ### Whole runs -/

namespace Pipeline

variable [LawfulWorkshop W] {m : Merger} {before : List Notice} {p p' : Pipeline W} {i : Nat}

/-- The batch that began at `o` has gone on from `p` to `p'`: what has ended has ended, and only the
jobs that were added wrote anything beside the store. -/
structure Onward (o p p' : Pipeline W) (done done' : List Completed) (made made' : List Job) :
    Prop where
  done : done ⊆ done'
  spares : ∃ js, made' = made ++ js ∧ Spares (o.artifacts.documents ++ js.flatMap Job.paths)
    p.workspace.world p'.workspace.world

omit [LawfulWorkshop W] in
theorem Onward.still {done : List Completed} {made : List Job} (h : p'.workspace = p.workspace) :
    Onward o p p' done done made made :=
  ⟨List.Subset.refl _, [], (List.append_nil _).symm, by rw [h]; exact Spares.refl _ _⟩

omit [LawfulWorkshop W] in
theorem Onward.trans {p'' : Pipeline W} {done done' done'' : List Completed}
    {made made' made'' : List Job} (h : Onward o p p' done done' made made')
    (h' : Onward o p' p'' done' done'' made' made'') : Onward o p p'' done done'' made made'' := by
  obtain ⟨js, rfl, hjs⟩ := h.spares
  obtain ⟨js', rfl, hjs'⟩ := h'.spares
  refine ⟨List.Subset.trans h.done h'.done, js ++ js', List.append_assoc _ _ _, ?_⟩
  refine (hjs.trans hjs').mono ?_
  rw [List.flatMap_append]
  grind

theorem stageAfter_spec (f : Finished) (outcome : Outcome) (hf : f.retracted = false) :
    ∃ n, n.gist = (f.scope, f.members, outcome) ∧ (stageAfter f outcome).notice? = some n ∧
      (stageAfter f outcome).claimed? = none ∧ (stageAfter f outcome).owes = true ∧
      (stageAfter f outcome).based? = none ∧ (stageAfter f outcome).compiles? = none ∧
      (stageAfter f outcome).completed? = none := by
  obtain ⟨scope, retracted, members, progress⟩ := f
  obtain rfl : retracted = false := hf
  cases scope <;> exact ⟨⟨_, members, outcome, progress⟩, rfl, rfl, rfl, rfl, rfl, rfl, rfl⟩

/-- A build that ends is done, and what came of it is recorded for all members of its task. -/
theorem finished_spec (hb : Batch m before p done) (hd : m.Distinct)
    (hs : p.artifacts.Shows p.workspace.world h) {scope : Scope} {c : Claimed} {outcome : Outcome}
    (hw : p.workers[i]? = some ⟨scope, .ended c outcome⟩) : ∃ store v stage,
      p.artifacts.Put p.workspace.world (.ok (), store, v)
        (h.assign c.task.members c.scope outcome.header?) ∧
      ((p.finish i c outcome).pchDir = p.pchDir ∧
        (p.finish i c outcome).workspace = { p.workspace with world := v } ∧
        (p.finish i c outcome).artifacts = store ∧
        (p.finish i c outcome).workers = (p.setStage i stage).workers) ∧
      (Stage.based? stage = none ∧ Stage.compiles? stage = none ∧ Stage.completed? stage = none) ∧
      Batch m before (p.finish i c outcome) (done ++ [⟨c.scope, c.task, outcome⟩]) := by
  have hheld : c ∈ p.held := List.mem_filterMap.mpr ⟨_, List.mem_of_getElem? hw, rfl⟩
  obtain ⟨f, q, hf, hscope, hmembers, hretracted, hpend, hrun, hun⟩ :=
    hb.finish_held hd (List.perm_cons_erase hheld)
  obtain ⟨n, hgist, hnotice, hnone, howes, hothers⟩ :=
    stageAfter_spec f outcome hretracted
  rw [hscope, hmembers] at hgist
  have hput := Build.put_record hs f.scope f.members outcome
  obtain ⟨troubles, hnote⟩ := p.noteFailure_eq c.key outcome
  have hresult : Pipeline.finish p i c outcome =
      ({ p with queue := q, troubles := troubles }.recordOutcome f outcome).setStage i
        (stageAfter f outcome) := by
    simp only [Pipeline.finish, hnote, hf]
  rw [hresult, recordOutcome, if_neg (by rw [hretracted]; exact Bool.false_ne_true)]
  dsimp only
  generalize Build.record p.artifacts p.workspace.world f.scope f.members outcome = out at hput ⊢
  obtain ⟨answer, store, v⟩ := out
  obtain rfl : answer = .ok () := hput.result
  rw [hscope, hmembers] at hput
  refine ⟨store, v, stageAfter f outcome, hput, ⟨rfl, rfl, rfl, rfl⟩, hothers, ?_⟩
  exact (hb.finish hw rfl rfl rfl hnone howes hnotice hgist (List.perm_cons_erase hheld) hpend hrun
    hun).congr rfl

/-- A worker's step, with what it adds. -/
theorem made_works {done : List Completed} {made : List Job} (hb : Batch m before p done)
    (hm : Made o inputs p done h made) (hd : m.Distinct) (hsound : ∀ s, Merger.Sound (m.get s))
    (ha : Apart inputs) (hk : ∀ s, ∀ t ∈ m.get s, t.Known o.workspace.files)
    {waits permitted : Bool} (hin : p.digests (.work i waits permitted) ⊆ inputs)
    (hw : Works p i p') : ∃ done' h' made', Batch m before p' done' ∧
      Made o inputs p' done' h' made' ∧ Onward o p p' done done' made made' := by
  cases hw with
  | claim worker opened claim =>
    refine ⟨done, h, made, hb.claim worker claim, ?_, .still rfl⟩
    exact hm.restage worker rfl ⟨rfl, rfl, rfl, rfl⟩ (fun x hx => by cases hx)
      (fun x hx => by cases hx) fun x hx => by cases hx
  | look worker =>
    exact ⟨done, h, made, hb.goesOn worker rfl (Stage.claimed?_footed _ _), hm.look worker,
      .still rfl⟩
  | plan worker =>
    rw [digests, worker] at hin
    exact ⟨done, h, made, hb.goesOn worker rfl (Stage.claimed?_planned _ _ _),
      hm.plan hb hd ha hk worker hin, .still rfl⟩
  | compile worker =>
    rename_i scope claimed job print waits
    have hended : Batch m before (p.setStage i (.ended claimed (Build.compile p.artifacts
        p.workspace.world job print).1)) done := hb.goesOn worker rfl rfl
    have hdraft := (hm.compiles _ (List.mem_filterMap.mpr
      ⟨_, List.mem_of_getElem? worker, rfl⟩)).2
    have hspares := (Build.compile_spec hm.shows print (Job.beside hdraft.ends _)).spares
    rw [hm.documents] at hspares
    refine ⟨done, _, _, hended.congr rfl, hm.compile hb hd ha hk worker,
      List.Subset.refl _, [job], rfl, ?_⟩
    rw [List.flatMap_singleton]
    exact hspares
  | finish worker =>
    rename_i scope claimed outcome
    have hheld : claimed ∈ p.held := List.mem_filterMap.mpr ⟨_, List.mem_of_getElem? worker, rfl⟩
    have hmine : claimed.task ∈ heldIn claimed.scope p.held :=
      List.mem_map_of_mem (List.mem_filter.mpr ⟨hheld, by simp⟩)
    have hdisjoint : ∀ e ∈ done, e.scope = claimed.scope → ∀ i ∈ claimed.task.members,
        i ∉ e.task.members := by
      intro e he hs i hi hi'
      have hother : e.task ∈ endedIn claimed.scope done :=
        List.mem_map_of_mem (List.mem_filter.mpr ⟨he, by simp [hs]⟩)
      have hsame : claimed.task = e.task := (hsound claimed.scope).disjoint _ (hb.held_mem hheld) _
        (hs ▸ hb.done_mem he) i hi hi'
      have hn := (List.nodup_append.mp (hb.tasks_nodup hd claimed.scope)).2.2
      exact hn _ (List.mem_append_right _ hmine) _ hother hsame
    obtain ⟨store, v, stage, hput, hp, hstage, hb'⟩ := finished_spec hb hd hm.shows worker
    have hspares := hput.spares
    rw [hm.documents] at hspares
    refine ⟨done ++ [⟨claimed.scope, claimed.task, outcome⟩], _, made, hb',
      hm.finish hb worker hdisjoint hput hp hstage, List.subset_append_left _ _, [],
      (List.append_nil _).symm, ?_⟩
    rw [hp.2.1]
    exact hspares.mono (List.subset_append_left _ _)
  | notify worker =>
    refine ⟨done, h, made, hb.notify worker, ?_, .still rfl⟩
    exact hm.restage worker rfl ⟨rfl, rfl, rfl, rfl⟩ (fun x hx => by cases hx)
      (fun x hx => by cases hx) fun x hx => by cases hx
  | report worker =>
    have hsend : ∀ event, (p.send event).2 = { p with inbox := (p.send event).2.inbox } := by
      intro event
      rw [Pipeline.send]
      split <;> rfl
    refine ⟨done, h, made, hb.report worker, ?_, .still (by rw [hsend]; rfl)⟩
    rw [hsend]
    exact hm.restage worker rfl ⟨rfl, rfl, rfl, rfl⟩ (fun x hx => by cases hx)
      (fun x hx => by cases hx) fun x hx => by cases hx

/-- Any steps, with what they add. -/
theorem made_after {done : List Completed} {made : List Job} (hb : Batch m before p done)
    (hm : Made o inputs p done h made) (hd : m.Distinct) (hsound : ∀ s, Merger.Sound (m.get s))
    (ha : Apart inputs) (hk : ∀ s, ∀ t ∈ m.get s, t.Known o.workspace.files) {steps : List Step}
    (hin : p.digested steps ⊆ inputs) : (p.after steps).provider = p.provider ∧
      ∃ done' h' made', Batch m before (p.after steps) done' ∧
        Made o inputs (p.after steps) done' h' made' ∧
        Onward o p (p.after steps) done done' made made' := by
  refine after_induction (motive := fun q => q.provider = p.provider ∧ ∃ done' h' made',
    Batch m before q done' ∧ Made o inputs q done' h' made' ∧ Onward o p q done done' made made')
    (P := fun q s => q.digests s ⊆ inputs) ?_ ?_ ⟨rfl, done, h, made, hb, hm, .still rfl⟩
    (along_digested hin)
  · rintro q q' ⟨hprovider, done', h', made', hb', hm', honward⟩ hc
    obtain ⟨hb'', hws, hart, hdir, hkept, hworkers⟩ := hb'.coordinate hc
    exact ⟨hkept.trans hprovider, done', h', made', hb'', hm'.congr ⟨hdir, hws, hart, hworkers⟩,
      honward.trans (.still hws)⟩
  · rintro q q' i waits permitted ⟨hprovider, done', h', made', hb', hm', honward⟩ hin' hw
    obtain ⟨done'', h'', made'', hb'', hm'', hstep⟩ := made_works hb' hm' hd hsound ha hk hin' hw
    exact ⟨hw.keeps.provider.trans hprovider, done'', h'', made'', hb'', hm'', honward.trans hstep⟩

/-- The accounts of a batch, and what it made. -/
def Stands (m : Merger) (before : List Notice) (o : Pipeline W) (inputs : List (List UInt8))
    (p : Pipeline W) : Prop :=
  ∃ done h made, Batch m before p done ∧ Made o inputs p done h made ∧ p.provider = o.provider

theorem Stands.after (hs : Stands m before o inputs p) (hd : m.Distinct)
    (hsound : ∀ s, Merger.Sound (m.get s)) (ha : Apart inputs)
    (hk : ∀ s, ∀ t ∈ m.get s, t.Known o.workspace.files) {steps : List Step}
    (hin : p.digested steps ⊆ inputs) : Stands m before o inputs (p.after steps) := by
  obtain ⟨done, h, made, hb, hm, hprovider⟩ := hs
  obtain ⟨hkept, done', h', made', hb', hm', _⟩ := made_after hb hm hd hsound ha hk hin
  exact ⟨done', h', made', hb', hm', hkept.trans hprovider⟩

end Pipeline
end
end PrecompiledHeaders
