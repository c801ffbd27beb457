import PrecompiledHeaders.Proofs.Pipeline.Making
/-! Runs side by side. Twin worlds look alike, and their compilers differ in some jobs only. As long
as no such job is done, the same steps lead to the same. Project jobs wait for all system jobs, so
worlds that differ in project jobs build them upon the same headers. -/
namespace PrecompiledHeaders

/-- Worlds related by `R` look alike, stay alike whatever is written, and have compilers that do the
same, except for the jobs that `differs` names. -/
structure Twins {W : Type} [Workshop W] (differs : Job → Prop) (R : W → W → Prop) : Prop where
  look : ∀ {v w}, R v w → ∀ q, look w q = look v q
  refusal : ∀ {v w}, R v w → ∀ j, ¬ differs j → Workshop.refusal w j = Workshop.refusal v j
  write : ∀ {v w}, R v w → ∀ p s, R (World.writeText v p s).2 (World.writeText w p s).2
  build : ∀ {v w}, R v w → ∀ j, ¬ differs j → R (World.build v j).2 (World.build w j).2

/-- The same result and the same store, in twin worlds. -/
structure SameBut {W : Type} (R : W → W → Prop) {α : Type} (out out' : α × ArtifactStore × W) :
    Prop where
  result : out'.1 = out.1
  store : out'.2.1 = out.2.1
  world : R out.2.2 out'.2.2

variable {W : Type} [Workshop W] {differs : Job → Prop} {R : W → W → Prop} {v w : W}

/-! ### Stores and plans -/

namespace ArtifactStore

theorem index_congr (hl : ∀ q, look w q = look v q) (store : ArtifactStore) :
    store.index w = store.index v := by
  cases store with
  | memory => rfl
  | file root => rw [index, index, Document.load_congr _ (hl _)]

variable [LawfulWorkshop W]

theorem sameBut_replace (ht : Twins differs R) (h : R v w) (store : ArtifactStore)
    (x : ArtifactIndex) : SameBut R (store.replace v x) (store.replace w x) := by
  cases store with
  | memory => exact ⟨rfl, rfl, h⟩
  | file root =>
    simp only [replace, Document.save_result]
    exact ⟨rfl, rfl, ht.write h _ _⟩

theorem sameBut_insertArtifact (ht : Twins differs R) (h : R v w) (store : ArtifactStore)
    (print : String) (path : FilePath) :
    SameBut R (store.insertArtifact v print path) (store.insertArtifact w print path) := by
  rw [insertArtifact, insertArtifact, index_congr (ht.look h)]
  cases store.index v with
  | error => exact ⟨rfl, rfl, h⟩
  | ok x => exact sameBut_replace ht h store _

theorem sameBut_insertHeader (ht : Twins differs R) (h : R v w) (store : ArtifactStore)
    (parts : List PartId) (scope : Scope) (path : FilePath) :
    SameBut R (store.insertHeader v parts scope path) (store.insertHeader w parts scope path) := by
  rw [insertHeader, insertHeader, index_congr (ht.look h)]
  cases store.index v with
  | error => exact ⟨rfl, rfl, h⟩
  | ok x => exact sameBut_replace ht h store _

theorem sameBut_deleteHeader (ht : Twins differs R) (h : R v w) (store : ArtifactStore)
    (parts : List PartId) (scope : Scope) :
    SameBut R (store.deleteHeader v parts scope) (store.deleteHeader w parts scope) := by
  cases store with
  | memory => exact ⟨rfl, rfl, h⟩
  | file root =>
    simp only [deleteHeader, index_congr (ht.look h)]
    cases index (.file root) v with
    | error => exact ⟨rfl, rfl, h⟩
    | ok x =>
      dsimp only
      split
      · exact sameBut_replace ht h (.file root) _
      · exact ⟨rfl, rfl, h⟩

end ArtifactStore

namespace Build

theorem fingerprint_congr (hl : ∀ q, look w q = look v q) (files : FileTable) (scope : Scope)
    (task : Task) (base : Option FilePath) :
    fingerprint ⟨w, files⟩ scope task base = fingerprint ⟨v, files⟩ scope task base :=
  have hstamp : ∀ q, World.modified? w q = World.modified? v q := fun q => congrArg (·.2.2) (hl q)
  fingerprint_of_stamps (fun _ _ p _ => hstamp ⟨p⟩) fun p _ => hstamp p

/-- What is looked up and what is planned depend on nothing but what can be seen. -/
theorem footing_congr (hl : ∀ q, look w q = look v q) (store : ArtifactStore) (scope : Scope)
    (task : Task) : footing store w scope task = footing store v scope task := by
  have hbase : baseOf store w scope task = baseOf store v scope task := by
    unfold baseOf
    split
    · rw [ArtifactStore.header?, ArtifactStore.header?, store.index_congr hl]
    · rfl
  rw [footing, footing, hbase]

theorem plan_congr (hl : ∀ q, look w q = look v q) (dir : FilePath) (store : ArtifactStore)
    (files : FileTable) (key : TaskKey) (scope : Scope) (task : Task) (base : Option FilePath) :
    plan dir store ⟨w, files⟩ key scope task base =
      plan dir store ⟨v, files⟩ key scope task base := by
  have hhas : World.hasFile w = World.hasFile v := funext fun q => congrArg (·.1) (hl q)
  have hready : ∀ print, reusable? store w print = reusable? store v print := fun print => by
    rw [reusable?, reusable?, ArtifactStore.artifact?, ArtifactStore.artifact?,
      store.index_congr hl, hhas]
  simp only [plan, tryPlan, fingerprint_congr hl, hready]

variable [LawfulWorkshop W]

theorem sameBut_record (ht : Twins differs R) (h : R v w) (store : ArtifactStore) (scope : Scope)
    (parts : List PartId) (outcome : Outcome) :
    SameBut R (record store v scope parts outcome) (record store w scope parts outcome) := by
  cases outcome with
  | built path => exact store.sameBut_insertHeader ht h parts scope path
  | empty | failed => exact store.sameBut_deleteHeader ht h parts scope

theorem sameBut_compile (ht : Twins differs R) (h : R v w) (store : ArtifactStore) {job : Job}
    (hj : ¬ differs job) (print : String) :
    SameBut R (compile store v job print) (compile store w job print) := by
  have hresult : (World.build w job).1 = (World.build v job).1 := by
    rw [LawfulWorkshop.build_result, LawfulWorkshop.build_result, ht.refusal h job hj]
  have hworld := ht.build h job hj
  rw [compile, compile]
  generalize World.build v job = out at hresult hworld ⊢
  generalize World.build w job = out' at hresult hworld ⊢
  obtain ⟨result, v'⟩ := out
  obtain ⟨result', w'⟩ := out'
  obtain rfl : result' = result := hresult
  cases result' with
  | error => exact ⟨rfl, rfl, hworld⟩
  | ok path =>
    have hinsert := store.sameBut_insertArtifact ht hworld print path
    dsimp only at hinsert ⊢
    generalize store.insertArtifact v' print path = put at hinsert ⊢
    generalize store.insertArtifact w' print path = put' at hinsert ⊢
    obtain ⟨answer, store', v''⟩ := put
    obtain ⟨answer', store'', w''⟩ := put'
    obtain ⟨hanswer, hstore, hR⟩ := hinsert
    dsimp only at hanswer hstore
    subst hanswer hstore
    cases answer' with
    | error | ok => exact ⟨rfl, rfl, hR⟩

end Build

/-! ### Steps -/

namespace Pipeline

/-- The same pipeline in another world. -/
def within (p : Pipeline W) (w : W) : Pipeline W :=
  { p with workspace := { p.workspace with world := w } }

/-- The job that is done in a step. -/
def job? (p : Pipeline W) : Step → Option Job
  | .coordinate => none
  | .work i _ permitted =>
    match p.workers[i]? with
    | some ⟨_, .compiling _ job _ waits⟩ => if waits && !permitted then none else some job
    | _ => none

theorem job?_eq_some {p : Pipeline W} {s : Step} {j : Job} (h : p.job? s = some j) :
    ∃ i scope c print waits, p.workers[i]? = some ⟨scope, .compiling c j print waits⟩ ∧
      p.step s = p.compile i c j print := by
  cases s with
  | coordinate => cases h
  | work i waits permitted =>
    rcases hworker : p.workers[i]? with _ | ⟨scope, stage⟩
    · rw [job?, hworker] at h
      cases h
    · rw [job?, hworker] at h
      cases stage with
      | idle | claimed | based | ended | notifying | reporting => cases h
      | compiling c job print waiting =>
        dsimp only at h
        by_cases hgate : (waiting && !permitted) = true
        · rw [if_pos hgate] at h
          cases h
        · rw [if_neg hgate] at h
          obtain rfl := Option.some.inj h
          refine ⟨i, scope, c, print, waiting, hworker, ?_⟩
          rw [step, work, hworker]
          dsimp only
          rw [if_neg hgate, Option.getD_some]

variable [LawfulWorkshop W] {p : Pipeline W}

theorem within_finish (ht : Twins differs R) (h : R p.workspace.world w) (i : Nat) (c : Claimed)
    (outcome : Outcome) : ∃ w', R (p.finish i c outcome).workspace.world w' ∧
      (p.within w).finish i c outcome = (p.finish i c outcome).within w' := by
  obtain ⟨troubles, hnote, hnote'⟩ : ∃ troubles,
      p.noteFailure c.key outcome = { p with troubles := troubles } ∧
      (p.within w).noteFailure c.key outcome = { p.within w with troubles := troubles } := by
    cases outcome <;> exact ⟨_, rfl, rfl⟩
  rw [finish, finish, hnote, hnote']
  have hqueue : (p.within w).queue = p.queue := rfl
  dsimp only
  rw [hqueue]
  cases p.queue.finish c.key with
  | none => exact ⟨w, h, rfl⟩
  | some found =>
    obtain ⟨f, q⟩ := found
    dsimp only
    by_cases hf : f.retracted = true
    · simp only [recordOutcome, hf, if_true]
      exact ⟨w, h, rfl⟩
    · have hsame := Build.sameBut_record ht h p.artifacts f.scope f.members outcome
      have hworld : (p.within w).artifacts = p.artifacts ∧ (p.within w).workspace.world = w :=
        ⟨rfl, rfl⟩
      simp only [recordOutcome, hf, hworld.1, hworld.2]
      generalize Build.record p.artifacts p.workspace.world f.scope f.members outcome = out at hsame ⊢
      generalize Build.record p.artifacts w f.scope f.members outcome = out' at hsame ⊢
      obtain ⟨answer, store, v'⟩ := out
      obtain ⟨answer', store', w'⟩ := out'
      obtain ⟨hanswer, hstore, hR⟩ := hsame
      dsimp only at hanswer hstore
      subst hanswer hstore
      cases answer' with
      | error | ok => exact ⟨w', hR, rfl⟩

theorem within_compile (ht : Twins differs R) (h : R p.workspace.world w) (i : Nat) (c : Claimed)
    {job : Job} (hj : ¬ differs job) (print : String) :
    ∃ w', R (p.compile i c job print).workspace.world w' ∧
      (p.within w).compile i c job print = (p.compile i c job print).within w' := by
  have hsame := Build.sameBut_compile ht h p.artifacts hj print
  have hworld : (p.within w).artifacts = p.artifacts ∧ (p.within w).workspace.world = w := ⟨rfl, rfl⟩
  rw [compile, compile, hworld.1, hworld.2]
  generalize Build.compile p.artifacts p.workspace.world job print = out at hsame ⊢
  generalize Build.compile p.artifacts w job print = out' at hsame ⊢
  obtain ⟨outcome, store, v'⟩ := out
  obtain ⟨outcome', store', w'⟩ := out'
  obtain ⟨houtcome, hstore, hR⟩ := hsame
  dsimp only at houtcome hstore
  subst houtcome hstore
  exact ⟨w', hR, rfl⟩

omit [Workshop W] [LawfulWorkshop W] in
theorem within_claim (p : Pipeline W) (w : W) (i : Nat) (s : Scope) :
    (p.within w).claim i s = (p.claim i s).map (·.within w) ∧
      ∀ p', p.claim i s = some p' → p'.workspace = p.workspace := by
  have hqueue : (p.within w).queue = p.queue := rfl
  have hclosing : (p.within w).closing = p.closing := rfl
  rw [claim, claim, hqueue, hclosing]
  split
  · exact ⟨rfl, fun p' hp => by cases hp⟩
  · cases p.queue.claim s with
    | none => exact ⟨rfl, fun p' hp => by cases hp⟩
    | some found => exact ⟨rfl, fun p' hp => Option.some.inj hp ▸ rfl⟩

omit [LawfulWorkshop W] in
theorem within_look (ht : Twins differs R) (h : R p.workspace.world w) (i : Nat) (c : Claimed) :
    (p.within w).lookUp i c = (p.lookUp i c).within w := by
  have hsame : Build.footing (p.within w).artifacts (p.within w).workspace.world c.scope c.task =
      Build.footing p.artifacts p.workspace.world c.scope c.task :=
    Build.footing_congr (ht.look h) p.artifacts c.scope c.task
  rw [lookUp_eq, lookUp_eq, hsame]
  rfl

omit [LawfulWorkshop W] in
theorem within_plan (ht : Twins differs R) (h : R p.workspace.world w) (i : Nat) (c : Claimed)
    (base : Option FilePath) (waits : Bool) :
    (p.within w).plan i c base waits = (p.plan i c base waits).within w := by
  have hsame : Build.plan (p.within w).pchDir (p.within w).artifacts (p.within w).workspace c.key
      c.scope c.task base =
        Build.plan p.pchDir p.artifacts p.workspace c.key c.scope c.task base :=
    Build.plan_congr (ht.look h) p.pchDir p.artifacts p.workspace.files c.key c.scope c.task base
  rw [plan_eq, plan_eq, hsame]
  rfl

/-- A worker's step does the same in a twin world, unless the compilers differ in its job. -/
theorem within_work (ht : Twins differs R) (h : R p.workspace.world w) (i : Nat)
    (waits permitted : Bool) (hjob : ∀ j, p.job? (.work i waits permitted) = some j → ¬ differs j) :
    ∃ w', R (p.step (.work i waits permitted)).workspace.world w' ∧
      (p.within w).step (.work i waits permitted) =
        (p.step (.work i waits permitted)).within w' := by
  have hworkers : (p.within w).workers[i]? = p.workers[i]? := rfl
  rw [step, step, work, work, hworkers]
  rcases hworker : p.workers[i]? with _ | ⟨scope, stage⟩
  · exact ⟨w, h, rfl⟩
  · rw [job?, hworker] at hjob
    cases stage with
    | idle =>
      obtain ⟨hclaim, hworkspace⟩ := within_claim p w i scope
      dsimp only
      rw [hclaim]
      cases hc : p.claim i scope with
      | none => exact ⟨w, h, rfl⟩
      | some p' => exact ⟨w, by rw [Option.getD_some, hworkspace p' hc]; exact h, rfl⟩
    | claimed claimed =>
      refine ⟨w, ?_, within_look ht h i claimed⟩
      show R (p.lookUp i claimed).workspace.world w
      rw [lookUp_eq]
      exact h
    | based claimed base =>
      refine ⟨w, ?_, within_plan ht h i claimed base waits⟩
      show R (p.plan i claimed base waits).workspace.world w
      rw [plan_eq]
      exact h
    | compiling claimed job print waiting =>
      dsimp only at hjob ⊢
      by_cases hgate : waiting && !permitted
      · rw [if_pos hgate, if_pos hgate]
        exact ⟨w, h, rfl⟩
      · rw [if_neg hgate] at hjob
        rw [if_neg hgate, if_neg hgate]
        exact within_compile ht h i claimed (hjob job rfl) print
    | ended claimed outcome => exact within_finish ht h i claimed outcome
    | notifying s notice => exact ⟨w, h, rfl⟩
    | reporting s notice =>
      refine ⟨w, ?_, ?_⟩
      · show R (p.send _).2.workspace.world w
        rw [send]
        split <;> exact h
      · show ((p.within w).send _).2.setStage i .idle = ((p.send _).2.setStage i .idle).within w
        have hcoordinator : (p.within w).coordinator = p.coordinator := rfl
        rw [send, send, hcoordinator]
        cases p.coordinator <;> rfl

omit [LawfulWorkshop W] in
/-- The coordinator does not look at the world when it is told of the end of a build. -/
theorem within_coordinate (h : R p.workspace.world w)
    (hinbox : ∀ e ∈ p.inbox, ∃ s n, e = .taskFinished s n) :
    R (p.step .coordinate).workspace.world w ∧
      (p.within w).step .coordinate = (p.step .coordinate).within w := by
  cases hc : p.coordinator with
  | stopped | failed =>
    have hstill : ∀ q : Pipeline W, q.coordinator = p.coordinator → q.step .coordinate = q :=
      fun q hq => by rw [step, coordinate, hq, hc]; rfl
    rw [hstill p rfl, hstill (p.within w) rfl]
    exact ⟨h, rfl⟩
  | running =>
    cases hin : p.inbox with
    | nil =>
      have hstill : ∀ q : Pipeline W, q.inbox = p.inbox → q.step .coordinate = q :=
        fun q hq => by
          rw [step, coordinate, hq, hin]
          cases q.coordinator <;> rfl
      rw [hstill p rfl, hstill (p.within w) rfl]
      exact ⟨h, rfl⟩
    | cons e rest =>
      obtain ⟨s, n, rfl⟩ := hinbox e (hin ▸ List.mem_cons_self)
      have hstep : ∀ q : Pipeline W, q.coordinator = .running → q.inbox = .taskFinished s n :: rest →
          q.step .coordinate =
            if q.exitWhenIdle && q.queue.reported.isIdle then
              ({ q with queue := q.queue.reported, notices := q.notices ++ n.toList
                        inbox := rest } : Pipeline W).leave
            else { q with queue := q.queue.reported, notices := q.notices ++ n.toList
                          inbox := rest } := fun q hq hqin => by
        simp only [step, coordinate, hq, hqin, handle]
        split <;> rfl
      rw [hstep p hc hin, hstep (p.within w) hc hin]
      have hboth : (p.within w).exitWhenIdle = p.exitWhenIdle ∧ (p.within w).queue = p.queue :=
        ⟨rfl, rfl⟩
      rw [hboth.1, hboth.2]
      split <;> exact ⟨h, rfl⟩

/-- The same steps do the same in twin worlds, or they come to a job that the compilers differ in. -/
theorem within_after (ht : Twins differs R) (h : R p.workspace.world w) (steps : List Step)
    (hinbox : ∀ pre post, steps = pre ++ post →
      ∀ e ∈ (p.after pre).inbox, ∃ s n, e = .taskFinished s n) :
    (∃ w', R (p.after steps).workspace.world w' ∧
      (p.within w).after steps = (p.after steps).within w') ∨
    ∃ pre s post j, steps = pre ++ s :: post ∧ (p.after pre).job? s = some j ∧ differs j ∧
      ∃ w', R (p.after pre).workspace.world w' ∧
        (p.within w).after pre = (p.after pre).within w' := by
  induction steps using List.reverseRecOn with
  | nil => exact Or.inl ⟨w, h, rfl⟩
  | append_singleton steps s ih =>
    rcases ih fun pre post hsplit => hinbox pre (post ++ [s]) (by rw [hsplit, List.append_assoc]) with
      ⟨w', hw', hsame⟩ | ⟨pre, s', post, j, rfl, hj, hdiffers, hmeet⟩
    · by_cases hjob : ∃ j, (p.after steps).job? s = some j ∧ differs j
      · obtain ⟨j, hj, hdiffers⟩ := hjob
        exact Or.inr ⟨steps, s, [], j, rfl, hj, hdiffers, w', hw', hsame⟩
      · left
        rw [after_append, after_append, hsame]
        cases s with
        | coordinate => exact ⟨w', within_coordinate hw' (hinbox steps _ rfl)⟩
        | work i waits permitted =>
          exact within_work ht hw' i waits permitted fun j hj hd => hjob ⟨j, hj, hd⟩
    · exact Or.inr ⟨pre, s', post ++ [s], j, by simp, hj, hdiffers, hmeet⟩

end Pipeline

/-! ### What project jobs are built upon -/

section

variable {m : Merger} {before : List Notice} {o p q : Pipeline W} {inputs : List (List UInt8)}
  {done done' : List Completed} {h h' : Holdings} {made made' : List Job}

/-- All system tasks have ended. -/
def SystemDone (m : Merger) (done : List Completed) : Prop :=
  ∀ t ∈ m.get .system, ∃ e ∈ done, e.scope = .system ∧ e.task = t

omit [Workshop W] in
/-- A project task is taken up only then. -/
theorem Batch.systemDone (hb : Batch m before p done) {c : Claimed} (hc : c ∈ p.held)
    (hs : c.scope = .project) : SystemDone m done := by
  obtain ⟨hpending, hheld⟩ := hb.gated (Or.inl (hs ▸ List.mem_map_of_mem hc))
  intro t ht
  have hmem := (hb.tasks .system).mem_iff.mpr ht
  have hnone : heldIn .system p.held = [] := by
    rw [heldIn, List.filter_eq_nil_iff.mpr, List.map_nil]
    intro d hd hds
    exact hheld (List.mem_map.mpr ⟨d, hd, of_decide_eq_true hds⟩)
  have hpending : p.queue.pending.get .system = [] := hpending
  rw [hpending, hnone] at hmem
  obtain ⟨e, he, rfl⟩ := List.mem_map.mp hmem
  obtain ⟨he, hscope⟩ := List.mem_filter.mp he
  exact ⟨e, he, of_decide_eq_true hscope, rfl⟩

/-- From then on the headers for project jobs stay as they are. -/
theorem Onward.base_eq (hsystem : SystemDone m done) (hm : Made o inputs p done h made)
    (hb' : Batch m before q done') (hm' : Made o inputs q done' h' made')
    (hon : Pipeline.Onward o p q done done' made made') (s : Scope) (t : Task) :
    h'.base s t = h.base s t ∧ ∀ x, h.base s t = some x →
      World.modified? q.workspace.world x = World.modified? p.workspace.world x := by
  obtain ⟨js, rfl, hspares⟩ := hon.spares
  -- a system task has no second job, so all further jobs are project jobs
  have hproject : ∀ j ∈ js, ∃ key print, j.headerPath.Ends (Build.headerName .project key) ∧
      j.outputPath.Ends (Build.outputName .project key print) := by
    intro j hj
    obtain ⟨e, he, hne, _, print, hdraft⟩ := hm'.jobs j (List.mem_append_right _ hj)
    have htask := hb'.ended_mem he
    cases hs : e.scope with
    | project =>
      rw [hs] at hdraft
      exact ⟨_, _, hdraft.ends⟩
    | system =>
      rw [hs] at htask
      obtain ⟨d, hd, hds, hdt⟩ := hsystem e.task htask
      cases hm.settled d (List.mem_append_right _ hd) with
      | empty includes => exact absurd (hdt ▸ includes) hne
      | @built j' print' _ hdraft' hj' =>
        have hkey : j'.key = j.key := by rw [hdraft'.key, hdraft.key, hds, hs, hdt]
        have honce := hm'.once
        rw [List.map_append, List.nodup_append] at honce
        exact absurd hkey (honce.2.2 _ (List.mem_map_of_mem hj') _ (List.mem_map_of_mem hj))
  constructor
  · cases s with
    | system => rfl
    | project =>
      refine Option.bind_congr fun i _ => ?_
      by_cases hi : ∃ e ∈ done, e.scope = .system ∧ i ∈ e.task.members
      · obtain ⟨e, he, hs, hi⟩ := hi
        have hheader := hm.headers e he i hi
        have hheader' := hm'.headers e (hon.done he) i hi
        rw [hs] at hheader hheader'
        rw [hheader, hheader']
      · have hnone : ∀ e ∈ done, e.scope = .system → i ∉ e.task.members :=
          fun e he hs hmem => hi ⟨e, he, hs, hmem⟩
        rw [hm.bare i .system hnone, hm'.bare i .system]
        intro e he hs hmem
        obtain ⟨d, hd, hds, hdt⟩ := hsystem e.task (hs ▸ hb'.done_mem he)
        exact hnone d hd hds (hdt ▸ hmem)
  · refine hm.stamp_kept hspares fun _ y hy => ?_
    rcases List.mem_append.mp hy with hy | hy
    · exact ArtifactStore.neverBase hy
    · obtain ⟨j, hj, hy⟩ := List.mem_flatMap.mp hy
      obtain ⟨key, print, hends⟩ := hproject j hj
      exact Job.neverBase hends y hy

variable [LawfulWorkshop W]

/-- A job that is to be done next is one of those that are done in the end. -/
theorem Made.mem_of_job? (hm : Made o inputs p done h made) (hb : Batch m before p done)
    (hd : m.Distinct) (hsound : ∀ s, Merger.Sound (m.get s)) (ha : Apart inputs)
    (hk : ∀ s, ∀ t ∈ m.get s, t.Known o.workspace.files) {step : Step}
    {post : List Step} (hin : p.digested (step :: post) ⊆ inputs) {j : Job}
    (hj : p.job? step = some j)
    (hlog : Workshop.jobs (p.after (step :: post)).workspace.world =
      Workshop.jobs o.workspace.world ++ made') : j ∈ made' ∧ ∃ c ∈ p.held, c.scope = j.scope := by
  obtain ⟨i, scope, c, print, waits, hworker, hcompile⟩ := Pipeline.job?_eq_some hj
  have hx : (c, j, print) ∈ p.compiles :=
    List.mem_filterMap.mpr ⟨_, List.mem_of_getElem? hworker, rfl⟩
  obtain ⟨_, v, _, _, _, hjob, _⟩ := hm.compiles _ hx
  refine ⟨?_, c, Pipeline.held_of_compiles hx, (congrArg Job.scope hjob).symm⟩
  have hended : Batch m before (p.setStage i (.ended c (Build.compile p.artifacts
      p.workspace.world j print).1)) done := hb.goesOn hworker rfl rfl
  have hnext : Batch m before (p.compile i c j print) done := hended.congr rfl
  have hrest : (p.compile i c j print).digested post ⊆ inputs := fun x hx =>
    hin (List.mem_append_right _ (hcompile ▸ hx))
  obtain ⟨_, _, _, _, _, hm', hon⟩ :=
    Pipeline.made_after hnext (hm.compile hb hd ha hk hworker) hd hsound ha hk hrest
  obtain ⟨js, hjs, _⟩ := hon.spares
  have hafter : p.after (step :: post) = (p.compile i c j print).after post := by
    rw [← hcompile]
    rfl
  rw [hafter, hm'.log] at hlog
  rw [← List.append_cancel_left hlog, hjs]
  exact List.mem_append_left _ (List.mem_append_right _ (List.mem_singleton_self j))

/-- In twin worlds that differ in project jobs, project tasks are built upon the same headers. -/
theorem Twins.base_eq {inputs' : List (List UInt8)} (ht : Twins differs R)
    (hR : R o.workspace.world w) (hbegin : Batch m before o []) (hmade : Made o inputs o [] h [])
    (hmade' : Made (o.within w) inputs' (o.within w) [] h [])
    (hd : m.Distinct) (hsound : ∀ s, Merger.Sound (m.get s)) (ha : Apart inputs)
    (ha' : Apart inputs') (hk : ∀ s, ∀ t ∈ m.get s, t.Known o.workspace.files) {steps : List Step}
    (hin : o.digested steps ⊆ inputs) (hin' : (o.within w).digested steps ⊆ inputs')
    {h₁ h₂ : Holdings} (hs₁ : (o.after steps).artifacts.Shows (o.after steps).workspace.world h₁)
    (hs₂ : ((o.within w).after steps).artifacts.Shows
      ((o.within w).after steps).workspace.world h₂)
    (hlog : Workshop.jobs (o.after steps).workspace.world =
      Workshop.jobs o.workspace.world ++ made)
    (hproject : ∀ j ∈ made, differs j → j.scope = .project) (s : Scope) (t : Task) :
    h₂.base s t = h₁.base s t ∧ ∀ x, h₁.base s t = some x →
      World.modified? ((o.within w).after steps).workspace.world x =
        World.modified? (o.after steps).workspace.world x := by
  have hbegin' : Batch m before (o.within w) [] := hbegin.congr rfl
  have hpre : ∀ pre post, steps = pre ++ post →
      o.digested pre ⊆ inputs ∧ (o.within w).digested pre ⊆ inputs' := by
    rintro pre post rfl
    rw [Pipeline.digested_append] at hin hin'
    exact ⟨fun x hx => hin (List.mem_append_left _ hx), fun x hx => hin' (List.mem_append_left _ hx)⟩
  have hinbox : ∀ pre post, steps = pre ++ post →
      ∀ e ∈ (o.after pre).inbox, ∃ s n, e = .taskFinished s n := by
    intro pre post hsplit
    obtain ⟨_, _, _, _, hb, _⟩ :=
      Pipeline.made_after hbegin hmade hd hsound ha hk (hpre pre post hsplit).1
    exact hb.inbox
  rcases Pipeline.within_after ht hR steps hinbox with
    ⟨w', hw', hsame⟩ | ⟨pre, step, post, j, rfl, hj, hdiffers, w', hw', hsame⟩
  · -- all went the same way
    rw [hsame] at hs₂ ⊢
    have hh : h₂ = h₁ := hs₂.unique (hs₁.of_look fun d _ => ht.look hw' d)
    exact ⟨by rw [hh], fun x _ => congrArg (·.2.2) (ht.look hw' x)⟩
  · -- they part at a project job
    obtain ⟨hin₀, hin₀'⟩ := hpre pre (step :: post) rfl
    rw [Pipeline.digested_append] at hin hin'
    rw [Pipeline.after_append] at hs₁ hs₂ hlog
    rw [Pipeline.after_append, Pipeline.after_append]
    obtain ⟨_, done₀, h₀, made₀, hb₀, hm₀, _⟩ :=
      Pipeline.made_after hbegin hmade hd hsound ha hk hin₀
    obtain ⟨_, done₀', h₀', made₀', hb₀', hm₀', _⟩ :=
      Pipeline.made_after hbegin' hmade' hd hsound ha' hk hin₀'
    obtain ⟨_, done₁, g₁, made₁, hb₁, hm₁, hon⟩ := Pipeline.made_after hb₀ hm₀ hd hsound ha hk
      fun x hx => hin (List.mem_append_right _ hx)
    obtain ⟨_, done₂, g₂, made₂, hb₂, hm₂, hon'⟩ := Pipeline.made_after hb₀' hm₀' hd hsound ha' hk
      fun x hx => hin' (List.mem_append_right _ hx)
    obtain rfl := hm₁.shows.unique hs₁
    obtain rfl := hm₂.shows.unique hs₂
    -- the job is one of all that were done, so it is a project job
    obtain ⟨hjmade, c, hheld, hscope⟩ := hm₀.mem_of_job? hb₀ hd hsound ha hk
      (fun x hx => hin (List.mem_append_right _ hx)) hj hlog
    rw [hproject j hjmade hdiffers] at hscope
    have hheld' : c ∈ ((o.within w).after pre).held := by
      rw [hsame]
      exact hheld
    have hh : h₀' = h₀ := by
      have hshows := hm₀'.shows
      rw [hsame] at hshows
      exact hshows.unique (hm₀.shows.of_look fun d _ => ht.look hw' d)
    obtain ⟨hbase, hstamp⟩ := Onward.base_eq (hb₀.systemDone hheld hscope) hm₀ hb₁ hm₁ hon s t
    obtain ⟨hbase', hstamp'⟩ :=
      Onward.base_eq (hb₀'.systemDone hheld' hscope) hm₀' hb₂ hm₂ hon' s t
    rw [hh] at hbase' hstamp'
    refine ⟨hbase'.trans hbase.symm, fun x hx => ?_⟩
    rw [hbase] at hx
    have hmeet : World.modified? ((o.within w).after pre).workspace.world x =
        World.modified? (o.after pre).workspace.world x := by
      rw [hsame]
      exact congrArg (·.2.2) (ht.look hw' x)
    rw [hstamp' x hx, hstamp x hx, hmeet]

end
end PrecompiledHeaders
