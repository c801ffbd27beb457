import PrecompiledHeaders.Proofs.Trials
/-! The first batch from end to end: parts are handed in to a fresh pipeline with an empty store, and
workers do what they can in any order until nothing is left to do. -/
namespace PrecompiledHeaders

open Pipeline (Collected Stands Submitted)

/-- The texts under the keys of the merged tasks. -/
def Merger.keyTexts (m : Merger) : List String :=
  Scope.all.flatMap fun s => (m.get s).map fun t => Task.keyText s t.mergeKey

theorem admissible_merge {sets : List TaskSet} {extra : List String}
    (hw : (MergerCall.merge sets extra).WellFormed) (hd : (MergerCall.merge sets extra).Separate)
    (hc : CollisionFree (Merger.empty.merge sets extra).1.keyTexts) :
    Admissible [.merge sets extra] := by
  refine ⟨by simpa using hw, hc.mono fun text ht => ?_⟩
  simp only [List.flatMap_cons, List.flatMap_nil, List.append_nil] at ht
  obtain ⟨s, hs, ht⟩ := List.mem_flatMap.mp ht
  obtain ⟨u, hu, rfl⟩ := List.mem_map.mp ht
  obtain ⟨t, ht, hk⟩ := (Merger.grouped_merge hw hd).2.covers u hu
  exact List.mem_flatMap.mpr ⟨s, hs, List.mem_map.mpr ⟨t, ht, by rw [hk]⟩⟩

namespace Pipeline

variable {W : Type}

theorem Collected.separate {files : FileTable} {parts : List Part} {sets : List TaskSet}
    (h : Collected files parts sets) (extra : List String) (hids : (parts.map (·.id)).Nodup) :
    (MergerCall.merge sets extra).Separate := by
  intro s
  rw [h.flatMap_members]
  exact hids

theorem Collected.wellFormed {files : FileTable} {parts : List Part} {sets : List TaskSet}
    (h : Collected files parts sets) (extra : List String) :
    (MergerCall.merge sets extra).WellFormed := by
  intro s t ht
  obtain ⟨set, hset, rfl⟩ := List.mem_map.mp ht
  have hmem : (set.get s).members ∈ sets.map fun set => (set.get s).members :=
    List.mem_map_of_mem (f := fun set : TaskSet => (set.get s).members) hset
  rw [h.members s] at hmem
  obtain ⟨part, _, hpart⟩ := List.mem_map.mp hmem
  show (set.get s).members ≠ [] ∧ (set.get s).members.Nodup
  rw [← hpart]
  exact ⟨List.cons_ne_nil _ _, List.nodup_singleton _⟩

theorem Collected.known_merged {files : FileTable} {parts : List Part} {sets : List TaskSet}
    (h : Collected files parts sets) (extra : List String) (hids : (parts.map (·.id)).Nodup)
    {s : Scope} : ∀ t ∈ (Merger.empty.merge sets extra).1.get s, t.Known files := by
  intro t ht
  have hgrouped : Merger.Grouped ((MergerCall.merge sets extra).submitted s)
      ((Merger.empty.merge sets extra).1.get s) :=
    (Merger.grouped_merge (h.wellFormed extra) (h.separate extra hids)).2
  refine hgrouped.forall_of_absorb (P := fun t => t.Known files) (fun u hu => ?_)
    (fun t u ht hu _ => ?_) ht
  · obtain ⟨set, hset, rfl⟩ := List.mem_map.mp hu
    exact h.known s set hset
  · intro f hf
    rcases List.mem_append.mp hf with hf | hf
    · exact ht f (List.mem_append_left _ hf)
    · rcases Task.mem_appendNew.mp hf with hf | hf
      · exact ht f (List.mem_append_right _ hf)
      · exact hu f (List.mem_append_right _ hf)

/-- All that is digested for the keys of the merged tasks and along the steps. -/
def inputs [World W] (p : Pipeline W) (steps : List Step) : List (List UInt8) :=
  p.merger.keyTexts.map Text.Utf8.encode ++ p.digested steps

end Pipeline

variable {W : Type} [Workshop W]

/-- What became of the merged tasks of `p`, at `q`, when all were done: `made` are the jobs that were
done for them, and the store holds `h`. -/
structure Outturn (p q : Pipeline W) (outcome : Scope → Task → Outcome) (h : Holdings)
    (made : List Job) : Prop where
  merger : q.merger = p.merger
  provider : q.provider = p.provider
  files : q.workspace.files = p.workspace.files
  documents : q.artifacts.documents = p.artifacts.documents
  calm : q.closing = false ∧ q.inbox = [] ∧ ∀ w ∈ q.workers, w.stage = .idle
  shows : q.artifacts.Shows q.workspace.world h
  spares : Spares (p.artifacts.documents ++ made.flatMap Job.paths) p.workspace.world
    q.workspace.world
  log : Workshop.jobs q.workspace.world = Workshop.jobs p.workspace.world ++ made
  notices : ∀ s, ((q.notices.filter (·.scope = s)).map Notice.gist).Perm
    ((q.merger.get s).map fun t => (s, t.members, outcome s t))
  empty : ∀ s, ∀ t ∈ q.merger.get s, t.includes = [] → outcome s t = .empty
  built : ∀ s, ∀ t ∈ q.merger.get s, t.includes ≠ [] → ∃ v : W,
    Spares (p.artifacts.documents ++ made.flatMap Job.paths) p.workspace.world v ∧
    (∀ x, h.base s t = some x → World.modified? v x = World.modified? q.workspace.world x) ∧
    let j := Build.job p.pchDir p.workspace.files v s t (h.base s t)
    j ∈ made ∧ outcome s t = Workshop.verdict p.workspace.world j ∧
    (Workshop.refusal p.workspace.world j = none →
      h.artifact (Build.print p.workspace.files v s t (h.base s t)) = some j.outputPath)
  jobs : ∀ j ∈ made, ∃ t ∈ q.merger.get j.scope, t.includes ≠ [] ∧ j.key = t.key j.scope ∧
    j.base = h.base j.scope t ∧ j.headerPath.Ends (Build.headerName j.scope j.key) ∧
    ∃ print, j.outputPath.Ends (Build.outputName j.scope j.key print)
  once : (made.map Job.key).Nodup
  headers : ∀ s, ∀ t ∈ q.merger.get s, ∀ i ∈ t.members, h.header i s = (outcome s t).header?
  bare : ∀ s i, (∀ t ∈ q.merger.get s, i ∉ t.members) → h.header i s = none
  outputs : LeavesOutputs W → (∀ j, Workshop.refusal p.workspace.world j = none) →
    ∀ j ∈ made, World.hasFile q.workspace.world j.outputPath = true

theorem Outturn.of_stands {m : Merger} {p q : Pipeline W} {inputs : List (List UInt8)}
    (hs : Stands m [] p inputs q) (hp : p.merger = m) (hd : m.Distinct)
    (hidle : q.queue.isIdle = true) : ∃ outcome h made, Outturn p q outcome h made := by
  obtain ⟨done, h, made, hb, hm, hprovider⟩ := hs
  obtain ⟨_, _, hheld, hinbox, hworkers⟩ := hb.through hidle
  obtain ⟨hdone, hnotices⟩ := hb.told hd hidle
  have hnone : q.ended = [] := by
    refine List.eq_nil_iff_forall_not_mem.mpr fun e he => ?_
    obtain ⟨c, hc, _⟩ := Pipeline.held_of_ended he
    rw [hheld] at hc
    exact List.not_mem_nil hc
  have hmem : ∀ e ∈ done, e.task ∈ q.merger.get e.scope := by
    intro e he
    rw [hb.merger]
    exact hb.done_mem he
  rw [← hb.merger] at hdone hnotices
  have hsettled := hm.settled
  have hjobs := hm.jobs
  rw [hnone, List.nil_append] at hsettled hjobs
  refine ⟨outcomeIn done, h, made, hb.merger.trans hp.symm, hprovider, hm.files, hm.documents,
    ⟨hb.opened, hinbox, hworkers⟩, hm.shows, hm.spares, hm.log, hnotices, fun s t ht hi => ?_,
    fun s t ht hi => ?_, fun j hj => ?_, hm.once, fun s t ht i hi => ?_, fun s i hi => ?_,
    hm.outputs⟩
  · obtain ⟨e, he, rfl, rfl, ho⟩ := hdone s t ht
    rw [ho]
    cases hsettled e he with
    | empty _ outcome => exact outcome
    | built includes => exact absurd hi includes
  · obtain ⟨e, he, rfl, rfl, ho⟩ := hdone s t ht
    rw [ho]
    cases hsettled e he with
    | empty includes => exact absurd includes hi
    | built _ drafted job outcome artifact =>
      obtain ⟨v, hv, _, hstamp, rfl, rfl⟩ := drafted
      exact ⟨v, hv, hstamp, job, outcome, artifact⟩
  · obtain ⟨e, he, hi, _, print, v, _, _, _, rfl, _⟩ := hjobs j hj
    have hends := Build.ends_job p.pchDir p.workspace.files v e.scope e.task (h.base e.scope e.task)
    exact ⟨e.task, hmem e he, hi, rfl, rfl, hends.1, _, hends.2⟩
  · obtain ⟨e, he, rfl, rfl, ho⟩ := hdone s t ht
    rw [ho]
    exact hm.headers e he i hi
  · exact hm.bare i s fun e he hs hie => hi e.task (hs ▸ hmem e he) hie

/-- The outcome for a task is up to the state of its sources, the header it is built upon, and the
answer to its own job. -/
theorem Outturn.outcome_congr {p q p' q' : Pipeline W} {outcome outcome' : Scope → Task → Outcome}
    {h h' : Holdings} {made made' : List Job} (hr : Outturn p q outcome h made)
    (hr' : Outturn p' q' outcome' h' made') (hdir : p'.pchDir = p.pchDir)
    (hfiles : p'.workspace.files = p.workspace.files)
    (hdocs : p'.artifacts.documents = p.artifacts.documents)
    (hlook : ∀ x, look p'.workspace.world x = look p.workspace.world x) {s : Scope} {t : Task}
    (ht : t ∈ q.merger.get s) (ht' : t ∈ q'.merger.get s)
    (hsources : ∀ x ∈ p.workspace.files.names t.sources,
      ∀ y ∈ p.artifacts.documents ++ (made ++ made').flatMap Job.paths, ¬ y.same ⟨x⟩)
    (hbase : h'.base s t = h.base s t)
    (hstamp : ∀ x, h.base s t = some x →
      World.modified? q'.workspace.world x = World.modified? q.workspace.world x)
    (hanswer : ∀ j ∈ made, j.key = t.key s →
      Workshop.refusal p'.workspace.world j = Workshop.refusal p.workspace.world j) :
    outcome' s t = outcome s t := by
  by_cases hi : t.includes = []
  · rw [hr.empty s t ht hi, hr'.empty s t ht' hi]
  · obtain ⟨v, hv, hvbase, hj, ho, _⟩ := hr.built s t ht hi
    obtain ⟨v', hv', hvbase', hj', ho', _⟩ := hr'.built s t ht' hi
    rw [hdir, hfiles, hbase] at hj' ho'
    rw [hbase] at hvbase'
    rw [hdocs] at hv'
    have hinput : Build.input p.workspace.files v' s t (h.base s t) =
        Build.input p.workspace.files v s t (h.base s t) := by
      refine Build.input_congr (fun x hx => ?_) fun x hx => ?_
      · have hout := hv.modified? (q := ⟨x⟩) fun y hy => hsources x hx y (by
          simp only [List.flatMap_append, List.mem_append] at hy ⊢
          exact hy.imp_right Or.inl)
        have hout' := hv'.modified? (q := ⟨x⟩) fun y hy => hsources x hx y (by
          simp only [List.flatMap_append, List.mem_append] at hy ⊢
          exact hy.imp_right Or.inr)
        rw [hout, hout']
        exact congrArg (·.2.2) (hlook ⟨x⟩)
      · rw [hvbase' x hx, hvbase x hx, hstamp x hx]
    have hjob : Build.job p.pchDir p.workspace.files v' s t (h.base s t) =
        Build.job p.pchDir p.workspace.files v s t (h.base s t) := by
      rw [Build.job, Build.job, Build.print_congr hinput]
    rw [ho, ho', hjob, Workshop.verdict, Workshop.verdict, hanswer _ hj rfl]

section

variable [LawfulWorkshop W] {ws : Workspace W} {dir : FilePath} {records : RecordStore}
  {artifacts : ArtifactStore} {workers : List Scope} {exits watches : Bool} {parts : List Part}

/-- After these calls of the merger all merged tasks are pending, and nothing was made so far. -/
structure Pipeline.Ready (p : Pipeline W) (calls : List MergerCall) : Prop where
  admissible : Admissible calls
  merger : p.merger = Merger.after calls
  known : ∀ s, ∀ t ∈ p.merger.get s, t.Known p.workspace.files
  shows : p.artifacts.Shows p.workspace.world .empty
  idle : ∀ w ∈ p.workers, w.stage = .idle
  batch : Batch p.merger [] p []

omit [LawfulWorkshop W] in
theorem Pipeline.Ready.distinct {p : Pipeline W} {calls : List MergerCall} (h : p.Ready calls) :
    p.merger.Distinct ∧ ∀ s, Merger.Sound (p.merger.get s) := by
  rw [h.merger]
  exact ⟨Merger.distinct_after h.admissible, Merger.sound_after _ h.admissible.wellFormed⟩

omit [LawfulWorkshop W] in
/-- It makes no difference to be in a twin world. -/
theorem Pipeline.Ready.within {p : Pipeline W} {calls : List MergerCall} (h : p.Ready calls)
    {differs : Job → Prop} {R : W → W → Prop} {w : W} (ht : Twins differs R)
    (hR : R p.workspace.world w) : (p.within w).Ready calls :=
  ⟨h.admissible, h.merger, h.known, h.shows.of_look fun _ _ => ht.look hR _, h.idle,
    h.batch.congr rfl⟩

/-- Whatever order the steps are taken in, all that is to be said at the end can be said. -/
theorem Pipeline.Ready.outturn {p : Pipeline W} {calls : List MergerCall} (h : p.Ready calls)
    {steps : List Step} (ha : Apart (p.inputs steps))
    (hidle : (p.after steps).queue.isIdle = true) :
    ∃ outcome hs made, Outturn p (p.after steps) outcome hs made := by
  obtain ⟨hdistinct, hsound⟩ := h.distinct
  have hstands : Stands p.merger [] p (p.inputs steps) p :=
    ⟨[], .empty, [], h.batch, Made.start h.shows h.idle, rfl⟩
  exact Outturn.of_stands (hstands.after hdistinct hsound ha h.known (List.subset_append_right _ _))
    rfl hdistinct hidle

/-- A fresh pipeline `o` has taken up its first batch, which is of all merged tasks. -/
structure Pipeline.Begun (o p : Pipeline W) (parts : List Part) (extra : List String)
    (sets : List TaskSet) : Prop where
  submitted : Submitted o parts extra sets p
  merger : p.merger = (Merger.empty.merge sets extra).1
  ready : p.Ready [.merge sets extra]

theorem Pipeline.begun (extra : List String) (hids : (parts.map (·.id)).Nodup)
    (hknown : ∀ part ∈ parts, part.Known ws.files)
    (hempty : artifacts.Shows ws.world .empty) :
    let o := start ws dir records artifacts workers exits watches
    let p := o.handle (.addParts parts extra)
    CollisionFree p.merger.keyTexts → ∃ sets, Begun o p parts extra sets := by
  intro o p hc
  obtain ⟨sets, hs⟩ := Pipeline.submitted (p := o) extra hknown (Provider.sane_start records ws.files)
  change Submitted o parts extra sets p at hs
  have hmerger : p.merger = (Merger.empty.merge sets extra).1 := by rw [hs.shape]; rfl
  have hd := hs.collected.separate extra hids
  have hw := hs.collected.wellFormed extra
  have ha := admissible_merge hw hd (hmerger ▸ hc)
  have hidle : ∀ w ∈ o.workers, w.stage = .idle := by
    intro w hw
    obtain ⟨scope, _, rfl⟩ := List.mem_map.mp hw
    rfl
  refine ⟨sets, hs, hmerger, ha, hmerger, fun s t ht => ?_, ?_, ?_, ?_⟩
  · exact hs.collected.known_merged extra hids t (hmerger ▸ ht)
  · have hart : p.artifacts = artifacts := by rw [hs.shape]; rfl
    rw [hart]
    exact hempty.spared hs.forward.spares (Provider.records_beside hknown _)
  · rw [hs.shape]
    exact hidle
  · rw [hmerger]
    refine @Batch.start W o p [] _ ha rfl rfl hidle rfl rfl rfl (fun s t ht => ?_) ?_
    · have hgrouped : Merger.Grouped ((MergerCall.merge sets extra).submitted s)
          ((Merger.empty.merge sets extra).1.get s) := (Merger.grouped_merge hw hd).2
      obtain ⟨u, rest, hfilter, -⟩ := hgrouped.folds t ht
      have hu := List.mem_filter.mp (hfilter.symm ▸ List.mem_cons_self)
      exact ⟨u, hu.1, of_decide_eq_true hu.2⟩
    · rw [hs.shape]
      rfl

/-- Which tasks the compilers of twin worlds do not differ in, they bring to the same outcome, if no
build writes their sources and the compilers differ in one scope only. -/
theorem Pipeline.Ready.outcome_eq {p : Pipeline W} {calls : List MergerCall} (h : p.Ready calls)
    {steps : List Step} (ha : Apart (p.inputs steps)) {outcome outcome' : Scope → Task → Outcome}
    {hs hs' : Holdings} {made made' : List Job} (hr : Outturn p (p.after steps) outcome hs made)
    {differs : Job → Prop} {R : W → W → Prop} {w : W} (ht : Twins differs R)
    (hR : R p.workspace.world w) (ha' : Apart ((p.within w).inputs steps))
    (hr' : Outturn (p.within w) ((p.within w).after steps) outcome' hs' made') {s : Scope} {t : Task}
    (hmem : t ∈ p.merger.get s)
    (hdiffers : ∀ j ∈ made, differs j → j.scope = s ∧ j.key ≠ t.key s)
    (hsources : ∀ x ∈ p.workspace.files.names t.sources,
      ∀ y ∈ p.artifacts.documents ++ (made ++ made').flatMap Job.paths, ¬ y.same ⟨x⟩) :
    outcome' s t = outcome s t := by
  obtain ⟨hdistinct, hsound⟩ := h.distinct
  obtain ⟨hbase, hstamp⟩ : hs'.base s t = hs.base s t ∧ ∀ x, hs.base s t = some x →
      World.modified? ((p.within w).after steps).workspace.world x =
        World.modified? (p.after steps).workspace.world x := by
    cases s with
    | system => exact ⟨rfl, fun x hx => by cases hx⟩
    | project =>
      have hready := h.within ht hR
      exact ht.base_eq hR h.batch (Made.start h.shows h.idle) (Made.start hready.shows hready.idle)
        hdistinct hsound ha ha' h.known (List.subset_append_right _ _)
        (List.subset_append_right _ _) hr.shows hr'.shows hr.log
        (fun j hj hd => (hdiffers j hj hd).1) .project t
  refine hr.outcome_congr hr' rfl rfl rfl (ht.look hR) ?_ ?_ hsources hbase hstamp
    fun j hj hk => ht.refusal hR j fun hd => (hdiffers j hj hd).2 hk
  · rw [hr.merger]
    exact hmem
  · rw [hr'.merger]
    exact hmem

/-- The first batch from end to end. Whatever order the steps are taken in, once the queue is idle
there was one notice for each merged task, with all its members in the order in which they joined;
a part has the artifact of its task's build as its header if there was something to build and the
build succeeded, and no header otherwise; and a project job was given the system header that its
task's first member has in the end. The same steps with a compiler that differs in other tasks of the
same scope bring a task to the same outcome, if no build writes one of its sources. -/
theorem first_batch (extra : List String) (steps : List Step) (hids : (parts.map (·.id)).Nodup)
    (hknown : ∀ part ∈ parts, part.Known ws.files) (hempty : artifacts.Shows ws.world .empty) :
    let p := (Pipeline.start ws dir records artifacts workers exits watches).handle
      (.addParts parts extra)
    Apart (p.inputs steps) → (p.after steps).queue.isIdle = true →
    (∃ sets, Collected p.workspace.files parts sets ∧
      p.merger = (Merger.empty.merge sets extra).1 ∧
      ∀ s, (∀ part ∈ parts, ∃ t ∈ p.merger.get s, part.id ∈ t.members) ∧
        ∀ t ∈ p.merger.get s, t.members = (((MergerCall.merge sets extra).submitted s).filter
          (·.mergeKey = t.mergeKey)).flatMap Task.members) ∧
    ∃ outcome h made, Outturn p (p.after steps) outcome h made ∧
      ∀ (differs : Job → Prop) (R : W → W → Prop) (w : W), Twins differs R →
        R p.workspace.world w → Apart ((p.within w).inputs steps) →
        ((p.within w).after steps).queue.isIdle = true →
        ∃ outcome' h' made',
          Outturn (p.within w) ((p.within w).after steps) outcome' h' made' ∧
          ∀ s, ∀ t ∈ p.merger.get s,
            (∀ j ∈ made, differs j → j.scope = s ∧ j.key ≠ t.key s) →
            (∀ x ∈ p.workspace.files.names t.sources,
              ∀ y ∈ p.artifacts.documents ++ (made ++ made').flatMap Job.paths, ¬ y.same ⟨x⟩) →
            outcome' s t = outcome s t := by
  intro p hapart hidle
  have hc : CollisionFree p.merger.keyTexts :=
    hapart.collisionFree (List.subset_append_left _ _)
  obtain ⟨sets, hbegun⟩ := Pipeline.begun extra hids hknown hempty hc
  have hmerger := hbegun.merger
  have hsets := hbegun.submitted.collected
  have hgrouped : ∀ s, Merger.Grouped ((MergerCall.merge sets extra).submitted s)
      ((Merger.empty.merge sets extra).1.get s) := fun s =>
    (Merger.grouped_merge (hsets.wellFormed extra) (hsets.separate extra hids)).2
  obtain ⟨outcome, h, made, hout⟩ := hbegun.ready.outturn hapart hidle
  refine ⟨⟨sets, hsets, hmerger, fun s => ⟨fun part hpart => ?_, fun t ht => ?_⟩⟩, outcome, h, made,
    hout, fun differs R w htwins hR hapart' hidle' => ?_⟩
  · have hmem : part.id ∈ ((MergerCall.merge sets extra).submitted s).flatMap Task.members := by
      rw [hsets.flatMap_members]
      exact List.mem_map_of_mem hpart
    obtain ⟨u, hu, hi⟩ := List.mem_flatMap.mp hmem
    obtain ⟨t, ht, hkey⟩ := (hgrouped s).covers u hu
    rw [hmerger]
    refine ⟨t, ht, ?_⟩
    rw [(hgrouped s).members (hsets.separate extra hids s) ht]
    exact List.mem_flatMap.mpr ⟨u, List.mem_filter.mpr ⟨hu, by simp [hkey]⟩, hi⟩
  · rw [hmerger] at ht
    exact (hgrouped s).members (hsets.separate extra hids s) ht
  · obtain ⟨outcome', h', made', hout'⟩ := (hbegun.ready.within htwins hR).outturn hapart' hidle'
    exact ⟨outcome', h', made', hout', fun s t ht hdiffers hsources =>
      hbegun.ready.outcome_eq hapart hout htwins hR hapart' hout' ht hdiffers hsources⟩

end

/-! ### Two parts, with two compilers -/

section

open Merger (headerTask)
open Pipeline (fullRound bareRound)

/-- The bench with a compiler that cannot do with these headers. -/
def WritingBench.refusing (b : WritingBench) (failing : List FilePath) : WritingBench :=
  ⟨{ b.bench with failingIncludes := failing }, b.writes⟩

theorem WritingBench.eq_of_bench {b c : WritingBench} (h : b.bench = c.bench) : b = c := by
  cases b
  cases c
  exact (WritingBench.mk.injEq ..).mpr h

/-- Two compilers differ in the jobs that include what the one or the other cannot do with. -/
theorem twins_refusing (failing failing' : List FilePath) :
    Twins (fun j => j.includes.any fun p => (failing ++ failing').any (·.same p))
      fun v w : WritingBench => v.bench.failingIncludes = failing ∧ w = v.refusing failing' := by
  have hneither : ∀ {v : WritingBench} {j : Job}, v.bench.failingIncludes = failing →
      ¬ (j.includes.any fun p => (failing ++ failing').any (·.same p)) = true →
      v.bench.fails j = false ∧ (v.refusing failing').bench.fails j = false := by
    rintro v j rfl hj
    simp only [List.any_append, List.any_eq_true, Bool.or_eq_true, not_exists, not_and, not_or] at hj
    constructor <;> simp only [Bench.fails, WritingBench.refusing, List.any_eq_false, List.any_eq_true]
    · exact fun p hp => fun ⟨q, hq, hsame⟩ => (hj p hp).1 q hq hsame
    · exact fun p hp => fun ⟨q, hq, hsame⟩ => (hj p hp).2 q hq hsame
  refine ⟨?_, ?_, ?_, ?_⟩
  · rintro v _ ⟨_, rfl⟩ q
    exact WritingBench.look_eq rfl
  · rintro v _ ⟨hv, rfl⟩ j hj
    obtain ⟨hfails, hfails'⟩ := hneither hv hj
    simp only [Workshop.refusal, hfails, hfails']
  · rintro v _ ⟨hv, rfl⟩ p s
    exact ⟨hv, rfl⟩
  · rintro v _ ⟨hv, rfl⟩ j hj
    obtain ⟨hfails, hfails'⟩ := hneither hv hj
    refine ⟨?_, WritingBench.eq_of_bench ?_⟩
    · rw [WritingBench.bench_build hfails]
      exact hv
    · rw [WritingBench.bench_build hfails']
      show _ = { (World.build v j).2.bench with failingIncludes := failing' }
      rw [WritingBench.bench_build hfails]
      rfl

/-- What it takes an evaluation to see: what the files of the trials are called, and what a compiler
that cannot do with the second part makes of the jobs. -/
structure Differing : Prop where
  names : ∀ x ∈ [("/a.h", "a.h"), ("/b.h", "b.h"), ("/c.h", "c.h"), ("/d.h", "d.h")],
    (⟨x.1⟩ : FilePath).components.getLast? = some (.name x.2) ∧
      ∀ s : Scope, x.2.toList.head? ≠ s.text.toList.head?
  spared : (trioScanned [⟨"/c.h"⟩]).bench.fails lendingJob = false
  failed : Workshop.verdict (trioLent [⟨"/c.h"⟩]) ownJob =
    .failed "PCH build ed3ea260ee5e7846 failed with exit code 1: fake compiler error"
  differs : ∀ j ∈ [lendingJob, ownJob, sharedJob],
    (j.includes.any fun p => ([] ++ [⟨"/c.h"⟩] : List FilePath).any (·.same p)) = true →
      j.scope = .system ∧ j.key ≠ ⟨"f00e6eab96427c74d91c2cac12bd76a455cbc5e31a7975a2db6eec856bd8f3ca"⟩

theorem differing : Differing := by
  constructor <;> decide +kernel

theorem lends_without : Lends [⟨"/c.h"⟩] := lends_of_not_fails differing.spared

/-- All that is digested when both parts are built for. -/
theorem Lends.inputs {failing : List FilePath} (h : Lends failing) {p : Pipeline WritingBench}
    (hmerger : p.merger = ⟨[headerTask ["a"] 0, headerTask ["b"] 2], [headerTask ["a", "b"] 1]⟩)
    (hp : Poised p ⟨trioScanned failing, trioFiles⟩ .empty firstPending) :
    (p.inputs firstSteps).map digest =
      ["f00e6eab96427c74d91c2cac12bd76a455cbc5e31a7975a2db6eec856bd8f3ca",
        "ed3ea260ee5e7846fd45b8e6d52430407daa95c689f5120f4c5f434886cd5643",
        "1f75f7a169acb404ba462ea5e10adffbb3ae902082181d4d6fba4f8435f3ddec",
        "ce179cb3c392cebd8d0462c1cbf56273e4e5a644557aedda180be6f4bcdc1336",
        "a4107ff4b5b5a01ac6bd9d030a0df8f200f072cd1b93311f742bf0cd6f42a48e",
        "df75c605bd3480bda30426b5da6e4e02706644d2b0b84e0f0627fc0d510b7d66",
        "31fdeaa5013c3146a80d96f28dd2e53ba9264a97781b5ead7f9ab47b691ae188",
        "1196991c7363ae20d536afed56a51fe2c39c7c9d2bc114e822733d63ea7cdeb1",
        "e6fb627d968df78b113ffe36180c1ba91f06cc99f534dc172cca23e0036230de"] := by
  have hkeys : p.merger.keyTexts = [Task.keyText .system (headerTask ["a"] 0).mergeKey,
      Task.keyText .system (headerTask ["b"] 2).mergeKey,
      Task.keyText .project (headerTask ["a", "b"] 1).mergeKey] := by
    rw [hmerger]
    rfl
  rw [Pipeline.inputs, List.map_append, h.digested hp, hkeys]
  simp only [List.map_cons, List.map_nil, evaluated.keyA, evaluated.keyC, evaluated.keyShared]
  rfl

theorem Lends.apart {failing : List FilePath} (h : Lends failing) {p : Pipeline WritingBench}
    (hmerger : p.merger = ⟨[headerTask ["a"] 0, headerTask ["b"] 2], [headerTask ["a", "b"] 1]⟩)
    (hp : Poised p ⟨trioScanned failing, trioFiles⟩ .empty firstPending) :
    Apart (p.inputs firstSteps) := by
  refine apart_of_nodup ?_
  rw [h.inputs hmerger hp]
  decide

/-- An outcome that was announced. -/
theorem Outturn.outcome_of_notices {W : Type} [Workshop W] {p q : Pipeline W}
    {outcome : Scope → Task → Outcome} {h : Holdings} {made : List Job}
    (hr : Outturn p q outcome h made) {s : Scope} {t : Task} (ht : t ∈ q.merger.get s) :
    (s, t.members, outcome s t) ∈ q.notices.map Notice.gist := by
  obtain ⟨n, hn, hgist⟩ := List.mem_map.mp ((hr.notices s).mem_iff.mpr (List.mem_map_of_mem ht))
  exact List.mem_map.mpr ⟨n, (List.mem_filter.mp hn).1, hgist⟩

theorem Outturn.made_of_poised {failing : List FilePath} {p q : Pipeline WritingBench}
    {outcome : Scope → Task → Outcome} {h : Holdings} {made : List Job} (hr : Outturn p q outcome h made)
    {x y : ArtifactIndex} {pending pending' : PerScope (List Pending)}
    (hp : Poised p ⟨trioScanned failing, trioFiles⟩ x pending)
    (hq : Poised q ⟨trioShared failing, trioFiles⟩ y pending') :
    made = [lendingJob, ownJob, sharedJob] := by
  have hlog := hr.log
  rw [hp.workspace, hq.workspace, jobs_trioShared] at hlog
  exact (List.append_cancel_left hlog).symm

/-- The file does not have the name of anything that a job writes. -/
def FilePath.NeverMade (x : FilePath) : Prop :=
  ∃ name, x.Ends name ∧ ∀ s k print, Build.headerName s k ≠ name ∧ Build.outputName s k print ≠ name

theorem neverMade_trial : ∀ x ∈ ["/a.h", "/b.h", "/c.h", "/d.h"], (⟨x⟩ : FilePath).NeverMade := by
  -- what a job writes has a name that begins with the scope
  have hhead : ∀ {name : String}, (∀ s : Scope, name.toList.head? ≠ s.text.toList.head?) →
      ∀ s k print, Build.headerName s k ≠ name ∧ Build.outputName s k print ≠ name := by
    intro name hname s k print
    constructor <;> rintro rfl <;> refine hname s ?_
    · rw [Build.toList_headerName]
      cases s <;> rfl
    · rw [Build.toList_outputName]
      cases s <;> rfl
  intro x hx
  obtain ⟨y, hy, rfl⟩ := List.mem_map.mp (show x ∈ [("/a.h", "a.h"), ("/b.h", "b.h"), ("/c.h", "c.h"),
    ("/d.h", "d.h")].map Prod.fst from hx)
  obtain ⟨hends, hname⟩ := differing.names y hy
  exact ⟨y.2, hends, hhead hname⟩

theorem Outturn.beside {W : Type} [Workshop W] {p q : Pipeline W} {outcome : Scope → Task → Outcome}
    {h : Holdings} {made : List Job} (hr : Outturn p q outcome h made) {x : FilePath}
    (hx : x.NeverMade) : ∀ y ∈ made.flatMap Job.paths, ¬ y.same x := by
  intro y hy
  obtain ⟨name, hends, hne⟩ := hx
  obtain ⟨j, hj, hy⟩ := List.mem_flatMap.mp hy
  obtain ⟨_, _, _, _, _, hheader, print, houtput⟩ := hr.jobs j hj
  obtain ⟨hneHeader, hneOutput⟩ := hne j.scope j.key print
  exact (Job.forall_mem_paths (P := fun y => ¬ y.same x)).mpr
    ⟨FilePath.not_same_of_ends hheader hends hneHeader,
      FilePath.not_same_of_ends houtput hends hneOutput⟩ y hy

/-- The system header of the second part is as its own job left it. -/
theorem Outturn.outcome_own {failing : List FilePath} (hl : Lends failing) {p : Pipeline WritingBench}
    {outcome : Scope → Task → Outcome} {h : Holdings} {made : List Job}
    (hr : Outturn p (p.after firstSteps) outcome h made)
    (hp : Poised p ⟨trioScanned failing, trioFiles⟩ .empty firstPending) (hnotices : p.notices = [])
    (ht : headerTask ["b"] 2 ∈ p.merger.get .system) :
    outcome .system (headerTask ["b"] 2) = Workshop.verdict (trioLent failing) ownJob := by
  have htold := hr.outcome_of_notices (s := .system) (by rw [hr.merger]; exact ht)
  rw [(hl.first_steps hp).2.1, hnotices] at htold
  simpa [headerTask] using htold

/-- Two parts share a project header, which is built upon the system header of the first one. With a
compiler that fails on what the second one includes, the second system header comes to something else,
and the first one and the project header come to the same. -/
theorem first_batch_duo :
    let p := duo []
    let p' := p.within (p.workspace.world.refusing [⟨"/c.h"⟩])
    (p.after firstSteps).queue.isIdle = true ∧ (p'.after firstSteps).queue.isIdle = true ∧
    ∃ outcome h made outcome' h' made', Outturn p (p.after firstSteps) outcome h made ∧
      Outturn p' (p'.after firstSteps) outcome' h' made' ∧
      sharedJob ∈ made ∧ h.base .project (headerTask ["a", "b"] 1) = sharedJob.base ∧
      outcome .system (headerTask ["b"] 2) = .built ownJob.outputPath false ∧
      outcome' .system (headerTask ["b"] 2) =
        .failed "PCH build ed3ea260ee5e7846 failed with exit code 1: fake compiler error" ∧
      outcome' .system (headerTask ["a"] 0) = outcome .system (headerTask ["a"] 0) := by
  intro p p'
  obtain ⟨hmerger, hnotices, _, hpoised⟩ := poised_duo []
  have hpoised' : Poised p' ⟨trioScanned [⟨"/c.h"⟩], trioFiles⟩ .empty firstPending := by
    have hworld : p.workspace.world.refusing [⟨"/c.h"⟩] = trioScanned [⟨"/c.h"⟩] := by
      rw [hpoised.workspace]
      rfl
    exact hworld ▸ hpoised.within _
  have hend := (lends.first_steps hpoised).2.2
  have hend' := (lends_without.first_steps hpoised').2.2
  have hknown : ∀ part ∈ [plainPart "a", plainPart "b"], part.Known .empty := by
    intro part hpart
    simp only [List.mem_cons, List.not_mem_nil, or_false] at hpart
    rcases hpart with rfl | rfl <;> exact plainPart_known _ _
  obtain ⟨_, outcome, h, made, hout, hother⟩ := @first_batch _ _ _ ⟨trioBench [], .empty⟩ _ _ _ _ _ _ _
    [] firstSteps (by decide) hknown (ArtifactStore.shows_memory_empty _) (lends.apart hmerger hpoised)
    hend.isIdle
  change Outturn p (p.after firstSteps) outcome h made at hout
  have hsame : p.workspace.world.bench.failingIncludes = [] := by
    rw [hpoised.workspace]
    rfl
  obtain ⟨outcome', h', made', hout', hkept⟩ := hother _ _ _ (twins_refusing [] [⟨"/c.h"⟩])
    ⟨hsame, rfl⟩ (lends_without.apart hmerger hpoised') hend'.isIdle
  change Outturn p' (p'.after firstSteps) outcome' h' made' at hout'
  -- the jobs that were done, and what was announced of the second part
  have hmade := hout.made_of_poised hpoised hend
  have hsystem : p.merger.get .system = [headerTask ["a"] 0, headerTask ["b"] 2] := by
    rw [hmerger]
    rfl
  have hfirst : headerTask ["a"] 0 ∈ p.merger.get .system := by simp [hsystem]
  have hlast : headerTask ["b"] 2 ∈ p.merger.get .system := by simp [hsystem]
  have hshared : sharedJob ∈ made := by simp [hmade]
  refine ⟨hend.isIdle, hend'.isIdle, outcome, h, made, outcome', h', made', hout, hout', hshared, ?_,
    ?_, ?_, ?_⟩
  · obtain ⟨t, ht, _, _, hbase, _⟩ := hout.jobs _ hshared
    rw [hout.merger, hmerger] at ht
    obtain rfl := List.mem_singleton.mp ht
    exact hbase.symm
  · have hdone : Workshop.refusal (trioLent []) ownJob = none := refuses_nothing rfl ownJob
    exact (hout.outcome_own lends hpoised hnotices hlast).trans (by rw [Workshop.verdict, hdone])
  · exact (hout'.outcome_own lends_without hpoised' hnotices hlast).trans differing.failed
  · refine hkept .system _ hfirst ?_ ?_
    · rw [hmade, Task.key, digestText, evaluated.keyA]
      exact differing.differs
    · show ∀ x ∈ (duo []).workspace.files.names (headerTask ["a"] 0).sources,
        ∀ y ∈ (duo []).artifacts.documents ++ (made ++ made').flatMap Job.paths, ¬ y.same ⟨x⟩
      rw [hpoised.workspace, hpoised.artifacts]
      rintro x hx y hy
      obtain rfl : x = "/a.h" := List.mem_singleton.mp hx
      rw [List.flatMap_append, ← List.append_assoc] at hy
      rcases List.mem_append.mp hy with hy | hy
      · exact hout.beside (neverMade_trial _ (by simp)) y hy
      · exact hout'.beside (neverMade_trial _ (by simp)) y hy

/-! The last clause of `first_batch` needs that no build writes a source: where one part includes what
is built for another, a failure of the one build is seen in the other. -/

def pairBench (failing : List FilePath) : WritingBench :=
  trialBench ["/a.h"] [("a", includeOnly "/a.h"), ("b", includeOnly borrowed)] failing

/-- Two parts, of which the second includes what is built for the first one. -/
def pair (failing : List FilePath) : Pipeline WritingBench :=
  (trial (pairBench failing)).handle (.addParts [plainPart "a", plainPart "b"] [])

def filesB : FileTable := ⟨["/a.h", borrowed], by decide⟩

theorem print_b_built {w : WritingBench} (hstamp : World.modified? w ⟨borrowed⟩ = some 2) :
    Build.print filesB w .system (headerTask ["b"] 1) none =
      "56ab443737b940dbd96a81baac5ae502e707d6f3c179756f1127fe37b05520f5" := by
  have hpath : filesB.path? ⟨1⟩ = some borrowed := rfl
  rw [print_header hpath, evaluated.contentBorrowed, Build.fileBytes, hstamp]
  exact evaluated.printBuilt

theorem print_b_missing {w : WritingBench} (hstamp : World.modified? w ⟨borrowed⟩ = none) :
    Build.print filesB w .system (headerTask ["b"] 1) none =
      "d69c6bb8e07da8cb5cfd011a906f8df1a4271aec660506e64a278994febc50d3" := by
  have hpath : filesB.path? ⟨1⟩ = some borrowed := rfl
  rw [print_header hpath, evaluated.contentBorrowed, Build.fileBytes, hstamp]
  exact evaluated.printMissing

theorem pair_keys : (headerTask ["a"] 0).key .system ≠ (headerTask ["b"] 1).key .system := by
  rw [Task.key, Task.key, digestText, digestText, evaluated.keyA, evaluated.keyB]
  decide

theorem merge_pair : Merger.empty.merge
    [⟨headerTask ["a"] 0, bareTask ["a"]⟩, ⟨headerTask ["b"] 1, bareTask ["b"]⟩] [] =
    (⟨[headerTask ["a"] 0, headerTask ["b"] 1], [bareTask ["a", "b"]]⟩,
     [.add .system [headerTask ["a"] 0, headerTask ["b"] 1], .add .project [bareTask ["a", "b"]]]) := by
  have hsystem := @Merger.mergeScope_apart ⟨headerTask ["a"] 0, bareTask ["a"]⟩
    ⟨headerTask ["b"] 1, bareTask ["b"]⟩ .system pair_keys (by decide) (by decide)
  have hproject : Merger.empty.mergeScope
      [⟨headerTask ["a"] 0, bareTask ["a"]⟩, ⟨headerTask ["b"] 1, bareTask ["b"]⟩] [] .project =
      ([bareTask ["a", "b"]], [.add .project [bareTask ["a", "b"]]]) := by
    have hboth := @Workflow.mergeAll_pair ⟨bareTask ["a"], bareTask ["a"]⟩
      ⟨bareTask ["b"], bareTask ["b"]⟩ (fun scope => by cases scope <;> rfl)
      (fun scope => by cases scope <;> decide) .project
    change Merger.mergeAll .project [] [⟨headerTask ["a"] 0, bareTask ["a"]⟩,
      ⟨headerTask ["b"] 1, bareTask ["b"]⟩] [] .none = _ at hboth
    rw [Merger.mergeScope, show Merger.empty.get .project = [] from rfl, hboth]
    exact Prod.ext rfl (Workflow.flush_single .project (bareTask ["a", "b"]))
  rw [Merger.merge, hsystem, hproject]
  rfl

/-- The bench after the scans of both parts, and after the build for the first one. -/
def pairScanned (failing : List FilePath) : WritingBench := scanned (scanned (pairBench failing) "a") "b"

def pairLent (failing : List FilePath) : WritingBench :=
  (World.build (pairScanned failing) lendingJob).2

def pairIndex (failing : List FilePath) : ArtifactIndex :=
  let outcome := Workshop.verdict (pairScanned failing) lendingJob
  (ArtifactIndex.empty.entered
    "a4107ff4b5b5a01ac6bd9d030a0df8f200f072cd1b93311f742bf0cd6f42a48e" outcome).recorded
      ["a"] .system outcome

/-- The job for the second part. -/
def borrowingJob (print : String) : Job := Build.jobFor ⟨"/p"⟩
  ⟨"761ffb2ece2ae78e5de64d868089023b966a4f978f816d5c7b778a7b176be15a"⟩ .system (headerTask ["b"] 1)
  [borrowed] print none

theorem poised_pair (failing : List FilePath) :
    (pair failing).merger = ⟨[headerTask ["a"] 0, headerTask ["b"] 1], [bareTask ["a", "b"]]⟩ ∧
    (pair failing).notices = [] ∧
    Poised (pair failing) ⟨pairScanned failing, filesB⟩ .empty
      ⟨[headerTask ["a"] 0, headerTask ["b"] 1].map fun t => ⟨t.key .system, t⟩,
        [bareTask ["a", "b"]].map fun t => ⟨t.key .project, t⟩⟩ := by
  obtain ⟨_, hcollectA⟩ := @collect_plain ⟨pairBench failing, .empty⟩ "a" filesA 0 "/a.h" rfl
    List.not_mem_nil rfl
  obtain ⟨_, hcollectB⟩ := @collect_plain ⟨scanned (pairBench failing) "a", filesA⟩ "b" filesB 1
    borrowed rfl List.not_mem_nil rfl
  obtain ⟨provider, hcollect, _⟩ := collect_two Provider.unaware_start hcollectA hcollectB
  have hstart := poised_trial (pairBench failing)
  have htook := hstart.quiet.takes [] hcollect
  obtain ⟨hmerger, hpoised⟩ := hstart.took htook merge_pair (by simpa using pair_keys) (by simp)
  exact ⟨hmerger, htook.notices, hpoised⟩

/-- One part after the other is built for, and then what is left of the project. -/
def pairSteps : List Step := fullRound 0 .system ++ (fullRound 0 .system ++ bareRound 1 .project)

theorem pair_run (failing : List FilePath) {print : String}
    (hstamp : World.modified? (pairScanned failing) ⟨"/a.h"⟩ = some 1)
    (hprint : Build.print filesB (pairLent failing) .system (headerTask ["b"] 1) none = print)
    (hnew : (pairIndex failing).holdings.artifact print = none) :
    ((pair failing).inputs pairSteps).map digest =
      ["f00e6eab96427c74d91c2cac12bd76a455cbc5e31a7975a2db6eec856bd8f3ca",
        "761ffb2ece2ae78e5de64d868089023b966a4f978f816d5c7b778a7b176be15a",
        "996a42631fb256b59ff96a866041d67e1c094cc823f98a8764c00c9099c07f21",
        "ce179cb3c392cebd8d0462c1cbf56273e4e5a644557aedda180be6f4bcdc1336",
        "a4107ff4b5b5a01ac6bd9d030a0df8f200f072cd1b93311f742bf0cd6f42a48e",
        "28cce9506ae162a1b2e19200c99efb1aefc87ed02138b77b6abbd50d165e30c9", print] ∧
    ((pair failing).after pairSteps).queue.isIdle = true ∧
      ((pair failing).after pairSteps).notices.map Notice.gist =
        [(.system, ["a"], Workshop.verdict (pairScanned failing) lendingJob),
          (.system, ["b"], Workshop.verdict (pairLent failing) (borrowingJob print)),
          (.project, ["a", "b"], .empty)] := by
  obtain ⟨hmerger, hnotices, hp⟩ := poised_pair failing
  have hpath : ∀ n, filesB.path? ⟨n⟩ = ["/a.h", borrowed][n]? := fun _ => rfl
  obtain ⟨hnotedA, hnoticesA, hA⟩ := hp.builds (i := 0) (s := .system) rfl rfl
    (fun hs => by cases hs) (headerTask_known (hpath 0)) (by decide) rfl (print_a (hpath 0) hstamp) rfl
    (show _ = lendingJob by rw [Task.key, digestText, evaluated.keyA]; rfl)
  change Poised _ ⟨pairLent failing, filesB⟩ (pairIndex failing) _ at hA
  obtain ⟨hnotedB, hnoticesB, hB⟩ := hA.builds (i := 0) (s := .system) rfl rfl
    (fun hs => by cases hs) (headerTask_known (hpath 1)) (by decide) rfl hprint hnew
    (show _ = borrowingJob print by rw [Task.key, digestText, evaluated.keyB]; rfl)
  obtain ⟨hnoted, hnoticesLast, hboth⟩ := hB.passes_over (i := 1) (s := .project) rfl rfl
    (fun _ => rfl) rfl
  have hdigestsKeys : ((pair failing).merger.keyTexts.map Text.Utf8.encode).map digest =
      ["f00e6eab96427c74d91c2cac12bd76a455cbc5e31a7975a2db6eec856bd8f3ca",
        "761ffb2ece2ae78e5de64d868089023b966a4f978f816d5c7b778a7b176be15a",
        "996a42631fb256b59ff96a866041d67e1c094cc823f98a8764c00c9099c07f21"] := by
    have hkeys : (pair failing).merger.keyTexts = [Task.keyText .system (headerTask ["a"] 0).mergeKey,
        Task.keyText .system (headerTask ["b"] 1).mergeKey,
        Task.keyText .project (bareTask ["a", "b"]).mergeKey] := by
      rw [hmerger]
      rfl
    simp only [hkeys, List.map_cons, List.map_nil, evaluated.keyA, evaluated.keyB, bareKey_eq]
  have hdigestsA : (Build.digested filesB (pairScanned failing) .system (headerTask ["a"] 0)
      none).map digest = ["ce179cb3c392cebd8d0462c1cbf56273e4e5a644557aedda180be6f4bcdc1336",
        "a4107ff4b5b5a01ac6bd9d030a0df8f200f072cd1b93311f742bf0cd6f42a48e"] := by
    rw [digested_header (hpath 0), evaluated.contentA, print_a (hpath 0) hstamp]
  have hdigestsB : (Build.digested filesB (pairLent failing) .system (headerTask ["b"] 1)
      none).map digest =
        ["28cce9506ae162a1b2e19200c99efb1aefc87ed02138b77b6abbd50d165e30c9", print] := by
    rw [digested_header (hpath 1), evaluated.contentBorrowed, hprint]
  rw [Pipeline.inputs, pairSteps, Pipeline.after_append, Pipeline.after_append]
  refine ⟨?_, Poised.isIdle hboth, ?_⟩
  · rw [← Pipeline.noted_digests, Pipeline.noted_append, Pipeline.noted_append,
      hnotedA Pipeline.notesPlans_digests, hnotedB Pipeline.notesPlans_digests,
      hnoted Pipeline.notesPlans_digests, List.append_nil, List.map_append, List.map_append]
    exact congrArg₂ (· ++ ·) hdigestsKeys (congrArg₂ (· ++ ·) hdigestsA hdigestsB)
  · rw [hnoticesLast, hnoticesB, hnoticesA, hnotices, List.append_assoc]
    rfl

/-- What it takes an evaluation to see: how the builds for the two parts end, and what there was to read
for them. -/
structure PairEvaluated : Prop where
  stampA : ∀ failing ∈ [[], [⟨"/a.h"⟩]], World.modified? (pairScanned failing) ⟨"/a.h"⟩ = some 1
  missing : World.modified? (pairLent [⟨"/a.h"⟩]) ⟨borrowed⟩ = none
  failed : Workshop.verdict (pairScanned [⟨"/a.h"⟩]) lendingJob =
    .failed "PCH build f00e6eab96427c74 failed with exit code 1: fake compiler error"
  built : Workshop.verdict (pairLent [])
      (borrowingJob "56ab443737b940dbd96a81baac5ae502e707d6f3c179756f1127fe37b05520f5") =
    .built ⟨"/p/system-761ffb2ece2ae78e-56ab443737b940db.pch"⟩ false
  builtAnyway : Workshop.verdict (pairLent [⟨"/a.h"⟩])
      (borrowingJob "d69c6bb8e07da8cb5cfd011a906f8df1a4271aec660506e64a278994febc50d3") =
    .built ⟨"/p/system-761ffb2ece2ae78e-d69c6bb8e07da8cb.pch"⟩ false

theorem pairEvaluated : PairEvaluated := by
  constructor <;> decide +kernel

/-- The second part's header changes with the outcome for the first one. -/
theorem first_batch_borrowed : ∃ steps,
    Apart ((pair []).inputs steps) ∧ ((pair []).after steps).queue.isIdle = true ∧
    ((pair []).after steps).notices.map Notice.gist =
      [(.system, ["a"], .built ⟨borrowed⟩ false),
        (.system, ["b"], .built ⟨"/p/system-761ffb2ece2ae78e-56ab443737b940db.pch"⟩ false),
        (.project, ["a", "b"], .empty)] ∧
    Apart ((pair [⟨"/a.h"⟩]).inputs steps) ∧
    ((pair [⟨"/a.h"⟩]).after steps).queue.isIdle = true ∧
    ((pair [⟨"/a.h"⟩]).after steps).notices.map Notice.gist =
      [(.system, ["a"],
          .failed "PCH build f00e6eab96427c74 failed with exit code 1: fake compiler error"),
        (.system, ["b"], .built ⟨"/p/system-761ffb2ece2ae78e-d69c6bb8e07da8cb.pch"⟩ false),
        (.project, ["a", "b"], .empty)] := by
  have hbuilt : World.modified? (pairLent []) ⟨borrowed⟩ = some 2 := by
    have houtput := @WritingBench.modified?_output (pairScanned []) lendingJob rfl
    rw [placed.lending] at houtput
    exact houtput
  have hlent : Workshop.verdict (pairScanned []) lendingJob = .built ⟨borrowed⟩ false := by
    rw [Workshop.verdict, refuses_nothing rfl, ← placed.lending]
  have hnone : ∀ content, ArtifactIndex.empty.holdings.artifact content = none := fun _ => rfl
  obtain ⟨hstampA, hmissing, hfailed, hlast, hlast'⟩ := pairEvaluated
  obtain ⟨hinputs, hidle, hnotices⟩ := pair_run [] (hstampA _ (by simp)) (print_b_built hbuilt)
    (by simp [pairIndex, Build.artifact_entered, hnone])
  obtain ⟨hinputs', hidle', hnotices'⟩ := pair_run [⟨"/a.h"⟩] (hstampA _ (by simp))
    (print_b_missing hmissing) (by simp [pairIndex, Build.artifact_entered, hnone])
  refine ⟨pairSteps, apart_of_nodup ?_, hidle, ?_, apart_of_nodup ?_, hidle', ?_⟩
  · rw [hinputs]
    decide
  · rw [hnotices, hlent, hlast]
  · rw [hinputs']
    decide
  · rw [hnotices', hfailed, hlast']

end
end PrecompiledHeaders
