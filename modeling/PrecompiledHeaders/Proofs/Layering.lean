import PrecompiledHeaders.Proofs.Pipeline.Layers
import PrecompiledHeaders.Proofs.Pipeline.Watching
import PrecompiledHeaders.Proofs.Trials
/-! Layers. A project header stays upon the system header that it was built upon. Once all is built, it
goes back to a task that its part was a member of when a worker took it up, and to the system header
that the first member of that task had when the worker looked for it, which was some time later. -/
namespace PrecompiledHeaders

open Merger (headerTask)
open Pipeline (Throughout Tended fullRound bareRound)
open Workflow (Loyal Unspoken Silent Submits Runs calls run)

theorem Queue.empty_of_isIdle {q : Queue} (h : q.isIdle = true) :
    (∀ s, q.pending.get s = []) ∧ q.running = [] := by
  simp only [Queue.isIdle, Bool.and_eq_true, List.isEmpty_iff] at h
  exact ⟨fun s => by cases s <;> [exact h.1.1.1; exact h.1.1.2], h.1.2⟩

/-- Nothing is being done about the key. -/
def Queue.Rests (q : Queue) (s : Scope) (k : TaskKey) : Prop :=
  k ∉ q.pendingKeys s ++ q.runningKeys s

theorem Build.header_of_baseOf {W : Type} [World W] {store : ArtifactStore} {w : W} {t : Task}
    {base : Option FilePath} (h : baseOf store w .project t = .ok base) {first : PartId}
    {rest : List PartId} (ht : t.members = first :: rest) : store.header? w first .system = .ok base := by
  obtain ⟨members, _⟩ := t
  obtain rfl : members = first :: rest := ht
  exact h

namespace Pipeline

section

variable {W : Type} [Workshop W] [LawfulWorkshop W] {ws : Workspace W} {dir : FilePath}
  {records : RecordStore} {artifacts : ArtifactStore} {workers : List Scope} {exits watches : Bool}
  {x : PartId}

omit [Workshop W] [LawfulWorkshop W] in
theorem Claims.unblocked {p : Pipeline W} {i : Nat} {cl : Claimed} (h : p.Claims i .project cl) :
    p.queue.projectBlocked = false := by
  obtain ⟨q, hq⟩ := h.claim
  exact Queue.projectBlocked_of_claim hq

omit [LawfulWorkshop W] in
/-- Worker `i` takes up a project task after `pre`, when no system task is pending or running any more.
The part is a member of it, `first` is the first one, and the part is not spoken of later. -/
structure TakenUp (o : Pipeline W) (pre later : List (Occurrence W)) (i : Nat) (x first : PartId)
    (cl : Claimed) : Prop where
  claims : (o.during pre).Claims i .project cl
  next : ∃ waits permitted rest, later = .step (.work i waits permitted) :: rest
  free : (o.during pre).queue.projectBlocked = false
  part : x ∈ cl.task.members
  head : cl.task.members.head? = some first
  since : Unspoken .project x ((o.during pre).seen moves later)

omit [LawfulWorkshop W] in
/-- Where the project header `path` of a part comes from: after `pre` a worker took up a task of the
part, in the course of `mid` it did nothing more, and then it looked for the header to build upon.
Whatever job has this output was given what it found, which is the system header that the first member
of the task had then. It is the one that the part has in the end, if the part had the same one then,
nothing was being done about its system task, and that was not handed in later. Nothing is being done
about a task that was not handed in in the course of `mid`. -/
structure Layered (o : Pipeline W) (pre mid post : List (Occurrence W)) (i : Nat) (x first : PartId)
    (cl : Claimed) (system path : FilePath) (base : Option FilePath) : Prop where
  taken : o.TakenUp pre (mid ++ post) i x first cl
  looks : (o.during (pre ++ mid)).Looks i .project cl base
  next : ∃ waits permitted rest, post = .step (.work i waits permitted) :: rest
  upon : (o.during (pre ++ mid)).artifacts.header? (o.during (pre ++ mid)).workspace.world first
    .system = .ok base
  made : ∃ j ∈ Workshop.jobs (o.during (pre ++ mid ++ post)).workspace.world, j.outputPath = path
  jobs : ∀ j ∈ Workshop.jobs (o.during (pre ++ mid ++ post)).workspace.world, j.outputPath = path →
    j.base = base
  rests : ∀ k, (∀ e ∈ (o.during pre).seen moves mid, ¬ Submits .system k e) →
    (o.during (pre ++ mid)).queue.Rests .system k
  current : (o.during (pre ++ mid)).artifacts.header? (o.during (pre ++ mid)).workspace.world x
      .system = .ok base →
    (∀ t ∈ (o.during (pre ++ mid ++ post)).merger.get .system, x ∈ t.members →
      (o.during (pre ++ mid)).queue.Rests .system (t.key .system) ∧
        ∀ e ∈ (o.during (pre ++ mid)).seen moves post, ¬ Submits .system (t.key .system) e) →
    base = some system

omit [LawfulWorkshop W] in
theorem rests_iff {s : Scope} {k : TaskKey} (os : List (Occurrence W)) :
    let o := start ws dir records artifacts workers exits watches
    (o.during os).queue.Rests s k ↔
      k ∉ ((run (o.seen moves os)).queue.pending.get s).map (·.key) ∧ ¬ Runs (o.seen moves os) s k := by
  intro o
  rw [(queue_during os).1, Queue.Rests, List.mem_append, not_or]
  refine and_congr_right fun _ => not_congr ?_
  rw [Queue.runningKeys, List.mem_map, Runs]
  simp only [List.mem_filter, decide_eq_true_eq, and_assoc]
  rfl

omit [LawfulWorkshop W] in
/-- Nothing comes to be done about a key that is not handed in. -/
theorem rests_later {s : Scope} {k : TaskKey} {os later : List (Occurrence W)} :
    let o := start ws dir records artifacts workers exits watches
    Admissible (calls (o.seen moves (os ++ later))) → (o.during os).queue.Rests s k →
    (∀ e ∈ (o.during os).seen moves later, ¬ Submits s k e) →
    (o.during (os ++ later)).queue.Rests s k := by
  intro o ha hrests hquiet
  obtain ⟨hpend, hrun⟩ := (rests_iff os).mp hrests
  refine (rests_iff (os ++ later)).mpr ?_
  rw [seen_append] at ha ⊢
  exact ⟨Workflow.not_pending_of_quiet ha hpend hquiet, Workflow.not_runs_of_quiet ha hpend hrun hquiet⟩

omit [Workshop W] [LawfulWorkshop W] in
/-- When a project task is taken up, nothing is being done about any system task. -/
theorem Claims.rests {p : Pipeline W} {i : Nat} {cl : Claimed} (h : p.Claims i .project cl)
    (k : TaskKey) : p.queue.Rests .system k := by
  obtain ⟨q, hq⟩ := h.claim
  rw [Queue.Rests, Queue.not_blocked_of_claim hq]
  exact List.not_mem_nil

/-- No system build ends for a part of which nobody speaks, while nothing is done about its task and
nobody hands it in. -/
theorem system_kept (hempty : artifacts.Shows ws.world .empty) (hjobs : Workshop.jobs ws.world = [])
    {os later : List (Occurrence W)} {t : Task} :
    let o := start ws dir records artifacts workers exits watches
    Throughout Tended o (os ++ later) → Admissible (calls (o.seen moves (os ++ later))) →
    Loyal (o.seen moves (os ++ later)) → Unspoken .project x ((o.during os).seen moves later) →
    t ∈ (o.during (os ++ later)).merger.get .system → x ∈ t.members →
    (o.during os).queue.Rests .system (t.key .system) →
    (∀ e ∈ (o.during os).seen moves later, ¬ Submits .system (t.key .system) e) →
    (o.during (os ++ later)).artifacts.header? (o.during (os ++ later)).workspace.world x .system =
      (o.during os).artifacts.header? (o.during os).workspace.world x .system := by
  intro o ht ha hloyal hunspoken htask hxt hrests hquiet
  have ha₀ : Admissible (calls (o.seen moves os)) := by
    rw [seen_append] at ha
    exact Workflow.admissible_left ha
  obtain ⟨h, hp⟩ := provenance_during hempty hjobs (throughout_append.mp ht).1 ha₀
  have hsystem : Unspoken .system x ((o.during os).seen moves later) := by
    intro c hc
    have hmem : c ∈ calls (o.seen moves (os ++ later)) := by
      rw [seen_append]
      exact Workflow.mem_calls.mpr (List.mem_append_right _ hc)
    by_contra hspoken
    exact (ofParts_calls c hmem).mentions .system .project hspoken (hunspoken c hc)
  obtain ⟨hpend, hrun⟩ := (rests_iff os).mp hrests
  rw [(queue_during (os ++ later)).2] at htask
  have hsilent : Silent .system x (o.seen moves os) ((o.during os).seen moves later) := by
    rw [seen_append] at ha hloyal htask
    exact Workflow.silent_of_quiet ha hloyal htask hxt hsystem hpend hrun hquiet
  obtain ⟨h', hp', hkept, _⟩ := header_kept ht ha hsystem hsilent hp
  rw [hp'.shows.header?, hp.shows.header?, hkept]

omit [LawfulWorkshop W] in
/-- A worker that looks for a header has taken up its task before. -/
theorem Looked.split {o : Pipeline W} {pre rest : List (Occurrence W)} {i : Nat} {s : Scope}
    {cl : Claimed} {base : Option FilePath} {o' : Occurrence W} (h : o.Looked pre (o' :: rest) i s cl base)
    (hclaims : (o.during pre).Claims i s cl) : ∃ mid waits permitted post,
      o' :: rest = o' :: mid ++ .step (.work i waits permitted) :: post ∧
      (o.during (pre ++ o' :: mid)).Looks i s cl base := by
  obtain ⟨before, waits, permitted, after, hsplit, hlooks⟩ := h
  cases before with
  | nil =>
    rw [List.append_nil] at hlooks
    have hidle := hclaims.worker.symm.trans hlooks.worker
    cases hidle
  | cons o'' mid =>
    obtain ⟨rfl, -⟩ := List.cons.inj hsplit
    exact ⟨mid, waits, permitted, after, hsplit, hlooks⟩

/-- Once the queue is idle, every registered part has been built for. -/
theorem lastBuild_of_idle {os : List (Occurrence W)} (s : Scope) :
    let o := start ws dir records artifacts workers exits watches
    Throughout Tended o os → Admissible (calls (o.seen moves os)) → Loyal (o.seen moves os) →
    (o.during os).queue.isIdle = true → x ∈ (o.during os).parts →
    ∃ pm mm qm cl f, Workflow.LastBuild (o.seen moves os) s x pm mm qm cl f := by
  intro o ht ha hloyal hidle hx
  obtain ⟨hpending, hrunning⟩ := Queue.empty_of_isIdle hidle
  obtain ⟨t, htask, hxt⟩ := ((regular_during ht ha).orderly.coherent.members s x).mpr hx
  rw [(queue_during os).1] at hpending hrunning
  rw [(queue_during os).2] at htask
  exact Workflow.exists_lastBuild ha hloyal hpending hrunning htask hxt

end

end Pipeline

/-! ### A run in which layers come apart -/

/-- The job that the last part brings about, for the first one as well. -/
def renewingJob : Job := Build.jobFor ⟨"/p"⟩
  ⟨"f00e6eab96427c74d91c2cac12bd76a455cbc5e31a7975a2db6eec856bd8f3ca"⟩ .system
  (headerTask ["a", "c"] 0) ["/a.h"]
  "851f293fc38cf86b69edfd021304034d0292cec078bc3a119ad2f24d401879a5" none

/-- Somebody writes to the header that the first part and the last one include. -/
def trioTouched : WritingBench := (World.writeText (trioShared []) ⟨"/a.h"⟩ "").2

def trioRenewed : WritingBench := (World.build (scanned trioTouched "c") renewingJob).2

def renewedIndex : ArtifactIndex :=
  let outcome := Workshop.verdict (scanned trioTouched "c") renewingJob
  (((sharedIndex []).entered
    "851f293fc38cf86b69edfd021304034d0292cec078bc3a119ad2f24d401879a5" outcome).recorded
      ["a", "c"] .system outcome).deleteHeaders ["c"] .project

theorem collect_last {p : Provider} (h : p.Unaware "c") {w : WritingBench}
    (hreports : w.bench.reports = (trioBench []).bench.reports)
    (hok : w.bench.failingParts = []) : ∃ provider,
    Pipeline.collectTasks p ⟨w, trioFiles⟩ [plainPart "c"] =
      (.ok [⟨headerTask ["c"] 0, bareTask ["c"]⟩], provider, ⟨scanned w "c", trioFiles⟩) := by
  obtain ⟨_, hcollect⟩ := @collect_plain ⟨w, trioFiles⟩ "c" trioFiles 0 "/a.h"
    (by rw [hreports]; rfl) (by rw [hok]; exact List.not_mem_nil) rfl
  obtain ⟨q, hcreate, _⟩ := h.create hcollect
  refine ⟨q, ?_⟩
  rw [Pipeline.collectTasks, hcreate]
  rfl

theorem merge_last : Merger.merge
    ⟨[headerTask ["a"] 0, headerTask ["b"] 2], [headerTask ["a", "b"] 1]⟩
    [⟨headerTask ["c"] 0, bareTask ["c"]⟩] [] =
    (⟨[headerTask ["a", "c"] 0, headerTask ["b"] 2], [headerTask ["a", "b"] 1, bareTask ["c"]]⟩,
     [.add .system [headerTask ["a", "c"] 0], .add .project [bareTask ["c"]]]) := by
  have hsystem : Merger.mergeAll .system [] [⟨headerTask ["c"] 0, bareTask ["c"]⟩]
      [headerTask ["a"] 0, headerTask ["b"] 2] .none =
      ([headerTask ["a", "c"] 0, headerTask ["b"] 2],
        ⟨[(headerTask ["a", "c"] 0).key .system], [], []⟩) := rfl
  have hproject : Merger.mergeAll .project [] [⟨headerTask ["c"] 0, bareTask ["c"]⟩]
      [headerTask ["a", "b"] 1] .none = ([headerTask ["a", "b"] 1, bareTask ["c"]],
        ⟨[(bareTask ["c"]).key .project], [], []⟩) := rfl
  have hkeys : (headerTask ["a", "c"] 0).key .system ≠ (headerTask ["b"] 2).key .system := by
    rw [Task.key_eq_of_mergeKey (show (headerTask ["a", "c"] 0).mergeKey = (headerTask ["a"] 0).mergeKey
      from rfl) .system]
    exact keys_apart
  have hkeys' : (headerTask ["a", "b"] 1).key .project ≠ (bareTask ["c"]).key .project := by
    rw [Task.key, Task.key, digestText, digestText, evaluated.keyShared, bareKey_eq]
    decide
  rw [Merger.merge, Merger.mergeScope, Merger.mergeScope]
  simp only [PerScope.get, hsystem, hproject]
  rw [Merger.flush_one List.mem_cons_self (by simpa using hkeys),
    Merger.flush_one (by simp) (by simpa using hkeys')]
  rfl

theorem print_renewed :
    Build.print trioFiles (scanned trioTouched "c") .system (headerTask ["a", "c"] 0) none =
      "851f293fc38cf86b69edfd021304034d0292cec078bc3a119ad2f24d401879a5" := by
  have hwritten := MemoryFiles.find?_write_self (trioShared []).bench.files ⟨"/a.h"⟩ (.ok "")
  have hstamp : World.modified? (scanned trioTouched "c") ⟨"/a.h"⟩ = some 7 :=
    congrArg (Option.map fun f => (f.modified : Int)) hwritten
  have hpath : trioFiles.path? ⟨0⟩ = some "/a.h" := rfl
  rw [print_header hpath, evaluated.contentA, Build.fileBytes, hstamp, Build.baseBytes,
    digest_eq_digestNat]
  decide +kernel

def lastSteps : List Step := fullRound 0 .system ++ bareRound 1 .project

theorem drafts_first {p : Pipeline WritingBench}
    (h : Poised p ⟨trioScanned [], trioFiles⟩ .empty firstPending) :
    p.seen Pipeline.drafts (firstSteps.map .step) =
      [⟨"a4107ff4b5b5a01ac6bd9d030a0df8f200f072cd1b93311f742bf0cd6f42a48e", none⟩,
       ⟨"31fdeaa5013c3146a80d96f28dd2e53ba9264a97781b5ead7f9ab47b691ae188", none⟩,
       ⟨"e6fb627d968df78b113ffe36180c1ba91f06cc99f534dc172cca23e0036230de", some ⟨borrowed⟩⟩] := by
  rw [Pipeline.seen_steps, (lends.first_steps h).1 Pipeline.notesPlans_drafts,
    Build.drafts_eq _ (headerTask_known rfl), Build.drafts_eq _ (headerTask_known rfl),
    Build.drafts_eq _ (headerTask_known rfl), lends.print_lending, lends.print_own, lends.print_shared]
  rfl

/-- The system header that the last part shares with the first one is built again. -/
theorem Poised.last_steps {p : Pipeline WritingBench}
    (h : Poised p ⟨scanned trioTouched "c", trioFiles⟩ (sharedIndex [])
      ⟨[headerTask ["a", "c"] 0].map fun t => ⟨t.key .system, t⟩,
        [bareTask ["c"]].map fun t => ⟨t.key .project, t⟩⟩) :
    p.seen Pipeline.drafts (lastSteps.map .step) =
      [⟨"851f293fc38cf86b69edfd021304034d0292cec078bc3a119ad2f24d401879a5", none⟩] ∧
    Poised (p.after lastSteps) ⟨trioRenewed, trioFiles⟩ renewedIndex ⟨[], []⟩ := by
  obtain ⟨hnotedA, _, hA⟩ := h.builds (i := 0) (s := .system) rfl rfl
    (fun hs => by cases hs) (headerTask_known rfl) (by decide) rfl print_renewed
    (by decide +kernel) (show _ = renewingJob by
      rw [Task.key_eq_of_mergeKey (show (headerTask ["a", "c"] 0).mergeKey = (headerTask ["a"] 0).mergeKey
        from rfl) .system, Task.key, digestText, evaluated.keyA]
      rfl)
  obtain ⟨hnoted, _, hboth⟩ := hA.passes_over (i := 1) (s := .project) rfl rfl (fun _ => rfl) rfl
  rw [lastSteps, Pipeline.after_append]
  refine ⟨?_, hboth⟩
  rw [Pipeline.seen_steps, Pipeline.noted_append, hnotedA Pipeline.notesPlans_drafts,
    hnoted Pipeline.notesPlans_drafts, List.append_nil]
  exact (Build.drafts_eq .system (headerTask_known rfl) none).trans (by rw [print_renewed])

/-! The run. -/

/-- The parts are handed in, and that is handled at once. -/
def handIn (ids : List PartId) : List (Occurrence WritingBench) :=
  [.send (.addParts (ids.map plainPart) []), .step .coordinate]

/-- The first two parts are handed in and built for, a header is touched, and the last part is handed in
and built for. -/
def trioRun : List (Occurrence WritingBench) :=
  handIn ["a", "b"] ++ (firstSteps.map .step ++ (.change trioTouched ::
    (handIn ["c"] ++ lastSteps.map .step)))

/-- The calls of the merger. -/
def firstCall : MergerCall :=
  .merge [⟨headerTask ["a"] 0, headerTask ["a"] 1⟩, ⟨headerTask ["b"] 2, headerTask ["b"] 1⟩] []

def lastCall : MergerCall := .merge [⟨headerTask ["c"] 0, bareTask ["c"]⟩] []

theorem trial_queue (b : WritingBench) (os : List (Occurrence WritingBench)) :
    ((trial b).during os).queue = (run ((trial b).seen Pipeline.moves os)).queue :=
  (@Pipeline.queue_during _ _ ⟨b, .empty⟩ _ _ _ _ _ _ os).1

/-- The parts are handed in and built for: what there is to see of that, and who is registered then. -/
structure Went (p : Pipeline WritingBench) (ids : List PartId) (steps : List Step) (c : MergerCall)
    (ds : List Draft) (provider : Provider) (m : Merger) (q : Pipeline WritingBench) : Prop where
  during : p.during (handIn ids ++ steps.map .step) = q
  moves : ∃ ms, p.seen Pipeline.moves (handIn ids ++ steps.map .step) = .call c :: ms ∧ calls ms = []
  drafts : p.seen Pipeline.drafts (handIn ids ++ steps.map .step) = ds
  provider : q.provider = provider
  merger : q.merger = m
  parts : ∀ x, x ∈ p.parts ∨ x ∈ ids → x ∈ q.parts

/-- Between two batches nothing is collected. -/
theorem Poised.went {p : Pipeline WritingBench} {ws ws' ws'' : Workspace WritingBench}
    {x x' : ArtifactIndex} {pending : PerScope (List Pending)} (h : Poised p ws x ⟨[], []⟩)
    (ids : List PartId) {sets : List TaskSet} {provider : Provider} {m : Merger} {ts us : List Task}
    (hcollect : Pipeline.collectTasks p.provider ws (ids.map plainPart) = (.ok sets, provider, ws'))
    (hmerge : p.merger.merge sets [] = (m, [.add .system ts, .add .project us]))
    (hts : (ts.map (·.key .system)).Nodup) (hus : (us.map (·.key .project)).Nodup)
    {steps : List Step} {ds : List Draft}
    (hsteps : ∀ q : Pipeline WritingBench,
      Poised q ws' x ⟨ts.map fun t => ⟨t.key .system, t⟩, us.map fun t => ⟨t.key .project, t⟩⟩ →
      q.seen Pipeline.drafts (steps.map .step) = ds ∧ Poised (q.after steps) ws'' x' pending) :
    ∃ q, Went p ids steps (.merge sets []) ds provider m q ∧ Poised q ws'' x' pending := by
  obtain ⟨hmoves, htook⟩ := h.quiet.took h.exits [] (h.workspace.symm ▸ hcollect)
  obtain ⟨hmerger, hp⟩ := h.took htook hmerge hts hus
  obtain ⟨hdrafts, hlast⟩ := hsteps _ hp
  obtain ⟨hnone, hkept⟩ := Pipeline.steps_of_reports (p := p.during (handIn ids)) steps
    fun _ he => absurd (hp.quiet.inbox ▸ he) List.not_mem_nil
  refine ⟨_, ⟨?_, ⟨_, ?_, hnone⟩, ?_, hkept.provider.trans htook.provider,
    hkept.merger.trans hmerger, fun x hx => ?_⟩, hlast⟩
  · rw [Pipeline.during_append, Pipeline.during_steps]
  · rw [Pipeline.seen_append]
    exact congrArg (· ++ _) hmoves
  · rw [Pipeline.seen_append]
    exact hdrafts
  · have hids : (ids.map plainPart).map (·.id) = ids := by simp [plainPart, Function.comp_def]
    rw [hkept.parts, handIn, htook.parts]
    exact Pipeline.mem_parts_foldl (hids.symm ▸ hx)

theorem tended_handIn (p : Pipeline WritingBench) (ids : List PartId) : Throughout Tended p (handIn ids) := by
  refine ⟨⟨fun part hpart => ?_, rfl⟩, trivial, trivial⟩
  obtain ⟨id, _, rfl⟩ := List.mem_map.mp hpart
  exact plainPart_known id _

/-- What there is to see of the run: two calls, each while nothing is being built, and four drafts. -/
structure TrioSeen (o : Pipeline WritingBench) : Prop where
  tended : Throughout Tended o trioRun
  calls : calls (o.seen Pipeline.moves trioRun) = [firstCall, lastCall]
  calm : Workflow.Calm (o.seen Pipeline.moves trioRun)
  drafts : o.seen Pipeline.drafts trioRun =
    [⟨"a4107ff4b5b5a01ac6bd9d030a0df8f200f072cd1b93311f742bf0cd6f42a48e", none⟩,
     ⟨"31fdeaa5013c3146a80d96f28dd2e53ba9264a97781b5ead7f9ab47b691ae188", none⟩,
     ⟨"e6fb627d968df78b113ffe36180c1ba91f06cc99f534dc172cca23e0036230de", some ⟨borrowed⟩⟩,
     ⟨"851f293fc38cf86b69edfd021304034d0292cec078bc3a119ad2f24d401879a5", none⟩]
  parts : ∀ x ∈ ["a", "b"], x ∈ (o.during trioRun).parts
  poised : Poised (o.during trioRun) ⟨trioRenewed, trioFiles⟩ renewedIndex ⟨[], []⟩

theorem trio_seen : TrioSeen (trial (trioBench [])) := by
  -- the first batch
  obtain ⟨provider, hcollect, hunaware⟩ := collect_first []
  obtain ⟨p, hwent, hp⟩ := (poised_trial (trioBench [])).went ["a", "b"] hcollect
    (merge_two keys_apart) (by simpa using keys_apart) (by simp) fun _ hq =>
      ⟨drafts_first hq, (lends.first_steps hq).2.2⟩
  -- the last batch, after the header was touched
  have hchanged : Poised (p.occur (.change trioTouched)) _ _ _ := hp.within trioTouched
  have hprovider : (p.occur (.change trioTouched)).provider = provider := hwent.provider
  have hmerger : (p.occur (.change trioTouched)).merger = _ := hwent.merger
  obtain ⟨_, hcollect'⟩ := collect_last hunaware (w := trioTouched) rfl rfl
  obtain ⟨q, hwent', hq⟩ := hchanged.went ["c"] (by rw [hprovider]; exact hcollect')
    (by rw [hmerger]; exact merge_last) (by simp) (by simp) fun _ => Poised.last_steps
  obtain ⟨first, (hfirst : _ = .call firstCall :: first), hnone⟩ := hwent.moves
  obtain ⟨last, (hlast : _ = .call lastCall :: last), hnone'⟩ := hwent'.moves
  have hrun : trioRun = (handIn ["a", "b"] ++ firstSteps.map .step) ++
      .change trioTouched :: (handIn ["c"] ++ lastSteps.map .step) := (List.append_assoc _ _ _).symm
  have hmoves : (trial (trioBench [])).seen Pipeline.moves trioRun =
      .call firstCall :: first ++ .call lastCall :: last := by
    rw [hrun, Pipeline.seen_append, hwent.during, hfirst, Pipeline.seen, hlast]
    rfl
  have hduring : (trial (trioBench [])).during trioRun = q := by
    rw [hrun, Pipeline.during_append, hwent.during, Pipeline.during_cons, hwent'.during]
  have hidle : (run (.call firstCall :: first)).queue.running = [] := by
    rw [← hfirst, ← trial_queue, hwent.during, hp.quiet.running]
  refine ⟨?_, ?_, ?_, ?_, fun x hx => ?_, ?_⟩
  · rw [hrun]
    refine Pipeline.throughout_append.mpr ⟨Pipeline.throughout_append.mpr
      ⟨tended_handIn _ _, Pipeline.tended_steps _ _⟩, ⟨?_, ?_⟩, Pipeline.throughout_append.mpr
      ⟨tended_handIn _ _, Pipeline.tended_steps _ _⟩⟩
    · rw [hwent.during, hp.workspace]
      rfl
    · rw [hwent.during, hp.artifacts]
      exact fun path hpath => absurd hpath List.not_mem_nil
  · rw [hmoves, Workflow.calls_append]
    exact congrArg₂ (firstCall :: · ++ lastCall :: ·) hnone hnone'
  · have hcalm : Workflow.Calm [] := fun pre c post hsplit => by simp at hsplit
    have hbegun := Workflow.calm_append (Workflow.calm_call hcalm rfl firstCall) hnone
    have hended := Workflow.calm_append (Workflow.calm_call hbegun hidle lastCall) hnone'
    rw [hmoves]
    simpa using hended
  · rw [hrun, Pipeline.seen_append, hwent.during, hwent.drafts, Pipeline.seen, hwent'.drafts]
    rfl
  · rw [hduring]
    exact hwent'.parts x (Or.inl (hwent.parts x (Or.inr hx)))
  · rw [hduring]
    exact hq

theorem trio_keys : CollisionFree ([firstCall, lastCall].flatMap MergerCall.keyTexts) := by
  let texts := [Task.keyText .system (headerTask ["a"] 0).mergeKey,
    Task.keyText .system (headerTask ["b"] 2).mergeKey,
    Task.keyText .project (headerTask ["a", "b"] 1).mergeKey,
    Task.keyText .project (bareTask []).mergeKey]
  have hdigests : (texts.map digestText).Nodup := by
    simp only [texts, List.map_cons, List.map_nil, digestText, evaluated.keyA, evaluated.keyC,
      evaluated.keyShared, evaluated.bareKey]
    decide
  refine CollisionFree.mono (List.inj_on_of_nodup_map hdigests) ?_
  show [texts[0], texts[1], texts[2], texts[2], texts[0], texts[3]] ⊆ texts
  simp [texts]

/-- Whatever is asked of a run holds of this one. -/
structure Fair (o : Pipeline WritingBench) (os : List (Occurrence WritingBench)) : Prop where
  tended : Throughout Tended o os
  keys : CollisionFree ((calls (o.seen Pipeline.moves os)).flatMap MergerCall.keyTexts)
  loyal : Loyal (o.seen Pipeline.moves os)
  telling : Telling (o.seen Pipeline.drafts os)
  idle : (o.during os).queue.isIdle = true

theorem trio_fair : Fair (trial (trioBench [])) trioRun := by
  obtain ⟨htended, hcalls, hcalm, hdrafts, _, hpoised⟩ := trio_seen
  have hkeys : CollisionFree ((calls ((trial (trioBench [])).seen Pipeline.moves trioRun)).flatMap
      MergerCall.keyTexts) := by
    rw [hcalls]
    exact trio_keys
  refine ⟨htended, hkeys, Workflow.loyal_of_calm ⟨?_, hkeys⟩ ?_ hcalm, ?_, hpoised.isIdle⟩
  · rw [hcalls]
    decide
  · rw [hcalls]
    decide
  · rw [hdrafts]
    exact telling_of_nodup (by decide +kernel)

theorem placed_renewing :
    renewingJob.outputPath = ⟨"/p/system-f00e6eab96427c74-851f293fc38cf86b.pch"⟩ := by
  decide +kernel

theorem jobs_trioRenewed :
    Workshop.jobs trioRenewed = [lendingJob, ownJob, sharedJob, renewingJob] :=
  (LawfulWorkshop.build_jobs _ _).trans (congrArg (· ++ [renewingJob]) (jobs_trioShared []))

theorem headers_renewed :
    renewedIndex.holdings.header "a" .system = some renewingJob.outputPath ∧
    renewedIndex.holdings.header "b" .system = some ownJob.outputPath ∧
    ∀ x ∈ ["a", "b"], renewedIndex.holdings.header x .project = some sharedJob.outputPath := by
  have hbuilt : ∀ {w : WritingBench}, w.bench.failingIncludes = [] → ∀ j,
      (Workshop.verdict w j).header? = some j.outputPath := fun hok j => by
    rw [Workshop.verdict, refuses_nothing hok]
    rfl
  have hown := hbuilt (w := trioLent []) rfl ownJob
  have hshared := hbuilt (w := trioOwned []) rfl sharedJob
  have hrenewed := hbuilt (w := scanned trioTouched "c") rfl renewingJob
  simp [renewedIndex, sharedIndex, ownedIndex, ArtifactIndex.holdings_deleteHeaders, Holdings.assign,
    hown, hshared, hrenewed]

/-- What the run leaves behind: a new system header for the first part, the one of the second part, and
the project header of both. -/
structure TrioLeft (q : Pipeline WritingBench) : Prop where
  parts : ∀ x ∈ ["a", "b"], x ∈ q.parts
  jobs : Workshop.jobs q.workspace.world = [lendingJob, ownJob, sharedJob, renewingJob]
  renewed : q.artifacts.header? q.workspace.world "a" .system = .ok (some renewingJob.outputPath)
  own : q.artifacts.header? q.workspace.world "b" .system = .ok (some ownJob.outputPath)
  shared : ∀ x ∈ ["a", "b"],
    q.artifacts.header? q.workspace.world x .project = .ok (some sharedJob.outputPath)

theorem trio_left : TrioLeft ((trial (trioBench [])).during trioRun) := by
  obtain ⟨_, _, _, _, hparts, hpoised⟩ := trio_seen
  obtain ⟨hrenewed, hown, hshared⟩ := headers_renewed
  refine ⟨hparts, ?_, hpoised.header? hrenewed, hpoised.header? hown,
    fun x hx => hpoised.header? (hshared x hx)⟩
  rw [hpoised.workspace]
  exact jobs_trioRenewed

end PrecompiledHeaders
