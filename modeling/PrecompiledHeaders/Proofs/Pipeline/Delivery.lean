import PrecompiledHeaders.Bench
import PrecompiledHeaders.Proofs.Pipeline.Rounds
import PrecompiledHeaders.Proofs.Pipeline.Runs
import PrecompiledHeaders.Proofs.Queue.Waiting
/-! Delivery. A build that ended is at first known to the queue alone. Its notice goes out from the
worker or by way of the coordinator, according to the scope, and in either case the coordinator is
told; between the two the end is unreported, so an idle queue means that nothing is on its way. -/
namespace PrecompiledHeaders

open Pipeline (onHand)

/-- The end of a build as the queue told it to the worker, with what came out. -/
structure EndedBuild where
  finished : Finished
  outcome : Outcome
  deriving DecidableEq, Repr

/-- The notice of a build in that scope, unless its result is void. -/
def EndedBuild.notice? (scope : Scope) (e : EndedBuild) : Option Notice :=
  if e.finished.scope = scope ∧ e.finished.retracted = false then
    some ⟨scope, e.finished.members, e.outcome, e.finished.progress⟩
  else none

namespace Stage

/-- The notice that the worker is to send by itself. -/
def own? : Stage → Option Notice
  | .notifying _ notice => some notice
  | _ => none

/-- The notice that goes to the coordinator with the report. -/
def passed? : Stage → Option Notice
  | .reporting _ notice => notice
  | _ => none

theorem own?_of_claimed {stage : Stage} {c : Claimed} (h : stage.claimed? = some c) :
    stage.own? = none := by
  cases stage with
  | idle | claimed | based | compiling | ended => rfl
  | notifying | reporting => cases h

theorem passed?_of_claimed {stage : Stage} {c : Claimed} (h : stage.claimed? = some c) :
    stage.passed? = none := by
  cases stage with
  | idle | claimed | based | compiling | ended => rfl
  | notifying | reporting => cases h

end Stage

namespace Pipeline

variable {W : Type} {p p' : Pipeline W} {i : Nat}

/-! ### Observers -/

/-- The build that ends in the hands of a worker. -/
def endings (p : Pipeline W) : Occurrence W → List EndedBuild
  | .step (.work i _ _) =>
    match p.workers[i]? with
    | some ⟨_, .ended claimed outcome⟩ =>
      (p.queue.finish claimed.key).toList.map fun found => ⟨found.1, outcome⟩
    | _ => []
  | _ => []

/-- The report that the coordinator handles. -/
def handledReport (p : Pipeline W) : Occurrence W → List Event
  | .step .coordinate =>
    match p.coordinator, p.inbox with
    | .running, event :: _ => if event.isReport then [event] else []
    | _, _ => []
  | _ => []

variable [World W]

/-- What a worker says by itself. -/
def toldByWorker (p : Pipeline W) : Occurrence W → List Notice
  | .step (.work i waits permitted) =>
    (p.step (.work i waits permitted)).notices.drop p.notices.length
  | _ => []

/-- What the coordinator says. -/
def toldByCoordinator (p : Pipeline W) : Occurrence W → List Notice
  | .step .coordinate => (p.step .coordinate).notices.drop p.notices.length
  | _ => []

/-- The coordinator handled its next event, which led to `q`, and now it leaves because it is to
exit when the queue is idle. -/
structure Exits (p q : Pipeline W) : Prop where
  handled : ∃ event, Handled p event q
  live : q.coordinator = .running
  exits : q.exitWhenIdle = true
  idle : q.queue.isIdle = true

/-! ### Accounts -/

omit [World W] in
/-- The accounts of a run that led to `p`: the builds that ended, the reports handled, and what was
said by the workers and by the coordinator. -/
structure Accounts (p : Pipeline W) (ended : List EndedBuild) (reports : List Event)
    (byWorkers byCoordinator : List Notice) : Prop where
  keys : (p.held.map (·.key)).Perm (p.queue.running.map (·.key))
  nodup : (p.queue.running.map (·.key)).Nodup
  counted : p.queue.unreported + reports.length = ended.length
  owed : p.coordinator = .running → p.queue.unreported =
    p.workers.countP (·.stage.owes) + p.inbox.countP (·.isReport)
  system : (byWorkers ++ onHand Stage.own? p.workers).Perm (ended.filterMap (EndedBuild.notice? .system))
  project : p.coordinator = .running →
    (byCoordinator ++ (onHand Stage.passed? p.workers ++ p.inbox.filterMap noticeOf?)).Perm
      (ended.filterMap (EndedBuild.notice? .project))
  told : p.notices.Perm (byWorkers ++ byCoordinator)

variable {ended ended' : List EndedBuild} {reports : List Event} {ws ws' cs : List Notice}

omit [World W] in
theorem Accounts.congr (h : Accounts p ended reports ws cs) (hq : p'.queue = p.queue)
    (hw : p'.workers = p.workers) (hi : p'.inbox = p.inbox) (hc : p'.coordinator = p.coordinator)
    (hn : p'.notices = p.notices) : Accounts p' ended reports ws cs := by
  have hheld : p'.held = p.held := congrArg (onHand Stage.claimed?) hw
  constructor
  · rw [hheld, hq]; exact h.keys
  · rw [hq]; exact h.nodup
  · rw [hq]; exact h.counted
  · rw [hq, hw, hi, hc]; exact h.owed
  · rw [hw]; exact h.system
  · rw [hw, hi, hc]; exact h.project
  · rw [hn]; exact h.told

omit [World W] in
/-- One worker moves on. What it had in its hands before and after is set against what changes in
the queue, among the notices and in the inbox; `rest` stands for the hands of all others. -/
theorem Accounts.move (h : Accounts p ended reports ws cs) {w : Worker}
    (hw : p.workers[i]? = some w) {stage : Stage} (queue : Queue) (notices : List Notice)
    (inbox : List Event)
    (hkeys : ∀ rest, (w.stage.claimed?.toList.map (·.key) ++ rest).Perm
        (p.queue.running.map (·.key)) →
      (stage.claimed?.toList.map (·.key) ++ rest).Perm (queue.running.map (·.key)))
    (hnodup : (queue.running.map (·.key)).Nodup)
    (hcounted : queue.unreported + ended.length = p.queue.unreported + ended'.length)
    (howed : p.coordinator = .running →
      queue.unreported + (if w.stage.owes then 1 else 0) + p.inbox.countP (·.isReport) =
        p.queue.unreported + (if stage.owes then 1 else 0) + inbox.countP (·.isReport))
    (hsystem : ∀ rest, (ws ++ (w.stage.own?.toList ++ rest)).Perm
        (ended.filterMap (EndedBuild.notice? .system)) →
      (ws' ++ (stage.own?.toList ++ rest)).Perm (ended'.filterMap (EndedBuild.notice? .system)))
    (hproject : p.coordinator = .running → ∀ rest,
      (rest ++ (w.stage.passed?.toList ++ p.inbox.filterMap noticeOf?)).Perm
        (ended.filterMap (EndedBuild.notice? .project)) →
      (rest ++ (stage.passed?.toList ++ inbox.filterMap noticeOf?)).Perm
        (ended'.filterMap (EndedBuild.notice? .project)))
    (htold : (p.notices.Perm (ws ++ cs) → notices.Perm (ws' ++ cs))) :
    Accounts ({ p with queue := queue, notices := notices, inbox := inbox }.setStage i stage) ended'
      reports ws' cs := by
  obtain ⟨others, hperm, hcount, hcount'⟩ := exchange
    (p := { p with queue := queue, notices := notices, inbox := inbox }) hw stage
  obtain ⟨hclaimed, hclaimed'⟩ := hperm Stage.claimed?
  obtain ⟨hown, hown'⟩ := hperm Stage.own?
  obtain ⟨hpassed, hpassed'⟩ := hperm Stage.passed?
  have hshift : ∀ told hand others found : List Notice,
      (told ++ (hand ++ others ++ found)).Perm (told ++ others ++ (hand ++ found)) := by
    intro told hand others found
    calc (told ++ (hand ++ others ++ found)).Perm (told ++ (others ++ hand ++ found)) :=
        (List.perm_append_comm.append_right found).append_left told
      _ = told ++ others ++ (hand ++ found) := by simp only [List.append_assoc]
  constructor
  · refine (hclaimed'.map _).trans ?_
    rw [List.map_append]
    refine hkeys _ ?_
    rw [← List.map_append]
    exact (hclaimed.map _).symm.trans h.keys
  · exact hnodup
  · have hold := h.counted
    show queue.unreported + _ = _
    omega
  · intro hlive
    have hold := h.owed hlive
    have hnow := howed hlive
    have hthis : p.workers.countP (·.stage.owes) =
        (if w.stage.owes then 1 else 0) + others.countP (·.stage.owes) := hcount
    show queue.unreported = _ + inbox.countP _
    rw [hcount']
    omega
  · refine (hown'.append_left _).trans (hsystem _ ?_)
    exact (hown.append_left _).symm.trans h.system
  · intro hlive
    refine ((hpassed'.append_right _).append_left _).trans ((hshift _ _ _ _).trans ?_)
    refine hproject hlive _ ?_
    refine (hshift _ _ _ _).symm.trans ?_
    exact ((hpassed.append_right _).append_left _).symm.trans (h.project hlive)
  · exact htold h.told

/-! ### Steps of a worker -/

omit [World W] in
theorem Accounts.claim (h : Accounts p ended reports ws cs) {scope : Scope} {c : Claimed}
    {q : Queue} (hw : p.workers[i]? = some ⟨scope, .idle⟩)
    (hc : p.queue.claim scope = some (c, q)) :
    Accounts ({ p with queue := q }.setStage i (.claimed c)) ended reports ws cs := by
  obtain ⟨e, _, rfl, hfree, _, hrun⟩ := Queue.claim_eq_some hc
  have hunreported := Queue.unreported_claim hc
  refine h.move hw _ _ _ (fun rest hrest => ?_) ?_ ?_ (fun _ => ?_) (fun _ => id) (fun _ _ => id) id
  · rw [hrun, List.map_append]
    exact ((hrest.cons _).trans (List.perm_append_singleton _ _).symm)
  · rw [hrun, List.map_append]
    exact List.Nodup.append h.nodup (List.nodup_singleton _) (by simpa using hfree)
  · rw [hunreported]
  · rw [hunreported]
    rfl

omit [World W] in
/-- A worker goes on with the task that it has. -/
theorem Accounts.goesOn (h : Accounts p ended reports ws cs) {w : Worker} {c : Claimed}
    {stage : Stage} (hw : p.workers[i]? = some w) (hmine : w.stage.claimed? = some c)
    (hs : stage.claimed? = some c) : Accounts (p.setStage i stage) ended reports ws cs := by
  refine h.move hw p.queue p.notices p.inbox (fun rest hrest => ?_) h.nodup rfl (fun _ => ?_)
    (fun rest hrest => ?_) (fun _ rest hrest => ?_) id
  · rw [hs, ← hmine]
    exact hrest
  · rw [Stage.owes_of_claimed hs, Stage.owes_of_claimed hmine]
  · rw [Stage.own?_of_claimed hs, ← Stage.own?_of_claimed hmine]
    exact hrest
  · rw [Stage.passed?_of_claimed hs, ← Stage.passed?_of_claimed hmine]
    exact hrest

theorem Accounts.compile (h : Accounts p ended reports ws cs) {scope : Scope} {c : Claimed}
    {job : Job} {print : String} {waits : Bool}
    (hw : p.workers[i]? = some ⟨scope, .compiling c job print waits⟩) :
    Accounts (p.compile i c job print) ended reports ws cs := by
  rcases hbuild : Build.compile p.artifacts p.workspace.world job print with ⟨outcome, store, w⟩
  have hmoved : Accounts (p.setStage i (.ended c outcome)) ended reports ws cs :=
    h.goesOn hw rfl rfl
  refine hmoved.congr ?_ ?_ ?_ ?_ ?_ <;> rw [Pipeline.compile, hbuild] <;> rfl

omit [World W] in
/-- The queue knows of every build in the hands of a worker. -/
theorem Accounts.finishes (h : Accounts p ended reports ws cs) {scope : Scope} {c : Claimed}
    {outcome : Outcome} (hw : p.workers[i]? = some ⟨scope, .ended c outcome⟩) :
    ∃ f q, p.queue.finish c.key = some (f, q) := by
  have hheld : c ∈ p.held := List.mem_filterMap.mpr ⟨_, List.mem_of_getElem? hw, rfl⟩
  obtain ⟨r, hr, hk⟩ := List.mem_map.mp (h.keys.subset (List.mem_map_of_mem hheld))
  rw [← hk]
  exact Queue.finish_of_mem hr

theorem Accounts.finish (h : Accounts p ended reports ws cs) {scope : Scope} {c : Claimed}
    {outcome : Outcome} (hw : p.workers[i]? = some ⟨scope, .ended c outcome⟩) {f : Finished}
    {q : Queue} (hf : p.queue.finish c.key = some (f, q)) :
    Accounts (p.finish i c outcome) (ended ++ [⟨f, outcome⟩]) reports ws cs := by
  obtain ⟨r, hr, hk, _, _, _, _, hrun⟩ := Queue.finish_eq_some hf
  have hunreported := Queue.unreported_finish hf
  have hsplit : (c.key :: q.running.map (·.key)).Perm (p.queue.running.map (·.key)) := by
    rw [hrun, ← hk]
    exact ((Queue.perm_running h.nodup hr).map (·.key)).symm
  have hclaimed : (stageAfter f outcome).claimed? = none := by
    rw [stageAfter]
    split
    · rfl
    · cases f.scope <;> rfl
  have howes : (stageAfter f outcome).owes = true := by
    rw [stageAfter]
    split
    · rfl
    · cases f.scope <;> rfl
  have hown : (stageAfter f outcome).own? = EndedBuild.notice? .system ⟨f, outcome⟩ := by
    rw [stageAfter, EndedBuild.notice?]
    cases f.retracted <;> cases f.scope <;> rfl
  have hpassed : (stageAfter f outcome).passed? = EndedBuild.notice? .project ⟨f, outcome⟩ := by
    rw [stageAfter, EndedBuild.notice?]
    cases f.retracted <;> cases f.scope <;> rfl
  have hsingle : ∀ s, [(⟨f, outcome⟩ : EndedBuild)].filterMap (EndedBuild.notice? s) =
      (EndedBuild.notice? s ⟨f, outcome⟩).toList := by
    intro s
    rw [List.filterMap_cons]
    cases EndedBuild.notice? s ⟨f, outcome⟩ <;> rfl
  have hmoved : Accounts ({ p with queue := q }.setStage i (stageAfter f outcome))
      (ended ++ [⟨f, outcome⟩]) reports ws cs := by
    refine h.move hw _ _ _ (fun rest hrest => ?_) ?_ ?_ (fun _ => ?_) (fun rest hrest => ?_)
      (fun _ rest hrest => ?_) id
    · rw [hclaimed]
      exact List.Perm.cons_inv (hrest.trans hsplit.symm)
    · exact (List.nodup_cons.mp (hsplit.nodup_iff.mpr h.nodup)).2
    · rw [hunreported, List.length_append, List.length_singleton]
      omega
    · rw [hunreported, howes]
      show _ + 0 + _ = _ + 1 + _
      omega
    · rw [hown, List.filterMap_append, hsingle]
      refine List.Perm.trans ?_ (hrest.append_right _)
      rw [List.append_assoc]
      exact List.perm_append_comm.append_left _
    · rw [hpassed, List.filterMap_append, hsingle]
      refine List.Perm.trans ?_ (hrest.append_right _)
      rw [List.append_assoc]
      exact List.perm_append_comm.append_left _
  obtain ⟨store, workspace, troubles, hfinish⟩ := finish_eq hf i outcome
  rw [hfinish]
  exact hmoved.congr rfl rfl rfl rfl rfl

omit [World W] in
theorem Accounts.notify (h : Accounts p ended reports ws cs) {scope s : Scope} {n : Notice}
    (hw : p.workers[i]? = some ⟨scope, .notifying s n⟩) :
    Accounts ({ p with notices := p.notices ++ [n] }.setStage i (.reporting s none)) ended reports
      (ws ++ [n]) cs := by
  refine h.move hw p.queue _ p.inbox (fun _ => id) h.nodup rfl (fun _ => rfl)
    (fun rest hrest => ?_) (fun _ _ => id) fun htold => ?_
  · rw [List.append_assoc]
    exact hrest
  · rw [List.append_assoc]
    exact (htold.append_right _).trans (by
      rw [List.append_assoc]
      exact List.perm_append_comm.append_left _)

omit [World W] in
theorem Accounts.report (h : Accounts p ended reports ws cs) {scope s : Scope} {n : Option Notice}
    (hw : p.workers[i]? = some ⟨scope, .reporting s n⟩) :
    Accounts ((p.send (.taskFinished s n)).2.setStage i .idle) ended reports ws cs := by
  by_cases hlive : p.coordinator = .running
  · rw [send_of_running hlive]
    refine h.move hw p.queue p.notices _ (fun _ => id) h.nodup rfl
      (fun _ => ?_) (fun _ => id) (fun _ rest hrest => ?_) id
    · rw [List.countP_append]
      show _ + 1 + _ = _ + 0 + (_ + 1)
      omega
    · refine List.Perm.trans (List.Perm.append_left _ ?_) hrest
      have hone : [Event.taskFinished s n].filterMap noticeOf? = n.toList := by
        cases n <;> rfl
      rw [List.filterMap_append, hone]
      exact (List.perm_append_comm : (p.inbox.filterMap noticeOf? ++ n.toList).Perm _)
  · -- nobody is left to be told
    rw [send_of_not_running hlive]
    exact h.move hw p.queue p.notices p.inbox (fun _ => id)
      h.nodup rfl (fun hrunning => absurd hrunning hlive) (fun _ => id)
      (fun hrunning => absurd hrunning hlive) id

/-! ### The coordinator -/

omit [World W] in
/-- Without a coordinator nothing is owed, whatever becomes of the inbox. -/
theorem Accounts.stop {q : Pipeline W} (h : Accounts p ended reports ws cs) (hq : q.queue = p.queue)
    (hw : q.workers = p.workers) (hstop : q.coordinator ≠ .running) {ns : List Notice}
    (hn : q.notices = p.notices ++ ns) : Accounts q ended reports ws (cs ++ ns) := by
  have hheld : q.held = p.held := congrArg (onHand Stage.claimed?) hw
  refine ⟨?_, ?_, ?_, fun hlive => absurd hlive hstop, ?_, fun hlive => absurd hlive hstop, ?_⟩
  · rw [hheld, hq]; exact h.keys
  · rw [hq]; exact h.nodup
  · rw [hq]; exact h.counted
  · rw [hw]; exact h.system
  · rw [hn, ← List.append_assoc]; exact h.told.append_right ns

theorem noticeOf?_of_not_report {event : Event} (h : event.isReport = false) :
    noticeOf? event = none := by
  cases event with
  | taskFinished => cases h
  | addParts | removeParts | updateUnsaved | removeUnsaved | filesChanged | shutdown => rfl

omit [World W] in
theorem Directs.builds {q : Pipeline W} (h : Directs p q) :
    q.queue.unreported = p.queue.unreported ∧
      q.queue.running.map (·.key) = p.queue.running.map (·.key) := by
  rcases h.merger with ⟨_, hq⟩ | ⟨c, _, hq⟩
  · rw [hq]
    exact ⟨rfl, rfl⟩
  · rw [hq, Queue.unreported_applyAll, Queue.running_applyAll, List.map_map]
    exact ⟨rfl, List.map_congr_left fun r _ => (r.foldl_take_same _).1⟩

/-- An unreported end stands behind every report. -/
theorem Accounts.unsaturated (h : Accounts p ended reports ws cs) {event : Event} {q : Pipeline W}
    (hq : Handled p event q) (hevent : event.isReport = true) :
    p.queue.reported.unreported + 1 = p.queue.unreported := by
  obtain ⟨hlive, rest, hin, _⟩ := hq
  have howed := h.owed hlive
  rw [hin, List.countP_cons, if_pos hevent] at howed
  show p.queue.unreported - 1 + 1 = p.queue.unreported
  omega

theorem Accounts.handle_report (h : Accounts p ended reports ws cs) {s : Scope} {n : Option Notice}
    {q : Pipeline W} (hq : Handled p (.taskFinished s n) q) :
    Accounts q ended (reports ++ [.taskFinished s n]) ws (cs ++ n.toList) := by
  have hless := h.unsaturated hq rfl
  obtain ⟨hlive, rest, hin, rfl⟩ := hq
  have howed := h.owed hlive
  have hproject := h.project hlive
  have hcounted := h.counted
  have hfirst : (Event.taskFinished s n :: rest).filterMap noticeOf? =
      n.toList ++ rest.filterMap noticeOf? := by
    rw [List.filterMap_cons]
    cases n <;> rfl
  rw [hin, List.countP_cons_of_pos rfl] at howed
  rw [hin, hfirst] at hproject
  refine ⟨h.keys, h.nodup, ?_, fun _ => ?_, h.system, fun _ => ?_, ?_⟩
  · show p.queue.reported.unreported + _ = _
    rw [List.length_append, List.length_singleton]
    omega
  · show p.queue.reported.unreported = p.workers.countP _ + rest.countP _
    omega
  · refine List.Perm.trans ?_ hproject
    calc (cs ++ n.toList ++ (onHand Stage.passed? p.workers ++ rest.filterMap noticeOf?))
        = cs ++ (n.toList ++ onHand Stage.passed? p.workers ++ rest.filterMap noticeOf?) := by
          simp only [List.append_assoc]
      List.Perm _ (cs ++ (onHand Stage.passed? p.workers ++ n.toList ++
          rest.filterMap noticeOf?)) := (List.perm_append_comm.append_right _).append_left cs
      _ = cs ++ (onHand Stage.passed? p.workers ++ (n.toList ++ rest.filterMap noticeOf?)) := by
          simp only [List.append_assoc]
  · show (p.notices ++ n.toList).Perm (ws ++ (cs ++ n.toList))
    rw [← List.append_assoc]
    exact h.told.append_right _

theorem Accounts.handle_other (h : Accounts p ended reports ws cs) {event : Event} {q : Pipeline W}
    (hq : Handled p event q) (hevent : event.isReport = false) :
    Accounts q ended reports ws cs := by
  obtain ⟨hlive, rest, hin, rfl⟩ := hq
  have howed := h.owed hlive
  have hproject := h.project hlive
  have hdirects := directs_handle { p with inbox := rest } hevent
  obtain ⟨hunreported, hkeys⟩ := hdirects.builds
  obtain ⟨_, hworkers, hinbox, hnotices, _⟩ := hdirects
  rw [hin, List.countP_cons, if_neg (by simp [hevent]), Nat.add_zero] at howed
  rw [hin, List.filterMap_cons_none (noticeOf?_of_not_report hevent)] at hproject
  refine ⟨?_, ?_, ?_, fun _ => ?_, ?_, fun _ => ?_, ?_⟩
  · rw [hkeys, held, hworkers]; exact h.keys
  · rw [hkeys]; exact h.nodup
  · rw [hunreported]; exact h.counted
  · rw [hunreported, hworkers, hinbox]; exact howed
  · rw [hworkers]; exact h.system
  · rw [hworkers, hinbox]; exact hproject
  · rw [hnotices]; exact h.told

/-- What a handled event says, and what is left of the inbox. -/
theorem Handled.says {event : Event} {q : Pipeline W} (h : Handled p event q) :
    q.notices = p.notices ++ (noticeOf? event).toList ∧ p.inbox = event :: q.inbox := by
  obtain ⟨_, rest, hin, rfl⟩ := h
  by_cases hevent : event.isReport = true
  · cases event with
    | taskFinished s n => exact ⟨rfl, hin⟩
    | addParts | removeParts | updateUnsaved | removeUnsaved | filesChanged | shutdown =>
      cases hevent
  · have hother : event.isReport = false := by simpa using hevent
    obtain ⟨_, _, hinbox, hnotices, _⟩ := directs_handle { p with inbox := rest } hother
    rw [noticeOf?_of_not_report hother, hnotices, hinbox]
    exact ⟨(List.append_nil _).symm, hin⟩

theorem Accounts.handle (h : Accounts p ended reports ws cs) {event : Event} {q : Pipeline W}
    (hq : Handled p event q) : Accounts q ended (reports ++ [event].filter (·.isReport)) ws
      (cs ++ (noticeOf? event).toList) := by
  by_cases hevent : event.isReport = true
  · cases event with
    | taskFinished s n => exact h.handle_report hq
    | addParts | removeParts | updateUnsaved | removeUnsaved | filesChanged | shutdown =>
      cases hevent
  · have hother : event.isReport = false := by simpa using hevent
    rw [noticeOf?_of_not_report hother, Option.toList_none, List.append_nil,
      List.filter_cons_of_neg hevent, List.filter_nil, List.append_nil]
    exact h.handle_other hq hother

/-! ### Runs -/

omit [World W] in
theorem drop_notices {q : Pipeline W} {ns : List Notice} (h : q.notices = p.notices ++ ns) :
    q.notices.drop p.notices.length = ns := by
  rw [h, List.drop_left]

theorem Accounts.coordinate (h : Accounts p ended reports ws cs) :
    Accounts (p.step .coordinate) ended (reports ++ p.handledReport (.step .coordinate)) ws
      (cs ++ p.toldByCoordinator (.step .coordinate)) := by
  by_cases hstep : p.coordinator = .running ∧ p.inbox ≠ []
  · obtain ⟨event, q, hq⟩ := exists_handled hstep
    obtain ⟨hsaid, hin⟩ := hq.says
    have hhandled := h.handle hq
    have hreport : p.handledReport (.step .coordinate) = [event].filter (·.isReport) := by
      rw [handledReport, hq.live, hin]
      cases event <;> rfl
    rw [hreport, toldByCoordinator]
    rcases hq.step with ⟨heq, _⟩ | ⟨heq, _⟩ | ⟨heq, f, hfailed⟩
    · rw [heq, drop_notices hsaid]
      exact hhandled
    · have hlast : q.leave.notices =
          p.notices ++ ((noticeOf? event).toList ++ q.inbox.filterMap noticeOf?) := by
        rw [leave, hsaid, List.append_assoc]
      rw [heq, drop_notices hlast, ← List.append_assoc]
      exact Accounts.stop (q := q.leave) hhandled rfl rfl CoordinatorState.noConfusion rfl
    · rw [heq, drop_notices (q := { q with inbox := [] }) hsaid, ← List.append_nil (cs ++ _)]
      refine Accounts.stop (q := { q with inbox := [] }) hhandled rfl rfl (fun hrunning => ?_)
        (List.append_nil _).symm
      rw [hfailed] at hrunning
      cases hrunning
  · have hreport : p.handledReport (.step .coordinate) = [] := by
      rw [handledReport]
      split
      · rename_i hlive hin
        exact absurd ⟨hlive, by rw [hin]; exact List.cons_ne_nil _ _⟩ hstep
      · rfl
    rw [toldByCoordinator, hreport, step_coordinate_of_not hstep, List.drop_length, List.append_nil,
      List.append_nil]
    exact h

theorem Accounts.works (h : Accounts p ended reports ws cs) (hw : Works p i p')
    (waits permitted : Bool) :
    ∃ ns, p'.notices = p.notices ++ ns ∧
      Accounts p' (ended ++ p.endings (.step (.work i waits permitted))) reports (ws ++ ns) cs := by
  have hsilent : p'.notices = p.notices →
      Accounts p' (ended ++ p.endings (.step (.work i waits permitted))) reports ws cs →
      ∃ ns, p'.notices = p.notices ++ ns ∧
        Accounts p' (ended ++ p.endings (.step (.work i waits permitted))) reports (ws ++ ns) cs :=
    fun hn ha => ⟨[], by rw [hn, List.append_nil], by rwa [List.append_nil]⟩
  cases hw with
  | @claim scope c q worker opened claimed =>
    refine hsilent rfl ?_
    rw [endings, worker, List.append_nil]
    exact h.claim worker claimed
  | @look scope c worker =>
    refine hsilent rfl ?_
    rw [endings, worker, List.append_nil]
    exact h.goesOn worker rfl (Stage.claimed?_footed _ _)
  | @plan scope c base waits worker =>
    refine hsilent rfl ?_
    rw [endings, worker, List.append_nil]
    exact h.goesOn worker rfl (Stage.claimed?_planned _ _ _)
  | @compile scope c job print waits worker =>
    refine hsilent rfl ?_
    rw [endings, worker, List.append_nil]
    exact h.compile worker
  | @finish scope c outcome worker =>
    obtain ⟨f, q, hf⟩ := h.finishes worker
    obtain ⟨store, workspace, troubles, hfinish⟩ := finish_eq hf i outcome
    refine hsilent (by rw [hfinish]; rfl) ?_
    simp only [endings, worker, hf]
    exact h.finish worker hf
  | @notify scope s n worker =>
    refine ⟨[n], rfl, ?_⟩
    rw [endings, worker, List.append_nil]
    exact h.notify worker
  | @report scope s n worker =>
    refine hsilent ?_ ?_
    · rw [send]
      split <;> rfl
    · rw [endings, worker, List.append_nil]
      exact h.report worker

/-- A worker that cannot go on has no build that ended. -/
theorem endings_of_work_eq_none {waits permitted : Bool} (h : p.work i waits permitted = none) :
    p.endings (.step (.work i waits permitted)) = [] := by
  rw [endings]
  split
  · rename_i hworker
    simp only [work, hworker, reduceCtorEq] at h
  · rfl

omit [World W] in
theorem Accounts.send (h : Accounts p ended reports ws cs) {event : Event}
    (hevent : event.isReport = false) : Accounts (p.send event).2 ended reports ws cs := by
  by_cases hlive : p.coordinator = .running
  · rw [send_of_running hlive]
    refine ⟨h.keys, h.nodup, h.counted, fun hlive => ?_, h.system, fun hlive => ?_, h.told⟩
    · show _ = _ + (p.inbox ++ [event]).countP _
      rw [List.countP_append, List.countP_singleton, if_neg (by simp [hevent])]
      exact h.owed hlive
    · show (_ ++ (_ ++ (p.inbox ++ [event]).filterMap noticeOf?)).Perm _
      rw [List.filterMap_append, List.filterMap_cons_none (noticeOf?_of_not_report hevent),
        List.filterMap_nil, List.append_nil]
      exact h.project hlive
  · rw [send_of_not_running hlive]
    exact h

theorem Accounts.occur (h : Accounts p ended reports ws cs) (o : Occurrence W)
    (hsent : ∀ event, o = .send event → event.isReport = false) :
    Accounts (p.occur o) (ended ++ p.endings o) (reports ++ p.handledReport o)
      (ws ++ p.toldByWorker o) (cs ++ p.toldByCoordinator o) := by
  cases o with
  | step s =>
    cases s with
    | coordinate =>
      simp only [endings, toldByWorker, List.append_nil]
      exact h.coordinate
    | work i waits permitted =>
      simp only [handledReport, toldByCoordinator, List.append_nil, toldByWorker, Pipeline.occur]
      cases hwork : p.work i waits permitted with
      | none =>
        rw [endings_of_work_eq_none hwork, step, hwork, Option.getD_none, List.drop_length,
          List.append_nil, List.append_nil]
        exact h
      | some q =>
        obtain ⟨ns, hsaid, hmoved⟩ := h.works (works_of_work hwork) waits permitted
        rw [step, hwork, Option.getD_some, drop_notices hsaid]
        exact hmoved
  | send event =>
    simp only [endings, handledReport, toldByWorker, toldByCoordinator, List.append_nil]
    exact h.send (hsent event rfl)
  | change | number | close =>
    simp only [endings, handledReport, toldByWorker, toldByCoordinator, List.append_nil]
    exact h.congr rfl rfl rfl rfl rfl

/-- The accounts are kept all along a run, if only workers send reports. -/
theorem Accounts.during (h : Accounts p ended reports ws cs) {os : List (Occurrence W)}
    (hsent : ∀ event, .send event ∈ os → event.isReport = false) :
    Accounts (p.during os) (ended ++ p.seen endings os) (reports ++ p.seen handledReport os)
      (ws ++ p.seen toldByWorker os) (cs ++ p.seen toldByCoordinator os) := by
  induction os using List.reverseRecOn with
  | nil =>
    simp only [seen, List.append_nil]
    exact h
  | append_singleton os o ih =>
    have hbefore := ih fun event hmem => hsent event (List.mem_append_left _ hmem)
    rw [during_append]
    simp only [seen_snoc, ← List.append_assoc]
    refine hbefore.occur o fun event ho => hsent event ?_
    rw [ho]
    exact List.mem_append_right _ (List.mem_singleton_self _)

omit [World W] in
theorem accounts_start (workspace : Workspace W) (pchDir : FilePath) (records : RecordStore)
    (artifacts : ArtifactStore) (workers : List Scope) (exitWhenIdle watches : Bool) :
    Accounts (start workspace pchDir records artifacts workers exitWhenIdle watches) [] [] [] [] := by
  have hidle : ∀ {α : Type} (f : Stage → Option α), f .idle = none →
      onHand f (workers.map (⟨·, .idle⟩)) = [] := fun f hf =>
    List.filterMap_eq_nil_iff.mpr fun w hw => by
      obtain ⟨s, _, rfl⟩ := List.mem_map.mp hw
      exact hf
  have howes : (workers.map (⟨·, .idle⟩ : Scope → Worker)).countP (·.stage.owes) = 0 :=
    List.countP_eq_zero.mpr fun w hw => by
      obtain ⟨s, _, rfl⟩ := List.mem_map.mp hw
      exact Bool.false_ne_true
  refine ⟨?_, List.nodup_nil, rfl, fun _ => ?_, ?_, fun _ => ?_, List.Perm.refl _⟩
  · show ((onHand _ (workers.map _)).map _).Perm _
    rw [hidle _ rfl]
    exact List.Perm.refl _
  · show 0 = (workers.map _).countP _ + 0
    rw [howes]
  · show ([] ++ onHand _ (workers.map _)).Perm _
    rw [hidle _ rfl]
    exact List.Perm.refl _
  · show ([] ++ (onHand _ (workers.map _) ++ [])).Perm _
    rw [hidle _ rfl]
    exact List.Perm.refl _

/-! ### The way to the exit -/

/-- A worker takes the first pending task of a scope that is not blocked as far as the report. -/
theorem Quiet.reaches_report {s : Scope} (h : p.Quiet) (hw : p.workers[i]? = some ⟨s, .idle⟩)
    {e : Pending} {rest : List Pending} (hp : p.queue.pending.get s = e :: rest)
    (hs : s = .project → p.queue.pending.system = []) :
    ∃ steps n, let r := p.after steps
      r.workers = (p.setStage i (.reporting s n)).workers ∧
      r.queue.pending = p.queue.pending.set s rest ∧ r.queue.running = [] ∧
      r.queue.unreported = 1 ∧ r.inbox = [] ∧ r.coordinator = .running ∧ r.closing = false ∧
      r.exitWhenIdle = p.exitWhenIdle := by
  obtain ⟨q, hclaim, _, _, f, q', hfinish, rfl, hf, _, hpending, hrunning, hunreported⟩ :=
    Queue.claim_first hp h.running hs
  rw [h.unreported] at hunreported
  obtain ⟨hbuild, _⟩ := after_build h hw hclaim
  generalize Build.run p.pchDir p.artifacts p.workspace e.key f.scope e.task = made at hbuild
  generalize p.buildSteps i f.scope e.key e.task = steps at hbuild
  obtain ⟨outcome, store, ws⟩ := made
  have hworker : (p.after steps).workers[i]? =
      some ⟨f.scope, .ended ⟨e.key, f.scope, e.task⟩ outcome⟩ := by
    rw [hbuild]
    exact getElem?_setStage (p := { p with queue := q }) hw _
  have hknown : (p.after steps).queue.finish e.key = some (f, q') := by
    rw [hbuild]
    exact hfinish
  obtain ⟨store', ws', troubles, htold⟩ :=
    finish_eq (c := ⟨e.key, f.scope, e.task⟩) hknown i outcome
  let told : Pipeline W :=
    { p with queue := q', artifacts := store', workspace := ws', troubles := troubles }
  have hfinished : p.after (steps ++ [.work i false false]) =
      told.setStage i (stageAfter f outcome) := by
    rw [after_append, after, List.foldl_cons, List.foldl_nil, step_finish hworker, htold, hbuild]
    exact setStage_setStage told i _ _
  have hstage : ∀ stage, (told.setStage i stage).workers[i]? = some ⟨f.scope, stage⟩ := fun stage =>
    getElem?_setStage (p := told) hw stage
  cases hscope : f.scope with
  | project =>
    have hafter : stageAfter f outcome =
        .reporting .project (some ⟨.project, f.members, outcome, f.progress⟩) := by
      rw [stageAfter, hf, hscope]
      rfl
    rw [hafter] at hfinished
    refine ⟨steps ++ [.work i false false], some ⟨.project, f.members, outcome, f.progress⟩, ?_⟩
    rw [hfinished]
    exact ⟨rfl, hscope ▸ hpending, hrunning, hunreported, h.inbox, h.live, h.opened, rfl⟩
  | system =>
    have hafter : stageAfter f outcome =
        .notifying .system ⟨.system, f.members, outcome, f.progress⟩ := by
      rw [stageAfter, hf, hscope]
      rfl
    rw [hafter] at hfinished
    have hnotified : p.after ((steps ++ [.work i false false]) ++ [.work i false false]) =
        ({ told with notices := told.notices ++ [⟨.system, f.members, outcome, f.progress⟩] } :
          Pipeline W).setStage i (.reporting .system none) := by
      rw [after_append, hfinished, after, List.foldl_cons, List.foldl_nil,
        step_notify (hscope ▸ hstage _)]
      exact setStage_setStage { told with notices := told.notices ++ [_] } i _ _
    refine ⟨(steps ++ [.work i false false]) ++ [.work i false false], none, ?_⟩
    rw [hnotified]
    exact ⟨rfl, hscope ▸ hpending, hrunning, hunreported, h.inbox, h.live, h.opened, rfl⟩

/-- The coordinator handles that report, and then there is one task less to wait for. -/
theorem Quiet.reaches_handled {s : Scope} (h : p.Quiet) (hw : p.workers[i]? = some ⟨s, .idle⟩)
    {e : Pending} {rest : List Pending} (hp : p.queue.pending.get s = e :: rest)
    (hs : s = .project → p.queue.pending.system = []) :
    ∃ steps event x, Handled (p.after steps) event x ∧ x.Quiet ∧ x.workers = p.workers ∧
      x.exitWhenIdle = p.exitWhenIdle ∧ x.queue.waiting + 1 = p.queue.waiting := by
  obtain ⟨steps, notice, hworkers, hpending, hrunning, hunreported, hinbox, hlive, hopen, hexit⟩ :=
    h.reaches_report hw hp hs
  have hreport : p.after (steps ++ [.work i false false]) =
      { p.after steps with inbox := [.taskFinished s notice] }.setStage i .idle := by
    have hworker : (p.after steps).workers[i]? = some ⟨s, .reporting s notice⟩ := by
      rw [hworkers]
      exact getElem?_setStage hw _
    rw [after_append, after, List.foldl_cons, List.foldl_nil, step_report hworker,
      send_of_running hlive, hinbox]
    rfl
  let x : Pipeline W := { p.after steps with
    workers := p.workers
    queue := (p.after steps).queue.reported
    notices := (p.after steps).notices ++ notice.toList }
  have hhandled : Handled (p.after (steps ++ [.work i false false])) (.taskFinished s notice) x := by
    refine ⟨by rw [hreport]; exact hlive, [], by rw [hreport]; rfl, ?_⟩
    have hback : (p.after steps).workers.modify i ({ · with stage := .idle }) = p.workers := by
      rw [hworkers]
      exact (congrArg Pipeline.workers (setStage_setStage p i _ .idle)).trans
        (congrArg Pipeline.workers (setStage_of_stage hw))
    rw [hreport, handle, setStage]
    dsimp only
    rw [hback]
    show x = { x with inbox := [] }
    rw [show ([] : List Event) = x.inbox from hinbox.symm]
  have hquiet : x.Quiet := by
    refine ⟨hopen, hlive, hinbox, hrunning, ?_⟩
    show (p.after steps).queue.unreported - 1 = 0
    rw [hunreported]
  exact ⟨_, _, x, hhandled, hquiet, rfl, hexit, Queue.length_pending_set (r := x.queue) hp hpending⟩

omit [World W] in
/-- A quiet pipeline only waits for pending tasks. -/
theorem Quiet.isIdle_iff (h : p.Quiet) : p.queue.isIdle = true ↔ p.queue.waiting = 0 := by
  simp [Queue.isIdle, Queue.waiting, h.running, h.unreported]

/-- With workers for both scopes, a quiet pipeline that has something to do comes to the exit. -/
theorem Quiet.reaches_exit (h : p.Quiet) (hexits : p.exitWhenIdle = true)
    (hw : ∀ s, ∃ i : Nat, p.workers[i]? = some (⟨s, .idle⟩ : Worker)) (hwork : p.queue.waiting ≠ 0) :
    ∃ steps q, Exits (p.after steps) q := by
  obtain ⟨n, hn⟩ : ∃ n, p.queue.waiting = n := ⟨_, rfl⟩
  induction n generalizing p with
  | zero => exact absurd hn hwork
  | succ n ih =>
    obtain ⟨hsystem, hproject⟩ | ⟨s, e, rest, he, hfirst⟩ := p.queue.first_pending
    · simp [Queue.waiting, hsystem, hproject] at hn
    obtain ⟨i, hi⟩ := hw s
    obtain ⟨steps, event, x, hhandled, hquiet, hworkers, hexit, hless⟩ :=
      h.reaches_handled hi he hfirst
    by_cases hidle : x.queue.isIdle = true
    · exact ⟨steps, x, ⟨event, hhandled⟩, hquiet.live, hexit.trans hexits, hidle⟩
    · -- the coordinator goes on, and so does the next round
      have hstep := hhandled.goes_on hquiet.live fun hleave => hidle hleave.2
      obtain ⟨more, q, hq⟩ := ih hquiet (hexit.trans hexits) (hworkers ▸ hw)
        (fun hnone => hidle (hquiet.isIdle_iff.mpr hnone)) (by omega)
      refine ⟨steps ++ .coordinate :: more, q, ?_⟩
      rw [after_append, after, List.foldl_cons, hstep]
      exact hq

/-! ### The exit -/

/-- Nothing is left to do, and every end of a build was announced on its way, unless it was void. -/
structure Delivered (p : Pipeline W) (ended : List EndedBuild) (byWorkers byCoordinator : List Notice) :
    Prop where
  pending : ∀ s, p.queue.pending.get s = []
  running : p.queue.running = []
  idle : ∀ w ∈ p.workers, w.stage = .idle
  inbox : ∀ event ∈ p.inbox, event.isReport = false
  system : byWorkers.Perm (ended.filterMap (EndedBuild.notice? .system))
  project : byCoordinator.Perm (ended.filterMap (EndedBuild.notice? .project))
  told : p.notices.Perm (byWorkers ++ byCoordinator)

omit [World W] in
theorem Accounts.delivered (h : Accounts p ended reports ws cs) (hlive : p.coordinator = .running)
    (hidle : p.queue.isIdle = true) : Delivered p ended ws cs := by
  simp only [Queue.isIdle, Bool.and_eq_true, List.isEmpty_iff, decide_eq_true_eq] at hidle
  obtain ⟨⟨⟨hsystem, hproject⟩, hrunning⟩, hunreported⟩ := hidle
  have howed := h.owed hlive
  have howes : p.workers.countP (·.stage.owes) = 0 := by omega
  have hinbox : ∀ event ∈ p.inbox, event.isReport = false := by
    have hzero : p.inbox.countP (·.isReport) = 0 := by omega
    simpa using List.countP_eq_zero.mp hzero
  have hheld : p.held = [] := by
    have hkeys := h.keys
    rw [hrunning] at hkeys
    exact List.map_eq_nil_iff.mp hkeys.eq_nil
  have hworkers : ∀ w ∈ p.workers, w.stage = .idle := fun w hw =>
    Stage.eq_idle (List.filterMap_eq_nil_iff.mp hheld w hw)
      (Bool.eq_false_iff.mpr (List.countP_eq_zero.mp howes w hw))
  have hhands : ∀ {α : Type} (f : Stage → Option α), f .idle = none → onHand f p.workers = [] :=
    fun f hf => List.filterMap_eq_nil_iff.mpr fun w hw => by rw [hworkers w hw, hf]
  have hcarried : p.inbox.filterMap noticeOf? = [] :=
    List.filterMap_eq_nil_iff.mpr fun event hevent => noticeOf?_of_not_report (hinbox event hevent)
  refine ⟨fun s => ?_, hrunning, hworkers, hinbox, ?_, ?_, h.told⟩
  · cases s
    · exact hsystem
    · exact hproject
  · have hall := h.system
    rwa [hhands _ rfl, List.append_nil] at hall
  · have hall := h.project hlive
    rwa [hhands _ rfl, hcarried, List.append_nil, List.append_nil] at hall

/-- How the ends of builds get around in the run `os` from `o`. -/
structure Delivery (o : Pipeline W) (os : List (Occurrence W)) : Prop where
  /-- Unreported are the builds that ended, less those whose report was handled. -/
  counted : (o.during os).queue.unreported + (o.seen handledReport os).length =
    (o.seen endings os).length
  /-- Their reports are in the hands of workers or in the inbox. -/
  owed : (o.during os).coordinator = .running → (o.during os).queue.unreported =
    (o.during os).workers.countP (·.stage.owes) + (o.during os).inbox.countP (·.isReport)
  /-- There is something to take off whenever a report is handled. -/
  unsaturated : ∀ event q, Handled (o.during os) event q → event.isReport = true →
    (o.during os).queue.reported.unreported + 1 = (o.during os).queue.unreported
  /-- When the coordinator leaves for want of work, all was delivered, and it leaves nothing. -/
  exit : ∀ q, Exits (o.during os) q →
    Delivered q (o.seen endings os) (o.seen toldByWorker os)
      (o.seen toldByCoordinator (os ++ [.step .coordinate])) ∧
    o.during (os ++ [.step .coordinate]) = { q with coordinator := .stopped, inbox := [] }

/-- Whatever the workers and the coordinator do, and in whatever order, as long as reports come from
workers only. -/
theorem delivery (workspace : Workspace W) (pchDir : FilePath) (records : RecordStore)
    (artifacts : ArtifactStore) (workers : List Scope) (exitWhenIdle watches : Bool)
    (os : List (Occurrence W)) (hsent : ∀ event, .send event ∈ os → event.isReport = false) :
    Delivery (start workspace pchDir records artifacts workers exitWhenIdle watches) os := by
  have h := (accounts_start workspace pchDir records artifacts workers exitWhenIdle watches).during
    hsent
  generalize start workspace pchDir records artifacts workers exitWhenIdle watches = o at h
  simp only [List.nil_append] at h
  refine ⟨h.counted, h.owed, fun event q hq => h.unsaturated hq, fun q hq => ?_⟩
  obtain ⟨⟨event, hhandled⟩, hlive, hexits, hidle⟩ := hq
  have hdelivered := (h.handle hhandled).delivered hlive hidle
  have hleave := hhandled.leaves hlive ⟨hexits, hidle⟩
  have hcarried : q.inbox.filterMap noticeOf? = [] := List.filterMap_eq_nil_iff.mpr fun event he =>
    noticeOf?_of_not_report (hdelivered.inbox event he)
  have hleft : q.leave = { q with coordinator := .stopped, inbox := [] } := by
    rw [leave, hcarried, List.append_nil]
  have hsaid : (o.during os).toldByCoordinator (.step .coordinate) = (noticeOf? event).toList := by
    rw [toldByCoordinator, hleave, hleft]
    exact drop_notices (q := q) hhandled.says.1
  constructor
  · rw [seen_snoc, hsaid]
    exact hdelivered
  · rw [during_append]
    exact hleave.trans hleft

/-! One part with nothing to build comes all the way. -/

/-- A part without files. -/
def lonePart : Part := ⟨"a", .default, [], []⟩

def loneTask : Task := ⟨["a"], [], [], [], .default⟩

/-- A pipeline with a worker for each scope that exits when it is idle. -/
def once : Pipeline Bench :=
  .start ⟨.empty, .empty⟩ ⟨"/p"⟩ (.memory {}) (.memory .empty) [.system, .project] true false

theorem collect_lone : (collectTasks once.provider once.workspace [lonePart]).1.toOption =
    some [⟨loneTask, loneTask⟩] := by decide +kernel

theorem dispatches_lone : (Merger.empty.call (.merge [⟨loneTask, loneTask⟩] [])).2 =
    [.add .system [loneTask], .add .project [loneTask]] := by
  have hall : (Merger.empty.call (.merge [⟨loneTask, loneTask⟩] [])).2 =
      Merger.flush .system [loneTask] ⟨[loneTask.key .system], [], []⟩ ++
        Merger.flush .project [loneTask] ⟨[loneTask.key .project], [], []⟩ := rfl
  rw [hall, Workflow.flush_single, Workflow.flush_single]
  rfl

/-- The part is handed in, and nothing is done yet. -/
theorem once_begins : let q := once.handle (.addParts [lonePart] [])
    q.Quiet ∧ q.queue.waiting = 2 ∧ q.workers = once.workers ∧ q.exitWhenIdle = true := by
  intro q
  let o : Pipeline Bench := { once with
    parts := [lonePart].foldl (fun m (part : Part) => m.insert part.id part) once.parts
    extra := [] }
  have hcollected := collect_lone
  rcases o.submit_eq [lonePart] with ⟨f, provider, ws, hcollect, _⟩ |
    ⟨sets, provider, ws, watch, troubles, hcollect, hq⟩
  · change collectTasks once.provider once.workspace [lonePart] = _ at hcollect
    rw [hcollect] at hcollected
    cases hcollected
  · change collectTasks once.provider once.workspace [lonePart] = _ at hcollect
    rw [hcollect] at hcollected
    obtain rfl : sets = _ := Option.some.inj hcollected
    change q = _ at hq
    rw [hq]
    refine ⟨⟨rfl, rfl, rfl, ?_, ?_⟩, ?_, rfl, rfl⟩
    · rw [Queue.running_applyAll]
      rfl
    · rw [Queue.unreported_applyAll]
      rfl
    · rw [show o.merger = Merger.empty from rfl, show o.queue = Queue.empty from rfl,
        show o.extra = [] from rfl, dispatches_lone]
      simp [Queue.waiting, Queue.applyAll, Queue.apply, Queue.add, Queue.addTask, Queue.empty,
        PerScope.get, PerScope.set]

/-- It is done with in both scopes, and then the coordinator leaves. -/
theorem delivery_once : ∃ steps : List Step,
    let os := [.send (.addParts [lonePart] []), .step .coordinate] ++ steps.map Occurrence.step
    (∀ event, .send event ∈ os → event.isReport = false) ∧ Delivery once os ∧
      ∃ q, Exits (once.during os) q := by
  obtain ⟨hquiet, hwaiting, hworkers, hexits⟩ := once_begins
  obtain ⟨steps, q, hq⟩ := hquiet.reaches_exit hexits
    (fun s => by
      rw [hworkers]
      cases s
      · exact ⟨0, rfl⟩
      · exact ⟨1, rfl⟩)
    (by rw [hwaiting]; decide)
  have hsent : ∀ event, .send event ∈ [.send (.addParts [lonePart] []), .step .coordinate] ++
      steps.map (Occurrence.step (W := Bench)) → event.isReport = false := by
    intro event hevent
    rcases List.mem_append.mp hevent with hevent | hevent
    · simp only [List.mem_cons, Occurrence.send.injEq, reduceCtorEq, List.not_mem_nil, or_false]
        at hevent
      rw [hevent]
      rfl
    · obtain ⟨_, _, hstep⟩ := List.mem_map.mp hevent
      cases hstep
  refine ⟨steps, hsent, delivery _ _ _ _ _ _ _ _ hsent, q, ?_⟩
  have hhandled : Handled (once.send (.addParts [lonePart] [])).2 (.addParts [lonePart] [])
      (once.handle (.addParts [lonePart] [])) := ⟨rfl, [], rfl, rfl⟩
  have hbusy : (once.handle (.addParts [lonePart] [])).queue.isIdle ≠ true := by
    intro hidle
    simp only [Queue.isIdle, Bool.and_eq_true, List.isEmpty_iff] at hidle
    rw [Queue.waiting, hidle.1.1.1, hidle.1.1.2] at hwaiting
    cases hwaiting
  have hstep := hhandled.goes_on hquiet.live fun hleave => hbusy hleave.2
  have hsteps : ∀ p : Pipeline Bench, p.during (steps.map .step) = p.after steps := fun p =>
    List.foldl_map
  rw [during_append, hsteps, during, List.foldl_cons, List.foldl_cons, List.foldl_nil, occur, occur,
    hstep]
  exact hq

end Pipeline
end PrecompiledHeaders
