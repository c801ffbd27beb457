import PrecompiledHeaders.Proofs.Pipeline.Steps
import PrecompiledHeaders.Proofs.Merger.Membership
/-! Runs in company. Between the steps of the coordinator and the workers, events are sent to the
coordinator, the workers are told to take up nothing more, others give numbers to files, and the world
changes by itself. -/
namespace PrecompiledHeaders

inductive Occurrence (W : Type) where
  | step (step : Step)
  | send (event : Event)
  | change (world : W)
  | number (paths : List String)
  | close

/-- Such events are for workers to send. -/
def Event.isReport : Event → Bool
  | .taskFinished _ _ => true
  | _ => false

namespace Pipeline

variable {W : Type} [World W] {α : Type}

def occur (p : Pipeline W) : Occurrence W → Pipeline W
  | .step s => p.step s
  | .send event => (p.send event).2
  | .change w => { p with workspace := { p.workspace with world := w } }
  | .number paths =>
    { p with workspace := { p.workspace with files := (p.workspace.files.internAll paths).2 } }
  | .close => p.close

def during (p : Pipeline W) (os : List (Occurrence W)) : Pipeline W := os.foldl occur p

/-- What an observer of a run has written down, who writes `f p o` when `o` happens to `p`. -/
def seen (f : Pipeline W → Occurrence W → List α) (p : Pipeline W) : List (Occurrence W) → List α
  | [] => []
  | o :: os => f p o ++ seen f (p.occur o) os

theorem during_append (p : Pipeline W) (os others : List (Occurrence W)) :
    p.during (os ++ others) = (p.during os).during others := List.foldl_append

theorem seen_append (f : Pipeline W → Occurrence W → List α) (p : Pipeline W)
    (os others : List (Occurrence W)) :
    p.seen f (os ++ others) = p.seen f os ++ (p.during os).seen f others := by
  induction os generalizing p with
  | nil => rfl
  | cons o os ih =>
    rw [List.cons_append, seen, seen, ih, List.append_assoc]
    rfl

theorem seen_snoc (f : Pipeline W → Occurrence W → List α) (p : Pipeline W)
    (os : List (Occurrence W)) (o : Occurrence W) :
    p.seen f (os ++ [o]) = p.seen f os ++ f (p.during os) o := by
  rw [seen_append, seen, seen, List.append_nil]

/-- `P` holds of everything that happens and the state it happens in. -/
def Throughout (P : Pipeline W → Occurrence W → Prop) : Pipeline W → List (Occurrence W) → Prop
  | _, [] => True
  | p, o :: os => P p o ∧ Throughout P (p.occur o) os

/-- What survives everything that happens lasts. -/
theorem during_induction {motive : Pipeline W → Prop} {P : Pipeline W → Occurrence W → Prop}
    (occur : ∀ q o, motive q → P q o → motive (q.occur o)) {p : Pipeline W} (hp : motive p)
    {os : List (Occurrence W)} (h : Throughout P p os) : motive (p.during os) := by
  induction os generalizing p with
  | nil => exact hp
  | cons o os ih => exact ih (occur p o hp h.1) h.2

/-! ### The coordinator -/

omit [World W] in
theorem send_of_running {p : Pipeline W} (h : p.coordinator = .running) (event : Event) :
    (p.send event).2 = { p with inbox := p.inbox ++ [event] } := by
  rw [send]
  split
  · rfl
  · rename_i hstopped
    exact absurd h hstopped

omit [World W] in
theorem send_of_not_running {p : Pipeline W} (h : p.coordinator ≠ .running) (event : Event) :
    (p.send event).2 = p := by
  rw [send]
  split
  · rename_i hrunning
    exact absurd hrunning h
  · rfl

/-- The coordinator takes the event from its inbox and handles it, which leads to `q`. -/
structure Handled (p : Pipeline W) (event : Event) (q : Pipeline W) : Prop where
  live : p.coordinator = .running
  taken : ∃ rest, p.inbox = event :: rest ∧ q = { p with inbox := rest }.handle event

/-- After the event it goes on, leaves, or fails. -/
theorem Handled.step {p q : Pipeline W} {event : Event} (h : Handled p event q) :
    (p.step .coordinate = q ∧ q.coordinator = .running ∧
      ¬ (q.exitWhenIdle = true ∧ q.queue.isIdle = true)) ∨
    (p.step .coordinate = q.leave ∧ (q.coordinator = .stopped ∨
      (q.coordinator = .running ∧ q.exitWhenIdle = true ∧ q.queue.isIdle = true))) ∨
    (p.step .coordinate = { q with inbox := [] } ∧ ∃ f, q.coordinator = .failed f) := by
  obtain ⟨hlive, rest, hin, rfl⟩ := h
  rw [Pipeline.step, coordinate, hin, hlive]
  dsimp only
  have hsame : ({ p with inbox := rest, coordinator := .running } : Pipeline W) =
      { p with inbox := rest } := by rw [← hlive]
  rw [hsame]
  generalize ({ p with inbox := rest } : Pipeline W).handle event = q
  cases hq : q.coordinator with
  | running =>
    dsimp only
    by_cases hleave : q.exitWhenIdle = true ∧ q.queue.isIdle = true
    · rw [if_pos (Bool.and_eq_true_iff.mpr hleave)]
      exact Or.inr (Or.inl ⟨rfl, Or.inr ⟨rfl, hleave⟩⟩)
    · rw [if_neg (mt Bool.and_eq_true_iff.mp hleave)]
      exact Or.inl ⟨rfl, rfl, hleave⟩
  | stopped => exact Or.inr (Or.inl ⟨rfl, Or.inl rfl⟩)
  | failed f => exact Or.inr (Or.inr ⟨rfl, f, rfl⟩)

theorem Handled.goes_on {p q : Pipeline W} {event : Event} (h : Handled p event q)
    (hlive : q.coordinator = .running) (hstay : ¬ (q.exitWhenIdle = true ∧ q.queue.isIdle = true)) :
    p.step .coordinate = q := by
  rcases h.step with ⟨heq, _⟩ | ⟨_, hstopped | ⟨_, hleave⟩⟩ | ⟨_, f, hfailed⟩
  · exact heq
  · rw [hlive] at hstopped
    cases hstopped
  · exact absurd hleave hstay
  · rw [hlive] at hfailed
    cases hfailed

theorem Handled.leaves {p q : Pipeline W} {event : Event} (h : Handled p event q)
    (hlive : q.coordinator = .running) (hleave : q.exitWhenIdle = true ∧ q.queue.isIdle = true) :
    p.step .coordinate = q.leave := by
  rcases h.step with ⟨_, _, hstay⟩ | ⟨heq, _⟩ | ⟨_, f, hfailed⟩
  · exact absurd hleave hstay
  · exact heq
  · rw [hlive] at hfailed
    cases hfailed

/-- Without an event, or without a coordinator, nothing happens. -/
theorem step_coordinate_of_not {p : Pipeline W}
    (h : ¬ (p.coordinator = .running ∧ p.inbox ≠ [])) : p.step .coordinate = p := by
  rw [step, coordinate]
  split
  · rename_i hlive hin
    exact absurd ⟨hlive, by rw [hin]; exact List.cons_ne_nil _ _⟩ h
  · rfl

theorem exists_handled {p : Pipeline W} (h : p.coordinator = .running ∧ p.inbox ≠ []) :
    ∃ event q, Handled p event q := by
  obtain ⟨event, rest, hin⟩ := List.exists_cons_of_ne_nil h.2
  exact ⟨event, _, h.1, rest, hin, rfl⟩

/-- From `p` to `q` the merger is called at most once, and the queue takes what it is told; nothing
is said of builds. -/
structure Directs (p q : Pipeline W) : Prop where
  merger : (q.merger = p.merger ∧ q.queue = p.queue) ∨ ∃ c : MergerCall,
    q.merger = (p.merger.call c).1 ∧ q.queue = p.queue.applyAll (p.merger.call c).2
  workers : q.workers = p.workers
  inbox : q.inbox = p.inbox
  notices : q.notices = p.notices
  exits : q.exitWhenIdle = p.exitWhenIdle

/-- Once all parts are collected, handing them in calls the merger. -/
theorem submit_of_ok {p : Pipeline W} {parts : List Part} {sets : List TaskSet}
    {provider : Provider} {ws : Workspace W}
    (h : collectTasks p.provider p.workspace parts = (.ok sets, provider, ws)) :
    ∃ watch troubles, p.submit parts = { p with
      provider := provider
      workspace := ws
      merger := (p.merger.call (.merge sets p.extra)).1
      queue := p.queue.applyAll (p.merger.call (.merge sets p.extra)).2
      watch := watch
      troubles := troubles } := by
  rw [submit, h]
  exact refreshWatch_eq { p with
    provider := provider
    workspace := ws
    merger := (p.merger.call (.merge sets p.extra)).1
    queue := p.queue.applyAll (p.merger.call (.merge sets p.extra)).2 }

/-- Handing in parts calls the merger if all of them are collected, and fails otherwise. -/
theorem submit_eq (p : Pipeline W) (parts : List Part) :
    (∃ f provider ws, collectTasks p.provider p.workspace parts = (.error f, provider, ws) ∧
      p.submit parts = { p with provider := provider, workspace := ws, coordinator := .failed f }) ∨
    ∃ sets provider ws watch troubles,
      collectTasks p.provider p.workspace parts = (.ok sets, provider, ws) ∧
      p.submit parts = { p with
        provider := provider
        workspace := ws
        merger := (p.merger.call (.merge sets p.extra)).1
        queue := p.queue.applyAll (p.merger.call (.merge sets p.extra)).2
        watch := watch
        troubles := troubles } := by
  rcases hcollect : collectTasks p.provider p.workspace parts with ⟨f | sets, provider, ws⟩
  · exact Or.inl ⟨f, provider, ws, rfl, by rw [submit, hcollect]⟩
  · obtain ⟨watch, troubles, heq⟩ := submit_of_ok hcollect
    exact Or.inr ⟨sets, provider, ws, watch, troubles, rfl, heq⟩

theorem removeParts_eq (p : Pipeline W) (ids : List PartId) :
    ∃ store w watch troubles, p.removeParts ids = { p with
      parts := ids.foldl (fun m id => m.erase id) p.parts
      provider := p.provider.removeParts ids
      merger := (p.merger.call (.remove ids)).1
      queue := p.queue.applyAll (p.merger.call (.remove ids)).2
      artifacts := store
      workspace := { p.workspace with world := w }
      watch := watch
      troubles := troubles } := by
  let q : Pipeline W := { p with
    parts := ids.foldl (fun m id => m.erase id) p.parts
    provider := p.provider.removeParts ids
    merger := (p.merger.call (.remove ids)).1
    queue := p.queue.applyAll (p.merger.call (.remove ids)).2 }
  obtain ⟨store, w, troubles, hone⟩ := q.forgetHeaders_eq ids .system
  obtain ⟨store', w', troubles', htwo⟩ := (q.forgetHeaders ids .system).forgetHeaders_eq ids .project
  obtain ⟨watch, troubles'', hthree⟩ :=
    ((q.forgetHeaders ids .system).forgetHeaders ids .project).refreshWatch_eq
  refine ⟨store', w', watch, troubles'', ?_⟩
  have hsame : p.removeParts ids =
      ((q.forgetHeaders ids .system).forgetHeaders ids .project).refreshWatch := rfl
  rw [hsame, hthree, htwo, hone]

theorem directs_submit (p : Pipeline W) (parts : List Part) : Directs p (p.submit parts) := by
  rcases p.submit_eq parts with ⟨f, provider, ws, _, heq⟩ | ⟨sets, provider, ws, _, _, _, heq⟩
  · rw [heq]
    exact ⟨Or.inl ⟨rfl, rfl⟩, rfl, rfl, rfl, rfl⟩
  · rw [heq]
    exact ⟨Or.inr ⟨_, rfl, rfl⟩, rfl, rfl, rfl, rfl⟩

theorem directs_resubmit (p : Pipeline W) (ids : List PartId) : Directs p (p.resubmit ids) := by
  rw [resubmit]
  split
  · exact ⟨Or.inl ⟨rfl, rfl⟩, rfl, rfl, rfl, rfl⟩
  · exact directs_submit p _

omit [World W] in
theorem Directs.congr {p p' q : Pipeline W} (h : Directs p' q) (hm : p'.merger = p.merger)
    (hq : p'.queue = p.queue) (hw : p'.workers = p.workers) (hi : p'.inbox = p.inbox)
    (hn : p'.notices = p.notices) (hx : p'.exitWhenIdle = p.exitWhenIdle) : Directs p q := by
  obtain ⟨hmerger, hworkers, hinbox, hnotices, hexits⟩ := h
  rw [hm, hq] at hmerger
  exact ⟨hmerger, hworkers.trans hw, hinbox.trans hi, hnotices.trans hn, hexits.trans hx⟩

/-- Every event but a report is dealt with by instructions to the queue. -/
theorem directs_handle (p : Pipeline W) {event : Event} (h : event.isReport = false) :
    Directs p (p.handle event) := by
  cases event with
  | addParts parts extra => exact (directs_submit _ parts).congr rfl rfl rfl rfl rfl rfl
  | removeParts ids =>
    obtain ⟨_, _, _, _, heq⟩ := p.removeParts_eq ids
    rw [handle, heq]
    exact ⟨Or.inr ⟨_, rfl, rfl⟩, rfl, rfl, rfl, rfl⟩
  | updateUnsaved files => exact (directs_resubmit _ _).congr rfl rfl rfl rfl rfl rfl
  | removeUnsaved paths => exact (directs_resubmit _ _).congr rfl rfl rfl rfl rfl rfl
  | filesChanged paths =>
    rw [handle]
    split
    · exact ⟨Or.inl ⟨rfl, rfl⟩, rfl, rfl, rfl, rfl⟩
    · exact (directs_resubmit _ _).congr rfl rfl rfl rfl rfl rfl
  | taskFinished => cases h
  | shutdown => exact ⟨Or.inl ⟨rfl, rfl⟩, rfl, rfl, rfl, rfl⟩

theorem inbox_handle (p : Pipeline W) (event : Event) : (p.handle event).inbox = p.inbox := by
  cases hreport : event.isReport with
  | false => exact (directs_handle p hreport).inbox
  | true =>
    cases event with
    | taskFinished => rfl
    | addParts | removeParts | updateUnsaved | removeUnsaved | filesChanged | shutdown =>
      cases hreport

end Pipeline
end PrecompiledHeaders
