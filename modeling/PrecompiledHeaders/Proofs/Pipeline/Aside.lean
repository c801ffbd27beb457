import PrecompiledHeaders.Proofs.Pipeline.Filing
import PrecompiledHeaders.Proofs.Pipeline.Rounds
import PrecompiledHeaders.Proofs.Provider.Calls
/-! What everybody but the workers does to the artifacts. The coordinator only ever takes the headers of
removed parts away, the artifacts stay, and no compiler runs. -/
namespace PrecompiledHeaders

/-- The parts that an event removes. -/
def Event.removed : Event → List PartId
  | .removeParts ids => ids
  | _ => []

namespace Pipeline

variable {W : Type} [Workshop W] {p q r : Pipeline W} {gone gone' : List PartId}

/-- From `p` to `q` no worker did anything, and the parts in `gone` may have lost their headers. -/
structure Aside (p q : Pipeline W) (gone : List PartId) : Prop where
  workers : q.workers = p.workers
  dir : q.pchDir = p.pchDir
  sane : p.provider.Sane p.workspace.files → q.provider.Sane q.workspace.files
  shows : ∀ h, p.artifacts.Shows p.workspace.world h →
    Workshop.jobs q.workspace.world = Workshop.jobs p.workspace.world ∧
    ∃ h', q.artifacts.Shows q.workspace.world h' ∧ h'.artifact = h.artifact ∧
      ∀ x s, x ∉ gone → h'.header x s = h.header x s

theorem Aside.trans (h : Aside p q gone) (k : Aside q r gone') : Aside p r (gone ++ gone') := by
  refine ⟨k.workers.trans h.workers, k.dir.trans h.dir, fun hs => k.sane (h.sane hs),
    fun hs hshows => ?_⟩
  obtain ⟨hlog₁, h₁, hshows₁, hart₁, hhead₁⟩ := h.shows hs hshows
  obtain ⟨hlog₂, h₂, hshows₂, hart₂, hhead₂⟩ := k.shows h₁ hshows₁
  refine ⟨hlog₂.trans hlog₁, h₂, hshows₂, hart₂.trans hart₁, fun x s hx => ?_⟩
  rw [List.mem_append, not_or] at hx
  exact (hhead₂ x s hx.2).trans (hhead₁ x s hx.1)

theorem Aside.mono (h : Aside p q gone) (hs : gone ⊆ gone') : Aside p q gone' := by
  refine ⟨h.workers, h.dir, h.sane, fun hold hshows => ?_⟩
  obtain ⟨hlog, hnew, hshows', hart, hhead⟩ := h.shows hold hshows
  exact ⟨hlog, hnew, hshows', hart, fun x s hx => hhead x s fun hmem => hx (hs hmem)⟩

/-- Neither the store nor the world is touched. -/
theorem aside_of_eq (hw : q.workers = p.workers) (hd : q.pchDir = p.pchDir)
    (hs : p.provider.Sane p.workspace.files → q.provider.Sane q.workspace.files)
    (hworld : q.workspace.world = p.workspace.world) (ha : q.artifacts = p.artifacts) :
    Aside p q [] :=
  ⟨hw, hd, hs, fun h hshows => ⟨by rw [hworld], h, by rw [hworld, ha]; exact hshows, rfl,
    fun _ _ _ => rfl⟩⟩

variable [LawfulWorkshop W]

/-- Handing in parts writes records, which are kept in other places than the store. -/
theorem aside_submit (hs : p.provider.Sane p.workspace.files) {parts : List Part}
    (hk : ∀ part ∈ parts, part.Known p.workspace.files) : Aside p (p.submit parts) [] := by
  obtain ⟨sets, provider, ws, hcollect, _, hforward⟩ := collectTasks_spec hk hs
  obtain ⟨watch, troubles, hq⟩ := submit_of_ok hcollect
  rw [hq]
  refine ⟨rfl, rfl, fun _ => hforward.sane hs, fun h hshows => ⟨hforward.jobs, h, ?_, rfl,
    fun _ _ _ => rfl⟩⟩
  exact hshows.spared hforward.spares (Provider.records_beside hk _)

theorem Coherent.aside_resubmit (hc : Coherent p) (hs : p.provider.Sane p.workspace.files)
    (ids : List PartId) : Aside p (p.resubmit ids) [] := by
  have hknown : ∀ part ∈ ids.filterMap (p.parts[·]?), part.Known p.workspace.files :=
    fun part hpart => (hc.registered_handed hpart).2
  rw [Pipeline.resubmit]
  cases hparts : ids.filterMap (p.parts[·]?) with
  | nil => exact aside_of_eq rfl rfl id rfl rfl
  | cons part parts =>
    rw [hparts] at hknown
    exact aside_submit hs hknown

theorem aside_forgetHeaders (p : Pipeline W) (ids : List PartId) (scope : Scope) :
    Aside p (p.forgetHeaders ids scope) ids := by
  have hput : ∀ h, p.artifacts.Shows p.workspace.world h → p.artifacts.Put p.workspace.world
      (p.artifacts.deleteHeader p.workspace.world ids scope) (h.assign ids scope none) :=
    fun h hs => hs.deleteHeader ids scope
  rw [forgetHeaders]
  generalize p.artifacts.deleteHeader p.workspace.world ids scope = out at hput ⊢
  obtain ⟨result, store, w⟩ := out
  have hshows : ∀ h, p.artifacts.Shows p.workspace.world h →
      Workshop.jobs w = Workshop.jobs p.workspace.world ∧ ∃ h', store.Shows w h' ∧
      h'.artifact = h.artifact ∧ ∀ x s, x ∉ ids → h'.header x s = h.header x s := by
    intro h hs
    obtain ⟨_, _, hnow, _, hquiet⟩ := hput h hs
    exact ⟨hquiet.2, _, hnow, rfl,
      fun x s hx => Holdings.header_assign_of_not _ (fun hmem => absurd hmem hx) _⟩
  cases result with
  | ok => exact ⟨rfl, rfl, id, hshows⟩
  | error f => exact ⟨rfl, rfl, id, hshows⟩

theorem aside_removeParts (p : Pipeline W) (ids : List PartId) : Aside p (p.removeParts ids) ids := by
  let q : Pipeline W := { p with
    parts := ids.foldl (fun m id => m.erase id) p.parts
    provider := p.provider.removeParts ids
    merger := (p.merger.call (.remove ids)).1
    queue := p.queue.applyAll (p.merger.call (.remove ids)).2 }
  have hbefore : Aside p q [] := aside_of_eq rfl rfl
    (fun hs id k hk => hs id k (Provider.known_removeParts hk).2) rfl rfl
  have hboth := (aside_forgetHeaders q ids .system).trans
    (aside_forgetHeaders (q.forgetHeaders ids .system) ids .project)
  obtain ⟨watch, troubles, hwatch⟩ :=
    ((q.forgetHeaders ids .system).forgetHeaders ids .project).refreshWatch_eq
  have hsame : p.removeParts ids =
      ((q.forgetHeaders ids .system).forgetHeaders ids .project).refreshWatch := rfl
  have hlast : Aside ((q.forgetHeaders ids .system).forgetHeaders ids .project)
      (p.removeParts ids) [] := by
    rw [hsame, hwatch]
    exact aside_of_eq rfl rfl id rfl rfl
  exact ((hbefore.trans hboth).trans hlast).mono (by simp)

theorem Coherent.aside_handle (hc : Coherent p) (hs : p.provider.Sane p.workspace.files)
    {event : Event} (hk : event.Known p.workspace.files) :
    Aside p (p.handle event) event.removed := by
  have hagain : ∀ event : Event, event.Rechecks → Aside p (p.handle event) [] := by
    intro event hevent
    obtain ⟨provider, files, hknown, hfiles, heq⟩ := p.handle_rechecks hevent
    rw [heq]
    have hsane : provider.Sane files := fun id k hid => by
      rw [hknown] at hid
      exact (hs id k hid).extends hfiles
    let q : Pipeline W := { p with
      provider := provider, workspace := { p.workspace with files := files } }
    have hq : Coherent q := hc.congr rfl hknown rfl hfiles
    have hfirst : Aside p q [] := aside_of_eq rfl rfl (fun _ => hsane) rfl rfl
    exact hfirst.trans (hq.aside_resubmit hsane _)
  cases event with
  | addParts parts extra =>
    let q : Pipeline W := { p with
      parts := parts.foldl (fun m (part : Part) => m.insert part.id part) p.parts
      extra := extra }
    have hfirst : Aside p q [] := aside_of_eq rfl rfl id rfl rfl
    exact hfirst.trans (aside_submit (p := q) hs hk)
  | removeParts ids => exact aside_removeParts p ids
  | updateUnsaved | removeUnsaved | filesChanged => exact hagain _ trivial
  | taskFinished | shutdown => exact aside_of_eq rfl rfl id rfl rfl

/-- The parts that lose their headers when the coordinator takes its next event. -/
def losing (p : Pipeline W) : Occurrence W → List PartId
  | .step .coordinate =>
    match p.coordinator, p.inbox with
    | .running, event :: _ => event.removed
    | _, _ => []
  | _ => []

/-- Events come from outside, parts with numbered files among them, and nobody else writes to the
store or to the log of the compiler. -/
def Tended (p : Pipeline W) : Occurrence W → Prop
  | .send event => event.Known p.workspace.files ∧ event.isReport = false
  | .change w => Workshop.jobs w = Workshop.jobs p.workspace.world ∧
      ∀ d ∈ p.artifacts.documents, look w d = look p.workspace.world d
  | _ => True

omit [LawfulWorkshop W] in
theorem Tended.supplies {o : Occurrence W} (h : Tended p o) : Supplies p o := by
  cases o with
  | send event => exact h.1
  | step | change | number | close => trivial

omit [LawfulWorkshop W] in
theorem tended_steps (p : Pipeline W) (steps : List Step) :
    Throughout Tended p (steps.map .step) := by
  induction steps generalizing p with
  | nil => trivial
  | cons step steps ih => exact ⟨trivial, ih _⟩

theorem Orderly.aside_coordinate (h : Orderly p) (hs : p.provider.Sane p.workspace.files) :
    Aside p (p.step .coordinate) (p.losing (.step .coordinate)) := by
  by_cases hturn : p.coordinator = .running ∧ p.inbox ≠ []
  · obtain ⟨event, q, hhandled⟩ := exists_handled hturn
    obtain ⟨hlive, rest, hin, hq⟩ := id hhandled
    have hlosing : p.losing (.step .coordinate) = event.removed := by
      rw [losing, hlive, hin]
    let p₀ : Pipeline W := { p with inbox := rest }
    have hc : Coherent p₀ := h.coherent.congr rfl rfl rfl (FileTable.Extends.refl _)
    have hfirst : Aside p p₀ [] := aside_of_eq rfl rfl id rfl rfl
    have hhandle : Aside p q event.removed := hq ▸ hfirst.trans
      (hc.aside_handle (p := p₀) hs (h.waiting event (hin ▸ List.mem_cons_self)))
    rw [hlosing]
    rcases hhandled.step with ⟨heq, _⟩ | ⟨heq, _⟩ | ⟨heq, _⟩ <;> rw [heq]
    · exact hhandle
    · have hleave : Aside q q.leave [] := aside_of_eq rfl rfl id rfl rfl
      exact (hhandle.trans hleave).mono (by simp)
    · have hfailed : Aside q { q with inbox := [] } [] := aside_of_eq rfl rfl id rfl rfl
      exact (hhandle.trans hfailed).mono (by simp)
  · rw [step_coordinate_of_not hturn]
    exact (aside_of_eq rfl rfl id rfl rfl).mono (List.nil_subset _)

/-- What happens without a worker. -/
theorem Orderly.aside_occur (h : Orderly p) (hs : p.provider.Sane p.workspace.files)
    {o : Occurrence W} (ht : Tended p o) (ho : ∀ i waits permitted, o ≠ .step (.work i waits permitted)) :
    Aside p (p.occur o) (p.losing o) := by
  cases o with
  | step s =>
    cases s with
    | coordinate => exact h.aside_coordinate hs
    | work i waits permitted => exact absurd rfl (ho i waits permitted)
  | send event =>
    rw [Pipeline.occur, send]
    split <;> exact aside_of_eq rfl rfl id rfl rfl
  | change w =>
    exact ⟨rfl, rfl, id, fun h hshows => ⟨ht.1, h, hshows.of_look ht.2, rfl, fun _ _ _ => rfl⟩⟩
  | number paths =>
    exact aside_of_eq rfl rfl (fun hs => hs.extends (p.workspace.files.internAll_extends paths))
      rfl rfl
  | close => exact aside_of_eq rfl rfl id rfl rfl

/-- Whatever happens, what is remembered names files with numbers. -/
theorem Orderly.sane_occur (h : Orderly p) (hs : p.provider.Sane p.workspace.files)
    {o : Occurrence W} (ht : Tended p o) :
    (p.occur o).provider.Sane (p.occur o).workspace.files := by
  by_cases ho : ∃ i waits permitted, o = .step (.work i waits permitted)
  · obtain ⟨i, waits, permitted, rfl⟩ := ho
    rw [Pipeline.occur, step]
    cases hw : p.work i waits permitted with
    | none => exact hs
    | some q =>
      obtain ⟨_, hprovider, _, hfiles, _⟩ := (works_of_work hw).keeps
      rw [Option.getD_some, hprovider, hfiles]
      exact hs
  · exact (h.aside_occur hs ht fun i waits permitted he => ho ⟨i, waits, permitted, he⟩).sane hs

end Pipeline
end PrecompiledHeaders
