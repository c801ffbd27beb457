import PrecompiledHeaders.Proofs.Pipeline.Coherence
import PrecompiledHeaders.Proofs.Provider.Tracking
/-! Where parts are filed. Every part on record is a member of the tasks that come from its last
dependency, with the extra arguments that were in force when it was handed in last. -/
namespace PrecompiledHeaders

variable {W : Type} [World W]

/-! ### What is remembered -/

namespace Provider

theorem cached_known (p : Provider) (ws : Workspace W) (id : PartId) (key : String) :
    (p.cached ws id key).2.1.known = p.known := by
  have hload : (p.loadStored ws id key).2.1.known = p.known := by
    rw [loadStored]
    split <;> rfl
  rw [cached]
  split
  · split
    · rfl
    · exact hload
  · exact hload

theorem saveRecord_known (p : Provider) (ws : Workspace W) (id : PartId) (key : String)
    (d : Dependency) : (p.saveRecord ws id key d).1.known = p.known := by
  rw [saveRecord]
  split
  · rfl
  · split <;> rfl

theorem recollect_known (p : Provider) (ws : Workspace W) (part : Part) (key : String)
    (old : Option Dependency) : (p.recollect ws part key old).2.1.known =
      p.known.insert part.id ⟨key, (p.recollect ws part key old).1⟩ := by
  rw [recollect]
  split
  · dsimp only [remember]
    rw [saveRecord_known]
  · rfl

/-- The dependency that is created is remembered. -/
theorem create_known {p p' : Provider} {ws ws' : Workspace W} {part : Part} {d : Dependency}
    (h : p.create ws part = (.ok d, p', ws')) : ∃ key, p'.known = p.known.insert part.id ⟨key, d⟩ := by
  rw [create] at h
  split at h
  · cases h
  · rename_i key _
    have hcached := cached_known { p with forced := p.forced.filter (· ≠ part.id) } ws part.id key
    dsimp only at h
    generalize Provider.cached { p with forced := p.forced.filter (· ≠ part.id) } ws part.id key =
      out at h hcached
    obtain ⟨o, p₁, ws₁⟩ := out
    have hsame : p₁.known = p.known := hcached
    have hagain : ∀ (q : Provider) (old : Option Dependency), q.known = p₁.known →
        (.ok (q.recollect ws₁ part key old).1, (q.recollect ws₁ part key old).2) =
          ((.ok d, p', ws') : Except Fault Dependency × Provider × Workspace W) →
        p'.known = p.known.insert part.id ⟨key, d⟩ := by
      intro q old hq he
      have hknown := recollect_known q ws₁ part key old
      simp only [Except.ok.injEq, Prod.ext_iff] at he
      rwa [he.1, he.2.1, hq, hsame] at hknown
    refine ⟨key, ?_⟩
    cases o with
    | none => exact hagain p₁ none rfl h
    | some d₀ =>
      dsimp only at h
      split at h
      · exact hagain p₁ (some d₀) rfl h
      · split at h
        · simp only [Prod.mk.injEq, Except.ok.injEq] at h
          obtain ⟨rfl, rfl, _⟩ := h
          dsimp only [remember]
          rw [hsame]
        · exact hagain { p₁ with
            lookups := p₁.lookups + Freshness.lookups ws₁ d₀.statuses } (some d₀) rfl h

end Provider

namespace Pipeline

/-- Each part comes to the tasks of a dependency, which is remembered. -/
theorem collectTasks_known {p p' : Provider} {ws ws' : Workspace W} {parts : List Part}
    {sets : List TaskSet} (h : collectTasks p ws parts = (.ok sets, p', ws')) :
    ∃ ks : List (Part × KnownDependency), ks.map (·.1) = parts ∧
      sets = ks.map (fun e => e.1.tasks e.2.dependency) ∧
      p'.known = ks.foldl (fun m e => m.insert e.1.id e.2) p.known := by
  induction parts generalizing p ws sets with
  | nil =>
    simp only [collectTasks, Prod.mk.injEq, Except.ok.injEq] at h
    obtain ⟨rfl, rfl, _⟩ := h
    exact ⟨[], rfl, rfl, rfl⟩
  | cons part parts ih =>
    rw [collectTasks] at h
    split at h
    · cases h
    · rename_i d p₁ ws₁ hcreate
      split at h
      · cases h
      · rename_i more p₂ ws₂ hcollect
        simp only [Prod.mk.injEq, Except.ok.injEq] at h
        obtain ⟨rfl, rfl, rfl⟩ := h
        obtain ⟨key, hknown⟩ := Provider.create_known hcreate
        obtain ⟨ks, hparts, hsets, hrest⟩ := ih hcollect
        refine ⟨(part, ⟨key, d⟩) :: ks, by rw [List.map_cons, hparts], by rw [List.map_cons, hsets],
          ?_⟩
        rw [List.foldl_cons, hrest, hknown]

end Pipeline

/-! ### Files -/

section

variable {m : TextMap Part} {known : TextMap KnownDependency} {extras : PartId → List String}
  {s : Scope} {ts : List Task}

/-- What is said of a part: the task of its last dependency, with these extra arguments. -/
def filed (parts : TextMap Part) (known : TextMap KnownDependency) (extras : PartId → List String)
    (s : Scope) (id : PartId) : Option Task :=
  parts[id]?.bind fun part => known[id]?.map fun k =>
    Merger.withExtra (extras id) ((part.tasks k.dependency).get s)

/-- Those that were handed in now have the arguments that are in force now. -/
def handed (extras : PartId → List String) (ids : List PartId) (extra : List String) (id : PartId) :
    List String :=
  if id ∈ ids then extra else extras id

theorem filed_congr {m' : TextMap Part} (h : ∀ id : PartId, m'[id]? = m[id]?) :
    filed m' known extras s = filed m known extras s := by
  funext id
  rw [filed, filed, h]

theorem filed_insert (m : TextMap Part) (known : TextMap KnownDependency)
    (extras : PartId → List String) (s : Scope) (part : Part) (k : KnownDependency)
    (extra : List String) : filed (m.insert part.id part) (known.insert part.id k)
      (handed extras [part.id] extra) s = fun id =>
        if id ∈ [part.id] then some (Merger.withExtra extra ((part.tasks k.dependency).get s))
        else filed m known extras s id := by
  funext id
  rw [filed, Std.TreeMap.getElem?_insert, Std.TreeMap.getElem?_insert, handed]
  by_cases hid : part.id = id
  · subst hid
    simp
  · have hne : compare part.id id ≠ .eq := fun he => hid (Std.LawfulEqCmp.eq_of_compare he)
    have hmem : id ∉ [part.id] := fun h => hid (List.mem_singleton.mp h).symm
    rw [if_neg hne, if_neg hne, if_neg hmem, if_neg hmem, filed]

theorem handed_handed (extras : PartId → List String) (i : PartId) (ids : List PartId)
    (extra : List String) : handed (handed extras [i] extra) ids extra = handed extras (i :: ids) extra := by
  funext id
  simp only [handed, List.mem_cons, List.not_mem_nil, or_false]
  by_cases hid : id ∈ ids <;> simp [hid]

theorem handed_nil (extras : PartId → List String) (extra : List String) :
    handed extras [] extra = extras := funext fun _ => if_neg List.not_mem_nil

/-- One part after the other is filed under what it comes with. -/
theorem Merger.Reflects.mergeAll_filed (h : Reflects ts (filed m known extras s))
    (ks : List (Part × KnownDependency)) (extra : List String) (c : Changes) :
    Reflects (Merger.mergeAll s extra (ks.map fun e => e.1.tasks e.2.dependency) ts c).1
      (filed (ks.foldl (fun m e => m.insert e.1.id e.1) m)
        (ks.foldl (fun m e => m.insert e.1.id e.2) known)
        (handed extras (ks.map (·.1.id)) extra) s) := by
  induction ks generalizing m known extras ts c with
  | nil =>
    rw [List.map_nil, List.map_nil, handed_nil]
    exact h
  | cons e ks ih =>
    have hmembers : (withExtra extra ((e.1.tasks e.2.dependency).get s)).members = [e.1.id] :=
      (Part.tasks_within e.1 e.2.dependency s).1
    have hstep := h.mergeTask s c (hmembers ▸ List.cons_ne_nil _ _)
      (hmembers ▸ List.nodup_singleton _)
    simp only [hmembers] at hstep
    rw [← filed_insert] at hstep
    have hrest := ih hstep (Merger.mergeTask s (withExtra extra ((e.1.tasks e.2.dependency).get s))
      ts c).2
    rw [handed_handed] at hrest
    exact hrest

theorem TextMap.getElem?_foldl_insert_self {f : α → String} {m : TextMap α} {as : List α}
    (h : ∀ a ∈ as, m[f a]? = some a) (id : String) :
    (as.foldl (fun m a => m.insert (f a) a) m)[id]? = m[id]? := by
  induction as generalizing m with
  | nil => rfl
  | cons a as ih =>
    rw [List.forall_mem_cons] at h
    have hsame : ∀ id : String, (m.insert (f a) a)[id]? = m[id]? := by
      intro id
      rw [Std.TreeMap.getElem?_insert]
      split
      · rename_i he
        rw [← Std.LawfulEqCmp.eq_of_compare he, h.1]
      · rfl
    rw [List.foldl_cons, ih fun b hb => (hsame _).trans (h.2 b hb), hsame]

end

namespace Pipeline

variable {p p' : Pipeline W} {extras : PartId → List String}

/-- The merger holds what is said of the parts on record. -/
def Filed (p : Pipeline W) (extras : PartId → List String) : Prop :=
  ∀ s, Merger.Reflects (p.merger.get s) (filed p.parts p.provider.known extras s)

omit [World W] in
theorem Filed.congr (h : p.Filed extras) (hparts : p'.parts = p.parts)
    (hknown : p'.provider.known = p.provider.known) (hmerger : p'.merger = p.merger) :
    p'.Filed extras := by
  intro s
  rw [hparts, hknown, hmerger]
  exact h s

/-- Parts that are handed in are filed under what they come with now. -/
theorem submit_filed {m : TextMap Part} {parts : List Part}
    (h : ∀ s, Merger.Reflects (p.merger.get s) (filed m p.provider.known extras s))
    (hk : ∀ part ∈ parts, part.Known p.workspace.files)
    (hparts : ∀ id : PartId,
      p.parts[id]? = (parts.foldl (fun m part => m.insert part.id part) m)[id]?) :
    (p.submit parts).Filed (handed extras (parts.map (·.id)) p.extra) := by
  obtain ⟨_, _, _, hcollect, _⟩ := collectTasks_joins (p := p.provider) hk
  obtain ⟨_, _, hq⟩ := submit_of_ok hcollect
  obtain ⟨ks, rfl, rfl, hknown⟩ := collectTasks_known hcollect
  intro s
  rw [hq]
  dsimp only
  rw [Merger.call_get, hknown, filed_congr hparts, List.foldl_map, List.map_map]
  exact (h s).mergeAll_filed ks p.extra .none

theorem Filed.resubmit (h : p.Filed extras) (hc : Coherent p) (ids : List PartId) :
    (p.resubmit ids).Filed
      (handed extras ((ids.filterMap (p.parts[·]?)).map (·.id)) p.extra) := by
  rw [Pipeline.resubmit]
  split
  · rename_i hnone
    rw [hnone, List.map_nil, handed_nil]
    exact h
  · exact submit_filed h (fun part hpart => (hc.registered_handed hpart).2) fun id =>
      (TextMap.getElem?_foldl_insert_self
        (fun part hpart => (hc.registered_handed hpart).1) id).symm

end Pipeline

/-! ### Events -/

/-- Events after which parts are handed in again. -/
def Event.Rechecks : Event → Prop
  | .updateUnsaved _ | .removeUnsaved _ | .filesChanged _ => True
  | .addParts _ _ | .removeParts _ | .taskFinished _ _ | .shutdown => False

namespace Pipeline

variable {p p' : Pipeline W} {extras : PartId → List String}

/-- The parts that are known to read one of the files that the event names. -/
def hits (p : Pipeline W) : Event → List PartId
  | .updateUnsaved fs =>
    p.provider.affected (p.workspace.files.internAll (fs.map (·.path.text))).1
  | .removeUnsaved paths =>
    p.provider.affected (p.workspace.files.internAll (paths.map (·.text))).1
  | .filesChanged paths => p.hitBy paths
  | .addParts _ _ | .removeParts _ | .taskFinished _ _ | .shutdown => []

/-- Before parts are handed in again, they are marked, and files may get numbers. -/
theorem handle_rechecks (p : Pipeline W) {event : Event} (h : event.Rechecks) :
    ∃ provider files, provider.known = p.provider.known ∧ files.Extends p.workspace.files ∧
      p.handle event = Pipeline.resubmit { p with
        provider := provider
        workspace := { p.workspace with files := files } } (p.hits event) := by
  cases event with
  | updateUnsaved fs =>
    exact ⟨(p.provider.updateUnsaved p.workspace.files fs).2.1,
      (p.provider.updateUnsaved p.workspace.files fs).2.2, rfl,
      p.workspace.files.internAll_extends _, rfl⟩
  | removeUnsaved paths =>
    exact ⟨(p.provider.removeUnsaved p.workspace.files paths).2.1,
      (p.provider.removeUnsaved p.workspace.files paths).2.2, rfl,
      p.workspace.files.internAll_extends _, rfl⟩
  | filesChanged paths =>
    exact ⟨(p.mark (p.hitBy paths)).provider, p.workspace.files, rfl, FileTable.Extends.refl _,
      p.handle_filesChanged paths⟩
  | addParts | removeParts | taskFinished | shutdown => cases h

theorem filed_removeParts {m : TextMap Part} {known : TextMap KnownDependency} (ids : List PartId)
    (s : Scope) : filed (ids.foldl (fun m id => m.erase id) m)
      (ids.foldl (fun m id => m.erase id) known) extras s =
        fun id => if id ∈ ids then none else filed m known extras s id := by
  funext id
  rw [filed, TextMap.getElem?_foldl_erase, TextMap.getElem?_foldl_erase]
  by_cases hid : id ∈ ids
  · simp [hid]
  · simp [hid, filed]

theorem Filed.addParts (h : p.Filed extras) {parts : List Part}
    (hk : ∀ part ∈ parts, part.Known p.workspace.files) (extra : List String) :
    (p.handle (.addParts parts extra)).Filed (handed extras (parts.map (·.id)) extra) :=
  submit_filed (p := { p with
    parts := parts.foldl (fun m (part : Part) => m.insert part.id part) p.parts
    extra := extra }) h hk fun _ => rfl

theorem Filed.handle (h : p.Filed extras) (hc : Coherent p) {event : Event}
    (hk : event.Known p.workspace.files) : ∃ extras', (p.handle event).Filed extras' := by
  have hagain : event.Rechecks → ∃ extras', (p.handle event).Filed extras' := by
    intro hrechecks
    obtain ⟨provider, files, hknown, hfiles, heq⟩ := p.handle_rechecks hrechecks
    rw [heq]
    have hmarked : Filed { p with
        provider := provider
        workspace := { p.workspace with files := files } } extras := h.congr rfl hknown rfl
    exact ⟨_, hmarked.resubmit (hc.congr rfl hknown rfl hfiles) _⟩
  cases event with
  | addParts parts extra => exact ⟨_, h.addParts hk extra⟩
  | removeParts ids =>
    obtain ⟨_, _, _, _, heq⟩ := p.removeParts_eq ids
    refine ⟨extras, fun s => ?_⟩
    rw [Pipeline.handle, heq]
    dsimp only [Provider.removeParts]
    rw [Merger.call_get, filed_removeParts]
    simp only [Merger.callScope, Merger.detach_fst]
    exact (h s).remove ids
  | updateUnsaved | removeUnsaved | filesChanged => exact hagain trivial
  | taskFinished | shutdown => exact ⟨extras, h⟩

/-! ### Runs -/

/-- Along every run parts are on file. -/
theorem Filed.occur (h : p.Filed extras) (ho : Orderly p) {o : Occurrence W} :
    ∃ extras', (p.occur o).Filed extras' := by
  cases o with
  | step s =>
    cases s with
    | coordinate =>
      rw [Pipeline.occur]
      by_cases hturn : p.coordinator = .running ∧ p.inbox ≠ []
      · obtain ⟨event, q, hhandled⟩ := exists_handled hturn
        obtain ⟨_, rest, hin, hq⟩ := id hhandled
        have hbefore : Coherent { p with inbox := rest } :=
          ho.coherent.congr rfl rfl rfl (FileTable.Extends.refl _)
        have hwaits : event ∈ p.inbox := hin ▸ List.mem_cons_self
        obtain ⟨extras', hfiled⟩ := Filed.handle (p := { p with inbox := rest }) h hbefore
          (ho.waiting event hwaits)
        rw [← hq] at hfiled
        rcases hhandled.step with ⟨heq, _⟩ | ⟨heq, _⟩ | ⟨heq, _⟩ <;> rw [heq] <;>
          exact ⟨extras', hfiled⟩
      · rw [step_coordinate_of_not hturn]
        exact ⟨extras, h⟩
    | work i waits permitted =>
      rw [Pipeline.occur, step]
      cases hw : p.work i waits permitted with
      | none => exact ⟨extras, h⟩
      | some q =>
        obtain ⟨hparts, hprovider, hmerger, _⟩ := (works_of_work hw).keeps
        exact ⟨extras, h.congr hparts (congrArg Provider.known hprovider) hmerger⟩
  | send event =>
    rw [Pipeline.occur]
    by_cases hlive : p.coordinator = .running
    · rw [send_of_running hlive]
      exact ⟨extras, h⟩
    · rw [send_of_not_running hlive]
      exact ⟨extras, h⟩
  | change | number | close => exact ⟨extras, h⟩

omit [World W] in
theorem filed_start (workspace : Workspace W) (pchDir : FilePath) (records : RecordStore)
    (artifacts : ArtifactStore) (workers : List Scope) (exitWhenIdle watches : Bool) :
    (start workspace pchDir records artifacts workers exitWhenIdle watches).Filed fun _ => [] := by
  intro s
  have hnone : filed {} {} (fun _ => []) s = fun _ => none := rfl
  have hempty : Merger.empty.get s = [] := by cases s <;> rfl
  show Merger.Reflects (Merger.empty.get s) (filed {} {} _ s)
  rw [hnone, hempty]
  exact Merger.reflects_empty

/-- After any run the accounts agree, and every part is filed under what it came with last. -/
theorem filed_during {workspace : Workspace W} {pchDir : FilePath} {records : RecordStore}
    {artifacts : ArtifactStore} {workers : List Scope} {exitWhenIdle watches : Bool}
    {os : List (Occurrence W)} (h : Throughout Supplies
      (start workspace pchDir records artifacts workers exitWhenIdle watches) os) :
    Orderly ((start workspace pchDir records artifacts workers exitWhenIdle watches).during os) ∧
    ∃ extras, ((start workspace pchDir records artifacts workers exitWhenIdle watches).during
      os).Filed extras :=
  during_induction (motive := fun p => Orderly p ∧ ∃ extras, p.Filed extras)
    (fun _ _ hq hs => ⟨hq.1.occur hs, hq.2.elim fun _ hfiled => hfiled.occur hq.1⟩)
    ⟨orderly_start _ _ _ _ _ _ _, _, filed_start _ _ _ _ _ _ _⟩ h

end Pipeline
end PrecompiledHeaders
