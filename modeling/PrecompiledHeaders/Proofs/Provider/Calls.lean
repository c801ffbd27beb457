import PrecompiledHeaders.Proofs.Remembering
/-! Calls of the provider. What creating a dependency can do is said once: it finds what it has, it
scans, or a scan fails; and it leaves what it knows of other parts, and the records under other keys,
as they are. -/
namespace PrecompiledHeaders
namespace Provider

variable {W : Type} [Workshop W] {p p' : Provider} {ws ws' : Workspace W} {part : Part}
  {d : Dependency} {r : Record}

/-- What the provider has of a part: from its memory if that is of the same configuration, or from
the record, whose files may get their numbers only now. -/
def retrieve (p : Provider) (ws : Workspace W) (part : Part) : Option Dependency × FileTable :=
  ((p.cached ws part.id (part.keyIn ws.files)).1, (p.cached ws part.id (part.keyIn ws.files)).2.2.files)

theorem cached_eq (p : Provider) (ws : Workspace W) (part : Part) : ∃ troubles,
    p.cached ws part.id (part.keyIn ws.files) = ((p.retrieve ws part).1,
      { p with troubles := troubles }, { ws with files := (p.retrieve ws part).2 }) := by
  rw [retrieve]
  generalize part.keyIn ws.files = key
  have hload : ∃ troubles, p.loadStored ws part.id key = ((p.loadStored ws part.id key).1,
      { p with troubles := troubles },
      { ws with files := (p.loadStored ws part.id key).2.2.files }) := by
    rw [loadStored]
    split <;> exact ⟨_, rfl⟩
  rw [cached]
  split
  · split
    · exact ⟨p.troubles, rfl⟩
    · exact hload
  · exact hload

theorem retrieve_forced (p : Provider) (ws : Workspace W) (part : Part) (forced : List PartId) :
    { p with forced := forced }.retrieve ws part = p.retrieve ws part := by
  simp only [retrieve, cached, loadStored]
  cases p.known[part.id]? with
  | none => cases p.store.load ws.world (part.keyIn ws.files) with
    | error => rfl
    | ok o => cases o <;> rfl
  | some k =>
    dsimp only
    split
    · rfl
    · cases p.store.load ws.world (part.keyIn ws.files) with
      | error => rfl
      | ok o => cases o <;> rfl

theorem retrieve_extends (p : Provider) (ws : Workspace W) (part : Part) :
    (p.retrieve ws part).2.Extends ws.files := by
  rw [retrieve, cached]
  have hload : (p.loadStored ws part.id (part.keyIn ws.files)).2.2.files.Extends ws.files := by
    obtain ⟨_, _, _, he, hext, _⟩ := loadStored_spec p ws part.id (part.keyIn ws.files)
    rw [he]
    exact hext
  split
  · split
    · exact FileTable.Extends.refl _
    · exact hload
  · exact hload

/-- What is left as it is when the dependency of `part` is created, and that it is remembered. -/
structure Settled (p : Provider) (ws : Workspace W) (part : Part) (d : Dependency) (p' : Provider)
    (ws' : Workspace W) : Prop where
  known : p'.known = p.known.insert part.id ⟨part.keyIn ws.files, d⟩
  forced : p'.forced = p.forced.filter (· ≠ part.id)
  overlay : p'.overlay = p.overlay
  others : ∀ k, '/' ∉ k.toList → k ≠ part.keyIn ws.files →
    p'.store.load ws'.world k = p.store.load ws.world k

/-- Whether a part has to be scanned: there is nothing to go by, it was marked, or a file has another
time stamp. -/
def Due (p : Provider) (ws : Workspace W) (part : Part) : Prop :=
  ∀ d, (p.retrieve ws part).1 = some d → part.id ∈ p.forced ∨
    Freshness.isUpToDate { ws with files := (p.retrieve ws part).2 } d.statuses = false

/-- Where the dependency that is created comes from. -/
inductive Origin (p : Provider) (ws : Workspace W) (part : Part) (d : Dependency) (p' : Provider)
    (ws' : Workspace W) : Prop
  | kept (retrieve : p.retrieve ws part = (some d, ws'.files)) (unforced : part.id ∉ p.forced)
      (fresh : Freshness.isUpToDate ws' d.statuses = true) (world : ws'.world = ws.world)
      (store : p'.store = p.store)
  | scanned (report : ScanReport) (due : p.Due ws part)
      (answer : Workshop.answer ws.world (part.asked ws.files p.overlay) = .ok report)
      (named : d.Named ws'.files part.id (part.recordOf ws.files report ws.world))
      (stored : (part.recordOf ws.files report ws.world).Fits →
        p'.store.load ws'.world (part.keyIn ws.files) =
          .ok (some (part.recordOf ws.files report ws.world)))
      (requests : Workshop.requests ws'.world =
        Workshop.requests ws.world ++ [part.asked ws.files p.overlay])
  | failed (fault : Fault) (due : p.Due ws part)
      (answer : Workshop.answer ws.world (part.asked ws.files p.overlay) = .error fault)
      (old : d = (p.retrieve ws part).1.getD .empty) (files : ws'.files = (p.retrieve ws part).2)
      (stored : p'.store.load ws'.world (part.keyIn ws.files) =
        p.store.load ws.world (part.keyIn ws.files))
      (requests : Workshop.requests ws'.world =
        Workshop.requests ws.world ++ [part.asked ws.files p.overlay])
      (store : p'.store = p.store)
      (world : ws'.world = (World.scan ws.world (part.asked ws.files p.overlay)).2)

/-- What has its time stamps is not due, unless it was marked. -/
theorem not_due_of_kept (hretrieve : p.retrieve ws part = (some d, ws'.files))
    (hunforced : part.id ∉ p.forced) (hfresh : Freshness.isUpToDate ws' d.statuses = true)
    (hworld : ws'.world = ws.world) : ¬ p.Due ws part := by
  intro hdue
  have hstale := (hdue d (congrArg Prod.fst hretrieve)).resolve_left hunforced
  rw [hretrieve, ← hworld] at hstale
  exact Bool.false_ne_true (hstale.symm.trans hfresh)

/-- The scanner is called for a part that is due. Otherwise the part gets what there is of it, and
nothing happens. -/
theorem Origin.due_cases (h : Origin p ws part d p' ws') :
    (p.Due ws part ∧ Workshop.requests ws'.world =
      Workshop.requests ws.world ++ [part.asked ws.files p.overlay]) ∨
    (¬ p.Due ws part ∧ (p.retrieve ws part).1 = some d ∧
      ws' = { ws with files := (p.retrieve ws part).2 } ∧ p'.store = p.store) := by
  cases h with
  | kept retrieve unforced fresh world store =>
    have hsame : ws' = { ws with files := (p.retrieve ws part).2 } := by rw [retrieve, ← world]
    exact Or.inr ⟨not_due_of_kept retrieve unforced fresh world, congrArg Prod.fst retrieve, hsame,
      store⟩
  | scanned report due answer named stored requests => exact Or.inl ⟨due, requests⟩
  | failed fault due answer old files stored requests => exact Or.inl ⟨due, requests⟩

variable [LawfulWorkshop W]

/-- A new collection, successful or not. -/
theorem recollect_cases {q : Provider} (hk : part.Known ws.files) (hdue : p.Due ws part)
    (hq : q.known = p.known ∧ q.overlay = p.overlay ∧ q.store = p.store ∧
      q.forced = p.forced.filter (· ≠ part.id)) :
    ∃ d p' ws', q.recollect { ws with files := (p.retrieve ws part).2 } part (part.keyIn ws.files)
        (p.retrieve ws part).1 = (d, p', ws') ∧
      Settled p ws part d p' ws' ∧ Origin p ws part d p' ws' := by
  obtain ⟨hknown, hoverlay, hstore, hforced⟩ := hq
  have hext := p.retrieve_extends ws part
  have hkey := Part.keyIn_extends hk hext
  have hasked := Part.asked_extends hk hext p.overlay
  cases ha : Workshop.answer ws.world (part.asked ws.files p.overlay) with
  | ok report =>
    obtain ⟨d, p', ws', hrecollect, hs⟩ := @recollect_scanned _ _ _ _ q
      { ws with files := (p.retrieve ws part).2 } (hk.extends hext) report
      (by rw [hoverlay, hasked]; exact ha) (p.retrieve ws part).1
    obtain ⟨hnamed, hadded, hunmarked, hlaid, hstored, hothers, hrequests⟩ := hs
    dsimp only at hnamed hstored hothers hrequests
    rw [Part.recordOf_extends hk hext] at hnamed hstored
    rw [hkey] at hrecollect hadded hstored hothers
    rw [hoverlay, hasked] at hrequests
    rw [hstore] at hothers
    exact ⟨d, p', ws', hrecollect,
      ⟨by rw [hadded, hknown], hunmarked.trans hforced, hlaid.trans hoverlay, hothers⟩,
      .scanned report hdue ha hnamed hstored hrequests⟩
  | error fault =>
    obtain ⟨sources, _, hsources, _, hcollect⟩ := Collection.collect_spec
      { ws with files := (p.retrieve ws part).2 } p.overlay (hk.extends hext)
    have hrequest : Collection.request part sources p.overlay = part.asked ws.files p.overlay := by
      rw [← hasked, Part.asked, hsources.names]
    rw [hrequest, ha] at hcollect
    have hload : ∀ k, p.store.load (World.scan ws.world (part.asked ws.files p.overlay)).2 k =
        p.store.load ws.world k := fun k => RecordStore.load_congr fun x _ =>
      (LawfulWorkshop.scan_spares ws.world _).look x fun _ hp => absurd hp List.not_mem_nil
    rw [recollect, hoverlay, hcollect]
    refine ⟨_, _, _, rfl, ⟨?_, hforced, hoverlay, fun k _ _ => ?_⟩,
      .failed fault hdue ha rfl rfl ?_ (LawfulWorkshop.scan_requests _ _) hstore rfl⟩
    · show q.known.insert _ _ = _
      rw [hknown]
    · show q.store.load _ k = _
      rw [hstore]
      exact hload k
    · show q.store.load _ _ = _
      rw [hstore]
      exact hload _

/-- Everything that creating a dependency can come to, for a part whose files are known. -/
theorem create_cases (hk : part.Known ws.files) (hs : p.Sane ws.files) :
    ∃ d p' ws', p.create ws part = (.ok d, p', ws') ∧
      Forward (p.store.documents (part.keyIn ws.files)) p ws p' ws' ∧
      Settled p ws part d p' ws' ∧ Origin p ws part d p' ws' := by
  obtain ⟨d, p', ws', hcreate, _, hforward⟩ :=
    create_spec p ws hk hs (Part.recordKey_of_known hk)
  refine ⟨d, p', ws', hcreate, hforward, ?_⟩
  rw [Provider.create, Part.recordKey_of_known hk] at hcreate
  dsimp only at hcreate
  obtain ⟨troubles, hcached⟩ :=
    cached_eq { p with forced := p.forced.filter (· ≠ part.id) } ws part
  rw [retrieve_forced] at hcached
  rw [hcached] at hcreate
  have hscan : ∀ lookups, p.Due ws part →
      ∃ d p' ws', Provider.recollect ⟨p.store, p.overlay, p.known, p.forced.filter (· ≠ part.id),
          lookups, troubles⟩ { ws with files := (p.retrieve ws part).2 } part (part.keyIn ws.files)
          (p.retrieve ws part).1 = (d, p', ws') ∧
        Settled p ws part d p' ws' ∧ Origin p ws part d p' ws' := fun lookups hdue =>
    recollect_cases hk hdue ⟨rfl, rfl, rfl, rfl⟩
  cases hretrieve : p.retrieve ws part with
  | mk old files =>
  rw [hretrieve] at hcreate hscan
  cases old with
  | none =>
    obtain ⟨_, _, _, hrecollect, hcases⟩ := hscan p.lookups fun d hd => by
      rw [hretrieve] at hd
      cases hd
    simp only [hrecollect, Prod.mk.injEq, Except.ok.injEq] at hcreate
    obtain ⟨rfl, rfl, rfl⟩ := hcreate
    exact hcases
  | some d₀ =>
    by_cases hforced : part.id ∈ p.forced
    · obtain ⟨_, _, _, hrecollect, hcases⟩ := hscan p.lookups fun _ _ => Or.inl hforced
      simp only [hforced, decide_true, if_true, hrecollect, Prod.mk.injEq, Except.ok.injEq]
        at hcreate
      obtain ⟨rfl, rfl, rfl⟩ := hcreate
      exact hcases
    · cases hfresh : Freshness.isUpToDate { ws with files := files } d₀.statuses with
      | true =>
        simp only [hforced, decide_false, Bool.false_eq_true, if_false, hfresh, if_true,
          Prod.mk.injEq, Except.ok.injEq] at hcreate
        obtain ⟨rfl, rfl, rfl⟩ := hcreate
        exact ⟨⟨rfl, rfl, rfl, fun _ _ _ => rfl⟩, .kept hretrieve hforced hfresh rfl rfl⟩
      | false =>
        obtain ⟨_, _, _, hrecollect, hcases⟩ := hscan
          (p.lookups + Freshness.lookups { ws with files := files } d₀.statuses) fun d hd => by
            rw [hretrieve] at hd ⊢
            obtain rfl := Option.some.inj hd
            exact Or.inr hfresh
        simp only [hforced, decide_false, Bool.false_eq_true, if_false, hfresh, hrecollect,
          Prod.mk.injEq, Except.ok.injEq] at hcreate
        obtain ⟨rfl, rfl, rfl⟩ := hcreate
        exact hcases

omit [LawfulWorkshop W] in
/-- A part with an unknown file is refused, and nothing happens. -/
theorem create_unknown (hk : ¬ part.Known ws.files) : ∃ f, p.create ws part = (.error f, p, ws) := by
  obtain ⟨f, hkey⟩ := Part.recordKey_unknown hk
  exact ⟨f, by rw [Provider.create, hkey]⟩

/-- Who was asked for has known files, and was due. -/
theorem due_of_requests (hs : p.Sane ws.files) (hcreate : p.create ws part = (.ok d, p', ws'))
    (hrequests : Workshop.requests ws'.world =
      Workshop.requests ws.world ++ [part.asked ws.files p.overlay]) :
    part.Known ws.files ∧ p.Due ws part := by
  have hk : part.Known ws.files := by
    by_contra hk
    obtain ⟨f, herror⟩ := create_unknown (p := p) hk
    rw [herror] at hcreate
    cases hcreate
  obtain ⟨d', p₁, ws₁, hcreate', _, _, horigin⟩ := create_cases hk hs
  rw [hcreate'] at hcreate
  obtain ⟨rfl, rfl, rfl⟩ : d' = d ∧ p₁ = p' ∧ ws₁ = ws' := by simpa using hcreate
  rcases horigin.due_cases with ⟨hdue, _⟩ | ⟨_, _, rfl, _⟩
  · exact ⟨hk, hdue⟩
  · exact absurd hrequests.symm (by simp)

/-- The part was scanned, `report` being the answer, and `d` was made of it. -/
structure Gathered (p : Provider) (ws : Workspace W) (part : Part) (report : ScanReport)
    (d : Dependency) (p' : Provider) (ws' : Workspace W) : Prop where
  known : part.Known ws.files
  forward : Forward (p.store.documents (part.keyIn ws.files)) p ws p' ws'
  settled : Settled p ws part d p' ws'
  named : d.Named ws'.files part.id (part.recordOf ws.files report ws.world)
  stored : (part.recordOf ws.files report ws.world).Fits →
    p'.store.load ws'.world (part.keyIn ws.files) =
      .ok (some (part.recordOf ws.files report ws.world))
  requests : Workshop.requests ws'.world =
    Workshop.requests ws.world ++ [part.asked ws.files p.overlay]

/-- A part that is due is scanned, and comes to what the answer says. -/
theorem gather_due (hk : part.Known ws.files) (hs : p.Sane ws.files) (hdue : p.Due ws part)
    {report : ScanReport}
    (hanswer : Workshop.answer ws.world (part.asked ws.files p.overlay) = .ok report) :
    ∃ d p' ws', p.create ws part = (.ok d, p', ws') ∧ Gathered p ws part report d p' ws' := by
  obtain ⟨d, p', ws', hcreate, hforward, hsettled, horigin⟩ := create_cases hk hs
  refine ⟨d, p', ws', hcreate, ?_⟩
  cases horigin with
  | kept retrieve unforced fresh world =>
    exact absurd hdue (not_due_of_kept retrieve unforced fresh world)
  | failed fault due answer =>
    rw [answer] at hanswer
    cases hanswer
  | scanned report' due answer named stored requests =>
    obtain rfl := Except.ok.inj (answer.symm.trans hanswer)
    exact ⟨hk, hforward, hsettled, named, stored, requests⟩

/-- Who was asked, and answered, has scanned. -/
theorem gathered (hs : p.Sane ws.files) {report : ScanReport}
    (hanswer : Workshop.answer ws.world (part.asked ws.files p.overlay) = .ok report)
    (hcreate : p.create ws part = (.ok d, p', ws'))
    (hrequests : Workshop.requests ws'.world =
      Workshop.requests ws.world ++ [part.asked ws.files p.overlay]) :
    Gathered p ws part report d p' ws' := by
  obtain ⟨hk, hdue⟩ := due_of_requests hs hcreate hrequests
  obtain ⟨d', p₁, ws₁, hcreate', hgathered⟩ := gather_due hk hs hdue hanswer
  rw [hcreate'] at hcreate
  obtain ⟨rfl, rfl, rfl⟩ : d' = d ∧ p₁ = p' ∧ ws₁ = ws' := by simpa using hcreate
  exact hgathered

/-- A part that there is nothing of is scanned. -/
theorem gather (hk : part.Known ws.files) (hs : p.Sane ws.files)
    (hnone : (p.retrieve ws part).1 = none) {report : ScanReport}
    (hanswer : Workshop.answer ws.world (part.asked ws.files p.overlay) = .ok report) :
    ∃ d p' ws', p.create ws part = (.ok d, p', ws') ∧ Gathered p ws part report d p' ws' := by
  have hdue : p.Due ws part := fun d hd => by
    rw [hnone] at hd
    cases hd
  exact gather_due hk hs hdue hanswer

omit [Workshop W] [LawfulWorkshop W] in
theorem mem_forced_invalidate {ids : List FileId} {id : PartId} :
    id ∈ (p.invalidate ids).2.forced ↔ id ∈ p.forced ∨ id ∈ (p.invalidate ids).1 :=
  Task.mem_appendNew

omit [Workshop W] [LawfulWorkshop W] in
/-- What is remembered of a part tells whether it reads one of the files. -/
theorem mem_affected {ids : List FileId} {id : PartId} {k : KnownDependency}
    (hk : p.known[id]? = some k) :
    id ∈ p.affected ids ↔ ∃ f ∈ k.dependency.referencedFiles, f ∈ ids := by
  have hmentions : id ∈ p.affected ids ↔ mentions k.dependency ids = true := by
    rw [affected, List.mem_map]
    constructor
    · rintro ⟨⟨id', k'⟩, hmem, rfl⟩
      obtain ⟨hmem, hmentions⟩ := List.mem_filter.mp hmem
      have hknown := Std.TreeMap.mem_toList_iff_getElem?_eq_some.mp hmem
      obtain rfl := Option.some.inj (hk.symm.trans hknown)
      exact hmentions
    · intro hmentions
      have hmem := Std.TreeMap.mem_toList_iff_getElem?_eq_some.mpr hk
      exact ⟨(id, k), List.mem_filter.mpr ⟨hmem, hmentions⟩, rfl⟩
  rw [hmentions, mentions, List.any_eq_true]
  simp only [decide_eq_true_eq]

omit [Workshop W] [LawfulWorkshop W] in
theorem not_mem_affected {ids : List FileId} {id : PartId} (hk : p.known[id]? = none) :
    id ∉ p.affected ids := by
  rw [affected, List.mem_map]
  rintro ⟨⟨id', k⟩, hmem, rfl⟩
  have hknown := Std.TreeMap.mem_toList_iff_getElem?_eq_some.mp (List.mem_filter.mp hmem).1
  rw [hk] at hknown
  cases hknown

omit [Workshop W] [LawfulWorkshop W] in
theorem getElem?_known_removeParts (p : Provider) (ids : List PartId) (id : PartId) :
    (p.removeParts ids).known[id]? = if id ∈ ids then none else p.known[id]? :=
  TextMap.getElem?_foldl_erase ids p.known id

omit [Workshop W] [LawfulWorkshop W] in
theorem known_removeParts {ids : List PartId} {id : PartId} {k : KnownDependency}
    (h : (p.removeParts ids).known[id]? = some k) : id ∉ ids ∧ p.known[id]? = some k := by
  rw [getElem?_known_removeParts] at h
  split at h
  · cases h
  · rename_i hids
    exact ⟨hids, h⟩

end Provider

/-! ### Runs -/

/-- A provider where it works. -/
structure Desk (W : Type) where
  provider : Provider
  workspace : Workspace W

/-- A call of the provider, or what happens between two of them. -/
inductive Call (W : Type) where
  | create (part : Part)
  | invalidate (ids : List FileId)
  | updateUnsaved (files : List UnsavedFile)
  | removeUnsaved (paths : List FilePath)
  | removeParts (ids : List PartId)
  /-- Files change, and others number theirs. -/
  | meanwhile (w : W) (files : FileTable)
  /-- A new provider on the same store. -/
  | restart (files : FileTable)

namespace Desk

variable {W : Type} [World W]

/-- The parts that a call marks, and what else it does. -/
def perform (s : Desk W) : Call W → List PartId × Desk W
  | .create part => let (_, p, ws) := s.provider.create s.workspace part; ([], ⟨p, ws⟩)
  | .invalidate ids => let (hit, p) := s.provider.invalidate ids; (hit, ⟨p, s.workspace⟩)
  | .updateUnsaved fs =>
    let (hit, p, files) := s.provider.updateUnsaved s.workspace.files fs
    (hit, ⟨p, { s.workspace with files := files }⟩)
  | .removeUnsaved paths =>
    let (hit, p, files) := s.provider.removeUnsaved s.workspace.files paths
    (hit, ⟨p, { s.workspace with files := files }⟩)
  | .removeParts ids => ([], ⟨s.provider.removeParts ids, s.workspace⟩)
  | .meanwhile w files => ([], ⟨s.provider, ⟨w, files⟩⟩)
  | .restart files => ([], ⟨.start s.provider.store.reopened, { s.workspace with files := files }⟩)

def after (s : Desk W) (calls : List (Call W)) : Desk W :=
  calls.foldl (fun s c => (s.perform c).2) s

/-- Every call of a run is as it should be. -/
def Along (P : Desk W → Call W → Prop) (s : Desk W) : List (Call W) → Prop
  | [] => True
  | c :: calls => P s c ∧ Along P (s.perform c).2 calls

/-- What every single call keeps, a run keeps. -/
theorem along_induction {P : Desk W → Call W → Prop} {I : Desk W → Prop}
    (hstep : ∀ s c, I s → P s c → I (s.perform c).2) {s : Desk W} {calls : List (Call W)}
    (hI : I s) (hP : s.Along P calls) : I (s.after calls) := by
  induction calls generalizing s with
  | nil => exact hI
  | cons c calls ih => exact ih (hstep s c hI hP.1) hP.2

/-- Files keep their numbers. -/
def Orderly (s : Desk W) : Call W → Prop
  | .meanwhile _ files => files.Extends s.workspace.files
  | _ => True

end Desk

section

variable {W : Type} [Workshop W] [LawfulWorkshop W]

/-- Whatever is remembered names files with numbers. -/
theorem Desk.sane_perform {s : Desk W} {c : Call W} (h : s.provider.Sane s.workspace.files)
    (hc : s.Orderly c) : (s.perform c).2.provider.Sane (s.perform c).2.workspace.files := by
  cases c with
  | create part =>
    by_cases hk : part.Known s.workspace.files
    · obtain ⟨_, _, _, hcreate, hforward, _⟩ := Provider.create_cases hk h
      simp only [perform, hcreate]
      exact hforward.sane h
    · obtain ⟨_, hcreate⟩ := Provider.create_unknown (p := s.provider) hk
      simp only [perform, hcreate]
      exact h
  | invalidate ids => exact h
  | updateUnsaved fs => exact h.extends (s.workspace.files.internAll_extends _)
  | removeUnsaved paths => exact h.extends (s.workspace.files.internAll_extends _)
  | removeParts ids => exact fun id k hk => h id k (Provider.known_removeParts hk).2
  | meanwhile w files => exact h.extends hc
  | restart files => exact Provider.sane_start _ _

theorem Desk.sane_after {s : Desk W} {calls : List (Call W)}
    (h : s.provider.Sane s.workspace.files) (hc : s.Along Orderly calls) :
    (s.after calls).provider.Sane (s.after calls).workspace.files :=
  along_induction (I := fun s : Desk W => s.provider.Sane s.workspace.files)
    (fun _ _ hs hc => sane_perform hs hc) h hc

end

end PrecompiledHeaders
