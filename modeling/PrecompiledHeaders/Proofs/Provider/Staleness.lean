import PrecompiledHeaders.Proofs.Provider.Calls
/-! What was collected once lasts. As long as the files that a part reads keep their time stamps, the
part gets the dependency that it got first, with the same numbers for its files, whatever else the
provider is called for in between; and it is scanned once when one of them has another time stamp. -/
namespace PrecompiledHeaders

/-! ### Records read back -/

theorem Record.internIncludes_of_named {t : FileTable} {es : List IncludeEntry}
    {is : List ScannedInclude} (h : List.Forall₂ (IncludeEntry.Named t) es is) :
    internIncludes t is = (es, t) := by
  induction h with
  | nil => rfl
  | cons he _ ih =>
    rw [internIncludes, FileTable.intern_of_path? he.path]
    dsimp only
    rw [ih]
    exact Prod.ext (congrArg (· :: _) (IncludeEntry.mk.injEq .. ▸ ⟨rfl, he.role, he.order⟩)) rfl

theorem Record.internStatuses_of_named {t : FileTable} {ss : List FileStatus}
    {rs : List RecordedStatus} (h : List.Forall₂ (FileStatus.Named t) ss rs) :
    internStatuses t rs = (ss, t) := by
  induction h with
  | nil => rfl
  | cons hs _ ih =>
    rw [internStatuses, FileTable.intern_of_path? hs.path]
    dsimp only
    rw [ih]
    exact Prod.ext (congrArg (· :: _) (FileStatus.mk.injEq .. ▸ ⟨rfl, hs.modified⟩)) rfl

theorem FileTable.Resolves.internAll {t : FileTable} {ids : List FileId} {ps : List String}
    (h : t.Resolves ids ps) : t.internAll ps = (ids, t) := by
  induction h with
  | nil => rfl
  | cons hp _ ih =>
    rw [FileTable.internAll, FileTable.intern_of_path? hp]
    dsimp only
    rw [ih]

/-- Files that have their numbers are named in one way only. -/
theorem Dependency.Named.includes_eq {t : FileTable} {part part' : PartId} {d e : Dependency}
    {r r' : Record} (h : d.Named t part r) (k : e.Named t part' r') (he : r'.includes = r.includes) :
    e.includes = d.includes := by
  have hd := Record.internIncludes_of_named h.includes
  have hk := Record.internIncludes_of_named k.includes
  rw [he] at hk
  exact (Prod.mk.inj (hk.symm.trans hd)).1

/-- What is read back from the record of a dependency whose files have their numbers is that
dependency. -/
theorem Dependency.Named.toDependency {t : FileTable} {part : PartId} {d : Dependency} {r : Record}
    (h : d.Named t part r) : r.toDependency t = (d, t) := by
  rw [Record.toDependency, Record.internIncludes_of_named h.includes]
  dsimp only
  rw [h.sources.internAll]
  dsimp only
  rw [Record.internStatuses_of_named h.statuses, h.usedMacros]

/-! ### Time stamps -/

section

variable {W : Type} [World W]

/-- The files have the time stamps that the dependency gives them. -/
def Dependency.Unchanged (d : Dependency) (ws : Workspace W) : Prop :=
  ∀ s ∈ d.statuses, Freshness.modified? ws s.file = s.modified

theorem Dependency.Unchanged.isUpToDate {d : Dependency} {ws : Workspace W} (h : d.Unchanged ws)
    (hne : d.statuses ≠ []) : Freshness.isUpToDate ws d.statuses = true := by
  have hall : d.statuses.all (Freshness.holds ws) = true :=
    List.all_eq_true.mpr fun s hs => decide_eq_true (h s hs)
  rw [Freshness.isUpToDate, hall, Bool.and_true, Bool.not_eq_true', List.isEmpty_eq_false_iff]
  exact hne

theorem Dependency.unchanged_of_isUpToDate {d : Dependency} {ws : Workspace W}
    (h : Freshness.isUpToDate ws d.statuses = true) : d.Unchanged ws := by
  rw [Freshness.isUpToDate, Bool.and_eq_true] at h
  exact fun s hs => of_decide_eq_true (List.all_eq_true.mp h.2 s hs)

theorem Dependency.Named.unchanged_iff {d : Dependency} {ws : Workspace W} {part : PartId}
    {r : Record} (h : d.Named ws.files part r) : d.Unchanged ws ↔ r.Current ws.world := by
  have hstatuses := h.statuses
  rw [Dependency.Unchanged, Record.Current]
  generalize d.statuses = ss at hstatuses
  generalize r.statuses = rs at hstatuses
  induction hstatuses with
  | nil => simp
  | cons hs _ ih =>
    rw [List.forall_mem_cons, List.forall_mem_cons, Freshness.modified?, hs.path, hs.modified]
    exact and_congr Iff.rfl ih

variable {d : Dependency} {files : FileTable} {part : PartId} {r : Record}

theorem Dependency.Named.exists_status (h : d.Named files part r) {s : RecordedStatus}
    (hs : s ∈ r.statuses) : ∃ t ∈ d.statuses, FileStatus.Named files t s := by
  obtain ⟨t, ht, hnamed, _⟩ :=
    List.forall₂_same.mp (forall₂_meet h.statuses h.statuses) s hs
  exact ⟨t, ht, hnamed⟩

theorem Dependency.Named.exists_recorded (h : d.Named files part r) {t : FileStatus}
    (ht : t ∈ d.statuses) : ∃ s ∈ r.statuses, FileStatus.Named files t s := by
  obtain ⟨s, hs, hnamed, _⟩ :=
    List.forall₂_same.mp (forall₂_meet h.statuses.flip h.statuses.flip) t ht
  exact ⟨s, hs, hnamed⟩

/-- A file that is read has a status, with the time stamp that it had when the part was scanned. -/
theorem Dependency.Named.status_of_referenced {part : Part} {known : FileTable} {report : ScanReport}
    {w : W} (h : d.Named files part.id (part.recordOf known report w)) {f : FileId}
    (hf : f ∈ d.referencedFiles) :
    ∃ s ∈ d.statuses, s.file = f ∧ s.modified = Freshness.modified? ⟨w, files⟩ f := by
  obtain ⟨p, hp, hpath, _⟩ :=
    List.forall₂_same.mp (forall₂_meet h.resolves.flip h.resolves.flip) f hf
  have hrecorded : (⟨⟨p⟩, World.modified? w ⟨p⟩⟩ : RecordedStatus) ∈
      (part.recordOf known report w).statuses := Record.mem_statuses_ofReport.mpr ⟨hp, rfl⟩
  obtain ⟨s, hs, hnamed⟩ := h.exists_status hrecorded
  refine ⟨s, hs, FileTable.path?_inj hnamed.path hpath, ?_⟩
  rw [← hnamed.modified, Freshness.modified?, show files.path? f = some p from hpath]
  rfl

/-- Only files that are read have a status. -/
theorem Dependency.Named.referenced_of_status {part : Part} {known : FileTable} {report : ScanReport}
    {w : W} (h : d.Named files part.id (part.recordOf known report w)) {s : FileStatus}
    (hs : s ∈ d.statuses) : s.file ∈ d.referencedFiles := by
  obtain ⟨t, ht, hnamed⟩ := h.exists_recorded hs
  obtain ⟨f, hf, hpath, _⟩ := List.forall₂_same.mp (forall₂_meet h.resolves h.resolves) _
    (Record.mem_statuses_ofReport.mp ht).1
  rwa [FileTable.path?_inj hnamed.path hpath]

end

/-! ### What lasts -/

namespace Provider

variable {W : Type} [Workshop W] {p p' : Provider} {ws ws' : Workspace W} {part q : Part}
  {d : Dependency} {r : Record}

/-- The provider can come back to `d`: it remembers it, or remembers another configuration of the
part, or nothing of the part, and has its record. -/
structure Lasting (p : Provider) (ws : Workspace W) (part : Part) (r : Record) (d : Dependency) :
    Prop where
  unforced : part.id ∉ p.forced
  known : ∀ k, p.known[part.id]? = some k → k.key = part.keyIn ws.files → k.dependency = d
  stored : p.store.load ws.world (part.keyIn ws.files) = .ok (some r)
  named : d.Named ws.files part.id r

theorem Lasting.retrieve (h : p.Lasting ws part r d) : p.retrieve ws part = (some d, ws.files) := by
  have hload : p.loadStored ws part.id (part.keyIn ws.files) = (some d, p, ws) := by
    rw [loadStored, h.stored]
    dsimp only
    rw [h.named.toDependency]
  rw [Provider.retrieve, cached]
  cases hk : p.known[part.id]? with
  | none => rw [hload]
  | some k =>
    dsimp only
    split
    · rename_i hkey
      rw [h.known k hk hkey]
    · rw [hload]

variable [LawfulWorkshop W]

/-- As long as the files have their time stamps, nobody is asked. -/
theorem create_kept (hk : part.Known ws.files) (hs : p.Sane ws.files)
    (hretrieve : p.retrieve ws part = (some d, ws.files)) (hunforced : part.id ∉ p.forced)
    (hu : d.Unchanged ws) (hne : d.statuses ≠ []) :
    ∃ p', p.create ws part = (.ok d, p', ws) ∧ p'.store = p.store ∧ Settled p ws part d p' ws := by
  obtain ⟨d', p', ws', hcreate, hforward, hsettled, horigin⟩ := create_cases hk hs
  rcases horigin.due_cases with ⟨hdue, _⟩ | ⟨_, hd, hsame, hstore⟩
  · exact absurd hdue (not_due_of_kept hretrieve hunforced (hu.isUpToDate hne) rfl)
  · rw [hretrieve] at hd hsame
    obtain rfl := Option.some.inj hd
    obtain rfl : ws' = ws := hsame
    exact ⟨p', hcreate, hstore, hsettled⟩

omit [LawfulWorkshop W] in
theorem retrieve_known (h : p.known[part.id]? = some ⟨part.keyIn ws.files, d⟩) :
    p.retrieve ws part = (some d, ws.files) := by
  simp only [Provider.retrieve, cached, h, if_true]

/-- A file with another time stamp has the part scanned once, and then not until the next change. -/
theorem create_stale (hk : part.Known ws.files) (hs : p.Sane ws.files)
    (hretrieve : p.retrieve ws part = (some d, ws.files)) (hu : ¬ d.Unchanged ws) :
    ∃ e p' ws', p.create ws part = (.ok e, p', ws') ∧
      Workshop.requests ws'.world = Workshop.requests ws.world ++ [part.asked ws.files p.overlay] ∧
      ∀ report, Workshop.answer ws.world (part.asked ws.files p.overlay) = .ok report →
        e.referencedFiles ≠ [] → e.Unchanged ws' →
        ∃ p'', p'.create ws' part = (.ok e, p'', ws') := by
  obtain ⟨e, p', ws', hcreate, hforward, hsettled, horigin⟩ := create_cases hk hs
  refine ⟨e, p', ws', hcreate, ?_⟩
  cases horigin with
  | kept retrieve unforced fresh world =>
    rw [hretrieve] at retrieve
    obtain ⟨hd, hfiles⟩ := Prod.mk.inj retrieve
    obtain rfl := Option.some.inj hd
    obtain ⟨w, files⟩ := ws'
    obtain rfl : files = ws.files := hfiles.symm
    obtain rfl : w = ws.world := world
    exact absurd (Dependency.unchanged_of_isUpToDate fresh) hu
  | scanned report due answer named stored requests =>
    refine ⟨requests, fun _ _ hne hu' => ?_⟩
    obtain ⟨f, hf⟩ := List.exists_mem_of_ne_nil _ hne
    obtain ⟨s, hmem, _⟩ := named.status_of_referenced hf
    have hknown : p'.known[part.id]? = some ⟨part.keyIn ws'.files, e⟩ := by
      rw [hsettled.known, Std.TreeMap.getElem?_insert_self, Part.keyIn_extends hk hforward.files]
    have hunforced : part.id ∉ p'.forced := by
      rw [hsettled.forced]
      simp
    obtain ⟨p'', hagain, _⟩ := create_kept (hk.extends hforward.files) (hforward.sane hs)
      (retrieve_known hknown) hunforced hu' (List.ne_nil_of_mem hmem)
    exact ⟨p'', hagain⟩
  | failed fault due answer old files stored requests =>
    exact ⟨requests, fun report hok => by rw [answer] at hok; cases hok⟩

omit [LawfulWorkshop W] in
theorem Lasting.extends {files : FileTable} {w : W} (h : p.Lasting ws part r d)
    (hk : part.Known ws.files) (hext : files.Extends ws.files)
    (hlook : ∀ x ∈ p.store.documents (part.keyIn ws.files), look w x = look ws.world x) :
    p.Lasting ⟨w, files⟩ part r d := by
  have hkey := Part.keyIn_extends hk hext
  refine ⟨h.unforced, fun k hknown hk => h.known k hknown (hk.trans hkey), ?_, h.named.extends hext⟩
  rw [show (⟨w, files⟩ : Workspace W).files = files from rfl, hkey]
  exact (RecordStore.load_congr hlook).trans h.stored

/-- Creating the part keeps what is known of it. -/
theorem Lasting.create_again (h : p.Lasting ws part r d) (hq : q.Known ws.files)
    (hs : p.Sane ws.files) (hkey : q.keyIn ws.files = part.keyIn ws.files) (hid : q.id = part.id)
    (hu : d.Unchanged ws) (hne : d.statuses ≠ []) :
    ∃ p', p.create ws q = (.ok d, p', ws) ∧ p'.Lasting ws part r d := by
  have hlasting : p.Lasting ws q r d :=
    ⟨hid ▸ h.unforced, fun k hk hkk => h.known k (hid ▸ hk) (hkk.trans hkey), hkey ▸ h.stored,
      hid ▸ h.named⟩
  obtain ⟨p', hcreate, hstore, hsettled⟩ := create_kept hq hs hlasting.retrieve hlasting.unforced hu hne
  refine ⟨p', hcreate, fun hmem => ?_, fun k hk _ => ?_, hstore ▸ h.stored, h.named⟩
  · rw [hsettled.forced] at hmem
    exact h.unforced (List.mem_filter.mp hmem).1
  · rw [hsettled.known, hid, Std.TreeMap.getElem?_insert_self] at hk
    rw [← Option.some.inj hk]

/-- Creating another part, or another configuration of this one, takes nothing away for good. -/
theorem Lasting.create_other (h : p.Lasting ws part r d) (hk : part.Known ws.files)
    (hq : q.Known ws.files) (hs : p.Sane ws.files) (hne : q.keyIn ws.files ≠ part.keyIn ws.files) :
    ∃ e p' ws', p.create ws q = (.ok e, p', ws') ∧ ws'.files.Extends ws.files ∧
      p'.Lasting ws' part r d := by
  obtain ⟨e, p', ws', hcreate, hforward, hsettled, _⟩ := create_cases hq hs
  have hkey := Part.keyIn_extends hk hforward.files
  refine ⟨e, p', ws', hcreate, hforward.files, ?_, fun k hknown hk => ?_, ?_,
    h.named.extends hforward.files⟩
  · rw [hsettled.forced]
    exact fun hmem => h.unforced (List.mem_filter.mp hmem).1
  · rw [hsettled.known, Std.TreeMap.getElem?_insert] at hknown
    rw [hkey] at hk
    split at hknown
    · obtain rfl := Option.some.inj hknown
      exact absurd hk hne
    · exact h.known k hknown hk
  · rw [hkey, hsettled.others _ (part.slash_not_mem_keyIn _) hne.symm]
    exact h.stored

end Provider

namespace Desk

variable {W : Type} [Workshop W] {s : Desk W} {part : Part} {r : Record} {d : Dependency} {c : Call W}

/-- The call does not mark the part, and nobody writes to its record. The part itself is created only
while its files have the time stamps that `d` gives them; no other part has its key. -/
def Leaves (part : Part) (d : Dependency) (s : Desk W) : Call W → Prop
  | .create q => q.keyIn s.workspace.files = part.keyIn s.workspace.files →
      q.keyText s.workspace.files = part.keyText s.workspace.files ∧ d.Unchanged s.workspace
  | .meanwhile w files => files.Extends s.workspace.files ∧
      ∀ x ∈ s.provider.store.documents (part.keyIn s.workspace.files),
        look w x = look s.workspace.world x
  | .restart _ => False
  | c => part.id ∉ (s.perform c).1

structure Lasts (part : Part) (r : Record) (d : Dependency) (s : Desk W) : Prop where
  known : part.Known s.workspace.files
  sane : s.provider.Sane s.workspace.files
  lasting : s.provider.Lasting s.workspace part r d

variable [LawfulWorkshop W]

theorem Lasts.perform (h : s.Lasts part r d) (hne : d.statuses ≠ []) (hc : s.Leaves part d c) :
    (s.perform c).2.Lasts part r d := by
  obtain ⟨hk, hs, hl⟩ := h
  have hmark : ∀ (ids : List FileId) (files : FileTable) (overlay : Overlay),
      files.Extends s.workspace.files →
      part.id ∉ (Provider.invalidate { s.provider with overlay := overlay } ids).1 →
      Lasts part r d ⟨(Provider.invalidate { s.provider with overlay := overlay } ids).2,
        { s.workspace with files := files }⟩ := by
    intro ids files overlay hext hhit
    have hl' := hl.extends hk hext (w := s.workspace.world) fun _ _ => rfl
    exact ⟨hk.extends hext, hs.extends hext, ⟨fun hmem =>
      (Provider.mem_forced_invalidate.mp hmem).elim hl.unforced hhit, hl'.known, hl'.stored, hl'.named⟩⟩
  cases c with
  | create q =>
    by_cases hq : q.Known s.workspace.files
    · by_cases hkey : q.keyIn s.workspace.files = part.keyIn s.workspace.files
      · obtain ⟨htext, hu⟩ := hc hkey
        obtain ⟨p', hcreate, hlasting⟩ := hl.create_again hq hs hkey (Part.id_eq_of_keyText htext) hu hne
        have hsane := sane_perform (c := .create q) hs trivial
        simp only [Desk.perform, hcreate] at hsane ⊢
        exact ⟨hk, hsane, hlasting⟩
      · obtain ⟨_, _, _, hcreate, hext, hlasting⟩ := hl.create_other hk hq hs hkey
        have hsane := sane_perform (c := .create q) hs trivial
        simp only [Desk.perform, hcreate] at hsane ⊢
        exact ⟨hk.extends hext, hsane, hlasting⟩
    · obtain ⟨_, hcreate⟩ := Provider.create_unknown (p := s.provider) hq
      simp only [Desk.perform, hcreate]
      exact ⟨hk, hs, hl⟩
  | invalidate ids => exact hmark ids s.workspace.files s.provider.overlay (FileTable.Extends.refl _) hc
  | updateUnsaved fs => exact hmark _ _ _ (s.workspace.files.internAll_extends _) hc
  | removeUnsaved paths => exact hmark _ _ _ (s.workspace.files.internAll_extends _) hc
  | removeParts ids =>
    refine ⟨hk, fun id k hid => hs id k (Provider.known_removeParts hid).2, ⟨fun hmem =>
      hl.unforced (List.mem_filter.mp hmem).1, fun k hid => hl.known k (Provider.known_removeParts hid).2,
      hl.stored, hl.named⟩⟩
  | meanwhile w files => exact ⟨hk.extends hc.1, hs.extends hc.1, hl.extends hk hc.1 hc.2⟩
  | restart files => exact absurd hc id

theorem Lasts.after (h : s.Lasts part r d) (hne : d.statuses ≠ []) {calls : List (Call W)}
    (hc : s.Along (Leaves part d) calls) : (s.after calls).Lasts part r d :=
  along_induction (I := Lasts part r d) (fun _ _ hs hc => hs.perform hne hc) h hc

end Desk

section

variable {W : Type} [Workshop W] [LawfulWorkshop W] {store : RecordStore} {ws ws' : Workspace W}
  {p p' : Provider} {part : Part} {report : ScanReport} {d : Dependency} {s' : Desk W}

omit [LawfulWorkshop W] in
/-- What was collected, and could be recorded, lasts. -/
theorem Provider.Gathered.lasts (h : Gathered p ws part report d p' ws') (hs : p.Sane ws.files)
    (hfits : (part.recordOf ws.files report ws.world).Fits) :
    Desk.Lasts part (part.recordOf ws.files report ws.world) d ⟨p', ws'⟩ := by
  have hkey := Part.keyIn_extends h.known h.forward.files
  refine ⟨h.known.extends h.forward.files, h.forward.sane hs, fun hmem => ?_,
    fun k hknown _ => ?_, ?_, h.named⟩
  · rw [h.settled.forced] at hmem
    simp at hmem
  · rw [h.settled.known, Std.TreeMap.getElem?_insert_self] at hknown
    rw [← Option.some.inj hknown]
  · rw [hkey]
    exact h.stored hfits

/-- The staleness round trip. In any state that a provider gets into, a part is collected from what
its scan says, and its record can be kept. Whatever is called then without marking the part: as long
as each file that it reads has the time stamp that it was collected with, the part gets the same
dependency once more, and nobody is asked; if one of the files has another time stamp, the part is
scanned, exactly once if the scan succeeds and nothing changes any more. -/
theorem staleness_round_trip (before : List (Call W))
    (hbefore : (Desk.mk (.start store) ws).Along Desk.Orderly before) :
    let s := (Desk.mk (Provider.start store) ws).after before
    Workshop.answer s.workspace.world (part.asked s.workspace.files s.provider.overlay) = .ok report →
    (part.recordOf s.workspace.files report s.workspace.world).Fits →
    s.provider.create s.workspace part = (.ok d, s'.provider, s'.workspace) →
    Workshop.requests s'.workspace.world = Workshop.requests s.workspace.world ++
      [part.asked s.workspace.files s.provider.overlay] →
    d.referencedFiles ≠ [] →
    (∀ f ∈ d.referencedFiles, ∃ st ∈ d.statuses, st.file = f ∧
      st.modified = Freshness.modified? ⟨s.workspace.world, s'.workspace.files⟩ f) ∧
    ∀ calls, s'.Along (Desk.Leaves part d) calls →
      let t := s'.after calls
      (d.Unchanged t.workspace →
        ∃ p, t.provider.create t.workspace part = (.ok d, p, t.workspace)) ∧
      (¬ d.Unchanged t.workspace →
        ∃ e p ws', t.provider.create t.workspace part = (.ok e, p, ws') ∧
          Workshop.requests ws'.world = Workshop.requests t.workspace.world ++
            [part.asked t.workspace.files t.provider.overlay] ∧
          ∀ report', Workshop.answer t.workspace.world
              (part.asked t.workspace.files t.provider.overlay) = .ok report' →
            e.referencedFiles ≠ [] → e.Unchanged ws' →
            ∃ p', p.create ws' part = (.ok e, p', ws')) := by
  intro s hanswer hfits hcreate hrequests hreferenced
  have hs : s.provider.Sane s.workspace.files :=
    Desk.sane_after (s := ⟨.start store, ws⟩) (Provider.sane_start store ws.files) hbefore
  have hgathered := Provider.gathered hs hanswer hcreate hrequests
  have hnamed := hgathered.named
  obtain ⟨f, hf⟩ := List.exists_mem_of_ne_nil _ hreferenced
  obtain ⟨st, hmem, _⟩ := hnamed.status_of_referenced hf
  have hne := List.ne_nil_of_mem hmem
  have hlasts := hgathered.lasts hs hfits
  refine ⟨fun f hf => hnamed.status_of_referenced hf, fun calls hcalls => ?_⟩
  obtain ⟨hk', hs', hlasting⟩ := hlasts.after hne hcalls
  refine ⟨fun hu => ?_, fun hu => Provider.create_stale hk' hs' hlasting.retrieve hu⟩
  obtain ⟨p, hagain, _⟩ := Provider.create_kept hk' hs' hlasting.retrieve hlasting.unforced hu hne
  exact ⟨p, hagain⟩

end

/-- A part with one source file, on a bench without files. -/
def lonePart : Part := ⟨"a", .default, [], [⟨0⟩]⟩

def loneSpace : Workspace WritingBench := ⟨⟨Bench.empty, rfl⟩, ⟨["/a.cpp"], by decide⟩⟩

/-- The part is removed, and has its dependency again from the record. -/
theorem staleness_round_trip_removed : ∃ d p ws,
    (Provider.start (.memory {})).create loneSpace lonePart = (.ok d, p, ws) ∧
    d.referencedFiles ≠ [] ∧
    ∃ p', ((Desk.mk p ws).after [.removeParts ["a"]]).provider.create ws lonePart =
      (.ok d, p', ws) := by
  have hk : lonePart.Known loneSpace.files :=
    ⟨fun _ hf => absurd hf List.not_mem_nil, fun f hf => ⟨"/a.cpp", by
      rw [List.mem_singleton.mp hf]
      rfl⟩⟩
  have hanswer : Workshop.answer loneSpace.world
      (lonePart.asked loneSpace.files (Provider.start (.memory {})).overlay) = .ok default := rfl
  have hfits : (lonePart.recordOf loneSpace.files default loneSpace.world).Fits := by
    refine ⟨?_, ?_, fun s hs t ht => ?_⟩
    · decide +kernel
    · decide +kernel
    · rw [(Record.mem_statuses_ofReport.mp hs).2] at ht
      cases ht
  obtain ⟨d, p, ws, hcreate, hgathered⟩ :=
    Provider.gather hk (Provider.sane_start (.memory {}) _) rfl hanswer
  have hsources : d.sources ≠ [] := fun hnil => by
    have hresolves := hgathered.named.sources
    rw [hnil] at hresolves
    cases hresolves
  have hreferenced : d.referencedFiles ≠ [] := fun hnil =>
    hsources (List.append_eq_nil_iff.mp hnil).2
  obtain ⟨_, hlater⟩ := @staleness_round_trip _ _ _ (.memory {}) loneSpace lonePart default d ⟨p, ws⟩
    [] trivial hanswer hfits hcreate hgathered.requests hreferenced
  have hunchanged : d.Unchanged ws := hgathered.named.unchanged_iff.mpr fun s hs => by
    rw [(Record.mem_statuses_ofReport.mp hs).2]
    exact hgathered.forward.spares.modified? fun _ hx => absurd hx List.not_mem_nil
  obtain ⟨p', hagain⟩ := (hlater [.removeParts ["a"]] ⟨List.not_mem_nil, trivial⟩).1 hunchanged
  exact ⟨d, p, ws, hcreate, hreferenced, p', hagain⟩

end PrecompiledHeaders
