import PrecompiledHeaders.Proofs.Provider.Tracking
/-! What a failed scan leaves behind. The part keeps what was known of it, and no record and no file is
touched. A part without a record, with a record that names no file, or with a file that has another
time stamp is scanned again; but the failed scan uses up the mark of a part that was marked. -/
namespace PrecompiledHeaders

namespace Provider

variable {W : Type} [Workshop W] {p p' : Provider} {ws ws' : Workspace W} {part : Part} {d : Dependency}
  {fault : Fault}

/-- Why a part is scanned that is not marked: there is nothing to go by, or it does not tell that every
file has the time stamp that it had. -/
def Stale (p : Provider) (ws : Workspace W) (part : Part) : Prop :=
  ∀ d, (p.retrieve ws part).1 = some d →
    Freshness.isUpToDate { ws with files := (p.retrieve ws part).2 } d.statuses = false

theorem due_iff : p.Due ws part ↔ part.id ∈ p.forced ∨ p.Stale ws part := by
  constructor
  · intro hdue
    by_cases hforced : part.id ∈ p.forced
    · exact Or.inl hforced
    · exact Or.inr fun d hd => (hdue d hd).resolve_left hforced
  · rintro (hforced | hstale) d hd
    · exact Or.inl hforced
    · exact Or.inr (hstale d hd)

/-- The part was scanned in vain, and `d` is what there was of it. -/
structure Missed (p : Provider) (ws : Workspace W) (part : Part) (d : Dependency) (p' : Provider)
    (ws' : Workspace W) : Prop where
  known : part.Known ws.files
  due : p.Due ws part
  forward : Forward (p.store.documents (part.keyIn ws.files)) p ws p' ws'
  settled : Settled p ws part d p' ws'
  old : d = (p.retrieve ws part).1.getD .empty
  files : ws'.files = (p.retrieve ws part).2
  store : p'.store = p.store
  look : ∀ q, look ws'.world q = look ws.world q

variable [LawfulWorkshop W]

/-- Who is to be scanned, and cannot be. -/
theorem miss (hk : part.Known ws.files) (hs : p.Sane ws.files) (hdue : p.Due ws part)
    (hanswer : Workshop.answer ws.world (part.asked ws.files p.overlay) = .error fault) :
    ∃ d p' ws', p.create ws part = (.ok d, p', ws') ∧ Missed p ws part d p' ws' ∧
      Workshop.requests ws'.world =
        Workshop.requests ws.world ++ [part.asked ws.files p.overlay] := by
  obtain ⟨d, p', ws', hcreate, hforward, hsettled, horigin⟩ := create_cases hk hs
  refine ⟨d, p', ws', hcreate, ?_⟩
  cases horigin with
  | kept retrieve unforced fresh world =>
    exact absurd hdue (not_due_of_kept retrieve unforced fresh world)
  | scanned report due answer =>
    rw [answer] at hanswer
    cases hanswer
  | failed fault' due answer old files stored requests store world =>
    refine ⟨⟨hk, due, hforward, hsettled, old, files, store, fun q => ?_⟩, requests⟩
    rw [world]
    exact (LawfulWorkshop.scan_spares _ _).look q fun _ hp => absurd hp List.not_mem_nil

/-- Who was asked, and did not answer. -/
theorem missed (hs : p.Sane ws.files)
    (hanswer : Workshop.answer ws.world (part.asked ws.files p.overlay) = .error fault)
    (hcreate : p.create ws part = (.ok d, p', ws'))
    (hrequests : Workshop.requests ws'.world =
      Workshop.requests ws.world ++ [part.asked ws.files p.overlay]) :
    Missed p ws part d p' ws' := by
  obtain ⟨hk, hdue⟩ := due_of_requests hs hcreate hrequests
  obtain ⟨d', p₁, ws₁, hcreate', hmissed, _⟩ := miss hk hs hdue hanswer
  rw [hcreate'] at hcreate
  obtain ⟨rfl, rfl, rfl⟩ : d' = d ∧ p₁ = p' ∧ ws₁ = ws' := by simpa using hcreate
  exact hmissed

omit [LawfulWorkshop W] in
/-- What the part is left with is as stale as what there was. -/
theorem Missed.stale_iff (h : Missed p ws part d p' ws') :
    Freshness.isUpToDate ws' d.statuses = false ↔ p.Stale ws part := by
  have hfresh : ∀ statuses, Freshness.isUpToDate ws' statuses =
      Freshness.isUpToDate { ws with files := (p.retrieve ws part).2 } statuses := by
    intro statuses
    have hmodified : ∀ id, Freshness.modified? ws' id =
        Freshness.modified? { ws with files := (p.retrieve ws part).2 } id := by
      intro id
      have hstamp : ∀ x, World.modified? ws'.world x = World.modified? ws.world x := fun x =>
        congrArg (·.2.2) (h.look x)
      simp only [Freshness.modified?, h.files, hstamp]
    have hholds : Freshness.holds ws' =
        Freshness.holds { ws with files := (p.retrieve ws part).2 } := by
      funext s
      rw [Freshness.holds, Freshness.holds, hmodified]
    rw [Freshness.isUpToDate, Freshness.isUpToDate, hholds]
  rw [hfresh, h.old, Stale]
  cases hold : (p.retrieve ws part).1 with
  | none => simp [Dependency.empty, Freshness.isUpToDate]
  | some d₀ => simp

end Provider

namespace Desk

variable {W : Type} [Workshop W] {s : Desk W} {part : Part} {d : Dependency} {c : Call W}

/-- The call is not for the part, and does not make the provider forget it. Files may change. -/
def Bypasses (part : Part) (s : Desk W) : Call W → Prop
  | .create q => q.id ≠ part.id
  | .removeParts ids => part.id ∉ ids
  | .meanwhile _ files => files.Extends s.workspace.files
  | .restart _ => False
  | _ => True

/-- One of the calls marks the part. -/
def Marks (part : Part) (s : Desk W) : List (Call W) → Prop
  | [] => False
  | c :: calls => part.id ∈ (s.perform c).1 ∨ Marks part (s.perform c).2 calls

/-- The provider remembers this dependency of the part. -/
structure Remembers (part : Part) (d : Dependency) (s : Desk W) : Prop where
  known : part.Known s.workspace.files
  sane : s.provider.Sane s.workspace.files
  held : s.provider.known[part.id]? = some ⟨part.keyIn s.workspace.files, d⟩

variable [LawfulWorkshop W]

/-- What is remembered stays, and only a call that marks the part marks it. -/
theorem Remembers.perform (h : s.Remembers part d) (hc : s.Bypasses part c) :
    (s.perform c).2.Remembers part d ∧
      (part.id ∈ (s.perform c).2.provider.forced ↔
        part.id ∈ s.provider.forced ∨ part.id ∈ (s.perform c).1) := by
  have hkept : ∀ (p : Provider) (ws : Workspace W), ws.files.Extends s.workspace.files →
      p.Sane ws.files → p.known[part.id]? = s.provider.known[part.id]? →
      Remembers part d ⟨p, ws⟩ := by
    intro p ws hext hsane hknown
    refine ⟨h.known.extends hext, hsane, ?_⟩
    rw [Part.keyIn_extends h.known hext]
    exact hknown.trans h.held
  have hmark : ∀ (ids : List FileId) (files : FileTable) (overlay : Overlay),
      files.Extends s.workspace.files →
      Remembers part d ⟨(Provider.invalidate { s.provider with overlay := overlay } ids).2,
        { s.workspace with files := files }⟩ :=
    fun _ _ _ hext => hkept _ _ hext (h.sane.extends hext) rfl
  cases c with
  | create q =>
    by_cases hq : q.Known s.workspace.files
    · obtain ⟨_, _, _, hcreate, hforward, hsettled, _⟩ := Provider.create_cases hq h.sane
      simp only [Desk.perform, hcreate]
      constructor
      · apply hkept _ _ hforward.files (hforward.sane h.sane)
        rw [hsettled.known, Std.TreeMap.getElem?_insert,
          if_neg fun he => hc (Std.LawfulEqCmp.eq_of_compare he)]
      · rw [hsettled.forced]
        simp [Ne.symm hc]
    · obtain ⟨_, hcreate⟩ := Provider.create_unknown (p := s.provider) hq
      simp only [Desk.perform, hcreate]
      exact ⟨h, by simp⟩
  | invalidate ids =>
    exact ⟨hmark ids s.workspace.files s.provider.overlay (FileTable.Extends.refl _),
      Provider.mem_forced_invalidate⟩
  | updateUnsaved fs =>
    exact ⟨hmark _ _ _ (s.workspace.files.internAll_extends _), Provider.mem_forced_invalidate⟩
  | removeUnsaved paths =>
    exact ⟨hmark _ _ _ (s.workspace.files.internAll_extends _), Provider.mem_forced_invalidate⟩
  | removeParts ids =>
    constructor
    · apply hkept _ _ (FileTable.Extends.refl _) (sane_perform (c := .removeParts ids) h.sane trivial)
      exact (s.provider.getElem?_known_removeParts ids part.id).trans (if_neg hc)
    · have hforced : part.id ∈ (s.provider.removeParts ids).forced ↔ part.id ∈ s.provider.forced := by
        rw [Provider.removeParts, List.mem_filter]
        exact and_iff_left (decide_eq_true hc)
      simpa [Desk.perform] using hforced
  | meanwhile w files => exact ⟨hkept _ ⟨w, files⟩ hc (h.sane.extends hc) rfl, by simp [Desk.perform]⟩
  | restart files => exact absurd hc id

/-- So along a run: the part is marked in the end if it was, or if one of the calls marked it. -/
theorem Remembers.after (h : s.Remembers part d) {calls : List (Call W)}
    (hc : s.Along (Bypasses part) calls) :
    (s.after calls).Remembers part d ∧
      (part.id ∈ (s.after calls).provider.forced ↔
        part.id ∈ s.provider.forced ∨ s.Marks part calls) := by
  induction calls generalizing s with
  | nil => exact ⟨h, by simp [Desk.after, Marks]⟩
  | cons c calls ih =>
    obtain ⟨hbypass, hrest⟩ := hc
    obtain ⟨hremembers, hmarked⟩ := h.perform hbypass
    obtain ⟨hlast, hforced⟩ := ih hremembers hrest
    refine ⟨hlast, hforced.trans ?_⟩
    rw [hmarked, Marks, or_assoc]

omit [LawfulWorkshop W] in
theorem Remembers.due_iff (h : s.Remembers part d) :
    s.provider.Due s.workspace part ↔
      part.id ∈ s.provider.forced ∨ Freshness.isUpToDate s.workspace d.statuses = false := by
  have hretrieve := Provider.retrieve_known h.held
  rw [Provider.due_iff, Provider.Stale, hretrieve]
  simp

/-- The next creation scans the part if it is due, and otherwise gives it what is remembered. -/
theorem Remembers.create (h : s.Remembers part d) :
    ∃ e p ws', s.provider.create s.workspace part = (.ok e, p, ws') ∧
      (s.provider.Due s.workspace part → Workshop.requests ws'.world =
        Workshop.requests s.workspace.world ++
          [part.asked s.workspace.files s.provider.overlay]) ∧
      (¬ s.provider.Due s.workspace part → e = d ∧ ws' = s.workspace) := by
  obtain ⟨e, p, ws', hcreate, _, _, horigin⟩ := Provider.create_cases h.known h.sane
  refine ⟨e, p, ws', hcreate, ?_⟩
  rcases horigin.due_cases with ⟨hdue, hrequests⟩ | ⟨hnot, hd, hsame, _⟩
  · exact ⟨fun _ => hrequests, fun hnot => absurd hdue hnot⟩
  · rw [Provider.retrieve_known h.held] at hd hsame
    exact ⟨fun hdue => absurd hdue hnot, fun _ => ⟨(Option.some.inj hd).symm, hsame⟩⟩

end Desk

section

variable {W : Type} [Workshop W] [LawfulWorkshop W] {store : RecordStore} {ws : Workspace W}
  {part : Part} {fault : Fault} {d : Dependency} {s' : Desk W}

/-- What a failed scan comes to. In any state that a provider gets into, a part is scanned because it
was marked or because it is stale, and the scan fails. The call gives what there was of the part, or
the empty dependency, and nothing is written; what it leaves is stale if the part was, but not marked.
Whatever is called afterwards for other parts: the next creation of the part scans it again if the part
was marked since then, or what is remembered of it is stale by then, and otherwise gives it the same
dependency without asking anybody. So a mark does not outlast a failed scan, and staleness does. -/
theorem failed_collection (before : List (Call W))
    (hbefore : (Desk.mk (.start store) ws).Along Desk.Orderly before) :
    let s := (Desk.mk (Provider.start store) ws).after before
    Workshop.answer s.workspace.world (part.asked s.workspace.files s.provider.overlay) =
      .error fault →
    s.provider.create s.workspace part = (.ok d, s'.provider, s'.workspace) →
    Workshop.requests s'.workspace.world = Workshop.requests s.workspace.world ++
      [part.asked s.workspace.files s.provider.overlay] →
    (part.id ∈ s.provider.forced ∨ s.provider.Stale s.workspace part) ∧
    d = (s.provider.retrieve s.workspace part).1.getD .empty ∧
    s'.provider.store = s.provider.store ∧
    (∀ x, look s'.workspace.world x = look s.workspace.world x) ∧
    (Freshness.isUpToDate s'.workspace d.statuses = false ↔
      s.provider.Stale s.workspace part) ∧
    part.id ∉ s'.provider.forced ∧
    ∀ calls, s'.Along (Desk.Bypasses part) calls →
      let t := s'.after calls
      ∃ e p ws', t.provider.create t.workspace part = (.ok e, p, ws') ∧
        (s'.Marks part calls ∨ Freshness.isUpToDate t.workspace d.statuses = false →
          Workshop.requests ws'.world = Workshop.requests t.workspace.world ++
            [part.asked t.workspace.files t.provider.overlay]) ∧
        (¬ s'.Marks part calls → Freshness.isUpToDate t.workspace d.statuses = true →
          e = d ∧ ws' = t.workspace) := by
  intro s hanswer hcreate hrequests
  have hs : s.provider.Sane s.workspace.files :=
    Desk.sane_after (s := ⟨.start store, ws⟩) (Provider.sane_start store ws.files) hbefore
  have hmissed := Provider.missed hs hanswer hcreate hrequests
  have hunforced : part.id ∉ s'.provider.forced := by
    rw [hmissed.settled.forced]
    simp
  have hremembers : s'.Remembers part d := by
    refine ⟨hmissed.known.extends hmissed.forward.files, hmissed.forward.sane hs, ?_⟩
    rw [hmissed.settled.known, Std.TreeMap.getElem?_insert_self,
      Part.keyIn_extends hmissed.known hmissed.forward.files]
  refine ⟨Provider.due_iff.mp hmissed.due, hmissed.old, hmissed.store, hmissed.look,
    hmissed.stale_iff, hunforced, fun calls hcalls => ?_⟩
  obtain ⟨hlast, hforced⟩ := hremembers.after hcalls
  obtain ⟨e, p, ws', hagain, hscanned, hkept⟩ := hlast.create
  rw [hlast.due_iff, hforced, or_iff_right hunforced] at hscanned hkept
  exact ⟨e, p, ws', hagain, hscanned, fun hunmarked hfresh => hkept (by simp [hunmarked, hfresh])⟩

end

/-- A bench that cannot scan the part. -/
def refusing : WritingBench := ⟨Bench.empty.failScans "a", rfl⟩

/-- The part is created, its source file is being edited, and a scan fails: the part was marked, and is
not scanned any more. -/
theorem failed_collection_marked :
    let s := (Desk.mk (Provider.start (.memory {})) headerSpace).after
      [.create headerPart, .updateUnsaved [⟨⟨"/a.cpp"⟩, ""⟩]]
    let ws : Workspace WritingBench := ⟨refusing, s.workspace.files⟩
    "a" ∈ s.provider.forced ∧
    ∃ d p ws', s.provider.create ws headerPart = (.ok d, p, ws') ∧
      Workshop.requests ws'.world =
        Workshop.requests ws.world ++ [headerPart.asked ws.files s.provider.overlay] ∧
      ∃ p', p.create ws' headerPart = (.ok d, p', ws') := by
  intro s ws
  have hanswer : Workshop.answer headerSpace.world
      (headerPart.asked headerSpace.files (Provider.start (.memory {})).overlay) =
        .ok headerReport := rfl
  obtain ⟨d₀, p₀, ws₀, hfirst, hgathered⟩ :=
    Provider.gather headerPart_known (Provider.sane_start (.memory {}) _) rfl hanswer
  have hs : s = ((Desk.mk p₀ ws₀).perform (.updateUnsaved [⟨⟨"/a.cpp"⟩, ""⟩])).2 := by
    simp only [s, Desk.after, List.foldl_cons, List.foldl_nil, Desk.perform, hfirst]
  have hknown₀ : p₀.known[headerPart.id]? = some ⟨headerPart.keyIn headerSpace.files, d₀⟩ := by
    rw [hgathered.settled.known, Std.TreeMap.getElem?_insert_self]
  have haffected : headerPart.id ∈ p₀.affected (ws₀.files.internAll ["/a.cpp"]).1 :=
    (Provider.mem_affected_internAll hknown₀ hgathered.named).mpr
      ⟨"/a.cpp", List.mem_cons_self, headerPart_tracks.mpr rfl⟩
  have hmarked : headerPart.id ∈ s.provider.forced := by
    rw [hs]
    exact Provider.mem_forced_invalidate.mpr (Or.inr haffected)
  have hext : s.workspace.files.Extends ws₀.files := by
    rw [hs]
    exact ws₀.files.internAll_extends ["/a.cpp"]
  have hfiles : ws.files.Extends headerSpace.files := hgathered.forward.files.trans hext
  have hk : headerPart.Known ws.files := headerPart_known.extends hfiles
  have hknown : s.provider.known[headerPart.id]? = some ⟨headerPart.keyIn ws.files, d₀⟩ := by
    rw [Part.keyIn_extends headerPart_known hfiles, hs]
    exact hknown₀
  have hrefused : Workshop.answer ws.world (headerPart.asked ws.files s.provider.overlay) =
      .error (.collection "a" "fake scanner failure") := rfl
  have hbefore : (Desk.mk (Provider.start (.memory {})) headerSpace).Along Desk.Orderly
      [.create headerPart, .updateUnsaved [⟨⟨"/a.cpp"⟩, ""⟩], .meanwhile refusing s.workspace.files] :=
    ⟨trivial, trivial, FileTable.Extends.refl _, trivial⟩
  have hsane : s.provider.Sane ws.files :=
    Desk.sane_after (Provider.sane_start (.memory {}) headerSpace.files) ⟨trivial, trivial, trivial⟩
  obtain ⟨d, p, ws', hcreate, _, hrequests⟩ :=
    Provider.miss hk hsane (Provider.due_iff.mpr (Or.inl hmarked)) hrefused
  obtain ⟨_, _, _, _, hstale, _, hnext⟩ := @failed_collection _ _ _ (.memory {}) headerSpace
    headerPart _ d ⟨p, ws'⟩ _ hbefore hrefused hcreate hrequests
  have hfresh : ¬ s.provider.Stale ws headerPart := by
    intro hstale
    have hunchanged : d₀.Unchanged ws :=
      (hgathered.named.extends hext).unchanged_iff_tracked.mpr fun _ _ => rfl
    have hup := hunchanged.isUpToDate (hgathered.named.statuses_ne_nil (headerPart_tracks.mpr rfl))
    have hretrieve := Provider.retrieve_known hknown
    have hnot := hstale d₀ (congrArg Prod.fst hretrieve)
    rw [hretrieve] at hnot
    exact Bool.false_ne_true (hnot.symm.trans hup)
  obtain ⟨e, p', ws'', hagain, _, hkept⟩ := hnext [] trivial
  obtain ⟨rfl, rfl⟩ := hkept id (Bool.of_not_eq_false fun hnot => hfresh (hstale.mp hnot))
  exact ⟨hmarked, e, p, _, hcreate, hrequests, p', hagain⟩

end PrecompiledHeaders
