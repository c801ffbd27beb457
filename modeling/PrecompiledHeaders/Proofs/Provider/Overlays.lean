import PrecompiledHeaders.Proofs.Provider.Tracking
/-! Unsaved files. Where the provider notices every change of an unsaved file that a part reads, it
answers as if it kept nothing: a part gets what a collection with the present unsaved files would
find. Records do not tell under which unsaved files they were made, so this holds as long as a record
is read back only where the part sees the same unsaved files as when it was created last. -/
namespace PrecompiledHeaders

namespace Overlay

/-- The unsaved file that stands in for the one at that place. -/
def at? (o : Overlay) (p : FilePath) : Option UnsavedFile := o.find? (·.path.same p)

variable {o : Overlay} {p : FilePath}

theorem at?_insert {f : UnsavedFile} (h : ¬ f.path.same p) : (o.insert f).at? p = o.at? p := by
  induction o with
  | nil => simp [at?, insert, h]
  | cons g rest ih =>
    rw [insert]
    split
    · rename_i hgf
      have hg : ¬ g.path.same p := fun hgp => h (FilePath.same_trans (FilePath.same_symm hgf) hgp)
      simp [at?, h, hg]
    · split
      · simp [at?, h]
      · simp only [at?, List.find?_cons] at ih ⊢
        rw [ih]

theorem at?_insertAll {fs : List UnsavedFile} (h : ∀ q ∈ fs.map (·.path), ¬ q.same p) :
    (o.insertAll fs).at? p = o.at? p := by
  induction fs generalizing o with
  | nil => rfl
  | cons f fs ih =>
    obtain ⟨hf, hfs⟩ := List.forall_mem_cons.mp h
    exact (ih (o := o.insert f) hfs).trans (at?_insert hf)

theorem at?_remove {paths : List FilePath} (h : ∀ q ∈ paths, ¬ q.same p) :
    (o.remove paths).at? p = o.at? p := by
  have hkept : ∀ f : UnsavedFile, f.path.same p = true →
      (!paths.any fun q => q.same f.path) = true := by
    intro f hf
    rw [Bool.not_eq_true', List.any_eq_false]
    exact fun q hq hqf => h q hq (FilePath.same_trans hqf hf)
  rw [at?, remove, List.find?_filter]
  refine congrArg (fun P => o.find? P) (funext fun f => ?_)
  cases hf : f.path.same p with
  | false => simp
  | true => simp [hkept f hf]

end Overlay

/-! ### What a part sees -/

/-- The files that a scan of the part reads, its own among them. -/
def Part.Reads (part : Part) (files : FileTable) (report : ScanReport) (x : String) : Prop :=
  x ∈ files.names part.sources ∨ ∃ i ∈ report.includes, i.path.text = x

/-- Both show the part the same unsaved files. -/
def Part.Sees (part : Part) (files : FileTable) (report : ScanReport) (o o' : Overlay) : Prop :=
  ∀ x, part.Reads files report x → o'.at? ⟨x⟩ = o.at? ⟨x⟩

/-- Scans of the part succeed, and unsaved files that it does not read make no difference. -/
structure Part.Scannable (part : Part) (files : FileTable)
    (answer : ScanRequest → Except Fault ScanReport) : Prop where
  succeeds (o : Overlay) : ∃ report, answer (part.asked files o) = .ok report
  sees {o o' : Overlay} {report : ScanReport} : answer (part.asked files o) = .ok report →
    part.Sees files report o o' → answer (part.asked files o') = .ok report

/-- What a new provider finds was there before. -/
theorem RecordStore.load_reopened {W : Type} [World W] {store : RecordStore} {w : W} {key : String}
    {r : Record} (h : store.reopened.load w key = .ok (some r)) : store.load w key = .ok (some r) := by
  cases store with
  | memory records => simp [reopened, load] at h
  | files root => exact h

namespace Provider

def Remembers (p : Provider) (id : PartId) (key : String) : Prop := ∃ d, p.known[id]? = some ⟨key, d⟩

variable {W : Type} [Workshop W] {p : Provider} {ws : Workspace W} {part : Part} {d : Dependency}
  {files : FileTable}

/-- The provider goes by what it remembers, or by the record. -/
theorem retrieve_cases (h : p.retrieve ws part = (some d, files)) :
    (p.known[part.id]? = some ⟨part.keyIn ws.files, d⟩ ∧ files = ws.files) ∨
      ¬ p.Remembers part.id (part.keyIn ws.files) ∧
        ∃ r, p.store.load ws.world (part.keyIn ws.files) = .ok (some r) ∧
          r.toDependency ws.files = (d, files) := by
  generalize hkey : part.keyIn ws.files = key at h ⊢
  rw [retrieve, hkey] at h
  have hload : ((p.loadStored ws part.id key).1, (p.loadStored ws part.id key).2.2.files) =
      (some d, files) →
      ∃ r, p.store.load ws.world key = .ok (some r) ∧ r.toDependency ws.files = (d, files) := by
    rw [loadStored]
    split <;> intro hl
    · cases congrArg Prod.fst hl
    · cases congrArg Prod.fst hl
    · rename_i r hr
      obtain ⟨hd, hfiles⟩ := Prod.mk.inj hl
      exact ⟨r, hr, Prod.ext (Option.some.inj hd) hfiles⟩
  cases hk : p.known[part.id]? with
  | none =>
    rw [cached, hk] at h
    refine Or.inr ⟨?_, hload h⟩
    rintro ⟨_, hd⟩
    rw [hk] at hd
    cases hd
  | some k =>
    by_cases he : k.key = key
    · simp only [cached, hk, if_pos he] at h
      obtain ⟨hd, hfiles⟩ := Prod.mk.inj h
      exact Or.inl ⟨by rw [← Option.some.inj hd, ← he], hfiles.symm⟩
    · simp only [cached, hk, if_neg he] at h
      refine Or.inr ⟨?_, hload h⟩
      rintro ⟨_, hd⟩
      rw [hk] at hd
      exact he (by rw [Option.some.inj hd])

end Provider

namespace Desk

variable {W : Type} [Workshop W] {t : FileTable} {part q : Part}
  {answer : ScanRequest → Except Fault ScanReport} {last : Option Overlay} {s : Desk W} {c : Call W}

/-- The part gets what a collection with the present unsaved files would find. -/
def Transparent (s : Desk W) (part : Part) : Prop :=
  ∃ d p ws e ws', s.provider.create s.workspace part = (.ok d, p, ws) ∧
    Collection.collect ws s.provider.overlay part = (.ok e, ws') ∧
    e.includes = d.includes ∧ e.usedMacros = d.usedMacros

/-- The unsaved files under which the part with that key was created last. -/
def lastOverlay (key : String) (s : Desk W) (last : Option Overlay) : Call W → Option Overlay
  | .create q => match q.recordKey s.workspace.files with
    | .ok k => if k = key then some s.provider.overlay else last
    | .error _ => last
  | _ => last

/-- An edited file that the part reads is named as one that is tracked. -/
def Noticed (part : Part) (t : FileTable) (answer : ScanRequest → Except Fault ScanReport)
    (last : Option Overlay) (s : Desk W) (paths : List FilePath) : Prop :=
  s.provider.Remembers part.id (part.keyIn t) →
    ∀ o report, last = some o → answer (part.asked t o) = .ok report →
      ∀ path ∈ paths, ∀ x, part.Reads t report x → path.same ⟨x⟩ → part.Tracks t report path.text

/-- What is asked of a call. A record is read back only under the unsaved files that the part saw
last, edits of files that a remembered part reads are noticed, and the scanner's answers, like the
records, stay what they are. -/
def Careful (part : Part) (t : FileTable) (answer : ScanRequest → Except Fault ScanReport)
    (last : Option Overlay) (s : Desk W) : Call W → Prop
  | .create q => q.Known s.workspace.files → q.keyIn s.workspace.files = part.keyIn t →
      q.keyText s.workspace.files = part.keyText t ∧
      (∀ report, answer (part.asked t s.provider.overlay) = .ok report →
        (part.recordOf t report s.workspace.world).Fits) ∧
      (s.provider.Remembers part.id (part.keyIn t) ∨
        ∀ o report, last = some o → answer (part.asked t o) = .ok report →
          part.Sees t report o s.provider.overlay)
  | .updateUnsaved fs => s.Noticed part t answer last (fs.map (·.path))
  | .removeUnsaved paths => s.Noticed part t answer last paths
  | .meanwhile w files => files.Extends s.workspace.files ∧
      Workshop.answer w = Workshop.answer s.workspace.world ∧
      ∀ x ∈ s.provider.store.documents (part.keyIn t), look w x = look s.workspace.world x
  | _ => True

/-- Every call of a run is careful. -/
def Carefully (part : Part) (t : FileTable) (answer : ScanRequest → Except Fault ScanReport) :
    Option Overlay → Desk W → List (Call W) → Prop
  | _, _, [] => True
  | last, s, c :: calls => s.Careful part t answer last c ∧
      Carefully part t answer (s.lastOverlay (part.keyIn t) last c) (s.perform c).2 calls

/-- The report that the part's dependency, or its record, was made from: that of its last creation. -/
def LastReport (part : Part) (t : FileTable) (answer : ScanRequest → Except Fault ScanReport)
    (last : Option Overlay) (report : ScanReport) : Prop :=
  ∃ o, last = some o ∧ answer (part.asked t o) = .ok report

/-- What the provider has of the part was right when the part was created last, and what it
remembers still is, unless the part is marked. -/
structure Faithful (part : Part) (t : FileTable) (answer : ScanRequest → Except Fault ScanReport)
    (last : Option Overlay) (s : Desk W) : Prop where
  sane : s.provider.Sane s.workspace.files
  answers : Workshop.answer s.workspace.world = answer
  stored : ∀ r, s.provider.store.load s.workspace.world (part.keyIn t) = .ok (some r) →
    ∃ report, LastReport part t answer last report ∧ ∃ w : W, r = part.recordOf t report w
  known : ∀ d, s.provider.known[part.id]? = some ⟨part.keyIn t, d⟩ →
    ∃ report, LastReport part t answer last report ∧
      (∃ w : W, d.Named s.workspace.files part.id (part.recordOf t report w)) ∧
      (part.id ∈ s.provider.forced ∨ answer (part.asked t s.provider.overlay) = .ok report)

/-- Edits mark the part, or the part does not read what was edited. -/
theorem Faithful.edit (h : s.Faithful part t answer last) (hscan : part.Scannable t answer)
    {paths : List FilePath} (hn : s.Noticed part t answer last paths) {overlay : Overlay}
    (ho : ∀ p : FilePath, (∀ q ∈ paths, ¬ q.same p) → overlay.at? p = s.provider.overlay.at? p) :
    Faithful part t answer last
      ⟨(Provider.invalidate { s.provider with overlay := overlay }
          (s.workspace.files.internAll (paths.map (·.text))).1).2,
        { s.workspace with files := (s.workspace.files.internAll (paths.map (·.text))).2 }⟩ := by
  have hext := s.workspace.files.internAll_extends (paths.map (·.text))
  refine ⟨h.sane.extends hext, h.answers, h.stored, fun d hd => ?_⟩
  obtain ⟨report, hlast, ⟨w, hnamed⟩, hmarked⟩ := h.known d hd
  refine ⟨report, hlast, ⟨w, hnamed.extends hext⟩, ?_⟩
  rcases hmarked with hforced | hreport
  · exact Or.inl (Provider.mem_forced_invalidate.mpr (Or.inl hforced))
  by_cases hread : ∃ q ∈ paths, ∃ x, part.Reads t report x ∧ q.same ⟨x⟩
  · obtain ⟨q, hq, x, hx, hsame⟩ := hread
    obtain ⟨o, hlast, hanswer⟩ := hlast
    have htracked := hn ⟨d, hd⟩ o report hlast hanswer q hq x hx hsame
    have haffected := (Provider.mem_affected_internAll
      (p := { s.provider with overlay := overlay }) hd hnamed).mpr
      ⟨q.text, List.mem_map_of_mem hq, htracked⟩
    exact Or.inl (Provider.mem_forced_invalidate.mpr (Or.inr haffected))
  · refine Or.inr (hscan.sees hreport fun x hx => ho ⟨x⟩ fun q hq hsame => ?_)
    exact hread ⟨q, hq, x, hx, hsame⟩

variable [LawfulWorkshop W]

/-- What creating the part gives. -/
structure Given (part : Part) (t : FileTable) (answer : ScanRequest → Except Fault ScanReport)
    (s : Desk W) (q : Part) (d : Dependency) (s' : Desk W) : Prop where
  create : s.provider.create s.workspace q = (.ok d, s'.provider, s'.workspace)
  files : s'.workspace.files.Extends s.workspace.files
  named : ∃ report, answer (part.asked t s.provider.overlay) = .ok report ∧
    ∃ w : W, d.Named s'.workspace.files part.id (part.recordOf t report w)
  faithful : s'.Faithful part t answer (some s.provider.overlay)

omit [LawfulWorkshop W] in
/-- A part that is not due has the dependency of its last creation, and its scan would still say the
same. -/
theorem Faithful.report_of_retrieve (h : s.Faithful part t answer last)
    (hq : Part.Alike t s.workspace.files part q) (hscan : part.Scannable t answer)
    (hback : s.provider.Remembers part.id (part.keyIn t) ∨
      ∀ o report, last = some o → answer (part.asked t o) = .ok report →
        part.Sees t report o s.provider.overlay) {d : Dependency} {files : FileTable}
    (hretrieve : s.provider.retrieve s.workspace q = (some d, files))
    (hunforced : q.id ∉ s.provider.forced) :
    ∃ report, LastReport part t answer last report ∧
      answer (part.asked t s.provider.overlay) = .ok report ∧
      ∃ w : W, d.Named files part.id (part.recordOf t report w) := by
  have hkey := Part.keyIn_alike hq
  rcases Provider.retrieve_cases hretrieve with ⟨hd, hfiles⟩ | ⟨hnot, r, hr, hd⟩
  · -- it is remembered
    rw [hq.id, hkey] at hd
    obtain ⟨report, hlast, hnamed, hforced | hreport⟩ := h.known d hd
    · exact absurd (hq.id ▸ hforced) hunforced
    · exact ⟨report, hlast, hreport, hfiles ▸ hnamed⟩
  · -- it was stored, and the part sees now what it saw then
    rw [hq.id, hkey] at hnot
    rw [hkey] at hr
    obtain ⟨report, ⟨o, ho, hreport⟩, w, rfl⟩ := h.stored r hr
    have hsees := hback.resolve_left hnot o report ho hreport
    refine ⟨report, ⟨o, ho, hreport⟩, hscan.sees hreport hsees, w, ?_⟩
    have hnamed := (part.recordOf t report w).toDependency_named s.workspace.files
    rw [hd] at hnamed
    exact hnamed

theorem Faithful.create (h : s.Faithful part t answer last)
    (hq : Part.Alike t s.workspace.files part q) (hscan : part.Scannable t answer)
    (hfits : ∀ report, answer (part.asked t s.provider.overlay) = .ok report →
      (part.recordOf t report s.workspace.world).Fits)
    (hback : s.provider.Remembers part.id (part.keyIn t) ∨
      ∀ o report, last = some o → answer (part.asked t o) = .ok report →
        part.Sees t report o s.provider.overlay) :
    ∃ d s', Given part t answer s q d s' := by
  have hk : q.Known s.workspace.files := hq.known
  have hasked := Part.asked_alike hq s.provider.overlay
  have hkey := Part.keyIn_alike hq
  obtain ⟨d, p', ws', hcreate, hforward, hsettled, horigin⟩ := Provider.create_cases hk h.sane
  have hanswers : Workshop.answer ws'.world = answer := hforward.spares.answer.trans h.answers
  have hoverlay : p'.overlay = s.provider.overlay := hsettled.overlay
  have hknown : ∀ d', p'.known[part.id]? = some ⟨part.keyIn t, d'⟩ → d' = d := by
    intro d' hd'
    rw [hsettled.known, ← hq.id, Std.TreeMap.getElem?_insert_self] at hd'
    exact (KnownDependency.mk.inj (Option.some.inj hd')).2.symm
  cases horigin with
  | failed fault due hfault =>
    obtain ⟨report, hreport⟩ := hscan.succeeds s.provider.overlay
    rw [h.answers, hasked, hreport] at hfault
    cases hfault
  | scanned report due hreport named stored =>
    rw [h.answers, hasked] at hreport
    rw [Part.recordOf_alike hq, hq.id] at named
    rw [Part.recordOf_alike hq, hkey] at stored
    refine ⟨d, ⟨p', ws'⟩, hcreate, hforward.files, ⟨report, hreport, _, named⟩,
      hforward.sane h.sane, hanswers, fun r hr => ?_, fun d' hd' => ?_⟩
    · have hr' := hr.symm.trans (stored (hfits report hreport))
      obtain rfl := Option.some.inj (Except.ok.inj hr')
      exact ⟨report, ⟨_, rfl, hreport⟩, _, rfl⟩
    · obtain rfl := hknown d' hd'
      refine ⟨report, ⟨_, rfl, hreport⟩, ⟨_, named⟩, Or.inr ?_⟩
      rw [hoverlay]
      exact hreport
  | kept retrieve unforced fresh world store =>
    obtain ⟨report, hlast, hreport, w, hnamed⟩ :=
      h.report_of_retrieve hq hscan hback retrieve unforced
    refine ⟨d, ⟨p', ws'⟩, hcreate, hforward.files, ⟨report, hreport, w, hnamed⟩,
      hforward.sane h.sane, hanswers, fun r hr => ?_, fun d' hd' => ?_⟩
    · rw [store, world] at hr
      obtain ⟨report', ⟨o', ho', hreport'⟩, hrecord⟩ := h.stored r hr
      obtain ⟨o, ho, hreport₀⟩ := hlast
      obtain rfl : o' = o := Option.some.inj (ho'.symm.trans ho)
      obtain rfl : report' = report := Except.ok.inj (hreport'.symm.trans hreport₀)
      exact ⟨report', ⟨_, rfl, hreport⟩, hrecord⟩
    · obtain rfl := hknown d' hd'
      refine ⟨report, ⟨_, rfl, hreport⟩, ⟨w, hnamed⟩, Or.inr ?_⟩
      rw [hoverlay]
      exact hreport

omit [LawfulWorkshop W] in
/-- Creating another part, or another configuration of this one. -/
theorem Faithful.other (h : s.Faithful part t answer last) {d : Dependency} {p' : Provider}
    {ws' : Workspace W} {docs : List FilePath} (hkey : q.keyIn s.workspace.files ≠ part.keyIn t)
    (hforward : Provider.Forward docs s.provider s.workspace p' ws')
    (hsettled : Provider.Settled s.provider s.workspace q d p' ws') :
    Faithful part t answer last ⟨p', ws'⟩ := by
  refine ⟨hforward.sane h.sane, hforward.spares.answer.trans h.answers, fun r hr => ?_,
    fun d' hd' => ?_⟩
  · rw [hsettled.others _ (part.slash_not_mem_keyIn t) hkey.symm] at hr
    exact h.stored r hr
  · rw [hsettled.known, Std.TreeMap.getElem?_insert] at hd'
    split at hd'
    · exact absurd (KnownDependency.mk.inj (Option.some.inj hd')).1 hkey
    · rename_i hne
      obtain ⟨report, hlast, ⟨w, hnamed⟩, hmarked⟩ := h.known d' hd'
      refine ⟨report, hlast, ⟨w, hnamed.extends hforward.files⟩, ?_⟩
      rw [hsettled.forced, hsettled.overlay]
      refine hmarked.imp_left fun hforced => List.mem_filter.mpr ⟨hforced, ?_⟩
      exact decide_eq_true fun he => hne (he ▸ Std.ReflCmp.compare_self)

theorem Faithful.perform (h : s.Faithful part t answer last) (hk : part.Known t)
    (hscan : part.Scannable t answer) (hc : s.Careful part t answer last c) :
    (s.perform c).2.Faithful part t answer (s.lastOverlay (part.keyIn t) last c) := by
  cases c with
  | create q =>
    by_cases hq : q.Known s.workspace.files
    · by_cases hkey : q.keyIn s.workspace.files = part.keyIn t
      · obtain ⟨htext, hfits, hback⟩ := hc hq hkey
        obtain ⟨d, s', hcreate, _, _, hfaithful⟩ :=
          h.create (Part.alike_of_keyText hk hq htext.symm) hscan hfits hback
        simp only [Desk.perform, hcreate, lastOverlay, Part.recordKey_of_known hq, hkey, if_true]
        exact hfaithful
      · obtain ⟨d, p', ws', hcreate, hforward, hsettled, _⟩ := Provider.create_cases hq h.sane
        simp only [Desk.perform, hcreate, lastOverlay, Part.recordKey_of_known hq, hkey, if_false]
        exact h.other hkey hforward hsettled
    · obtain ⟨_, hcreate⟩ := Provider.create_unknown (p := s.provider) hq
      obtain ⟨_, hrecord⟩ := Part.recordKey_unknown hq
      simp only [Desk.perform, hcreate, lastOverlay, hrecord]
      exact h
  | invalidate ids =>
    refine ⟨h.sane, h.answers, h.stored, fun d hd => ?_⟩
    obtain ⟨report, hlast, hnamed, hmarked⟩ := h.known d hd
    exact ⟨report, hlast, hnamed, hmarked.imp_left fun hforced =>
      Provider.mem_forced_invalidate.mpr (Or.inl hforced)⟩
  | updateUnsaved fs =>
    have hedit := h.edit hscan hc fun p hp => Overlay.at?_insertAll hp
    rw [List.map_map] at hedit
    exact hedit
  | removeUnsaved paths => exact h.edit hscan hc fun p hp => Overlay.at?_remove hp
  | removeParts ids =>
    refine ⟨fun id k hid => h.sane id k (Provider.known_removeParts hid).2, h.answers, h.stored,
      fun d hd => ?_⟩
    obtain ⟨hids, hd⟩ := Provider.known_removeParts hd
    obtain ⟨report, hlast, hnamed, hmarked⟩ := h.known d hd
    exact ⟨report, hlast, hnamed, hmarked.imp_left fun hforced =>
      List.mem_filter.mpr ⟨hforced, by simpa using hids⟩⟩
  | meanwhile w files =>
    obtain ⟨hext, hanswers, hlook⟩ := hc
    refine ⟨h.sane.extends hext, hanswers.trans h.answers, fun r hr => ?_, fun d hd => ?_⟩
    · exact h.stored r ((RecordStore.load_congr hlook).symm.trans hr)
    · obtain ⟨report, hlast, ⟨w, hnamed⟩, hmarked⟩ := h.known d hd
      exact ⟨report, hlast, ⟨w, hnamed.extends hext⟩, hmarked⟩
  | restart files =>
    refine ⟨Provider.sane_start _ _, h.answers, fun r hr => ?_, fun d hd => ?_⟩
    · exact h.stored r (RecordStore.load_reopened hr)
    · simp [Desk.perform, Provider.start] at hd

/-- What the collection finds is what the part was given. -/
theorem Given.transparent {d : Dependency} {s' : Desk W} (hg : Given part t answer s q d s')
    (hq : Part.Alike t s.workspace.files part q) : s.Transparent q := by
  obtain ⟨report, hreport, w, hnamed⟩ := hg.named
  have hknown := hq.known.extends hg.files
  have hanswer : Workshop.answer s'.workspace.world
      (q.asked s'.workspace.files s.provider.overlay) = .ok report := by
    rw [hg.faithful.answers, Part.asked_extends hq.known hg.files, Part.asked_alike hq]
    exact hreport
  obtain ⟨e, ws', hcollect, _, hext, hnamed'⟩ :=
    Provider.collect_named _ s.provider.overlay hknown hanswer
  rw [Part.recordOf_extends hq.known hg.files, Part.recordOf_alike hq] at hnamed'
  exact ⟨d, s'.provider, s'.workspace, e, ws', hg.create, hcollect,
    (hnamed.extends hext).includes_eq hnamed' rfl, hnamed'.usedMacros.symm.trans hnamed.usedMacros⟩

/-- In a careful run each creation of the part is transparent. -/
theorem Faithful.transparent (h : s.Faithful part t answer last) (hk : part.Known t)
    (hscan : part.Scannable t answer) {before rest : List (Call W)}
    (hc : Carefully part t answer last s (before ++ .create q :: rest))
    (hq : Part.Alike t (s.after before).workspace.files part q) : (s.after before).Transparent q := by
  induction before generalizing s last with
  | nil =>
    obtain ⟨hcreate, _⟩ := hc
    have hkey := Part.keyIn_alike hq
    obtain ⟨_, hfits, hback⟩ := hcreate hq.known hkey
    obtain ⟨d, s', hg⟩ := h.create hq hscan hfits hback
    exact hg.transparent hq
  | cons c before ih => exact ih (h.perform hk hscan hc.1) hc.2 hq

end Desk

section

variable {W : Type} [Workshop W] [LawfulWorkshop W] {store : RecordStore} {ws : Workspace W}
  {t : FileTable} {part q : Part}

/-- Overlay transparency. Let a provider be started on a store that has nothing of the part yet, and
let scans succeed and depend on unsaved files only where the part reads. In every run of creations,
edits, removals and restarts in which, as far as the part is concerned, the scanner does not change
its mind, each edit of a file that the remembered part reads names a tracked file, and a record is
read back only while the part sees the unsaved files under which it was created last, each creation
of the part gives the includes and the macros that a collection finds at that moment. -/
theorem overlay_transparency (hk : part.Known t)
    (hempty : store.load ws.world (part.keyIn t) = .ok none)
    (hscan : part.Scannable t (Workshop.answer ws.world)) {before rest : List (Call W)}
    (hcareful : Desk.Carefully part t (Workshop.answer ws.world) none ⟨.start store, ws⟩
      (before ++ .create q :: rest))
    (hq : Part.Alike t ((Desk.mk (.start store) ws).after before).workspace.files part q) :
    ((Desk.mk (.start store) ws).after before).Transparent q := by
  have hstart : Desk.Faithful part t (Workshop.answer ws.world) none (Desk.mk (.start store) ws) := by
    refine ⟨Provider.sane_start _ _, rfl, fun r hr => ?_, fun d hd => ?_⟩
    · rw [show (Desk.mk (.start store) ws).provider.store = store from rfl, hempty] at hr
      cases hr
    · simp [Provider.start] at hd
  exact hstart.transparent hk hscan hcareful hq

end

/-! ### A scanner that looks at unsaved files -/

/-- A workshop with another scanner. -/
structure Rescanned (W : Type) where
  inner : W
  report : ScanRequest → ScanReport

namespace Rescanned

variable {W : Type} [Workshop W]

instance : Workshop (Rescanned W) where
  hasFile a p := World.hasFile a.inner p
  readText a p := World.readText a.inner p
  writeText a p s := let (r, w) := World.writeText a.inner p s; (r, ⟨w, a.report⟩)
  removeFile a p := let (r, w) := World.removeFile a.inner p; (r, ⟨w, a.report⟩)
  modified? a p := World.modified? a.inner p
  directory? a p := World.directory? a.inner p
  scan a r := (.ok (a.report r), ⟨(World.scan a.inner r).2, a.report⟩)
  build a j := let (r, w) := World.build a.inner j; (r, ⟨w, a.report⟩)
  answer a r := .ok (a.report r)
  refusal a j := Workshop.refusal a.inner j
  requests a := Workshop.requests a.inner
  jobs a := Workshop.jobs a.inner

theorem spares {ps : List FilePath} {w v : W} (h : Spares ps w v) (report : ScanRequest → ScanReport) :
    Spares ps (⟨w, report⟩ : Rescanned W) ⟨v, report⟩ := ⟨h.look, rfl, h.refusal⟩

instance [LawfulWorkshop W] : LawfulWorkshop (Rescanned W) where
  scan_result _ _ := rfl
  scan_spares a r := spares (LawfulWorkshop.scan_spares a.inner r) a.report
  scan_requests a r := LawfulWorkshop.scan_requests a.inner r
  scan_jobs a r := LawfulWorkshop.scan_jobs a.inner r
  write_result a p s := LawfulWorkshop.write_result a.inner p s
  write_spares a p s := spares (LawfulWorkshop.write_spares a.inner p s) a.report
  write_hasFile a p s := LawfulWorkshop.write_hasFile a.inner p s
  write_readText a p s := LawfulWorkshop.write_readText a.inner p s
  write_quiet a p s := LawfulWorkshop.write_quiet a.inner p s
  build_result a j := LawfulWorkshop.build_result a.inner j
  build_spares a j := spares (LawfulWorkshop.build_spares a.inner j) a.report
  build_requests a j := LawfulWorkshop.build_requests a.inner j
  build_jobs a j := LawfulWorkshop.build_jobs a.inner j

end Rescanned

section

variable {W : Type} [Workshop W] [LawfulWorkshop W] {t : FileTable} {part : Part}
  {report report' : ScanReport} {w : W} {d : Dependency} {s : Desk W}

/-- A part that keeps what it has, while a scan would find another file. -/
theorem Desk.Lasts.not_transparent (h : s.Lasts part (part.recordOf t report w) d)
    (hne : d.statuses ≠ []) (hu : d.Unchanged s.workspace)
    (hanswer : Workshop.answer s.workspace.world
      (part.asked s.workspace.files s.provider.overlay) = .ok report')
    (hdiff : (part.recordOf s.workspace.files report' w).includes.map (·.path.text) ≠
      (part.recordOf t report w).includes.map (·.path.text)) : ¬ s.Transparent part := by
  rintro ⟨d', p', ws', e, ws'', hcreate, hcollect, hincludes, _⟩
  obtain ⟨p'', hkept, _⟩ :=
    Provider.create_kept h.known h.sane h.lasting.retrieve h.lasting.unforced hu hne
  rw [hkept] at hcreate
  obtain ⟨rfl, rfl, rfl⟩ : d = d' ∧ p'' = p' ∧ s.workspace = ws' := by simpa using hcreate
  obtain ⟨e', ws₁, hcollect', _, hext, hnamed⟩ :=
    Provider.collect_named s.workspace s.provider.overlay h.known hanswer
  rw [hcollect'] at hcollect
  obtain ⟨rfl, rfl⟩ : e' = e ∧ ws₁ = ws'' := by simpa using hcollect
  have hfound := hnamed.resolves_includes
  rw [hincludes] at hfound
  exact hdiff (hfound.unique (h.lasting.named.extends hext).resolves_includes)

end

/-- The source file, or the part's header, is being edited. -/
def beingEdited (o : Overlay) : Bool := (o.at? ⟨"/a.cpp"⟩).isSome || (o.at? ⟨"/h.h"⟩).isSome

/-- A source file that includes one file more meanwhile. -/
def editedReport (o : Overlay) : ScanReport :=
  bif beingEdited o then
    ⟨[⟨⟨"/h.h"⟩, .userInclude, 1⟩, ⟨⟨"/b.h"⟩, .topSystemInclude, 2⟩], []⟩
  else headerReport

def editedSpace : Workspace (Rescanned WritingBench) :=
  ⟨⟨loneSpace.world, fun r => editedReport r.unsavedFiles⟩, headerSpace.files⟩

def editedDesk : Desk (Rescanned WritingBench) := ⟨.start (.memory {}), editedSpace⟩

theorem headerPart_scannable :
    headerPart.Scannable editedSpace.files (Workshop.answer editedSpace.world) where
  succeeds _ := ⟨_, rfl⟩
  sees {o o' report} hanswer hsees := by
    obtain rfl : editedReport o = report := Except.ok.inj hanswer
    have hsource : o'.at? ⟨"/a.cpp"⟩ = o.at? ⟨"/a.cpp"⟩ := hsees _ (Or.inl (by decide))
    have hheader : o'.at? ⟨"/h.h"⟩ = o.at? ⟨"/h.h"⟩ := by
      refine hsees _ (Or.inr ⟨⟨⟨"/h.h"⟩, .userInclude, 1⟩, ?_, rfl⟩)
      rw [editedReport]
      cases beingEdited o <;> exact List.mem_cons_self
    have he : editedReport o' = editedReport o := by
      rw [editedReport, editedReport, beingEdited, beingEdited, hsource, hheader]
    exact congrArg Except.ok he

theorem edited_fits (o : Overlay) {w : Rescanned WritingBench}
    (hw : ∀ p, World.modified? w p = none) :
    (headerPart.recordOf editedSpace.files (editedReport o) w).Fits := by
  refine ⟨fun i hi => ?_, ?_, fun s hs t ht => ?_⟩
  · have horders : ∀ i ∈ (editedReport o).includes, i.order < UInt32.size := by
      rw [editedReport]
      cases beingEdited o <;> decide
    exact horders i (Record.includesOf_subset _ _ hi)
  · show ∀ m ∈ UsedMacro.normalize (editedReport o).usedMacros, _
    rw [editedReport]
    cases beingEdited o <;> decide +kernel
  · rw [(Record.mem_statuses_ofReport.mp hs).2, hw] at ht
    cases ht

/-- A provider that knows nothing collects the part. -/
theorem edited_gathered {p : Provider} (hknown : p.known = {}) (hstore : p.store = .memory {}) :
    ∃ d p' ws', p.create editedSpace headerPart = (.ok d, p', ws') ∧
      Provider.Gathered p editedSpace headerPart (editedReport p.overlay) d p' ws' := by
  have hsane : p.Sane editedSpace.files := fun id k hk => by simp [hknown] at hk
  refine @Provider.gather _ _ p editedSpace headerPart _ headerPart_known hsane ?_ _ rfl
  rw [Provider.retrieve, Provider.cached, hknown]
  simp [Provider.loadStored, hstore, RecordStore.load]

theorem mem_edited_includes {o : Overlay} {w : Rescanned WritingBench} :
    "/b.h" ∈ (headerPart.recordOf editedSpace.files (editedReport o) w).includes.map (·.path.text) ↔
      beingEdited o = true := by
  have hown : "/b.h" ∉ editedSpace.files.names headerPart.ownFiles := by decide
  show "/b.h" ∈ (Record.includesOf _ _).map (·.path.text) ↔ _
  rw [Record.mem_includesOf, editedReport]
  cases beingEdited o with
  | false => simp [headerReport]
  | true => simp [hown]

/-- What was collected is kept by calls that leave the part, also when it is, or is no longer, being
edited after them. -/
theorem edited_unnoticed {s : Desk (Rescanned WritingBench)} {calls : List (Call _)} {o : Overlay}
    (hspace : s.workspace = editedSpace) (hknown : s.provider.known = {})
    (hstore : s.provider.store = .memory {})
    (hleaves : ∀ (d : Dependency) (s' : Desk (Rescanned WritingBench)) (w : Rescanned WritingBench),
      s'.provider.known[headerPart.id]? = some ⟨headerPart.keyIn editedSpace.files, d⟩ →
      d.Named s'.workspace.files headerPart.id
        (headerPart.recordOf editedSpace.files (editedReport s.provider.overlay) w) →
      s'.Along (Desk.Leaves headerPart d) calls)
    (hworld : ∀ s' : Desk (Rescanned WritingBench),
      (s'.after calls).workspace.world = s'.workspace.world)
    (hfiles : ∀ s' : Desk (Rescanned WritingBench),
      (s'.after calls).workspace.files.Extends s'.workspace.files)
    (hoverlay : ∀ s' : Desk (Rescanned WritingBench), s'.provider.overlay = s.provider.overlay →
      (s'.after calls).provider.overlay = o)
    (hdiff : beingEdited o ≠ beingEdited s.provider.overlay) :
    ¬ (s.after (.create headerPart :: calls)).Transparent headerPart := by
  obtain ⟨p, ws⟩ := s
  dsimp only at hspace hknown hstore hleaves hoverlay hdiff
  subst hspace
  obtain ⟨d, p', ws', hcreate, hgathered⟩ := edited_gathered hknown hstore
  have hsane : p.Sane editedSpace.files := fun id k hk => by simp [hknown] at hk
  have hafter : (Desk.mk p editedSpace).after (.create headerPart :: calls) =
      (Desk.mk p' ws').after calls := by
    simp only [Desk.after, List.foldl_cons, Desk.perform, hcreate]
  have hnamed := hgathered.named
  have hne : d.statuses ≠ [] := hnamed.statuses_ne_nil
    (Or.inl (by decide) : headerPart.Tracks _ _ "/a.cpp")
  have hk' := hgathered.settled.known
  have hlasts := (hgathered.lasts hsane (edited_fits _ fun _ => rfl)).after hne
    (hleaves d ⟨p', ws'⟩ _ (by rw [hk', Std.TreeMap.getElem?_insert_self]) hnamed)
  have hu : d.Unchanged ((Desk.mk p' ws').after calls).workspace :=
    hlasts.lasting.named.unchanged_iff.mpr fun st hst => by
      rw [(Record.mem_statuses_ofReport.mp hst).2, hworld]
      exact hgathered.forward.spares.modified? fun _ hx => by
        simp [hstore, RecordStore.documents, RecordStore.root?] at hx
  rw [hafter]
  refine @Desk.Lasts.not_transparent _ _ _ _ _ _ (editedReport o) _ _ _ hlasts hne hu ?_
    fun he => hdiff (Bool.eq_iff_iff.mpr ?_)
  · rw [hworld, hgathered.forward.spares.answer, Part.asked, hoverlay _ hgathered.settled.overlay]
    rfl
  · rw [Part.recordOf_extends hgathered.known
      (hgathered.forward.files.trans (hfiles ⟨p', ws'⟩))] at he
    have hedited := @mem_edited_includes o editedSpace.world
    rw [he] at hedited
    exact hedited.symm.trans mem_edited_includes

/-- The part is created, its source file is being edited, and the next creation finds what there is
to find meanwhile. -/
theorem overlay_transparency_edited :
    (editedDesk.after [.create headerPart, .updateUnsaved [⟨⟨"/a.cpp"⟩, ""⟩]]).Transparent
      headerPart := by
  obtain ⟨d, p', ws', hcreate, hgathered⟩ :=
    edited_gathered (p := Provider.start (.memory {})) rfl rfl
  have hk : headerPart.Known editedSpace.files := headerPart_known
  have hfirst : (Desk.perform ⟨Provider.start (.memory {}), editedSpace⟩ (.create headerPart)).2 =
      ⟨p', ws'⟩ := by
    simp only [Desk.perform, hcreate]
  have hext : ((Desk.mk p' ws').perform (.updateUnsaved [⟨⟨"/a.cpp"⟩, ""⟩])).2.workspace.files.Extends
      editedSpace.files := hgathered.forward.files.trans (ws'.files.internAll_extends ["/a.cpp"])
  have htext := Part.keyText_extends hk hext
  have hfits : ∀ (o : Overlay) (w : Rescanned WritingBench) (report : ScanReport),
      (∀ p, World.modified? w p = none) →
      Workshop.answer editedSpace.world (headerPart.asked editedSpace.files o) = .ok report →
      (headerPart.recordOf editedSpace.files report w).Fits := by
    intro o w report hw hreport
    obtain rfl : editedReport o = report := Except.ok.inj hreport
    exact edited_fits o hw
  refine @overlay_transparency _ _ _ (.memory {}) editedSpace editedSpace.files headerPart headerPart hk
    rfl headerPart_scannable _ [] ?_ ?_
  · refine ⟨fun _ _ => ⟨rfl, fun report => hfits _ _ report fun _ => rfl, Or.inr ?_⟩, ?_⟩
    · intro o _ ho
      cases ho
    rw [hfirst]
    refine ⟨fun _ o report _ _ path hpath _ _ _ => Or.inl ?_, fun _ _ => ⟨htext,
      fun report => hfits _ _ report fun p => ?_, Or.inl ⟨d, ?_⟩⟩, trivial⟩
    · rw [List.mem_singleton.mp hpath]
      decide
    · exact hgathered.forward.spares.modified? fun _ hx => absurd hx List.not_mem_nil
    · show p'.known[headerPart.id]? = _
      rw [hgathered.settled.known, Std.TreeMap.getElem?_insert_self]
  · rw [Desk.after, List.foldl_cons, hfirst]
    exact Part.alike_of_keyText hk (hk.extends hext) htext.symm

/-- Three ways not to notice what is being edited: the record was made while the source file was
being edited, and is read back when it no longer is; the part's own header is being edited; the
source file is being edited under another spelling. -/
theorem overlay_transparency_unnoticed :
    headerPart.Scannable editedSpace.files (Workshop.answer editedSpace.world) ∧
    ¬ (editedDesk.after [.updateUnsaved [⟨⟨"/a.cpp"⟩, ""⟩], .create headerPart, .removeParts ["a"],
      .removeUnsaved [⟨"/a.cpp"⟩]]).Transparent headerPart ∧
    ¬ (editedDesk.after [.create headerPart, .updateUnsaved [⟨⟨"/h.h"⟩, ""⟩]]).Transparent headerPart ∧
    ¬ (editedDesk.after [.create headerPart,
      .updateUnsaved [⟨⟨"//a.cpp"⟩, ""⟩]]).Transparent headerPart := by
  have hedit : ∀ (path : String), path ≠ "/a.cpp" → ∀ (d : Dependency)
      (s' : Desk (Rescanned WritingBench)) (w : Rescanned WritingBench),
      s'.provider.known[headerPart.id]? = some ⟨headerPart.keyIn editedSpace.files, d⟩ →
      d.Named s'.workspace.files headerPart.id
        (headerPart.recordOf editedSpace.files headerReport w) →
      s'.Along (Desk.Leaves headerPart d) [.updateUnsaved [⟨⟨path⟩, ""⟩]] := by
    intro path hpath d s' w hknown hnamed
    refine ⟨fun hmem => hpath ?_, trivial⟩
    have haffected : headerPart.id ∈
        s'.provider.affected (s'.workspace.files.internAll [path]).1 := hmem
    obtain ⟨x, hx, htracked⟩ := (Provider.mem_affected_internAll hknown hnamed).mp haffected
    rw [← List.mem_singleton.mp hx]
    exact headerPart_tracks.mp htracked
  refine ⟨headerPart_scannable, ?_, ?_, ?_⟩
  · refine edited_unnoticed (s := (editedDesk.perform (.updateUnsaved [⟨⟨"/a.cpp"⟩, ""⟩])).2)
      (o := []) rfl rfl rfl (fun d s' w _ _ => ⟨List.not_mem_nil, ?_, trivial⟩) (fun _ => rfl)
      (fun s' => s'.workspace.files.internAll_extends ["/a.cpp"]) (fun s' hs' => ?_) (by decide +kernel)
    · refine Provider.not_mem_affected (Option.eq_none_iff_forall_ne_some.mpr fun k hk => ?_)
      exact (Provider.known_removeParts hk).1 List.mem_cons_self
    · show s'.provider.overlay.remove [⟨"/a.cpp"⟩] = []
      rw [hs']
      decide +kernel
  · refine edited_unnoticed (s := editedDesk) (o := [⟨⟨"/h.h"⟩, ""⟩]) rfl rfl rfl
      (hedit _ (by decide)) (fun _ => rfl) (fun s' => s'.workspace.files.internAll_extends ["/h.h"])
      (fun s' hs' => ?_) (by decide +kernel)
    show s'.provider.overlay.insertAll _ = _
    rw [hs']
    rfl
  · refine edited_unnoticed (s := editedDesk) (o := [⟨⟨"//a.cpp"⟩, ""⟩]) rfl rfl rfl
      (hedit _ (by decide)) (fun _ => rfl) (fun s' => s'.workspace.files.internAll_extends ["//a.cpp"])
      (fun s' hs' => ?_) (by decide +kernel)
    show s'.provider.overlay.insertAll _ = _
    rw [hs']
    rfl

end PrecompiledHeaders
