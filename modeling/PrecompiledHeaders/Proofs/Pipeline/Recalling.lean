import PrecompiledHeaders.Proofs.Pipeline.Submitting
import PrecompiledHeaders.Proofs.Remembering
/-! Collecting the same parts twice. The first time every part is scanned and recorded; the second
time, in the same run or in another one, only parts that read no file are scanned, and the tasks are
alike. -/
namespace PrecompiledHeaders

variable {W : Type} [Workshop W] [LawfulWorkshop W]

namespace Provider

omit [Workshop W] [LawfulWorkshop W] in
theorem records_cons {p : Provider} {files : FileTable} {part : Part} {parts : List Part}
    (h : part.Known files) : p.records files (part :: parts) =
      p.store.documents (part.keyIn files) ++ p.records files parts := by
  rw [records, List.flatMap_cons, Part.recordKey_of_known h]
  rfl

omit [Workshop W] [LawfulWorkshop W] in
theorem documents_subset_records {p : Provider} {files : FileTable} {part : Part}
    {parts : List Part} (hk : part.Known files) (hp : part ∈ parts) :
    p.store.documents (part.keyIn files) ⊆ p.records files parts := by
  intro y hy
  refine List.mem_flatMap.mpr ⟨part, hp, ?_⟩
  rw [Part.recordKey_of_known hk]
  exact hy

variable {p p' : Provider} {ws ws' : Workspace W} {part : Part} {r : Record} {d : Dependency}
  {more : List ScanRequest}

theorem Created.forward (h : Created p ws part r more d p' ws') (hk : part.Known ws.files)
    (hs : p.Sane ws.files) : d.Known ws'.files ∧
      Forward (p.store.documents (part.keyIn ws.files)) p ws p' ws' := by
  obtain ⟨d₁, p₁, ws₁, hcreate, hd, hforward⟩ :=
    p.create_spec ws hk hs (Part.recordKey_of_known hk)
  rw [h.create] at hcreate
  obtain ⟨hd₁, hrest⟩ := Prod.mk.inj hcreate
  obtain ⟨rfl, rfl⟩ := Prod.mk.inj hrest
  obtain rfl := Except.ok.inj hd₁
  exact ⟨hd, hforward⟩

end Provider

namespace Pipeline

open Provider (Created Keeps)

/-- The keys of the records are told apart by the digest. -/
def KeysApart (files : FileTable) (parts : List Part) : Prop :=
  (parts.map (·.id)).Nodup ∧ ∀ part ∈ parts, ∀ other ∈ parts,
    part.keyIn files = other.keyIn files → part.id = other.id

theorem keysApart_of_apart {files : FileTable} {parts : List Part}
    (hids : (parts.map (·.id)).Nodup) {inputs : List (List UInt8)} (ha : Apart inputs)
    (hin : parts.map (fun part => Text.Utf8.encode (part.keyText files)) ⊆ inputs) :
    KeysApart files parts :=
  ⟨hids, fun _ hp _ hq h => Part.id_eq_of_keyIn h ha (hin (List.mem_map_of_mem hp))
    (hin (List.mem_map_of_mem hq))⟩

theorem KeysApart.extends {t u : FileTable} {parts : List Part} (h : KeysApart t parts)
    (hu : u.Extends t) (hk : ∀ part ∈ parts, part.Known t) : KeysApart u parts := by
  refine ⟨h.1, fun p hp q hq he => h.2 p hp q hq ?_⟩
  rwa [Part.keyIn_extends (hk p hp) hu, Part.keyIn_extends (hk q hq) hu] at he

/-- The first part's key is none of the others', and so is its id. -/
theorem KeysApart.head {files : FileTable} {part : Part} {parts : List Part}
    (h : KeysApart files (part :: parts)) : KeysApart files parts ∧
      ∀ other ∈ parts, other.id ≠ part.id ∧ other.keyIn files ≠ part.keyIn files := by
  obtain ⟨hids, hkeys⟩ := h
  rw [List.map_cons, List.nodup_cons] at hids
  refine ⟨⟨hids.2, fun p hp q hq => hkeys p (List.mem_cons_of_mem _ hp) q
    (List.mem_cons_of_mem _ hq)⟩, fun other ho => ?_⟩
  have hne : other.id ≠ part.id := fun he => hids.1 (he ▸ List.mem_map_of_mem ho)
  exact ⟨hne, fun he => hne (hkeys other (List.mem_cons_of_mem _ ho) part List.mem_cons_self he)⟩

/-- The part was scanned at some time since `w`, and is remembered with its record. -/
structure Recorded (docs : List FilePath) (w : W) (p : Provider) (ws : Workspace W) (part : Part)
    (set : TaskSet) (report : ScanReport) (v : W) (d : Dependency) : Prop where
  answer : Workshop.answer w (part.asked ws.files []) = .ok report
  spares : Spares docs w v
  named : d.Named ws.files part.id (part.recordOf ws.files report v)
  known : p.known[part.id]? = some ⟨part.keyIn ws.files, d⟩
  stored : (part.recordOf ws.files report v).Fits → p.store.load ws.world (part.keyIn ws.files) =
    .ok (some (part.recordOf ws.files report v))
  tasks : set = part.tasks d

/-- Scans of new parts that all succeed. -/
theorem collectTasks_first {p : Provider} {ws : Workspace W} {parts : List Part}
    {docs : List FilePath} {w : W}
    (hk : ∀ part ∈ parts, part.Known ws.files) (hs : p.Sane ws.files)
    (ha : KeysApart ws.files parts) (hfresh : p.forced = [] ∧ p.overlay = [])
    (hnew : ∀ part ∈ parts, p.known[part.id]? = none ∧
      p.store.load ws.world (part.keyIn ws.files) = .ok none)
    (hscan : ∀ part ∈ parts, ∃ report, Workshop.answer w (part.asked ws.files []) = .ok report)
    (hw : Spares docs w ws.world) (hdocs : p.records ws.files parts ⊆ docs) :
    ∃ sets p' ws', collectTasks p ws parts = (.ok sets, p', ws') ∧ p'.forced = [] ∧
      p'.overlay = [] ∧ ws'.files.Extends ws.files ∧
      List.Forall₂ (fun part set => ∃ report v d, Recorded docs w p' ws' part set report v d)
        parts sets ∧
      (∀ id : PartId, (∀ part ∈ parts, id ≠ part.id) → p'.known[id]? = p.known[id]?) ∧
      ∀ k, '/' ∉ k.toList → (∀ part ∈ parts, k ≠ part.keyIn ws.files) →
        p'.store.load ws'.world k = p.store.load ws.world k := by
  induction parts generalizing p ws with
  | nil =>
    exact ⟨[], p, ws, rfl, hfresh.1, hfresh.2, FileTable.Extends.refl _, .nil, fun _ _ => rfl,
      fun _ _ _ => rfl⟩
  | cons part parts ih =>
    obtain ⟨hpart, hrest⟩ := List.forall_mem_cons.mp hk
    obtain ⟨htail, hother⟩ := ha.head
    obtain ⟨hnone, hload⟩ := hnew part List.mem_cons_self
    obtain ⟨report, hreport⟩ := hscan part List.mem_cons_self
    have hanswer : Workshop.answer ws.world (part.asked ws.files p.overlay) = .ok report := by
      rw [hfresh.2, hw.answer]
      exact hreport
    obtain ⟨d, p₁, ws₁, hcreated, hstored⟩ := Provider.create_new hpart hnone hload hanswer
    obtain ⟨_, hforward⟩ := hcreated.forward hpart hs
    have hext := hforward.files
    rw [Provider.records_cons hpart, List.append_subset] at hdocs
    have hw₁ : Spares docs w ws₁.world := hw.join (hforward.spares.mono hdocs.1)
    obtain ⟨sets, p', ws', hcollect, hforced, hoverlay, hext', hsets, hknown,
      hloads⟩ := ih
      (fun q hq => (hrest q hq).extends hext) (hforward.sane hs) (htail.extends hext hrest)
      ⟨by rw [hcreated.forced, hfresh.1]; rfl, hcreated.overlay.trans hfresh.2⟩
      (fun q hq => by
        obtain ⟨hid, hkey⟩ := hother q hq
        rw [hcreated.known, Std.TreeMap.getElem?_insert, if_neg (by simpa using hid.symm),
          Part.keyIn_extends (hrest q hq) hext,
          hcreated.others _ (q.slash_not_mem_keyIn ws.files) hkey]
        exact hnew q (List.mem_cons_of_mem _ hq))
      (fun q hq => by
        rw [Part.asked_extends (hrest q hq) hext]
        exact hscan q (List.mem_cons_of_mem _ hq)) hw₁
      (by rw [Provider.records_congr hforward.root hext hrest]; exact hdocs.2)
    have hall := hext.trans hext'
    have hkeys : ∀ q ∈ parts, q.keyIn ws₁.files = q.keyIn ws.files := fun q hq =>
      Part.keyIn_extends (hrest q hq) hext
    refine ⟨part.tasks d :: sets, p', ws', ?_, hforced, hoverlay, hall,
      .cons ⟨report, ws.world, d, ?_⟩ hsets, fun id hid => ?_, fun k hk hne => ?_⟩
    · rw [collectTasks, hcreated.create]
      dsimp only
      rw [hcollect]
    · have hrecord := Part.recordOf_extends hpart hall report ws.world
      have hkey := Part.keyIn_extends hpart hall
      constructor
      · rw [Part.asked_extends hpart hall]
        exact hreport
      · exact hw
      · rw [hrecord]
        exact hcreated.named.extends hext'
      · rw [hknown part.id fun q hq => (hother q hq).1.symm, hcreated.known, hkey]
        exact Std.TreeMap.getElem?_insert_self
      · rw [hrecord, hkey, hloads _ (part.slash_not_mem_keyIn ws.files) fun q hq => by
          rw [hkeys q hq]
          exact (hother q hq).2.symm]
        exact hstored
      · rfl
    · rw [hknown id fun q hq => hid q (List.mem_cons_of_mem _ hq), hcreated.known,
        Std.TreeMap.getElem?_insert, if_neg]
      simpa using (hid part List.mem_cons_self).symm
    · rw [hloads k hk fun q hq => by
        rw [hkeys q hq]
        exact hne q (List.mem_cons_of_mem _ hq)]
      exact hcreated.others k hk (hne part List.mem_cons_self)

/-! ### The second time -/

/-- `part` is the part whose tasks were `set`, possibly under other numbers. It is still known, and
either it reads files, which have not changed, or it reads none and its scan says what it said. -/
structure Recalled (t : FileTable) (docs : List FilePath) (bare : PartId → Prop) (p : Provider)
    (ws : Workspace W) (part : Part) (set : TaskSet) (old : Part) (d : Dependency) (r : Record) :
    Prop where
  alike : Part.Alike t ws.files old part
  named : d.Named t old.id r
  tasks : set = old.tasks d
  keeps : p.Keeps ws part r
  fresh : (r.statuses ≠ [] ∧ r.Current ws.world ∧
      ∀ s ∈ r.statuses, ∀ y ∈ docs, ¬ y.same s.path) ∨
    (r.statuses = [] ∧ bare part.id ∧ ∃ (report : ScanReport) (v : W),
      Workshop.answer ws.world (part.asked ws.files []) = .ok report ∧
      part.recordOf ws.files report v = r)

variable {t : FileTable} {docs : List FilePath} {bare : PartId → Prop} {p p' : Provider}
  {ws ws' : Workspace W} {part other : Part} {set : TaskSet} {old : Part} {d d' : Dependency}
  {r r' : Record} {more : List ScanRequest}

omit [LawfulWorkshop W] in
/-- Creating the dependency of another part leaves what is known of this one. -/
theorem Recalled.beside (h : Recalled t docs bare p ws part set old d r)
    (hc : Created p ws other r' more d' p' ws') (hext : ws'.files.Extends ws.files)
    (hspares : Spares docs ws.world ws'.world)
    (hne : part.id ≠ other.id ∧ part.keyIn ws.files ≠ other.keyIn ws.files) :
    Recalled t docs bare p' ws' part set old d r := by
  have hpart : part.Known ws.files := h.alike.known
  refine ⟨h.alike.extends hext, h.named, h.tasks, ⟨h.keeps.owner, ?_, ?_⟩, ?_⟩
  · rw [hc.forced]
    exact fun hmem => h.keeps.unforced (List.mem_filter.mp hmem).1
  · have hfound := h.keeps.found
    rw [hc.known, Std.TreeMap.getElem?_insert, if_neg (by simpa using hne.1.symm),
      Part.keyIn_extends hpart hext]
    cases hk : p.known[part.id]? with
    | none =>
      rw [hk] at hfound
      exact (hc.others _ (part.slash_not_mem_keyIn ws.files) hne.2).trans hfound
    | some k =>
      rw [hk] at hfound
      exact ⟨hfound.1, hfound.2.extends hext⟩
  · rcases h.fresh with ⟨hs, hcurrent, hbeside⟩ | ⟨hs, hbare, report, v, ha, hr⟩
    · refine Or.inl ⟨hs, fun s hmem => ?_, hbeside⟩
      rw [hspares.modified? (hbeside s hmem)]
      exact hcurrent s hmem
    · refine Or.inr ⟨hs, hbare, report, v, ?_, ?_⟩
      · rw [hspares.answer, Part.asked_extends hpart hext]
        exact ha
      · rw [Part.recordOf_extends hpart hext]
        exact hr

theorem Recalled.create (h : Recalled t docs bare p ws part set old d r) (hs : p.overlay = []) :
    ∃ d' p' ws' more, Created p ws part r more d' p' ws' ∧
      ∀ request ∈ more, request.part = part.id ∧ bare part.id := by
  have hpart : part.Known ws.files := h.alike.known
  rcases h.fresh with ⟨hne, hcurrent, _⟩ | ⟨hnil, hbare, report, v, ha, hr⟩
  · obtain ⟨d', p', ws', hcreated, _⟩ := h.keeps.create hpart hcurrent hne
    exact ⟨d', p', ws', [], hcreated, fun _ hmem => absurd hmem List.not_mem_nil⟩
  · have hsame : part.recordOf ws.files report ws.world = r := by
      rw [Part.recordOf_of_current (v := v), hr]
      exact fun s hs => absurd (hnil ▸ hr ▸ hs) List.not_mem_nil
    obtain ⟨d', p', ws', hcreated⟩ := h.keeps.create_bare hpart hnil (hs ▸ ha) hsame
    refine ⟨d', p', ws', _, hcreated, fun request hmem => ?_⟩
    obtain rfl := List.mem_singleton.mp hmem
    exact ⟨rfl, hbare⟩

/-- Known parts give tasks alike to those they gave before, and only parts that read no file are
scanned for that. -/
theorem collectTasks_again {parts : List Part} {sets : List TaskSet}
    (hk : ∀ part ∈ parts, part.Known ws.files) (hs : p.Sane ws.files)
    (ha : KeysApart ws.files parts) (hoverlay : p.overlay = [])
    (hdocs : p.records ws.files parts ⊆ docs)
    (h : List.Forall₂ (fun part set => ∃ old d r, Recalled t docs bare p ws part set old d r)
      parts sets) :
    ∃ sets' p' ws' more, collectTasks p ws parts = (.ok sets', p', ws') ∧
      ws'.files.Extends ws.files ∧ List.Forall₂ (TaskSet.Alike t ws'.files) sets sets' ∧
      Workshop.requests ws'.world = Workshop.requests ws.world ++ more ∧
      ∀ request ∈ more, ∃ part ∈ parts, request.part = part.id ∧ bare part.id := by
  induction parts generalizing p ws sets with
  | nil =>
    obtain rfl := List.forall₂_nil_left_iff.mp h
    exact ⟨[], p, ws, [], rfl, FileTable.Extends.refl _, .nil, (List.append_nil _).symm,
      fun _ hmem => absurd hmem List.not_mem_nil⟩
  | cons part parts ih =>
    obtain ⟨set, sets, ⟨old, d, r, hrecalled⟩, hrest, rfl⟩ := List.forall₂_cons_left_iff.mp h
    obtain ⟨hpart, hknown⟩ := List.forall_mem_cons.mp hk
    obtain ⟨htail, hother⟩ := ha.head
    obtain ⟨d', p₁, ws₁, more, hcreated, hmore⟩ := hrecalled.create hoverlay
    obtain ⟨_, hforward⟩ := hcreated.forward hpart hs
    have hext := hforward.files
    rw [Provider.records_cons hpart, List.append_subset] at hdocs
    have hrest₁ : List.Forall₂
        (fun part set => ∃ old d r, Recalled t docs bare p₁ ws₁ part set old d r) parts sets := by
      refine ((List.forall₂_and_left parts sets).mpr ⟨fun _ hq => hq, hrest⟩).imp ?_
      rintro q set ⟨hq, old, d, r, hq'⟩
      exact ⟨old, d, r, hq'.beside hcreated hext (hforward.spares.mono hdocs.1) (hother q hq)⟩
    obtain ⟨sets', p', ws', others, hcollect, hext', hsets, hrequests, hothers⟩ := ih
      (fun q hq => (hknown q hq).extends hext) (hforward.sane hs) (htail.extends hext hknown)
      (hcreated.overlay.trans hoverlay)
      (by rw [Provider.records_congr hforward.root hext hknown]; exact hdocs.2) hrest₁
    have htasks : TaskSet.Alike t ws'.files set (part.tasks d') := by
      rw [hrecalled.tasks]
      have hnamed := hcreated.named.extends hext'
      exact Part.tasks_alike (hrecalled.alike.extends (hext.trans hext'))
        (hrecalled.named.alike hnamed)
    refine ⟨part.tasks d' :: sets', p', ws', more ++ others, ?_, hext.trans hext',
      .cons htasks hsets, ?_, fun request hmem => ?_⟩
    · rw [collectTasks, hcreated.create]
      dsimp only
      rw [hcollect]
    · rw [hrequests, hcreated.requests, List.append_assoc]
    · rcases List.mem_append.mp hmem with hmem | hmem
      · exact ⟨part, List.mem_cons_self, hmore request hmem⟩
      · obtain ⟨q, hq, hrequest⟩ := hothers request hmem
        exact ⟨q, List.mem_cons_of_mem _ hq, hrequest⟩

end Pipeline
end PrecompiledHeaders
