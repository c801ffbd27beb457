import PrecompiledHeaders.Bench
import PrecompiledHeaders.Proofs.Pipeline.Runs
import PrecompiledHeaders.Proofs.Provider.Registry
/-! Coherence. The registry of parts, the provider and the merger each keep their own account of which
parts there are. Every event brings all three to the same parts, also where a scan fails, a part is
handed in twice, or a part is handed in again because one of its files changed. -/
namespace PrecompiledHeaders

namespace Merger

variable {ts : List Task} {scope : Scope}

/-- Tasks hold at least what they say themselves. -/
theorem Sound.reflects (h : Sound ts) : Reflects ts fun id => ts.find? (id ∈ ·.members) := by
  refine ⟨h, fun id u hu => ?_, fun t ht id hid => ?_⟩
  · exact ⟨u, List.mem_of_find?_eq_some hu, by simpa using List.find?_some hu, rfl,
      List.Subset.refl _⟩
  · exact List.find?_isSome.mpr ⟨t, ht, decide_eq_true hid⟩

theorem Reflects.member_iff {latest : PartId → Option Task} (h : Reflects ts latest) {id : PartId} :
    (∃ t ∈ ts, id ∈ t.members) ↔ (latest id).isSome := by
  constructor
  · rintro ⟨t, ht, hid⟩
    exact h.standing t ht id hid
  · intro hsome
    obtain ⟨u, hu⟩ := Option.isSome_iff_exists.mp hsome
    obtain ⟨t, ht, hid, _⟩ := h.placed id u hu
    exact ⟨t, ht, hid⟩

/-- Members of tasks that are handed in join, and nobody is lost. -/
theorem Sound.merge {m : Merger} (h : ∀ s, Sound (m.get s)) {sets : List TaskSet}
    {extra : List String} (hw : (MergerCall.merge sets extra).WellFormed) (s : Scope) :
    Sound ((m.call (.merge sets extra)).1.get s) ∧
    ∀ id, (∃ t ∈ (m.call (.merge sets extra)).1.get s, id ∈ t.members) ↔
      id ∈ sets.flatMap (fun set => (set.get s).members) ∨ ∃ t ∈ m.get s, id ∈ t.members := by
  let said : PartId → List (Option Task) := fun id => [(m.get s).find? (id ∈ ·.members)]
  have hbefore : Reflects (m.get s) fun id => (said id).getLast?.join := (h s).reflects
  have hafter : Reflects ((m.call (.merge sets extra)).1.get s) fun id =>
      (said id ++ (MergerCall.merge sets extra).mentions s id).getLast?.join := by
    rw [call_get]
    exact hbefore.mergeAll .none hw
  refine ⟨hafter.sound, fun id => ?_⟩
  rw [hafter.member_iff, hbefore.member_iff]
  by_cases hid : id ∈ sets.flatMap fun set => (set.get s).members
  · obtain ⟨set, hset, hmem⟩ := List.mem_flatMap.mp hid
    have hmentioned : some (withExtra extra (set.get s)) ∈
        (MergerCall.merge sets extra).mentions s id :=
      mem_mentions.mpr ⟨List.mem_map_of_mem hset, hmem⟩
    obtain ⟨said', hsaid'⟩ : ∃ u, ((MergerCall.merge sets extra).mentions s id).getLast? = some u :=
      ⟨_, List.getLast?_eq_some_getLast (List.ne_nil_of_mem hmentioned)⟩
    obtain ⟨u, _, rfl⟩ := List.mem_map.mp (List.mem_of_getLast? hsaid')
    rw [List.getLast?_append, hsaid']
    simp [hid]
  · have hnone : (MergerCall.merge sets extra).mentions s id = [] := by
      rw [MergerCall.mentions, List.map_eq_nil_iff, List.filter_eq_nil_iff]
      intro t ht hmem
      obtain ⟨set, hset, rfl⟩ := List.mem_map.mp ht
      exact hid (List.mem_flatMap.mpr ⟨set, hset, of_decide_eq_true hmem⟩)
    rw [hnone, List.append_nil]
    simp [hid]

theorem Sound.remove {m : Merger} (h : ∀ s, Sound (m.get s)) (ids : List PartId) (s : Scope) :
    Sound ((m.call (.remove ids)).1.get s) ∧
    ∀ id, (∃ t ∈ (m.call (.remove ids)).1.get s, id ∈ t.members) ↔
      id ∉ ids ∧ ∃ t ∈ m.get s, id ∈ t.members := by
  have hafter : Reflects ((m.call (.remove ids)).1.get s) fun id =>
      if id ∈ ids then none else (m.get s).find? (id ∈ ·.members) := by
    rw [call_get]
    simp only [callScope, detach_fst]
    exact (h s).reflects.remove ids
  refine ⟨hafter.sound, fun id => ?_⟩
  rw [hafter.member_iff, (h s).reflects.member_iff]
  by_cases hid : id ∈ ids <;> simp [hid]

/-- Whoever is a member of a task is a member of that task alone. -/
theorem Sound.only (h : Sound ts) {id : PartId} (hid : ∃ t ∈ ts, id ∈ t.members) :
    ∃ t, ts.filter (id ∈ ·.members) = [t] := by
  obtain ⟨t, ht, hmem⟩ := hid
  have hsame : ∀ u ∈ ts.filter (id ∈ ·.members), u = t := fun u hu =>
    h.disjoint u (List.mem_filter.mp hu).1 t ht id (of_decide_eq_true (List.mem_filter.mp hu).2) hmem
  have hnodup : (ts.filter (id ∈ ·.members)).Nodup := h.keys.of_map.filter _
  refine ⟨t, (List.perm_singleton.mp ((List.perm_ext_iff_of_nodup hnodup
    (List.nodup_singleton t)).mpr fun u => ?_))⟩
  rw [List.mem_singleton]
  constructor
  · exact hsame u
  · rintro rfl
    exact List.mem_filter.mpr ⟨ht, decide_eq_true hmem⟩

end Merger

/-- All files of the parts that are handed in have numbers. -/
def Event.Known (files : FileTable) : Event → Prop
  | .addParts parts _ => ∀ part ∈ parts, part.Known files
  | _ => True

theorem Event.Known.extends {t u : FileTable} {event : Event} (h : event.Known t)
    (hu : u.Extends t) : event.Known u := by
  cases event with
  | addParts parts extra => exact fun part hpart => (h part hpart).extends hu
  | removeParts | updateUnsaved | removeUnsaved | filesChanged | taskFinished | shutdown =>
    trivial

namespace Pipeline

variable {W : Type} {p p' : Pipeline W}

/-- The registry, the provider and the merger account for the same parts. -/
structure Coherent (p : Pipeline W) : Prop where
  registered : ∀ (id : PartId) (part : Part), p.parts[id]? = some part →
    part.id = id ∧ part.Known p.workspace.files
  known : ∀ id, id ∈ p.provider.known ↔ id ∈ p.parts
  sound : ∀ s, Merger.Sound (p.merger.get s)
  members : ∀ s id, (∃ t ∈ p.merger.get s, id ∈ t.members) ↔ id ∈ p.parts

/-- Parts that are looked up in the registry are registered under their own names. -/
theorem Coherent.registered_handed (h : Coherent p) {ids : List PartId} {part : Part}
    (hpart : part ∈ ids.filterMap (p.parts[·]?)) :
    p.parts[part.id]? = some part ∧ part.Known p.workspace.files := by
  obtain ⟨id, _, hid⟩ := List.mem_filterMap.mp hpart
  obtain ⟨rfl, hk⟩ := h.registered id part hid
  exact ⟨hid, hk⟩

theorem Coherent.congr (h : Coherent p) (hparts : p'.parts = p.parts)
    (hprovider : p'.provider.known = p.provider.known) (hmerger : p'.merger = p.merger)
    (hfiles : p'.workspace.files.Extends p.workspace.files) : Coherent p' := by
  refine ⟨fun id part hpart => ?_, fun id => ?_, fun s => ?_, fun s id => ?_⟩
  · rw [hparts] at hpart
    obtain ⟨hid, hk⟩ := h.registered id part hpart
    exact ⟨hid, hk.extends hfiles⟩
  · rw [hprovider, hparts]
    exact h.known id
  · rw [hmerger]
    exact h.sound s
  · rw [hmerger, hparts]
    exact h.members s id

variable [World W]

/-! ### Events -/

/-- Handing in parts with known files never fails, and they join the provider and the merger. -/
theorem submit_joins (hs : ∀ s, Merger.Sound (p.merger.get s)) {parts : List Part}
    (hk : ∀ part ∈ parts, part.Known p.workspace.files) :
    (p.submit parts).parts = p.parts ∧ (p.submit parts).coordinator = p.coordinator ∧
    (p.submit parts).workspace.files.Extends p.workspace.files ∧
    (∀ id, id ∈ (p.submit parts).provider.known ↔
      id ∈ parts.map (·.id) ∨ id ∈ p.provider.known) ∧
    ∀ s, Merger.Sound ((p.submit parts).merger.get s) ∧
      ∀ id, (∃ t ∈ (p.submit parts).merger.get s, id ∈ t.members) ↔
        id ∈ parts.map (·.id) ∨ ∃ t ∈ p.merger.get s, id ∈ t.members := by
  obtain ⟨sets, provider, ws, hcollect, hjoins, hmembers⟩ :=
    collectTasks_joins (p := p.provider) hk
  obtain ⟨watch, troubles, hq⟩ := submit_of_ok hcollect
  have hw : (MergerCall.merge sets p.extra).WellFormed := by
    intro s t ht
    obtain ⟨set, hset, rfl⟩ := List.mem_map.mp ht
    have hmem : (set.get s).members ∈ sets.map fun set => (set.get s).members :=
      List.mem_map_of_mem (f := fun set : TaskSet => (set.get s).members) hset
    rw [hmembers s] at hmem
    obtain ⟨part, _, hpart⟩ := List.mem_map.mp hmem
    show (set.get s).members ≠ [] ∧ (set.get s).members.Nodup
    rw [← hpart]
    exact ⟨List.cons_ne_nil _ _, List.nodup_singleton _⟩
  have hids : ∀ s, sets.flatMap (fun set => (set.get s).members) = parts.map (·.id) := fun s => by
    rw [List.flatMap_def, hmembers s, ← List.flatMap_def, ← List.map_eq_flatMap]
  rw [hq]
  refine ⟨rfl, rfl, hjoins.files, hjoins.known, fun s => ?_⟩
  have hmerge := Merger.Sound.merge hs hw s
  rw [hids s] at hmerge
  exact hmerge

/-- Parts that are handed in again are the parts that there were. -/
theorem Coherent.resubmit (h : Coherent p) (ids : List PartId) :
    Coherent (p.resubmit ids) ∧ (p.resubmit ids).coordinator = p.coordinator ∧
      (p.resubmit ids).workspace.files.Extends p.workspace.files := by
  rw [Pipeline.resubmit]
  split
  · exact ⟨h, rfl, FileTable.Extends.refl _⟩
  · have hregistered : ∀ part ∈ ids.filterMap (p.parts[·]?), part.id ∈ p.parts ∧
        part.Known p.workspace.files := fun part hpart => by
      obtain ⟨hid, hk⟩ := h.registered_handed hpart
      exact ⟨Std.TreeMap.mem_iff_isSome_getElem?.mpr (by rw [hid]; rfl), hk⟩
    generalize ids.filterMap (p.parts[·]?) = parts at hregistered ⊢
    obtain ⟨hparts, hcoordinator, hfiles, hknown, hmembers⟩ :=
      submit_joins h.sound fun part hpart => (hregistered part hpart).2
    have hold : ∀ id, id ∈ parts.map (·.id) ∨ id ∈ p.parts ↔ id ∈ p.parts := by
      intro id
      refine or_iff_right_of_imp fun hid => ?_
      obtain ⟨part, hpart, rfl⟩ := List.mem_map.mp hid
      exact (hregistered part hpart).1
    refine ⟨⟨fun id part hpart => ?_, fun id => ?_, fun s => (hmembers s).1, fun s id => ?_⟩,
      hcoordinator, hfiles⟩
    · rw [hparts] at hpart
      exact ⟨(h.registered id part hpart).1, (h.registered id part hpart).2.extends hfiles⟩
    · rw [hknown, h.known, hparts]
      exact hold id
    · rw [(hmembers s).2, h.members, hparts]
      exact hold id

/-- What an event leaves: the parts are coherent, files keep their numbers, and the coordinator does
not fail. -/
structure Continues (p q : Pipeline W) : Prop where
  coherent : Coherent q
  files : q.workspace.files.Extends p.workspace.files
  sound : ∀ f, q.coordinator = .failed f → p.coordinator = .failed f

theorem Coherent.addParts (h : Coherent p) {parts : List Part}
    (hk : ∀ part ∈ parts, part.Known p.workspace.files) (extra : List String) :
    Continues p (p.handle (.addParts parts extra)) := by
  let q : Pipeline W := { p with
    parts := parts.foldl (fun m (part : Part) => m.insert part.id part) p.parts
    extra := extra }
  obtain ⟨hparts, hcoordinator, hfiles, hknown, hmembers⟩ :=
    submit_joins (p := q) h.sound hk
  change Continues p (q.submit parts)
  have hin : ∀ id, id ∈ (q.submit parts).parts ↔ id ∈ parts.map (·.id) ∨ id ∈ p.parts := by
    intro id
    rw [hparts]
    exact TextMap.mem_foldl_insert
  refine ⟨⟨fun id part hpart => ?_, fun id => ?_, fun s => (hmembers s).1, fun s id => ?_⟩, hfiles,
    fun f hf => hcoordinator ▸ hf⟩
  · rw [hparts] at hpart
    rcases TextMap.getElem?_foldl_insert hpart with ⟨hmem, hid⟩ | hold
    · exact ⟨hid, (hk part hmem).extends hfiles⟩
    · exact ⟨(h.registered id part hold).1, (h.registered id part hold).2.extends hfiles⟩
  · rw [hknown, hin]
    exact or_congr_right (h.known id)
  · rw [(hmembers s).2, hin]
    exact or_congr_right (h.members s id)

theorem Coherent.removeParts (h : Coherent p) (ids : List PartId) :
    Continues p (p.handle (.removeParts ids)) := by
  obtain ⟨store, w, watch, troubles, heq⟩ := p.removeParts_eq ids
  rw [Pipeline.handle, heq]
  refine ⟨⟨fun id part hpart => ?_, fun id => ?_, fun s => ?_, fun s id => ?_⟩,
    FileTable.Extends.refl _, fun f => id⟩
  · have hkept := (TextMap.getElem?_foldl_erase ids p.parts id).symm.trans hpart
    split at hkept
    · cases hkept
    · exact h.registered id part hkept
  · show id ∈ (p.provider.removeParts ids).known ↔ id ∈ ids.foldl _ p.parts
    rw [Provider.mem_known_removeParts, TextMap.mem_foldl_erase, h.known]
  · exact (Merger.Sound.remove h.sound ids s).1
  · show (∃ t ∈ (p.merger.call (.remove ids)).1.get s, id ∈ t.members) ↔ id ∈ ids.foldl _ p.parts
    rw [(Merger.Sound.remove h.sound ids s).2, TextMap.mem_foldl_erase, h.members]

theorem Coherent.handle (h : Coherent p) {event : Event} (hk : event.Known p.workspace.files) :
    Continues p (p.handle event) := by
  have hagain : ∀ (q : Pipeline W) ids, Coherent q → q.coordinator = p.coordinator →
      q.workspace.files.Extends p.workspace.files → Continues p (q.resubmit ids) :=
    fun q ids hq hcoordinator hfiles => by
      obtain ⟨hcoherent, hsame, hmore⟩ := hq.resubmit ids
      exact ⟨hcoherent, hfiles.trans hmore, fun f hf => hcoordinator ▸ hsame ▸ hf⟩
  cases event with
  | addParts parts extra => exact h.addParts hk extra
  | removeParts ids => exact h.removeParts ids
  | updateUnsaved files =>
    have hfiles := p.workspace.files.internAll_extends (files.map (·.path.text))
    exact hagain _ _ (h.congr rfl rfl rfl hfiles) rfl hfiles
  | removeUnsaved paths =>
    have hfiles := p.workspace.files.internAll_extends (paths.map (·.text))
    exact hagain _ _ (h.congr rfl rfl rfl hfiles) rfl hfiles
  | filesChanged paths =>
    rw [Pipeline.handle]
    split
    · exact ⟨h, FileTable.Extends.refl _, fun f => id⟩
    · exact hagain _ _ (h.congr rfl rfl rfl (FileTable.Extends.refl _)) rfl (FileTable.Extends.refl _)
  | taskFinished scope notice =>
    exact ⟨h.congr rfl rfl rfl (FileTable.Extends.refl _), FileTable.Extends.refl _, fun f => id⟩
  | shutdown =>
    refine ⟨h.congr rfl rfl rfl (FileTable.Extends.refl _), FileTable.Extends.refl _,
      fun f hf => ?_⟩
    have hstopped : CoordinatorState.stopped = .failed f := hf
    cases hstopped

/-! ### Runs -/

/-- A run so far: the parts are coherent, whoever waits to be handed in has known files, and the
coordinator has not failed. -/
structure Orderly (p : Pipeline W) : Prop where
  coherent : Coherent p
  waiting : ∀ event ∈ p.inbox, event.Known p.workspace.files
  sound : ∀ f, p.coordinator ≠ .failed f

omit [World W] in
theorem Orderly.congr (h : Orderly p) (hparts : p'.parts = p.parts)
    (hprovider : p'.provider = p.provider) (hmerger : p'.merger = p.merger)
    (hfiles : p'.workspace.files.Extends p.workspace.files)
    (hinbox : ∀ event ∈ p'.inbox, event ∈ p.inbox ∨ event.Known p.workspace.files)
    (hsound : ∀ f, p'.coordinator = .failed f → p.coordinator = .failed f) : Orderly p' := by
  refine ⟨h.coherent.congr hparts (congrArg Provider.known hprovider) hmerger hfiles,
    fun event he => ?_, fun f hf => h.sound f (hsound f hf)⟩
  rcases hinbox event he with hold | hnew
  · exact (h.waiting event hold).extends hfiles
  · exact hnew.extends hfiles

theorem Orderly.coordinate (h : Orderly p) : Orderly (p.step .coordinate) := by
  by_cases hturn : p.coordinator = .running ∧ p.inbox ≠ []
  · obtain ⟨event, q, hhandled⟩ := exists_handled hturn
    obtain ⟨_, rest, hin, hq⟩ := id hhandled
    have hrest : ∀ e ∈ rest, e ∈ p.inbox := fun e he => hin ▸ List.mem_cons_of_mem _ he
    have hwaits : event ∈ p.inbox := hin ▸ List.mem_cons_self
    have hbefore : Coherent { p with inbox := rest } :=
      h.coherent.congr rfl rfl rfl (FileTable.Extends.refl _)
    obtain ⟨hcoherent, hfiles, hsound⟩ : Continues { p with inbox := rest } q :=
      hq ▸ hbefore.handle (h.waiting event hwaits)
    have hinbox : q.inbox = rest := hq ▸ inbox_handle _ event
    rcases hhandled.step with ⟨heq, _⟩ | ⟨heq, _⟩ | ⟨_, f, hf⟩
    · rw [heq]
      exact ⟨hcoherent, fun e he => (h.waiting e (hrest e (hinbox ▸ he))).extends hfiles,
        fun f hf => h.sound f (hsound f hf)⟩
    · rw [heq]
      refine ⟨hcoherent.congr rfl rfl rfl (FileTable.Extends.refl _),
        fun e he => absurd he List.not_mem_nil, fun f hf => ?_⟩
      have hstopped : CoordinatorState.stopped = .failed f := hf
      cases hstopped
    · exact absurd (hsound f hf) (h.sound f)
  · rw [step_coordinate_of_not hturn]
    exact h

/-- Nobody hands in parts whose files have no numbers. -/
def Supplies (p : Pipeline W) : Occurrence W → Prop
  | .send event => event.Known p.workspace.files
  | _ => True

theorem Orderly.occur (h : Orderly p) {o : Occurrence W} (hs : Supplies p o) :
    Orderly (p.occur o) := by
  cases o with
  | step s =>
    cases s with
    | coordinate => exact h.coordinate
    | work i waits permitted =>
      rw [Pipeline.occur, step]
      cases hw : p.work i waits permitted with
      | none => exact h
      | some q =>
        have hworks := works_of_work hw
        obtain ⟨hparts, hprovider, hmerger, hfiles, hcoordinator⟩ := hworks.keeps
        refine h.congr hparts hprovider hmerger (hfiles ▸ FileTable.Extends.refl _)
          (fun event he => (hworks.inbox he).imp_right ?_) fun f hf => hcoordinator ▸ hf
        rintro ⟨scope, notice, rfl⟩
        trivial
  | send event =>
    rw [Pipeline.occur]
    by_cases hlive : p.coordinator = .running
    · rw [send_of_running hlive]
      refine h.congr rfl rfl rfl (FileTable.Extends.refl _) (fun e he => ?_) fun f => id
      refine (List.mem_append.mp he).imp_right fun he => ?_
      obtain rfl := List.mem_singleton.mp he
      exact hs
    · rw [send_of_not_running hlive]
      exact h
  | change w =>
    exact h.congr rfl rfl rfl (FileTable.Extends.refl _) (fun e => Or.inl) fun f => id
  | number paths =>
    exact h.congr rfl rfl rfl (p.workspace.files.internAll_extends paths) (fun e => Or.inl)
      fun f => id
  | close => exact h.congr rfl rfl rfl (FileTable.Extends.refl _) (fun e => Or.inl) fun f => id

omit [World W] in
/-- Before the first event there are no parts. -/
theorem orderly_start (workspace : Workspace W) (pchDir : FilePath) (records : RecordStore)
    (artifacts : ArtifactStore) (workers : List Scope) (exitWhenIdle watches : Bool) :
    Orderly (start workspace pchDir records artifacts workers exitWhenIdle watches) := by
  have hnone : ∀ s t, t ∉ (Merger.empty.get s) := fun s t ht => by
    cases s <;> exact absurd ht List.not_mem_nil
  refine ⟨⟨fun id part hpart => ?_, fun id => Iff.rfl, fun s => ⟨?_, fun t ht => ?_, fun t ht => ?_,
    fun t ht => ?_⟩, fun s id => ⟨fun ⟨t, ht, _⟩ => ?_, fun hid => ?_⟩⟩, fun event he => ?_,
    fun f hf => ?_⟩
  · have hempty : (none : Option Part) = some part := hpart
    cases hempty
  · cases s <;> exact List.nodup_nil
  · exact absurd ht (hnone s t)
  · exact absurd ht (hnone s t)
  · exact absurd ht (hnone s t)
  · exact absurd ht (hnone s t)
  · exact absurd hid Std.TreeMap.not_mem_emptyc
  · exact absurd he List.not_mem_nil
  · have hrunning : CoordinatorState.running = .failed f := hf
    cases hrunning

/-- Everybody knows the same parts, and each is in one task of each scope. -/
structure Coherence (p : Pipeline W) : Prop where
  known : ∀ id, id ∈ p.provider.known ↔ id ∈ p.parts
  members : ∀ s id, (∃ t ∈ p.merger.get s, id ∈ t.members) ↔ id ∈ p.parts
  single : ∀ s, ∀ id ∈ p.parts, ∃ t, (p.merger.get s).filter (id ∈ ·.members) = [t]
  live : ∀ f, p.coordinator ≠ .failed f

/-- Whatever is sent to the coordinator, and whatever else happens, as long as all files of the parts
that are handed in have numbers. -/
theorem coherence (workspace : Workspace W) (pchDir : FilePath) (records : RecordStore)
    (artifacts : ArtifactStore) (workers : List Scope) (exitWhenIdle watches : Bool)
    (os : List (Occurrence W))
    (h : Throughout Supplies
      (start workspace pchDir records artifacts workers exitWhenIdle watches) os) :
    Coherence
      ((start workspace pchDir records artifacts workers exitWhenIdle watches).during os) := by
  obtain ⟨hcoherent, _, hsound⟩ := during_induction (motive := Orderly)
    (fun q o hq hs => hq.occur hs)
    (orderly_start workspace pchDir records artifacts workers exitWhenIdle watches) h
  exact ⟨hcoherent.known, hcoherent.members,
    fun s id hid => (hcoherent.sound s).only ((hcoherent.members s id).mpr hid), hsound⟩

/-- One part is handed in twice at once and cannot be scanned, and later its only file changes. -/
theorem coherence_unscannable :
    let part : Part := ⟨"a", .default, [⟨0⟩], []⟩
    let o : Pipeline Bench := .start ⟨Bench.empty.failScans "a", .empty⟩ ⟨"/p"⟩ (.memory {})
      (.memory .empty) [.system, .project] false true
    let os : List (Occurrence Bench) :=
      [.number ["/a.h"], .send (.addParts [part, part] []), .send (.removeParts ["b"]),
        .step .coordinate, .step .coordinate, .step (.work 0 false false),
        .send (.filesChanged [⟨"/a.h"⟩]), .send (.taskFinished .system none), .step .coordinate,
        .step .coordinate]
    Throughout Supplies o os ∧ Coherence (o.during os) := by
  intro part o os
  have hknown : part.Known (o.occur (.number ["/a.h"])).workspace.files := by
    refine ⟨fun id hid => ⟨"/a.h", ?_⟩, fun id hid => absurd hid List.not_mem_nil⟩
    obtain rfl := List.mem_singleton.mp hid
    rfl
  have hsupplies : Throughout Supplies o os :=
    ⟨trivial, fun q hq => (List.mem_pair.mp hq).elim (· ▸ hknown) (· ▸ hknown), trivial, trivial,
      trivial, trivial, trivial, trivial, trivial, trivial, trivial⟩
  exact ⟨hsupplies, coherence _ _ _ _ _ _ _ os hsupplies⟩

end Pipeline
end PrecompiledHeaders
