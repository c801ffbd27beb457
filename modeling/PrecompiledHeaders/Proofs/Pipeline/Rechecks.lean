import PrecompiledHeaders.Proofs.Merger.Again
import PrecompiledHeaders.Proofs.Pipeline.Filing
import PrecompiledHeaders.Proofs.Trials
/-! Parts that are handed in again. A part whose scan says what it said before goes back to the tasks
it was in, and nobody else is touched, exactly if the extra arguments in force are those it was handed
in with. They are those of the parts that were added last, whichever parts that were. -/
namespace PrecompiledHeaders

/-! ### Tasks and arguments -/

namespace Split

theorem toolchain_foldl {β : Type} {f : Split → β → Split} {arguments : List String}
    (hf : ∀ s b, (∀ scope, (s.tasks.get scope).settings.toolchainArguments = arguments) →
      ∀ scope, ((f s b).tasks.get scope).settings.toolchainArguments = arguments)
    (bs : List β) {s : Split}
    (h : ∀ scope, (s.tasks.get scope).settings.toolchainArguments = arguments) (scope : Scope) :
    ((bs.foldl f s).tasks.get scope).settings.toolchainArguments = arguments := by
  induction bs generalizing s with
  | nil => exact h scope
  | cons b bs ih => exact ih (hf s b h)

theorem toolchain_modify {tasks : TaskSet} {arguments : List String}
    (h : ∀ scope, (tasks.get scope).settings.toolchainArguments = arguments) (scope : Scope)
    {f : Task → Task}
    (hf : ∀ t : Task, (f t).settings.toolchainArguments = t.settings.toolchainArguments)
    (scope' : Scope) :
    ((tasks.modify scope f).get scope').settings.toolchainArguments = arguments := by
  by_cases hs : scope = scope'
  · subst hs
    rw [PerScope.get_modify_self, hf]
    exact h scope
  · rw [PerScope.modify, PerScope.get_set_of_ne _ hs]
    exact h scope'

end Split

/-- Both tasks of a part have the part's own toolchain arguments. -/
theorem Part.toolchain_tasks (part : Part) (d : Dependency) (scope : Scope) :
    ((part.tasks d).get scope).settings.toolchainArguments = part.settings.toolchainArguments := by
  have hstart : ∀ scope, ((Split.start part).tasks.get scope).settings.toolchainArguments =
      part.settings.toolchainArguments := fun scope => by cases scope <;> rfl
  refine Split.toolchain_foldl (fun s m h => ?_) _
    (Split.toolchain_foldl (fun s e h => ?_) _ hstart) scope
  · rw [Split.addMacro]
    split
    · refine Split.toolchain_modify h _ fun t => ?_
      rw [Split.addUsed]
      split
      · rfl
      · dsimp only
        split <;> rfl
    · exact h
  · rw [Split.addInclude]
    split
    · exact h
    · cases e.role.scope? with
      | none => exact h
      | some scope =>
        refine Split.toolchain_modify h _ fun t => ?_
        rw [Split.addFile]
        split <;> rfl

theorem Part.members_extra (part : Part) (d : Dependency) (extra : List String) (s : Scope) :
    (Merger.withExtra extra ((part.tasks d).get s)).members = [part.id] :=
  (part.tasks_within d s).1

/-- The two say the same but for time stamps. -/
structure Dependency.Repeats (d d' : Dependency) : Prop where
  includes : d'.includes = d.includes
  usedMacros : d'.usedMacros = d.usedMacros
  sources : d'.sources = d.sources

theorem Dependency.Repeats.tasks {d d' : Dependency} (h : d.Repeats d') (part : Part) :
    part.tasks d' = part.tasks d := by
  rw [Part.tasks, Part.tasks, h.includes, h.usedMacros]

theorem Provider.nodup_affected (p : Provider) (ids : List FileId) : (p.affected ids).Nodup := by
  have hkeys : (p.known.toList.map (·.1)).Nodup :=
    List.pairwise_map.mpr (Std.TreeMap.distinct_keys_toList.imp
      fun {a b} hne (he : a.1 = b.1) => hne (he ▸ Std.ReflCmp.compare_self))
  exact hkeys.sublist (List.filter_sublist.map _)

theorem TextMap.getElem?_foldl_insert_of_mem {f : α → String} {g : α → β} {m : TextMap β}
    {as : List α} (h : (as.map f).Nodup) {a : α} (ha : a ∈ as) :
    (as.foldl (fun m a => m.insert (f a) (g a)) m)[f a]? = some (g a) := by
  induction as generalizing m with
  | nil => exact absurd ha List.not_mem_nil
  | cons b as ih =>
    rw [List.map_cons, List.nodup_cons] at h
    rw [List.foldl_cons]
    rcases List.mem_cons.mp ha with rfl | ha
    · have hkeep : ∀ (as : List α) (m : TextMap β), f a ∉ as.map f → m[f a]? = some (g a) →
          (as.foldl (fun m a => m.insert (f a) (g a)) m)[f a]? = some (g a) := by
        intro as
        induction as with
        | nil => exact fun _ _ hm => hm
        | cons c as ih =>
          intro m hnot hm
          rw [List.map_cons, List.mem_cons, not_or] at hnot
          refine ih _ hnot.2 ?_
          rw [Std.TreeMap.getElem?_insert,
            if_neg fun he => hnot.1 (Std.LawfulEqCmp.eq_of_compare he).symm]
          exact hm
      exact hkeep as _ h.1 Std.TreeMap.getElem?_insert_self
    · exact ih h.2 ha

namespace Pipeline

variable {W : Type} [World W] {p q : Pipeline W} {extras : PartId → List String} {event : Event}
  {ids : List PartId}

/-- The tasks of these parts, by what is known of them. -/
def tasksOf (p : Pipeline W) (parts : List Part) : List TaskSet :=
  parts.filterMap fun part => (p.provider.known[part.id]?).map fun k => part.tasks k.dependency

/-- The parts that the event has handed in again. -/
def handedIn (p : Pipeline W) (event : Event) : List Part :=
  (p.hits event).filterMap (p.parts[·]?)

/-- The dependencies of these parts say the same in `q` as in `p`. -/
def SaysAgain (p q : Pipeline W) (parts : List Part) : Prop :=
  ∀ part ∈ parts, ∀ k k', p.provider.known[part.id]? = some k →
    q.provider.known[part.id]? = some k' → k.dependency.Repeats k'.dependency

/-- The merged tasks of these parts have the part's own toolchain arguments and the extra ones that
are in force. -/
def Carries (p : Pipeline W) (parts : List Part) : Prop :=
  ∀ part ∈ parts, ∀ s, ∀ t ∈ p.merger.get s, part.id ∈ t.members →
    t.settings.toolchainArguments = part.settings.toolchainArguments ++ p.extra

/-! ### Handing in again -/

/-- From `p` to `q` these parts were handed in again, in one call of the merger. -/
structure HandsIn (p q : Pipeline W) (parts : List Part) : Prop where
  merger : q.merger = (p.merger.call (.merge (q.tasksOf parts) p.extra)).1
  queue : q.queue = p.queue.applyAll (p.merger.call (.merge (q.tasksOf parts) p.extra)).2
  registry : q.parts = p.parts

omit [World W] in
theorem tasksOf_eq {ks : List (Part × KnownDependency)} (h : (ks.map (·.1.id)).Nodup)
    {known : TextMap KnownDependency}
    (hq : q.provider.known = ks.foldl (fun m e => m.insert e.1.id e.2) known) :
    q.tasksOf (ks.map (·.1)) = ks.map fun e => e.1.tasks e.2.dependency := by
  have hone : ∀ e ∈ ks, q.provider.known[e.1.id]? = some e.2 := fun e he =>
    hq ▸ TextMap.getElem?_foldl_insert_of_mem h he
  rw [tasksOf, List.filterMap_map, ← List.filterMap_eq_map]
  exact List.filterMap_congr fun e he => by
    rw [Function.comp_apply, hone e he, Option.map_some, Function.comp_apply]

omit [World W] in
theorem mem_tasksOf {parts : List Part} {set : TaskSet} : set ∈ q.tasksOf parts ↔
    ∃ part ∈ parts, ∃ k, q.provider.known[part.id]? = some k ∧ part.tasks k.dependency = set := by
  simp only [tasksOf, List.mem_filterMap, Option.map_eq_some_iff]

omit [World W] in
theorem Coherent.nodup_handed (h : Coherent p) (hids : ids.Nodup) :
    ((ids.filterMap (p.parts[·]?)).map (·.id)).Nodup := by
  have hown : ∀ part ∈ ids.filterMap (p.parts[·]?), p.parts[part.id]? = some part :=
    fun part hpart => (h.registered_handed hpart).1
  refine List.Nodup.map_on (fun part hpart part' hpart' he => ?_)
    (hids.filterMap fun id id' part hid hid' => ?_)
  · rw [← Option.some_inj, ← hown part hpart, ← hown part' hpart', he]
  · rw [← (h.registered id part hid).1, ← (h.registered id' part hid').1]

/-- Registered parts are handed in again by one call of the merger, even if there are none. -/
theorem Coherent.handsIn (h : Coherent p) (hids : ids.Nodup) :
    HandsIn p (p.resubmit ids) (ids.filterMap (p.parts[·]?)) := by
  have hnodup := h.nodup_handed hids
  rw [Pipeline.resubmit]
  split
  · rename_i hnone
    rw [hnone]
    exact ⟨rfl, rfl, rfl⟩
  · have hk : ∀ part ∈ ids.filterMap (p.parts[·]?), part.Known p.workspace.files :=
      fun part hpart => (h.registered_handed hpart).2
    obtain ⟨_, _, _, hcollect, _⟩ := collectTasks_joins (p := p.provider) hk
    generalize ids.filterMap (p.parts[·]?) = parts at hnodup hcollect ⊢
    obtain ⟨_, _, hq⟩ := submit_of_ok hcollect
    obtain ⟨ks, rfl, rfl, hknown⟩ := collectTasks_known hcollect
    rw [List.map_map] at hnodup
    have hsets : (p.submit (ks.map (·.1))).tasksOf (ks.map (·.1)) =
        ks.map fun e => e.1.tasks e.2.dependency :=
      tasksOf_eq hnodup ((congrArg (·.provider.known) hq).trans hknown)
    constructor
    · rw [hsets, hq]
    · rw [hsets, hq]
    · rw [hq]

omit [World W] in
/-- A member's task has the member's arguments and the extra ones it was handed in with. -/
theorem Filed.toolchain (h : p.Filed extras) {s : Scope} {t : Task} (ht : t ∈ p.merger.get s)
    {part : Part} (hpart : p.parts[part.id]? = some part) (hmem : part.id ∈ t.members) :
    t.settings.toolchainArguments =
      part.settings.toolchainArguments ++ extras part.id := by
  obtain ⟨u, hu, hkey, _⟩ := (h s).owner ht hmem
  rw [filed, hpart, Option.bind_some, Option.map_eq_some_iff] at hu
  obtain ⟨k, _, rfl⟩ := hu
  have hsettings := congrArg (fun k : MergeKey => k.settings.toolchainArguments) hkey
  rw [← part.toolchain_tasks k.dependency s]
  exact hsettings

omit [World W] in
/-- What is known says the same, and the extra arguments are the same. -/
theorem Filed.repeats {parts : List Part} (hsame : p.SaysAgain q parts)
    (hparts : ∀ part ∈ parts, p.parts[part.id]? = some part ∧ part.id ∈ p.provider.known ∧
      extras part.id = p.extra) (s : Scope) :
    Merger.Repeats s (filed p.parts p.provider.known extras s) (q.tasksOf parts) p.extra := by
  intro u hu
  obtain ⟨set, hset, rfl⟩ := List.mem_map.mp hu
  obtain ⟨part, hpart, k', hk', rfl⟩ := mem_tasksOf.mp hset
  obtain ⟨hregistered, hknown, hextra⟩ := hparts part hpart
  obtain ⟨k, hk⟩ := Option.isSome_iff_exists.mp (Std.TreeMap.mem_iff_isSome_getElem?.mp hknown)
  rw [part.members_extra]
  refine ⟨List.cons_ne_nil _ _, List.nodup_singleton _, fun id hid => ?_⟩
  rw [List.mem_singleton.mp hid, filed, hregistered, Option.bind_some, hk, Option.map_some, hextra,
    (hsame part hpart k k' hk hk').tasks part]

/-- The queue is told nothing but to build the tasks of these parts. -/
def Retells (p q : Pipeline W) (parts : List Part) : Prop :=
  ∃ tasks : Scope → List Task,
    (p.merger.call (.merge (q.tasksOf parts) p.extra)).2 =
      Scope.all.flatMap (fun s => Merger.builds s (tasks s)) ∧
    ∀ s, Merger.KeysApart s (p.merger.get s) → (tasks s).Nodup ∧
      ∀ t, t ∈ tasks s ↔ t ∈ p.merger.get s ∧ ∃ part ∈ parts, part.id ∈ t.members

/-- Parts that say what they said before stay where they are if they carry the extra arguments that
are in force, and move otherwise. -/
theorem Coherent.resubmit_again (hc : Coherent p) (hf : p.Filed extras) (hids : ids.Nodup)
    (hsame : p.SaysAgain (p.resubmit ids) (ids.filterMap (p.parts[·]?))) :
    ((p.resubmit ids).merger = p.merger ↔ p.Carries (ids.filterMap (p.parts[·]?))) ∧
    (p.Carries (ids.filterMap (p.parts[·]?)) →
      Retells p (p.resubmit ids) (ids.filterMap (p.parts[·]?))) := by
  have hhands := hc.handsIn hids
  obtain ⟨hcoherent, _, _⟩ := hc.resubmit ids
  have hregistered : ∀ part ∈ ids.filterMap (p.parts[·]?), p.parts[part.id]? = some part :=
    fun part hpart => (hc.registered_handed hpart).1
  have hmem : ∀ part ∈ ids.filterMap (p.parts[·]?), part.id ∈ p.parts := fun part hpart =>
    Std.TreeMap.mem_iff_isSome_getElem?.mpr (by rw [hregistered part hpart]; rfl)
  have hfiled := hf.resubmit hc ids
  generalize ids.filterMap (p.parts[·]?) = parts at hhands hregistered hmem hfiled hsame ⊢
  generalize p.resubmit ids = q at hhands hcoherent hfiled hsame ⊢
  have hrepeats : p.Carries parts → ∀ s,
      Merger.Repeats s (filed p.parts p.provider.known extras s) (q.tasksOf parts) p.extra := by
    intro hcarries s
    refine Filed.repeats hsame (fun part hpart => ?_) s
    refine ⟨hregistered part hpart, (hc.known part.id).mpr (hmem part hpart), ?_⟩
    obtain ⟨t, ht, hpt⟩ := (hc.members .system part.id).mpr (hmem part hpart)
    exact List.append_cancel_left ((hf.toolchain ht (hregistered part hpart) hpt).symm.trans
      (hcarries part hpart .system t ht hpt))
  refine ⟨⟨fun hmerger part hpart s t ht hpt => ?_, fun hcarries => ?_⟩, fun hcarries => ?_⟩
  · rw [← hmerger] at ht
    have htoolchain := hfiled.toolchain ht (hhands.registry ▸ hregistered part hpart) hpt
    rwa [handed, if_pos (List.mem_map_of_mem hpart)] at htoolchain
  · rw [hhands.merger, Merger.merge_repeated hf (hrepeats hcarries)]
  · refine ⟨fun s => Merger.renewed s (p.merger.get s) (Merger.mergeAll s p.extra (q.tasksOf parts)
      (p.merger.get s) .none).2, ?_, fun s hapart => ?_⟩
    · rw [Merger.merge_repeated hf (hrepeats hcarries)]
    · obtain ⟨hnodup, hmem_iff⟩ := (hf s).renewed_again (hrepeats hcarries s) hapart
      refine ⟨hnodup, fun t => (hmem_iff t).trans (and_congr_right fun _ => ?_)⟩
      constructor
      · rintro ⟨u, hu, id, hid, hidt⟩
        obtain ⟨set, hset, rfl⟩ := List.mem_map.mp hu
        obtain ⟨part, hpart, k, _, rfl⟩ := mem_tasksOf.mp hset
        rw [part.members_extra, List.mem_singleton] at hid
        exact ⟨part, hpart, hid ▸ hidt⟩
      · rintro ⟨part, hpart, hpt⟩
        have hknown := (hcoherent.known part.id).mpr (hhands.registry ▸ hmem part hpart)
        obtain ⟨k, hk⟩ := Option.isSome_iff_exists.mp
          (Std.TreeMap.mem_iff_isSome_getElem?.mp hknown)
        refine ⟨_, List.mem_map_of_mem (mem_tasksOf.mpr ⟨part, hpart, k, hk, rfl⟩), part.id, ?_, hpt⟩
        rw [part.members_extra]
        exact List.mem_cons_self

/-- An event that finds nothing new, at any time. -/
theorem Handled.again (hhandled : Handled p event q) (horderly : Orderly p) (hfiled : p.Filed extras)
    (hrechecks : event.Rechecks) (hsame : p.SaysAgain q (p.handedIn event)) :
    q.coordinator = .running ∧ HandsIn p q (p.handedIn event) ∧
    (q.merger = p.merger ↔ p.Carries (p.handedIn event)) ∧
    (p.Carries (p.handedIn event) → p.Retells q (p.handedIn event)) := by
  obtain ⟨hlive, rest, _, hq⟩ := hhandled
  obtain ⟨provider, files, hknown, hfiles, hresubmit⟩ :=
    Pipeline.handle_rechecks { p with inbox := rest } hrechecks
  let p' : Pipeline W := { p with
    inbox := rest
    provider := provider
    workspace := { p.workspace with files := files } }
  have hresubmit' : q = p'.resubmit (p.hits event) := hq.trans hresubmit
  have hids : (p.hits event).Nodup := by
    cases event with
    | updateUnsaved | removeUnsaved | filesChanged => exact Provider.nodup_affected _ _
    | addParts | removeParts | taskFinished | shutdown => cases hrechecks
  have hcoherent : p'.Coherent := horderly.coherent.congr rfl hknown rfl hfiles
  have hsame' : p'.SaysAgain (p'.resubmit (p.hits event)) (p.handedIn event) := by
    intro part hpart k k' hk hk'
    refine hsame part hpart k k' (hknown ▸ hk) ?_
    rw [hresubmit']
    exact hk'
  obtain ⟨hmerger, hqueue, hregistry⟩ := hcoherent.handsIn hids
  obtain ⟨hstays, hretells⟩ :=
    hcoherent.resubmit_again (hfiled.congr rfl hknown rfl) hids hsame'
  rw [hresubmit']
  exact ⟨(hcoherent.resubmit _).2.1.trans hlive, ⟨hmerger, hqueue, hregistry⟩, hstays, hretells⟩

/-- What handing in again comes to, after any run. -/
theorem resubmission {workspace : Workspace W} {pchDir : FilePath} {records : RecordStore}
    {artifacts : ArtifactStore} {workers : List Scope} {exitWhenIdle watches : Bool}
    {os : List (Occurrence W)} (h : Throughout Supplies
      (start workspace pchDir records artifacts workers exitWhenIdle watches) os) :
    let p := (start workspace pchDir records artifacts workers exitWhenIdle watches).during os
    event.Rechecks → Handled p event q → p.SaysAgain q (p.handedIn event) →
      q.coordinator = .running ∧ HandsIn p q (p.handedIn event) ∧
      (q.merger = p.merger ↔ p.Carries (p.handedIn event)) ∧
      (p.Carries (p.handedIn event) → p.Retells q (p.handedIn event)) := by
  intro p hrechecks hhandled hsame
  obtain ⟨horderly, extras, hfiled⟩ := filed_during h
  exact hhandled.again horderly hfiled hrechecks hsame

/-! ### Two parts -/

theorem collectTasks_single {provider provider' : Provider} {ws ws' : Workspace W} {part : Part}
    {d : Dependency} (h : provider.create ws part = (.ok d, provider', ws')) :
    collectTasks provider ws [part] = (.ok [part.tasks d], provider', ws') := by
  rw [collectTasks, h]
  rfl

/-- A part that is submitted alone, where nothing is watched. -/
theorem submit_single (hwatch : p.watch = none) {part : Part} {d : Dependency} {provider : Provider}
    {ws : Workspace W} (h : p.provider.create p.workspace part = (.ok d, provider, ws)) :
    p.submit [part] = { p with
      provider := provider
      workspace := ws
      merger := (p.merger.call (.merge [part.tasks d] p.extra)).1
      queue := p.queue.applyAll (p.merger.call (.merge [part.tasks d] p.extra)).2 } := by
  rw [submit, collectTasks_single h]
  dsimp only
  rw [refreshWatch, hwatch]
  rfl

theorem handle_single (hwatch : p.watch = none) {part : Part} {d : Dependency} {provider : Provider}
    {ws : Workspace W} (h : p.provider.create p.workspace part = (.ok d, provider, ws))
    (extra : List String) : p.handle (.addParts [part] extra) = { p with
      parts := p.parts.insert part.id part
      extra := extra
      provider := provider
      workspace := ws
      merger := (p.merger.call (.merge [part.tasks d] extra)).1
      queue := p.queue.applyAll (p.merger.call (.merge [part.tasks d] extra)).2 } :=
  submit_single (p := { p with parts := p.parts.insert part.id part, extra := extra }) hwatch h

/-- An event that is sent to a coordinator without others is the next one. -/
theorem occur_deliver (hlive : p.coordinator = .running) (hinbox : p.inbox = [])
    (hq : p.handle event = q) (hrunning : q.coordinator = .running)
    (hstay : q.exitWhenIdle = false) :
    (p.occur (.send event)).occur (.step .coordinate) = q := by
  have hsent : p.occur (.send event) = { p with inbox := [event] } := by
    rw [occur, send_of_running hlive, hinbox]
    rfl
  have hback : ({ p with inbox := [] } : Pipeline W) = p := by
    rw [← hinbox]
  have hhandled : Handled { p with inbox := [event] } event q := by
    refine ⟨hlive, [], rfl, ?_⟩
    show q = Pipeline.handle { p with inbox := [] } event
    rw [hback, hq]
  rw [hsent, occur]
  exact hhandled.goes_on hrunning fun hleave => by
    rw [hstay] at hleave
    cases hleave.1

end Pipeline

section

variable {W : Type} [Workshop W] [LawfulWorkshop W] {part : Part} {d d' : Dependency}

theorem Dependency.Named.repeats {t u : FileTable} {r r' : Record} {id id' : PartId}
    (h : d.Named t id r) (h' : d'.Named u id' r') (hu : u.Extends t)
    (hincludes : r'.includes = r.includes) (hmacros : r'.usedMacros = r.usedMacros)
    (hsources : r'.sources = r.sources) : d.Repeats d' := by
  refine ⟨(h.extends hu).includes_eq h' hincludes, ?_, ?_⟩
  · rw [← h'.usedMacros, hmacros, h.usedMacros]
  · have hresolves := h'.sources
    rw [hsources] at hresolves
    exact FileTable.Resolves.inj hresolves (hu.resolves h.sources)

/-- A part whose scan is answered as it was before says what it said before. -/
theorem Provider.create_repeats {p : Provider} {ws : Workspace W} {report : ScanReport} {w : W}
    (hk : part.Known ws.files) (hs : p.Sane ws.files)
    (hknown : p.known[part.id]? = some ⟨part.keyIn ws.files, d⟩)
    (hnamed : d.Named ws.files part.id (part.recordOf ws.files report w))
    (hanswer : Workshop.answer ws.world (part.asked ws.files p.overlay) = .ok report) :
    ∃ d' p' ws', p.create ws part = (.ok d', p', ws') ∧ d.Repeats d' ∧
      p'.known = p.known.insert part.id ⟨part.keyIn ws.files, d'⟩ := by
  obtain ⟨d', p', ws', hcreate, hforward, hsettled, horigin⟩ := create_cases hk hs
  have hretrieve : p.retrieve ws part = (some d, ws.files) := retrieve_known hknown
  refine ⟨d', p', ws', hcreate, ?_, hsettled.known⟩
  cases horigin with
  | kept retrieve =>
    rw [retrieve] at hretrieve
    obtain rfl := Option.some.inj (congrArg Prod.fst hretrieve)
    exact ⟨rfl, rfl, rfl⟩
  | failed fault due answer =>
    rw [answer] at hanswer
    cases hanswer
  | scanned report' due answer named =>
    obtain rfl := Except.ok.inj (answer.symm.trans hanswer)
    exact hnamed.repeats named hforward.files rfl rfl rfl

end

namespace Pipeline

def courtyard : Pipeline WritingBench := trial (trialBench ["/a.h"] [("a", includeOnly "/a.h")] [])

/-- Two parts arrive one after the other, and the header that the first one includes changes. -/
def arrivals (extra later : List String) : List (Occurrence WritingBench) :=
  [.send (.addParts [plainPart "a"] extra), .step .coordinate,
    .send (.addParts [plainPart "b"] later), .step .coordinate, .send (.filesChanged [⟨"/a.h"⟩])]

theorem supplies_arrivals (extra later : List String) :
    Throughout Supplies courtyard (arrivals extra later) := by
  have hknown : ∀ id (files : FileTable), ∀ part ∈ [plainPart id], part.Known files :=
    fun id files part hpart => List.mem_singleton.mp hpart ▸ plainPart_known id files
  exact ⟨hknown "a" _, trivial, hknown "b" _, trivial, trivial, trivial⟩

/-- What is known when both parts are there. -/
structure Arrived (extra later : List String) (p : Pipeline WritingBench) (d e : Dependency) :
    Prop where
  live : p.coordinator = .running
  inbox : p.inbox = [.filesChanged [⟨"/a.h"⟩]]
  watch : p.watch = none
  inForce : p.extra = later
  parts : p.parts = (({} : TextMap Part).insert "a" (plainPart "a")).insert "b" (plainPart "b")
  first : p.provider.known["a"]? = some ⟨(plainPart "a").keyIn p.workspace.files, d⟩
  second : p.provider.known["b"]? = some ⟨(plainPart "b").keyIn p.workspace.files, e⟩
  others : ∀ id, id ≠ "a" → id ≠ "b" → p.provider.known[id]? = none
  sane : p.provider.Sane p.workspace.files
  reads : d.Named p.workspace.files "a"
    ((plainPart "a").recordOf p.workspace.files (includeOnly "/a.h") courtyard.workspace.world)
  idle : e.referencedFiles = []
  answer : Workshop.answer p.workspace.world = Workshop.answer courtyard.workspace.world
  filed : ∃ extras, p.Filed extras ∧ extras "a" = extra

theorem arrived (extra later : List String) :
    ∃ d e, Arrived extra later (courtyard.during (arrivals extra later)) d e := by
  let a := plainPart "a"
  let b := plainPart "b"
  -- both are collected for the first time
  obtain ⟨d, provider, ws, hcreate, hgathered⟩ :=
    @Provider.gather _ _ courtyard.provider courtyard.workspace a _ (plainPart_known "a" _)
      (Provider.sane_start _ _) rfl (includeOnly "/a.h") rfl
  have hsane : provider.Sane ws.files := hgathered.forward.sane (Provider.sane_start _ _)
  have hunknown : provider.known[b.id]? = none := by
    rw [hgathered.settled.known, Std.TreeMap.getElem?_insert, if_neg (by decide)]
    rfl
  have hkey : b.keyIn ws.files ≠ a.keyIn courtyard.workspace.files := by
    have hfiles : filesA.Extends courtyard.workspace.files := List.nil_prefix
    rw [Part.keyIn_extends (plainPart_known "b" courtyard.workspace.files) hgathered.forward.files,
      ← Part.keyIn_extends (plainPart_known "b" courtyard.workspace.files) hfiles]
    exact keyIn_ne (by decide) (by decide) (by decide) _ _
  have hload : provider.store.load ws.world (b.keyIn ws.files) = .ok none := by
    exact (hgathered.settled.others _ (slash_not_mem_digest _) hkey).trans rfl
  have hfresh : (provider.retrieve ws b).1 = none := by
    rw [Provider.retrieve, Provider.cached, hunknown, Provider.loadStored, hload]
  have hanswer : Workshop.answer ws.world (b.asked ws.files provider.overlay) = .ok default := by
    rw [hgathered.forward.spares.answer]
    rfl
  obtain ⟨e, provider', ws', hcreate', hgathered'⟩ :=
    Provider.gather (plainPart_known "b" ws.files) hsane hfresh hanswer
  obtain ⟨p₁, hp₁⟩ : ∃ p₁, courtyard.handle (.addParts [a] extra) = p₁ := ⟨_, rfl⟩
  have h₁ := hp₁.symm.trans (handle_single rfl hcreate extra)
  obtain ⟨p₂, hp₂⟩ : ∃ p₂, p₁.handle (.addParts [b] later) = p₂ := ⟨_, rfl⟩
  have h₂ := hp₂.symm.trans (handle_single (by rw [h₁]; rfl) (by rw [h₁]; exact hcreate') later)
  have hduring : courtyard.during (arrivals extra later) =
      { p₂ with inbox := [.filesChanged [⟨"/a.h"⟩]] } := by
    rw [during, arrivals, List.foldl_cons, List.foldl_cons,
      occur_deliver rfl rfl hp₁ (by rw [h₁]; rfl) (by rw [h₁]; rfl), List.foldl_cons,
      List.foldl_cons, occur_deliver (by rw [h₁]; rfl) (by rw [h₁]; rfl) hp₂ (by rw [h₂, h₁]; rfl)
      (by rw [h₂, h₁]; rfl), List.foldl_cons, List.foldl_nil, occur,
      send_of_running (by rw [h₂, h₁]; rfl), show p₂.inbox = [] by rw [h₂, h₁]; rfl]
    rfl
  have hone : ∀ id (files : FileTable), ∀ part ∈ [plainPart id], part.Known files :=
    fun id files part hpart => List.mem_singleton.mp hpart ▸ plainPart_known id files
  have hfiled : p₂.Filed (handed (handed (fun _ => []) ["a"] extra) ["b"] later) := by
    have hstart : courtyard.Filed fun _ => [] := filed_start _ _ _ _ _ _ _
    have hfirst := hstart.addParts (hone "a" _) extra
    rw [hp₁] at hfirst
    have hsecond := hfirst.addParts (hone "b" _) later
    rw [hp₂] at hsecond
    exact hsecond
  have hext := hgathered'.forward.files
  have hknown : p₂.provider.known = (courtyard.provider.known.insert "a"
      ⟨a.keyIn courtyard.workspace.files, d⟩).insert "b" ⟨b.keyIn ws.files, e⟩ := by
    rw [h₂]
    exact hgathered'.settled.known.trans (by rw [hgathered.settled.known]; rfl)
  have hworkspace : p₂.workspace = ws' := by rw [h₂]
  rw [hduring]
  refine ⟨d, e, by rw [h₂, h₁]; rfl, rfl, by rw [h₂, h₁]; rfl, by rw [h₂], by rw [h₂, h₁]; rfl,
    ?_, ?_, fun id ha hb => ?_, ?_, ?_, ?_, ?_, _, hfiled.congr rfl rfl rfl, by simp [handed]⟩
  · rw [hknown, Std.TreeMap.getElem?_insert, if_neg (by decide), Std.TreeMap.getElem?_insert_self,
      hworkspace, Part.keyIn_extends (plainPart_known "a" _) (hgathered.forward.files.trans hext)]
  · rw [hknown, Std.TreeMap.getElem?_insert_self, hworkspace,
      Part.keyIn_extends (plainPart_known "b" _) hext]
  · rw [hknown, Std.TreeMap.getElem?_insert,
      if_neg fun he => hb (Std.LawfulEqCmp.eq_of_compare he).symm, Std.TreeMap.getElem?_insert,
      if_neg fun he => ha (Std.LawfulEqCmp.eq_of_compare he).symm]
    rfl
  · rw [h₂]
    exact hgathered'.forward.sane hsane
  · rw [hworkspace, Part.recordOf_extends (plainPart_known "a" _)
      (hgathered.forward.files.trans hext)]
    exact hgathered.named.extends hext
  · have hnone : ((plainPart "b").recordOf ws.files default ws.world).includes = [] := by
      rw [Part.recordOf, Record.ofReport]
      show Record.includesOf _ ⟨[], []⟩ = []
      simp [Record.includesOf, Collection.inOrder, keepFirst]
    have hresolves := hgathered'.named.resolves
    rw [hnone] at hresolves
    exact List.forall₂_nil_right_iff.mp hresolves
  · rw [hworkspace]
    exact hgathered'.forward.spares.answer.trans hgathered.forward.spares.answer

/-- The header changes. -/
def headerChange : Event := .filesChanged [⟨"/a.h"⟩]

variable {extra later : List String} {p : Pipeline WritingBench} {d e : Dependency}

theorem Arrived.hits (h : Arrived extra later p d e) : p.hits headerChange = ["a"] := by
  have hall : ∀ id, id ∈ p.hitBy [⟨"/a.h"⟩] ↔ id ∈ ["a"] := by
    intro id
    rw [List.mem_singleton]
    by_cases ha : id = "a"
    · subst ha
      rw [mem_hitBy h.first]
      refine iff_of_true ⟨_, List.mem_singleton_self _, ?_⟩ rfl
      have htracks : (plainPart "a").Tracks p.workspace.files (includeOnly "/a.h") "/a.h" :=
        Or.inr ⟨⟨_, List.mem_singleton_self _, rfl⟩, List.not_mem_nil⟩
      exact h.reads.tracks.mp htracks
    · refine iff_of_false (fun hit => ?_) ha
      by_cases hb : id = "b"
      · subst hb
        obtain ⟨_, _, f, hf, _⟩ := (mem_hitBy h.second).mp hit
        rw [h.idle] at hf
        cases hf
      · exact Provider.not_mem_affected (h.others id ha hb) hit
  exact List.perm_singleton.mp ((List.perm_ext_iff_of_nodup (Provider.nodup_affected _ _)
    (List.nodup_singleton _)).mpr hall)

theorem Arrived.handedIn (h : Arrived extra later p d e) :
    p.handedIn headerChange = [plainPart "a"] := by
  have hpart : p.parts["a"]? = some (plainPart "a") := by
    rw [h.parts, Std.TreeMap.getElem?_insert, if_neg (by decide), Std.TreeMap.getElem?_insert_self]
  rw [Pipeline.handedIn, h.hits, List.filterMap_cons, hpart, List.filterMap_nil]

theorem Arrived.saysAgain (h : Arrived extra later p d e) :
    p.SaysAgain (Pipeline.handle { p with inbox := [] } headerChange) [plainPart "a"] := by
  intro part hpart k k' hk hk'
  obtain rfl := List.mem_singleton.mp hpart
  obtain rfl := Option.some.inj (h.first.symm.trans hk)
  let q : Pipeline WritingBench := Pipeline.mark { p with inbox := [] } ["a"]
  have hanswer : Workshop.answer q.workspace.world
      ((plainPart "a").asked q.workspace.files q.provider.overlay) = .ok (includeOnly "/a.h") := by
    show Workshop.answer p.workspace.world _ = _
    rw [h.answer]
    rfl
  obtain ⟨d', provider, ws, hcreate, hrepeats, hknown⟩ : ∃ d' provider ws,
      q.provider.create q.workspace (plainPart "a") = (.ok d', provider, ws) ∧ _ :=
    Provider.create_repeats (plainPart_known "a" _) h.sane h.first h.reads hanswer
  have hhandle : Pipeline.handle { p with inbox := [] } headerChange = q.submit [plainPart "a"] := by
    have hhits : Pipeline.hitBy { p with inbox := [] } [⟨"/a.h"⟩] = ["a"] := h.hits
    have hparts : ["a"].filterMap (q.parts[·]?) = [plainPart "a"] := by
      have hhanded := h.handedIn
      rwa [Pipeline.handedIn, h.hits] at hhanded
    rw [headerChange, handle_filesChanged, hhits, ← hparts]
    have hmem : plainPart "a" ∈ ["a"].filterMap (q.parts[·]?) := by
      rw [hparts]
      exact List.mem_cons_self
    exact resubmit_of_mem hmem
  rw [hhandle, submit_single (p := q) h.watch hcreate] at hk'
  dsimp only at hk'
  rw [hknown, Std.TreeMap.getElem?_insert_self] at hk'
  obtain rfl := Option.some.inj hk'
  exact hrepeats

/-- The first part is handed in again, and stays if both parts came with the same arguments. -/
theorem Arrived.again (h : Arrived extra later p d e) (hc : Coherent p) :
    ∃ q, Handled p headerChange q ∧ p.SaysAgain q (p.handedIn headerChange) ∧
      (p.Carries (p.handedIn headerChange) ↔ extra = later) := by
  refine ⟨_, ⟨h.live, [], h.inbox, rfl⟩, h.handedIn ▸ h.saysAgain, ?_⟩
  rw [h.handedIn]
  obtain ⟨extras, hfiled, rfl⟩ := h.filed
  have hpart : p.parts["a"]? = some (plainPart "a") := by
    rw [h.parts, Std.TreeMap.getElem?_insert, if_neg (by decide), Std.TreeMap.getElem?_insert_self]
  have htoolchain : ∀ s, ∀ t ∈ p.merger.get s, "a" ∈ t.members →
      t.settings.toolchainArguments = extras "a" := fun s t ht hmem =>
    @Filed.toolchain _ p extras hfiled s t ht (plainPart "a") hpart hmem
  constructor
  · intro hcarries
    obtain ⟨t, ht, hmem⟩ := (hc.members .system "a").mpr
      (Std.TreeMap.mem_iff_isSome_getElem?.mpr (by rw [hpart]; rfl))
    rw [← htoolchain .system t ht hmem, hcarries _ List.mem_cons_self .system t ht hmem, h.inForce]
    rfl
  · intro hsame part hin s t ht hmem
    obtain rfl := List.mem_singleton.mp hin
    rw [htoolchain s t ht hmem, hsame, h.inForce]
    rfl

/-- Where both parts come with the same arguments, nothing changes. -/
theorem resubmission_arrivals : ∃ q,
    Handled (courtyard.during (arrivals ["-DA"] ["-DA"])) headerChange q ∧
    q.merger = (courtyard.during (arrivals ["-DA"] ["-DA"])).merger := by
  have hsupplies := supplies_arrivals ["-DA"] ["-DA"]
  obtain ⟨horderly, _⟩ := filed_during hsupplies
  obtain ⟨d, e, h⟩ := arrived ["-DA"] ["-DA"]
  obtain ⟨q, hhandled, hsame, hcarries⟩ := h.again horderly.coherent
  have hrechecks : headerChange.Rechecks := trivial
  obtain ⟨_, _, hstays, _⟩ := resubmission hsupplies hrechecks hhandled hsame
  exact ⟨q, hhandled, hstays.mpr (hcarries.mpr rfl)⟩

/-- Where the second part comes with other arguments, the first one moves to them, although all that
is known of it stays as it was. -/
theorem arrivals_move : Throughout Supplies courtyard (arrivals ["-DA"] ["-DB"]) ∧
    let p := courtyard.during (arrivals ["-DA"] ["-DB"])
    ∃ q, Handled p headerChange q ∧ p.SaysAgain q (p.handedIn headerChange) ∧
      q.merger ≠ p.merger := by
  have hsupplies := supplies_arrivals ["-DA"] ["-DB"]
  obtain ⟨horderly, _, hfiled⟩ := filed_during hsupplies
  obtain ⟨d, e, h⟩ := arrived ["-DA"] ["-DB"]
  obtain ⟨q, hhandled, hsame, hcarries⟩ := h.again horderly.coherent
  obtain ⟨_, _, hstays, _⟩ := hhandled.again horderly hfiled trivial hsame
  exact ⟨hsupplies, q, hhandled, hsame, fun hmerger => absurd (hcarries.mp (hstays.mp hmerger))
    (by decide)⟩

end Pipeline
end PrecompiledHeaders
